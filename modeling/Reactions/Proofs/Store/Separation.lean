import Reactions.Proofs.Store.Alone

/-!
# Programs that keep to one side of the store

The rows of a store fall into two parts that no unit of work mixes: the members and roots of feeds
on one side, and the tallies, the ledger and the audit log on the other. A program that keeps to one
side (`Program.On`) gets the same answers whatever happens on the other, and if it runs alone on its
side then none of its commits fails: what it has read has not moved. So what is left of a program
comes to the same before and after a step of a process on the other side
(`UnitOfWork.Within.runIn_untouched`), as it does before and after a step of its own
(`Process.runIn_step`).
-/

namespace Reactions

/-- The two parts of a store. -/
inductive Side
  | members
  | ledger
deriving DecidableEq

/-- The part that a key belongs to. -/
def RowKey.side : RowKey → Side
  | .commitments _ | .roots _ => .members
  | .tally _ | .nullifier _ => .ledger

/-- The part that a question is about. -/
def Query.side : Query → Side
  | .commitments _ | .contains _ _ | .recentRoots _ _ => .members
  | .tally _ | .tallies _ _ | .nullifier _ | .transactions _ => .ledger

/-- The part that a call is about. -/
def Call.side : Call → Side
  | .read q => q.side
  | .save write => write.key.side
  | .append _ => .ledger

/-! ## Programs on one side -/

namespace Program

variable {α β : Type} {side : Side}

/-- All calls of a program are about one part of the store. -/
def On (side : Side) : Program α → Prop
  | .done _ => True
  | .begin _ next => next.On side
  | .call c next => c.side = side ∧ ∀ answer, (next answer).On side
  | .commit next => ∀ outcome, (next outcome).On side
  | .wait _ next => next.On side

/-- A program opens a unit of work before it makes a call. -/
def Opens : Program α → Prop
  | .done _ => True
  | .begin _ _ => True
  | .call _ _ => False
  | .commit _ => False
  | .wait _ next => next.Opens

/-- Work that goes on with work on the same side stays on that side. -/
theorem on_bind {p : Program α} {f : α → Program β} (hp : p.On side)
    (hf : ∀ a, (f a).On side) : (p >>= f).On side := by
  change (p.bind f).On side
  induction p with
  | done a => exact hf a
  | begin isolation next ih => exact ih hp
  | call c next ih => exact ⟨hp.1, fun answer => ih answer (hp.2 answer)⟩
  | commit next ih => exact fun outcome => ih outcome (hp outcome)
  | wait ms next ih => exact ih hp

/-- Work that opens a unit or ends at once may go on with other such work. -/
theorem opens_bind {p : Program α} {f : α → Program β} (hp : p.Opens) (hf : ∀ a, (f a).Opens) :
    (p >>= f).Opens := by
  change (p.bind f).Opens
  induction p with
  | done a => exact hf a
  | begin isolation next ih => trivial
  | call c next ih => exact hp
  | commit next ih => exact hp
  | wait ms next ih => exact ih hp

/-- A program that opens a unit of work first does not depend on the one that is open before. -/
theorem Opens.runIn_eq_run {p : Program α} (hp : p.Opens) (u : UnitOfWork) (s : Store) :
    p.runIn u s = p.run s := by
  rw [run]
  induction p with
  | done a => rfl
  | begin isolation next ih => rfl
  | call c next ih => exact hp.elim
  | commit next ih => exact hp.elim
  | wait ms next ih => exact ih hp

/-- Two programs in turn, the second of which opens a unit of work of its own. -/
theorem runIn_bind (p : Program α) {f : α → Program β} (hf : ∀ a, (f a).Opens) (u : UnitOfWork)
    (s : Store) :
    (p >>= f).runIn u s = (f (p.runIn u s).1).run (p.runIn u s).2 := by
  rw [runIn_eq, finish_bind, runIn_eq p, ← (hf _).runIn_eq_run (p.finish u s).2.1, runIn_eq]

/-- A program runs before the one that it goes on with, if that opens a unit of its own. -/
theorem run_bind (p : Program α) {f : α → Program β} (hf : ∀ a, (f a).Opens) (s : Store) :
    (p >>= f).run s = (f (p.run s).1).run (p.run s).2 :=
  runIn_bind p hf default s

/-- A program whose result is turned into another. -/
theorem run_bind_pure (p : Program α) (f : α → β) (s : Store) :
    (p >>= fun a => pure (f a)).run s = (f (p.run s).1, (p.run s).2) := by
  have hopens (a : α) : (pure (f a) : Program β).Opens := trivial
  rw [run_bind p hopens]
  rfl

end Program

namespace Work

variable {ε ε' α β : Type} {side : Side}

theorem on_pure (a : α) : (pure a : Work ε α).run.On side := trivial

theorem on_liftExcept (outcome : Except ε α) : (liftExcept outcome : Work ε α).run.On side := by
  cases outcome <;> trivial

theorem on_begin (isolation : Isolation) : (begin isolation : Work ε Unit).run.On side := trivial

/-- A question concerns its own side. -/
theorem on_read (q : Query) (h : q.side = side) : (read q : Work ε q.Answer).run.On side :=
  ⟨h, fun _ => trivial⟩

/-- Fallible work that goes on with work on the same side stays on that side. -/
theorem on_bind {w : Work ε α} {f : α → Work ε β} (hw : w.run.On side)
    (hf : ∀ a, (f a).run.On side) : (w >>= f).run.On side := by
  refine Program.on_bind hw fun outcome => ?_
  cases outcome with
  | ok a => exact hf a
  | error e => trivial

/-- Rewording a failure concerns neither side. -/
theorem on_adapt (f : ε → ε') {w : Work ε α} (hw : w.run.On side) :
    (ExceptT.adapt f w).run.On side :=
  Program.on_bind hw fun _ => trivial

theorem opens_liftExcept (outcome : Except ε α) : (liftExcept outcome : Work ε α).run.Opens := by
  cases outcome <;> trivial

/-- Fallible work that opens a unit or ends at once may go on with other such work. -/
theorem opens_bind {w : Work ε α} {f : α → Work ε β} (hw : w.run.Opens)
    (hf : ∀ a, (f a).run.Opens) : (w >>= f).run.Opens := by
  refine Program.opens_bind hw fun outcome => ?_
  cases outcome with
  | ok a => exact hf a
  | error e => trivial

theorem opens_adapt (f : ε → ε') {w : Work ε α} (hw : w.run.Opens) :
    (ExceptT.adapt f w).run.Opens :=
  Program.opens_bind hw fun _ => trivial

variable [StoreFailure ε]

/-- A write concerns the side of its key. -/
theorem on_save (write : Write) (h : write.key.side = side) :
    (save write : Work ε Unit).run.On side := ⟨h, fun _ => trivial⟩

/-- The audit log is on the ledger's side. -/
theorem on_append (row : AuditRow) : (append row : Work ε AuditRow).run.On .ledger :=
  ⟨rfl, fun _ => trivial⟩

/-- A commit publishes what is on either side. -/
theorem on_commit : (commit : Work ε Unit).run.On side := fun _ => trivial

/-- Work that is tried again stays on its side. -/
theorem on_retried (policy : RetryPolicy) {op : Nat → Work ε α}
    (h : ∀ attempt, (op attempt).run.On side) : (retried policy op).run.On side := by
  change Program.On side (retryFrom _ policy _ _ _)
  generalize policy.attempts - 1 = retries
  generalize 1 = attempt
  induction retries generalizing attempt with
  | zero =>
    refine Program.on_bind (h attempt) fun outcome => ?_
    cases outcome <;> trivial
  | succ retries ih =>
    refine Program.on_bind (h attempt) fun outcome => ?_
    cases outcome with
    | ok a => trivial
    | error e =>
      dsimp only
      split
      · exact ih (attempt + 1)
      · trivial

/-- Each attempt opens a unit of its own. -/
theorem opens_retried (policy : RetryPolicy) {op : Nat → Work ε α}
    (h : ∀ attempt, (op attempt).run.Opens) : (retried policy op).run.Opens := by
  change Program.Opens (retryFrom _ policy _ _ _)
  generalize policy.attempts - 1 = retries
  generalize 1 = attempt
  induction retries generalizing attempt with
  | zero =>
    refine Program.opens_bind (h attempt) fun outcome => ?_
    cases outcome <;> trivial
  | succ retries ih =>
    refine Program.opens_bind (h attempt) fun outcome => ?_
    cases outcome with
    | ok a => trivial
    | error e =>
      dsimp only
      split
      · exact ih (attempt + 1)
      · trivial

end Work

/-! ## Stores that are the same on one side -/

namespace Store

/-- Two stores have the same rows on one side. -/
def SameOn (s t : Store) : Side → Prop
  | .members => s.commitments = t.commitments ∧ s.roots = t.roots
  | .ledger => s.tallies = t.tallies ∧ s.nullifiers = t.nullifiers ∧
      s.transactions = t.transactions ∧ s.lastTransactionId = t.lastTransactionId

variable {s t s' : Store} {side : Side}

theorem SameOn.refl (s : Store) (side : Side) : s.SameOn s side := by
  cases side with
  | members => exact ⟨rfl, rfl⟩
  | ledger => exact ⟨rfl, rfl, rfl, rfl⟩

theorem SameOn.symm (h : s.SameOn t side) : t.SameOn s side := by
  cases side with
  | members => exact ⟨h.1.symm, h.2.symm⟩
  | ledger => exact ⟨h.1.symm, h.2.1.symm, h.2.2.1.symm, h.2.2.2.symm⟩

theorem SameOn.trans (h : s.SameOn t side) (h' : t.SameOn s' side) : s.SameOn s' side := by
  cases side with
  | members => exact ⟨h.1.trans h'.1, h.2.trans h'.2⟩
  | ledger =>
    exact ⟨h.1.trans h'.1, h.2.1.trans h'.2.1, h.2.2.1.trans h'.2.2.1, h.2.2.2.trans h'.2.2.2⟩

/-- The same writes on stores that are the same on one side. -/
theorem SameOn.foldr_apply (h : s.SameOn t side) (stamp stamp' : Nat) (writes : List Write) :
    (writes.foldr (apply stamp) s).SameOn (writes.foldr (apply stamp') t) side := by
  induction writes with
  | nil => exact h
  | cons write rest ih =>
    rw [List.foldr_cons, List.foldr_cons]
    generalize rest.foldr (apply stamp) s = s at ih ⊢
    generalize rest.foldr (apply stamp') t = t at ih ⊢
    cases side with
    | members =>
      cases write with
      | commitment row => exact ⟨congrArg (row :: ·) ih.1, ih.2⟩
      | root row => exact ⟨ih.1, congrArg (row :: ·) ih.2⟩
      | tally row => exact ih
      | nullifier row => exact ih
    | ledger =>
      cases write with
      | commitment row => exact ih
      | root row => exact ih
      | tally row => exact ⟨congrArg (·.save row) ih.1, ih.2⟩
      | nullifier row => exact ⟨ih.1, congrArg (·.save row) ih.2.1, ih.2.2⟩

/-- The same writes, and the same audit rows, published on stores that are the same on one side. -/
theorem SameOn.publish (h : s.SameOn t side) {u v : UnitOfWork} (hwrites : u.writes = v.writes)
    (haudit : u.audit = v.audit) : (s.publish u).SameOn (t.publish v) side := by
  have hclock : SameOn { s with clock := s.clock + 1 } { t with clock := t.clock + 1 } side := by
    cases side <;> exact h
  have hwritten := hclock.foldr_apply (s.clock + 1) (t.clock + 1) u.writes
  rw [Store.publish, Store.publish, ← hwrites, ← haudit]
  cases side with
  | members => exact hwritten
  | ledger =>
    exact ⟨hwritten.1, hwritten.2.1, congrArg (u.audit ++ ·) hwritten.2.2.1, hwritten.2.2.2⟩

/-- Nothing happens on one side: its rows stay, and no version of it changes. -/
structure Untouched (s t : Store) (side : Side) : Prop where
  rows : s.SameOn t side
  version : ∀ key : RowKey, key.side = side → t.version key = s.version key
  failures : t.failures = s.failures

theorem Untouched.refl (s : Store) (side : Side) : s.Untouched s side :=
  ⟨.refl s side, fun _ _ => rfl, rfl⟩

/-- Writes on the other side. -/
theorem sameOn_foldr_apply (s : Store) (stamp : Nat) {writes : List Write}
    (h : ∀ write ∈ writes, write.key.side ≠ side) :
    s.SameOn (writes.foldr (apply stamp) s) side := by
  induction writes with
  | nil => exact .refl s side
  | cons write rest ih =>
    rw [List.forall_mem_cons] at h
    refine (ih h.2).trans ?_
    rw [List.foldr_cons]
    generalize rest.foldr (apply stamp) s = s
    cases side with
    | members =>
      cases write with
      | commitment row => exact absurd rfl h.1
      | root row => exact absurd rfl h.1
      | tally row => exact ⟨rfl, rfl⟩
      | nullifier row => exact ⟨rfl, rfl⟩
    | ledger =>
      cases write with
      | commitment row => exact ⟨rfl, rfl, rfl, rfl⟩
      | root row => exact ⟨rfl, rfl, rfl, rfl⟩
      | tally row => exact absurd rfl h.1
      | nullifier row => exact absurd rfl h.1

/-- A commit on the other side. -/
theorem untouched_publish (s : Store) {u : UnitOfWork}
    (hwrites : ∀ write ∈ u.writes, write.key.side ≠ side)
    (haudit : side = .ledger → u.audit = []) : s.Untouched (s.publish u) side where
  rows := by
    have hclock : s.SameOn { s with clock := s.clock + 1 } side := by
      cases side with
      | members => exact ⟨rfl, rfl⟩
      | ledger => exact ⟨rfl, rfl, rfl, rfl⟩
    have hwritten := hclock.trans (sameOn_foldr_apply _ (s.clock + 1) hwrites)
    cases side with
    | members => exact hwritten
    | ledger =>
      refine ⟨hwritten.1, hwritten.2.1, ?_, hwritten.2.2.2⟩
      rw [publish, haudit rfl]
      exact hwritten.2.2.1
  version := fun key hkey => by
    rw [version_publish, if_neg]
    rintro hmem
    obtain ⟨write, hwrite, rfl⟩ := List.mem_map.1 hmem
    exact hwrites write hwrite hkey
  failures := failures_publish s u

end Store

/-! ## Units of work on one side -/

namespace UnitOfWork

variable {s t : Store} {u v : UnitOfWork} {side : Side}

/-- What a question has to see unchanged is on the question's side. -/
theorem side_of_mem_touched {q : Query} {key : RowKey} (h : key ∈ u.touched q) :
    key.side = q.side := by
  cases q with
  | commitments feed => rw [List.mem_singleton.1 h]; rfl
  | contains feed commitment => rw [List.mem_singleton.1 h]; rfl
  | recentRoots feed count => rw [List.mem_singleton.1 h]; rfl
  | tally message =>
    rw [touched] at h
    split at h
    · cases h
    · rw [List.mem_singleton.1 h]; rfl
  | tallies feed messages =>
    obtain ⟨message, -, rfl⟩ := List.mem_map.1 h
    rfl
  | nullifier nullifier =>
    rw [touched] at h
    split at h
    · cases h
    · rw [List.mem_singleton.1 h]; rfl
  | transactions message => cases h

/-- Units with the same pending rows get the same answers from stores that are the same on the side
that is asked about. -/
theorem answer_of_sameOn {q : Query} (h : s.SameOn t q.side) (hwrites : u.writes = v.writes)
    (haudit : u.audit = v.audit) : u.answer s q = v.answer t q := by
  have hkey (key : RowKey) (hside : key.side = q.side) : s.AgreesAt t key := by
    rw [← hside] at h
    cases key with
    | commitments feed => rw [Store.AgreesAt, Store.members, h.1, Store.members]
    | roots feed => rw [Store.AgreesAt, Store.history, h.2, Store.history]
    | tally message => rw [Store.AgreesAt, h.1]
    | nullifier nullifier => rw [Store.AgreesAt, h.2.1]
  by_cases hq : q.Tracked
  · exact answer_congr hwrites hq fun key hmem => hkey key (side_of_mem_touched hmem)
  · cases q with
    | transactions message =>
      rw [answer, answer, haudit, Store.trail, Store.trail, h.2.2.1]
    | _ => exact absurd trivial hq

/-- A unit of work that reads remembers present versions only. -/
theorem unmoved_read (h : s.unmoved u) (q : Query) : s.unmoved (u.read s q).2 := by
  rw [Store.unmoved_iff] at h ⊢
  intro key seen hseen
  rw [read, get?_foldl_touch, Option.or_eq_some_iff] at hseen
  rcases hseen with hold | ⟨-, hnew⟩
  · exact h key seen hold
  · split at hnew
    · exact Option.some.inj hnew
    · cases hnew

/-- Two units of work that go on in the same way, each on its own store: the stores are the same on
one side, and what the units have read has not moved. -/
structure Twins (side : Side) (s t : Store) (u v : UnitOfWork) : Prop where
  rows : s.SameOn t side
  failures : s.failures = []
  failures' : t.failures = []
  isolation : u.isolation = v.isolation
  writes : u.writes = v.writes
  audit : u.audit = v.audit
  unmoved : s.unmoved u
  unmoved' : t.unmoved v

/-- Units that have just been opened have the same pending rows, none. -/
theorem Twins.opened (isolation : Isolation) (hrows : s.SameOn t side) (hs : s.failures = [])
    (ht : t.failures = []) : Twins side s t (opened isolation) (opened isolation) :=
  ⟨hrows, hs, ht, rfl, rfl, rfl, rfl, rfl⟩

/-- Twins get the same answers and stay twins. -/
theorem Twins.perform (h : Twins side s t u v) {c : Call} (hc : c.side = side) :
    (u.perform s c).1 = (v.perform t c).1 ∧
      Twins side (u.perform s c).2.1 (v.perform t c).2.1 (u.perform s c).2.2
        (v.perform t c).2.2 := by
  cases c with
  | read q =>
    obtain rfl : q.side = side := hc
    refine ⟨answer_of_sameOn h.rows h.writes h.audit, h.rows, h.failures, h.failures', ?_, ?_, ?_,
      unmoved_read h.unmoved q, unmoved_read h.unmoved' q⟩
    · exact (isolation_touch s u _).trans (h.isolation.trans (isolation_touch t v _).symm)
    · exact (writes_touch s u _).trans (h.writes.trans (writes_touch t v _).symm)
    · exact (audit_touch s u _).trans (h.audit.trans (audit_touch t v _).symm)
  | save write =>
    have hisolation := h.isolation
    cases hu : u.isolation with
    | readOnly =>
      rw [hu] at hisolation
      rw [perform_save, perform_save, hu, ← hisolation]
      exact ⟨rfl, h⟩
    | serializable =>
      rw [hu] at hisolation
      rw [perform_save, perform_save, hu, ← hisolation]
      exact ⟨rfl, h.rows, h.failures, h.failures', rfl, congrArg (write :: ·) h.writes, h.audit,
        h.unmoved, h.unmoved'⟩
  | append row =>
    obtain rfl : .ledger = side := hc
    obtain ⟨htallies, hnullifiers, htransactions, hid⟩ := h.rows
    have hisolation := h.isolation
    cases hu : u.isolation with
    | readOnly =>
      rw [hu] at hisolation
      rw [perform_append, perform_append, hu, ← hisolation]
      exact ⟨rfl, h⟩
    | serializable =>
      rw [hu] at hisolation
      rw [perform_append, perform_append, hu, ← hisolation, ← hid]
      exact ⟨rfl, ⟨htallies, hnullifiers, htransactions, rfl⟩, h.failures, h.failures', rfl,
        h.writes, congrArg (_ :: ·) h.audit, h.unmoved, h.unmoved'⟩

/-- Twins commit with the same outcome and leave the same rows. -/
theorem Twins.commit (h : Twins side s t u v) :
    (s.commit u).1 = (t.commit v).1 ∧ (s.commit u).2.SameOn (t.commit v).2 side ∧
      (s.commit u).2.failures = [] ∧ (t.commit v).2.failures = [] := by
  have hisolation := h.isolation
  cases hu : u.isolation with
  | readOnly =>
    rw [hu] at hisolation
    rw [Store.commit, Store.commit, hu, ← hisolation]
    exact ⟨rfl, h.rows, h.failures, h.failures'⟩
  | serializable =>
    rw [hu] at hisolation
    rw [Store.commit_of_unmoved hu h.failures h.unmoved,
      Store.commit_of_unmoved hisolation.symm h.failures' h.unmoved']
    exact ⟨rfl, h.rows.publish h.writes h.audit, (Store.failures_publish s u).trans h.failures,
      (Store.failures_publish t v).trans h.failures'⟩

end UnitOfWork

namespace Program

variable {α : Type} {side : Side}

/-- A program on one side comes to the same on stores that are the same on that side. -/
theorem On.runIn_congr {p : Program α} (hp : p.On side) {s t : Store} {u v : UnitOfWork}
    (h : UnitOfWork.Twins side s t u v) :
    (p.runIn u s).1 = (p.runIn v t).1 ∧ (p.runIn u s).2.SameOn (p.runIn v t).2 side := by
  induction p generalizing s t u v with
  | done a => exact ⟨rfl, h.rows⟩
  | begin isolation next ih => exact ih hp (.opened isolation h.rows h.failures h.failures')
  | call c next ih =>
    obtain ⟨hanswer, htwins⟩ := h.perform hp.1
    simp only [runIn]
    rw [← hanswer]
    exact ih _ (hp.2 _) htwins
  | commit next ih =>
    obtain ⟨houtcome, hrows, hs, ht⟩ := h.commit
    simp only [runIn]
    rw [← houtcome]
    exact ih _ (hp _) (.opened .readOnly hrows hs ht)
  | wait ms next ih => exact ih hp h

end Program

/-! ## Processes on one side -/

/-- A unit of work is open on one side of a store, on which nobody else works: what it has read and
what it has pending are of that side, and what it has read is as it was. -/
structure UnitOfWork.Within (side : Side) (s : Store) (u : UnitOfWork) : Prop where
  reads : ∀ key seen, u.reads.get? key = some seen → key.side = side ∧ s.version key = seen
  writes : ∀ write ∈ u.writes, write.key.side = side
  audit : side = .members → u.audit = []

namespace UnitOfWork.Within

variable {side : Side} {s t : Store} {u : UnitOfWork}

/-- A unit that has just been opened keeps to either side. -/
theorem opened (isolation : Isolation) : (opened isolation).Within side s where
  reads := fun _ _ hseen => nomatch hseen
  writes := fun _ hwrite => nomatch hwrite
  audit := fun _ => rfl

/-- Nothing that a unit which keeps to a side has read has moved. -/
theorem unmoved (h : u.Within side s) : s.unmoved u :=
  Store.unmoved_iff.2 fun key seen hseen => (h.reads key seen hseen).2

/-- It goes on keeping to its side when the other side changes. -/
theorem untouched (h : u.Within side s) (ht : s.Untouched t side) : u.Within side t where
  reads := fun key seen hseen => by
    obtain ⟨hside, hversion⟩ := h.reads key seen hseen
    exact ⟨hside, (ht.version key hside).trans hversion⟩
  writes := h.writes
  audit := h.audit

/-- A unit of work stays within its side, and touches nothing on the other. -/
theorem perform (h : u.Within side s) {c : Call} (hc : c.side = side) :
    (u.perform s c).2.2.Within side (u.perform s c).2.1 ∧
      ∀ other, other ≠ side → s.Untouched (u.perform s c).2.1 other := by
  obtain ⟨hreads, hwrites, haudit⟩ := h
  cases c with
  | read q =>
    refine ⟨⟨fun key seen hseen => ?_, ?_, ?_⟩, fun other _ => .refl s other⟩
    · change ((u.touched q).foldl (touch s) u).reads.get? key = some seen at hseen
      rw [get?_foldl_touch, Option.or_eq_some_iff] at hseen
      rcases hseen with hold | ⟨-, hnew⟩
      · exact hreads key seen hold
      · split at hnew
        · rename_i hmem
          exact ⟨(side_of_mem_touched hmem).trans hc, Option.some.inj hnew⟩
        · cases hnew
    · change ∀ write ∈ ((u.touched q).foldl (touch s) u).writes, _
      rwa [writes_touch]
    · change side = .members → ((u.touched q).foldl (touch s) u).audit = []
      rwa [audit_touch]
  | save write =>
    rw [perform_save]
    cases u.isolation with
    | readOnly => exact ⟨⟨hreads, hwrites, haudit⟩, fun other _ => .refl s other⟩
    | serializable =>
      exact ⟨⟨hreads, List.forall_mem_cons.2 ⟨hc, hwrites⟩, haudit⟩, fun other _ => .refl s other⟩
  | append row =>
    obtain rfl : .ledger = side := hc
    rw [perform_append]
    cases u.isolation with
    | readOnly => exact ⟨⟨hreads, hwrites, haudit⟩, fun other _ => .refl s other⟩
    | serializable =>
      refine ⟨⟨hreads, hwrites, fun hmembers => nomatch hmembers⟩, fun other hother => ?_⟩
      cases other with
      | members => exact ⟨⟨rfl, rfl⟩, fun _ _ => rfl, rfl⟩
      | ledger => exact absurd rfl hother

/-- A commit touches nothing on the other side. -/
theorem untouched_commit (h : u.Within side s) (hfailures : s.failures = []) {other : Side}
    (hother : other ≠ side) : s.Untouched (s.commit u).2 other := by
  cases hu : u.isolation with
  | readOnly =>
    rw [Store.commit, hu]
    exact .refl s other
  | serializable =>
    rw [Store.commit_of_unmoved hu hfailures h.unmoved]
    refine s.untouched_publish (fun write hwrite hside => ?_) fun hledger => h.audit ?_
    · exact hother (hside.symm.trans (h.writes write hwrite))
    · cases side with
      | members => rfl
      | ledger => exact absurd hledger hother

/-- What is left of a program comes to the same when something happens on the other side. -/
theorem runIn_untouched (h : u.Within side s) {α : Type} {p : Program α} (hp : p.On side)
    (ht : s.Untouched t side) (hfailures : s.failures = []) :
    (p.runIn u s).1 = (p.runIn u t).1 ∧ (p.runIn u s).2.SameOn (p.runIn u t).2 side :=
  hp.runIn_congr ⟨ht.rows, hfailures, ht.failures.trans hfailures, rfl, rfl, rfl, h.unmoved,
    (h.untouched ht).unmoved⟩

end UnitOfWork.Within

namespace Process

variable {α : Type} {side : Side} {s t : Store} {p : Process α}

/-- A process works on one side of a store, on which nobody else does. -/
structure Within (side : Side) (s : Store) (p : Process α) : Prop where
  program : p.program.On side
  unit : p.unit.Within side s

/-- A process keeps to a side if its program does. -/
theorem Within.start {program : Program α} (h : program.On side) :
    Within side s ⟨program, default⟩ :=
  ⟨h, .opened .readOnly⟩

/-- A step takes nothing away from what a process comes to. -/
theorem runIn_step (s : Store) (p : Process α) :
    (p.step s).2.program.runIn (p.step s).2.unit (p.step s).1 = p.program.runIn p.unit s := by
  obtain ⟨program, u⟩ := p
  cases program <;> rfl

/-- A process goes on within its side. -/
theorem Within.step (h : p.Within side s) : (p.step s).2.Within side (p.step s).1 := by
  obtain ⟨program, u⟩ := p
  obtain ⟨hprogram, hunit⟩ := h
  cases program with
  | done a => exact ⟨hprogram, hunit⟩
  | begin isolation next => exact ⟨hprogram, .opened isolation⟩
  | call c next => exact ⟨hprogram.2 _, (hunit.perform hprogram.1).1⟩
  | commit next => exact ⟨hprogram _, .opened .readOnly⟩
  | wait ms next => exact ⟨hprogram, hunit⟩

/-- It touches nothing on the other side. -/
theorem Within.untouched_step (h : p.Within side s) (hfailures : s.failures = []) {other : Side}
    (hother : other ≠ side) : s.Untouched (p.step s).1 other := by
  obtain ⟨program, u⟩ := p
  obtain ⟨hprogram, hunit⟩ := h
  cases program with
  | done a => exact .refl s other
  | begin isolation next => exact .refl s other
  | call c next => exact (hunit.perform hprogram.1).2 other hother
  | commit next => exact hunit.untouched_commit hfailures hother
  | wait ms next => exact .refl s other

end Process

end Reactions
