import Mathlib.Data.List.Basic
import Reactions.Proofs.Store.Separation

/-!
# Times are only written

Rows bear the times at which they were made, but no question asks for them and no commit depends on
them. So the work on a store can be done with the times left out: asking, touching and committing
all commute with `untimed` (`UnitOfWork.untimed_answer`, `Store.untimed_publish`). Two programs that
differ in the times that they write, and in what they do with the times that they are told, are
`Program.Alike`; carried out alone on stores that are the same apart from times, they come to the
same apart from times (`Program.Alike.runIn`).
-/

namespace Reactions

/-! ## Rows without their times -/

/-- A member's row without its time. -/
def MemberCommitment.untimed (row : MemberCommitment) : MemberCommitment :=
  { row with registeredAt := default }

/-- A root without its time. -/
def RootEntry.untimed (row : RootEntry) : RootEntry := { row with createdAt := default }

/-- A tally without its time. -/
def Tally.untimed (row : Tally) : Tally := { row with lastUpdated := default }

/-- A ledger row without its times. -/
def LedgerRow.untimed (row : LedgerRow) : LedgerRow :=
  { row with createdAt := default, updatedAt := default }

/-- An audit row without its time. -/
def AuditRow.untimed (row : AuditRow) : AuditRow := { row with createdAt := default }

/-- A write without times. -/
def Write.untimed : Write → Write
  | .commitment row => .commitment row.untimed
  | .root row => .root row.untimed
  | .tally row => .tally row.untimed
  | .nullifier row => .nullifier row.untimed

/-- An answer without times. -/
def Query.untimed : (q : Query) → q.Answer → q.Answer
  | .commitments _, rows => rows.map MemberCommitment.untimed
  | .contains _ _, found => found
  | .recentRoots _ _, rows => rows.map RootEntry.untimed
  | .tally _, row => row.map Tally.untimed
  | .tallies _ _, rows => rows.map Tally.untimed
  | .nullifier _, row => row.map LedgerRow.untimed
  | .transactions _, rows => rows.map AuditRow.untimed

namespace Table

variable {κ α : Type} {key : α → κ} {f : α → α}

/-- Changes all rows of a table but not their keys. -/
def mapRows (t : Table key) (f : α → α) (hf : ∀ row, key (f row) = key row) : Table key where
  rows := t.rows.map f
  nodup := by
    have hkeys : key ∘ f = key := funext hf
    rw [List.map_map, hkeys]
    exact t.nodup

/-- Tables with the same rows are the same. -/
theorem ext {t t' : Table key} (h : t.rows = t'.rows) : t = t' := by
  obtain ⟨rows, hnodup⟩ := t
  obtain ⟨rows', hnodup'⟩ := t'
  obtain rfl : rows = rows' := h
  rfl

variable [DecidableEq κ]

/-- Putting a row and changing all rows can be done in either order, if keys stay. -/
theorem put_map (hf : ∀ row, key (f row) = key row) (row : α) (rows : List α) :
    (put key row rows).map f = put key (f row) (rows.map f) := by
  induction rows with
  | nil => rfl
  | cons r rest ih =>
    rw [List.map_cons, put, put, hf, hf]
    split
    · rfl
    · rw [List.map_cons, ih]

/-- Saving a row and changing all rows can be done in either order. -/
theorem mapRows_save (t : Table key) (hf : ∀ row, key (f row) = key row) (row : α) :
    (t.save row).mapRows f hf = (t.mapRows f hf).save (f row) :=
  ext (put_map hf row t.rows)

/-- The row that is found among changed rows is the changed one. -/
theorem find?_mapRows (t : Table key) (hf : ∀ row, key (f row) = key row) (k : κ) :
    (t.mapRows f hf).find? k = (t.find? k).map f := by
  have hpred : (fun row => decide (key row = k)) ∘ f = fun row => decide (key row = k) :=
    funext fun row => by simp [hf]
  rw [find?, find?, mapRows, List.find?_map, hpred]

end Table

/-- A store without times. -/
def Store.untimed (s : Store) : Store :=
  { s with
    commitments := s.commitments.map MemberCommitment.untimed
    roots := s.roots.map RootEntry.untimed
    tallies := s.tallies.mapRows Tally.untimed fun _ => rfl
    nullifiers := s.nullifiers.mapRows LedgerRow.untimed fun _ => rfl
    transactions := s.transactions.map AuditRow.untimed }

/-- Without times, the same tallies are found, without their times. -/
theorem Store.find?_untimed_tallies (s : Store) (message : MessageId) :
    s.untimed.tallies.find? message = (s.tallies.find? message).map Tally.untimed :=
  Table.find?_mapRows s.tallies (f := Tally.untimed) (fun _ => rfl) message

theorem Store.find?_untimed_nullifiers (s : Store) (nullifier : Nullifier) :
    s.untimed.nullifiers.find? nullifier =
      (s.nullifiers.find? nullifier).map LedgerRow.untimed :=
  Table.find?_mapRows s.nullifiers (f := LedgerRow.untimed) (fun _ => rfl) nullifier

/-- A unit of work without times. -/
def UnitOfWork.untimed (u : UnitOfWork) : UnitOfWork :=
  { u with writes := u.writes.map Write.untimed, audit := u.audit.map AuditRow.untimed }

/-! ## Reads -/

namespace UnitOfWork

variable (s : Store) (u : UnitOfWork)

/-- The same members are pending in a unit without times. -/
theorem untimed_pendingCommitments (feed : FeedId) :
    u.untimed.pendingCommitments feed =
      (u.pendingCommitments feed).map MemberCommitment.untimed := by
  rw [pendingCommitments, pendingCommitments, untimed, List.filterMap_map, List.map_filterMap]
  refine List.filterMap_congr fun write _ => ?_
  cases write with
  | commitment row =>
    by_cases h : row.feedId = feed <;> simp [Write.untimed, MemberCommitment.untimed, h]
  | _ => rfl

theorem untimed_pendingRoots (feed : FeedId) :
    u.untimed.pendingRoots feed = (u.pendingRoots feed).map RootEntry.untimed := by
  rw [pendingRoots, pendingRoots, untimed, List.filterMap_map, List.map_filterMap]
  refine List.filterMap_congr fun write _ => ?_
  cases write with
  | root row => by_cases h : row.feedId = feed <;> simp [Write.untimed, RootEntry.untimed, h]
  | _ => rfl

theorem untimed_pendingTally (message : MessageId) :
    u.untimed.pendingTally message = (u.pendingTally message).map Tally.untimed := by
  rw [pendingTally, pendingTally, untimed, List.findSome?_map, List.map_findSome?]
  refine congrArg (List.findSome? · u.writes) (funext fun write => ?_)
  cases write with
  | tally row => by_cases h : row.messageId = message <;> simp [Write.untimed, Tally.untimed, h]
  | _ => rfl

theorem untimed_pendingNullifier (nullifier : Nullifier) :
    u.untimed.pendingNullifier nullifier =
      (u.pendingNullifier nullifier).map LedgerRow.untimed := by
  rw [pendingNullifier, pendingNullifier, untimed, List.findSome?_map, List.map_findSome?]
  refine congrArg (List.findSome? · u.writes) (funext fun write => ?_)
  cases write with
  | nullifier row =>
    by_cases h : row.nullifier = nullifier <;> simp [Write.untimed, LedgerRow.untimed, h]
  | _ => rfl

/-- A unit without times reads the same tally, without its time. -/
theorem untimed_tally (message : MessageId) :
    u.untimed.tally s.untimed message = (u.tally s message).map Tally.untimed := by
  rw [tally, tally, untimed_pendingTally, Store.find?_untimed_tallies]
  cases u.pendingTally message <;> rfl

/-- Answers do not depend on times. -/
theorem untimed_answer (q : Query) :
    u.untimed.answer s.untimed q = q.untimed (u.answer s q) := by
  cases q with
  | commitments feed =>
    simp only [answer, Query.untimed, untimed_pendingCommitments, Store.members, Store.untimed,
      List.map_append, List.map_reverse, List.filter_map]
    rfl
  | contains feed commitment =>
    simp only [answer, Query.untimed, untimed_pendingCommitments, Store.untimed, List.any_map]
    rfl
  | recentRoots feed count =>
    simp only [answer, Query.untimed, untimed_pendingRoots, Store.history, Store.untimed,
      List.map_take, List.map_append, List.filter_map]
    rfl
  | tally message => exact untimed_tally s u message
  | tallies feed messages =>
    simp only [answer, Query.untimed, List.filterMap_congr fun m _ => untimed_tally s u m,
      ← List.map_filterMap, List.filter_map]
    rfl
  | nullifier nullifier =>
    simp only [answer, Query.untimed, untimed_pendingNullifier, Store.find?_untimed_nullifiers]
    cases u.pendingNullifier nullifier <;> rfl
  | transactions message =>
    simp only [answer, Query.untimed, Store.trail, Store.untimed, untimed, List.map_append,
      List.map_reverse, List.filter_map]
    rfl

/-- A unit without times has to see the same keys unchanged. -/
theorem touched_untimed (q : Query) : u.untimed.touched q = u.touched q := by
  cases q <;> simp [touched, untimed_pendingTally, untimed_pendingNullifier]

/-- Versions are remembered alike with times and without. -/
theorem untimed_touch (key : RowKey) :
    (touch s u key).untimed = touch s.untimed u.untimed key := by
  rw [touch, touch]
  exact apply_ite untimed _ _ _

/-- What a read leaves behind does not depend on times either. -/
theorem untimed_read (q : Query) :
    (u.read s q).2.untimed = (u.untimed.read s.untimed q).2 := by
  rw [read, read, touched_untimed]
  generalize u.touched q = keys
  induction keys generalizing u with
  | nil => rfl
  | cons key rest ih => rw [List.foldl_cons, List.foldl_cons, ih, untimed_touch]

/-- What a call leaves behind does not depend on times. -/
theorem untimed_perform_read (q : Query) :
    u.untimed.perform s.untimed (.read q) =
      (q.untimed (u.perform s (.read q)).1, (u.perform s (.read q)).2.1.untimed,
        (u.perform s (.read q)).2.2.untimed) :=
  Prod.ext (untimed_answer s u q) (Prod.ext rfl (untimed_read s u q).symm)

/-- A write is kept alike with times and without. -/
theorem untimed_perform_save (write : Write) :
    u.untimed.perform s.untimed (.save write.untimed) =
      ((u.perform s (.save write)).1, (u.perform s (.save write)).2.1.untimed,
        (u.perform s (.save write)).2.2.untimed) := by
  obtain ⟨isolation, reads, writes, audit⟩ := u
  rw [perform_save, perform_save]
  cases isolation <;> rfl

/-- An audit row gets the same number with times and without. -/
theorem untimed_perform_append (row : AuditRow) :
    u.untimed.perform s.untimed (.append row.untimed) =
      ((u.perform s (.append row)).1.map AuditRow.untimed,
        (u.perform s (.append row)).2.1.untimed, (u.perform s (.append row)).2.2.untimed) := by
  obtain ⟨isolation, reads, writes, audit⟩ := u
  rw [perform_append, perform_append]
  cases isolation <;> rfl

end UnitOfWork

/-! ## Commits -/

namespace Store

variable (s : Store)

/-- A write comes to the same rows with times and without. -/
theorem untimed_apply (stamp : Nat) (write : Write) :
    (s.apply stamp write).untimed = s.untimed.apply stamp write.untimed := by
  cases write with
  | commitment row => rfl
  | root row => rfl
  | tally row =>
    have hsave := Table.mapRows_save s.tallies (f := Tally.untimed) (fun _ => rfl) row
    simp only [apply, untimed, hsave]
    rfl
  | nullifier row =>
    have hsave := Table.mapRows_save s.nullifiers (f := LedgerRow.untimed) (fun _ => rfl) row
    simp only [apply, untimed, hsave]
    rfl

/-- A unit of work without times publishes its rows without times. -/
theorem untimed_publish (u : UnitOfWork) :
    (s.publish u).untimed = s.untimed.publish u.untimed := by
  have hlog (t : Store) (audit : List AuditRow) :
      { t with transactions := audit ++ t.transactions }.untimed =
        { t.untimed with
          transactions := audit.map AuditRow.untimed ++ t.untimed.transactions } := by
    simp [untimed]
  have hwritten : (u.writes.foldr (apply (s.clock + 1)) { s with clock := s.clock + 1 }).untimed =
      u.untimed.writes.foldr (apply (s.clock + 1))
        { s.untimed with clock := s.clock + 1 } := by
    rw [UnitOfWork.untimed]
    induction u.writes with
    | nil => rfl
    | cons write rest ih => rw [List.map_cons, List.foldr_cons, List.foldr_cons, untimed_apply, ih]
  rw [publish, publish]
  refine (hlog _ u.audit).trans ?_
  rw [hwritten]
  rfl

/-- Whether a commit succeeds does not depend on times. -/
theorem untimed_commit (u : UnitOfWork) :
    s.untimed.commit u.untimed = ((s.commit u).1, (s.commit u).2.untimed) := by
  have hisolation : u.untimed.isolation = u.isolation := rfl
  have hfailures : s.untimed.failures = s.failures := rfl
  have hunmoved : s.untimed.unmoved u.untimed = s.unmoved u := rfl
  cases hu : u.isolation with
  | readOnly => simp only [commit, hisolation, hu]
  | serializable =>
    simp only [commit, hisolation, hu, hfailures]
    cases hs : s.failures with
    | cons e rest => simp only [untimed]
    | nil =>
      simp only [hunmoved]
      split
      · rw [untimed_publish]
      · rfl

end Store

/-! ## Programs -/

namespace Program

variable {α β γ δ : Type}

/-- Two programs make the same calls apart from the times that they write, as long as the answers
they get are the same apart from times, and come to results that are related. -/
inductive Alike (R : α → β → Prop) : Program α → Program β → Prop
  | done {a : α} {b : β} (h : R a b) : Alike R (.done a) (.done b)
  | begin (isolation : Isolation) {next : Program α} {next' : Program β} (h : Alike R next next') :
    Alike R (.begin isolation next) (.begin isolation next')
  | read (q : Query) {next : q.Answer → Program α} {next' : q.Answer → Program β}
    (h : ∀ a b, q.untimed a = q.untimed b → Alike R (next a) (next' b)) :
    Alike R (.call (.read q) next) (.call (.read q) next')
  | save {write write' : Write} (hwrite : write.untimed = write'.untimed)
    {next : Except StoreError Unit → Program α} {next' : Except StoreError Unit → Program β}
    (h : ∀ outcome, Alike R (next outcome) (next' outcome)) :
    Alike R (.call (.save write) next) (.call (.save write') next')
  | append {row row' : AuditRow} (hrow : row.untimed = row'.untimed)
    {next : Except StoreError AuditRow → Program α} {next' : Except StoreError AuditRow → Program β}
    (h : ∀ a b, a.map AuditRow.untimed = b.map AuditRow.untimed → Alike R (next a) (next' b)) :
    Alike R (.call (.append row) next) (.call (.append row') next')
  | commit {next : Except StoreError Unit → Program α} {next' : Except StoreError Unit → Program β}
    (h : ∀ outcome, Alike R (next outcome) (next' outcome)) : Alike R (.commit next) (.commit next')
  | wait (ms : Nat) {next : Program α} {next' : Program β} (h : Alike R next next') :
    Alike R (.wait ms next) (.wait ms next')

variable {R : α → β → Prop} {p : Program α} {q : Program β}

/-- Programs that go on with alike ones. -/
theorem Alike.bind {S : γ → δ → Prop} {f : α → Program γ} {g : β → Program δ} (h : Alike R p q)
    (hnext : ∀ a b, R a b → Alike S (f a) (g b)) : Alike S (p >>= f) (q >>= g) := by
  change Alike S (p.bind f) (q.bind g)
  induction h with
  | done h => exact hnext _ _ h
  | begin isolation _ ih => exact .begin isolation ih
  | read q _ ih => exact .read q ih
  | save hwrite _ ih => exact .save hwrite ih
  | append hrow _ ih => exact .append hrow ih
  | commit _ ih => exact .commit ih
  | wait ms _ ih => exact .wait ms ih

/-- Alike programs that run alone, on stores that are the same apart from times, come to related
results and leave the same rows apart from times. -/
theorem Alike.runIn (h : Alike R p q) {s t : Store} (hs : s.untimed = t.untimed)
    {u v : UnitOfWork} (hu : u.untimed = v.untimed) :
    R (p.runIn u s).1 (q.runIn v t).1 ∧ (p.runIn u s).2.untimed = (q.runIn v t).2.untimed := by
  induction h generalizing u v s t with
  | done h => exact ⟨h, hs⟩
  | begin isolation _ ih => exact ih hs rfl
  | wait ms _ ih => exact ih hs hu
  | read q _ ih =>
    have hperform := (UnitOfWork.untimed_perform_read s u q).symm
    rw [hs, hu, UnitOfWork.untimed_perform_read] at hperform
    obtain ⟨hanswer, hstore, hunit⟩ := by simpa only [Prod.mk.injEq] using hperform
    exact ih _ _ hanswer hstore hunit
  | @save write write' hwrite next next' _ ih =>
    have hperform := (UnitOfWork.untimed_perform_save s u write).symm
    rw [hs, hu, hwrite, UnitOfWork.untimed_perform_save] at hperform
    simp only [Prod.mk.injEq] at hperform
    rw [Program.runIn, Program.runIn]
    generalize u.perform s (.save write) = made, v.perform t (.save write') = made' at hperform
    obtain ⟨outcome, s', u'⟩ := made
    obtain ⟨outcome', t', v'⟩ := made'
    obtain ⟨rfl, hstore, hunit⟩ := hperform
    exact ih outcome hstore hunit
  | @append row row' hrow next next' _ ih =>
    have hperform := (UnitOfWork.untimed_perform_append s u row).symm
    rw [hs, hu, hrow, UnitOfWork.untimed_perform_append] at hperform
    obtain ⟨hanswer, hstore, hunit⟩ := by simpa only [Prod.mk.injEq] using hperform
    exact ih _ _ hanswer hstore hunit
  | commit _ ih =>
    have hcommit := (s.untimed_commit u).symm
    rw [hs, hu, t.untimed_commit v] at hcommit
    rw [Program.runIn, Program.runIn]
    generalize s.commit u = result, t.commit v = result' at hcommit
    obtain ⟨outcome, s'⟩ := result
    obtain ⟨outcome', t'⟩ := result'
    obtain ⟨rfl, hstore⟩ := Prod.mk.inj hcommit
    exact ih outcome hstore rfl

/-- Programs that are alike come to results that are alike on the same store, and leave stores that
are the same without times. -/
theorem Alike.run (h : Alike R p q) (s : Store) :
    R (p.run s).1 (q.run s).1 ∧ (p.run s).2.untimed = (q.run s).2.untimed :=
  h.runIn rfl rfl

end Program

/-! ## Fallible work -/

namespace Work

variable {ε ε' α β γ δ : Type}

/-- Two outcomes are the same failure, or related results. -/
inductive Related (R : α → β → Prop) : Except ε α → Except ε β → Prop
  | ok {a : α} {b : β} (h : R a b) : Related R (.ok a) (.ok b)
  | error (e : ε) : Related R (.error e) (.error e)

/-- Fallible work that makes the same calls apart from times and comes to related outcomes. -/
def Alike (R : α → β → Prop) (w : Work ε α) (w' : Work ε β) : Prop :=
  Program.Alike (Related R) w.run w'.run

/-- Outcomes that are related by equality are equal. -/
theorem Related.eq {a b : Except ε α} (h : Related Eq a b) : a = b := by
  cases h with
  | ok h => rw [h]
  | error e => rfl

theorem Related.refl (outcome : Except ε α) : Related Eq outcome outcome := by
  cases outcome with
  | ok a => exact .ok rfl
  | error e => exact .error e

variable {R : α → β → Prop}

theorem alike_pure {a : α} {b : β} (h : R a b) :
    Alike R (pure a : Work ε α) (pure b : Work ε β) := .done (.ok h)

theorem alike_throw (e : ε) : Alike R (throw e : Work ε α) (throw e : Work ε β) := .done (.error e)

/-- Outcomes that are related make work that is alike. -/
theorem alike_liftExcept {a : Except ε α} {b : Except ε β} (h : Related R a b) :
    Alike R (liftExcept a : Work ε α) (liftExcept b : Work ε β) := by
  cases h with
  | ok h => exact alike_pure h
  | error e => exact alike_throw e

/-- Work that goes on with alike work. -/
theorem Alike.bind {S : γ → δ → Prop} {w : Work ε α} {w' : Work ε β} {f : α → Work ε γ}
    {g : β → Work ε δ} (h : Alike R w w') (hnext : ∀ a b, R a b → Alike S (f a) (g b)) :
    Alike S (w >>= f) (w' >>= g) := by
  refine Program.Alike.bind h fun outcome outcome' houtcome => ?_
  cases houtcome with
  | ok h => exact hnext _ _ h
  | error e => exact .done (.error e)

/-- Failures may be reworded alike. -/
theorem Alike.adapt (f : ε → ε') {w : Work ε α} {w' : Work ε β} (h : Alike R w w') :
    Alike R (ExceptT.adapt f w) (ExceptT.adapt f w') := by
  refine Program.Alike.bind h fun outcome outcome' houtcome => ?_
  cases houtcome with
  | ok h => exact .done (.ok h)
  | error e => exact .done (.error (f e))

/-- Opening a unit of work is the same for all times. -/
theorem alike_begin (isolation : Isolation) :
    Alike Eq (begin isolation : Work ε Unit) (begin isolation : Work ε Unit) :=
  .begin isolation (.done (.ok rfl))

/-- A question gets answers that are the same without times. -/
theorem alike_read (q : Query) :
    Alike (fun a b => q.untimed a = q.untimed b) (read q : Work ε q.Answer)
      (read q : Work ε q.Answer) :=
  .read q fun _ _ h => .done (.ok h)

variable [StoreFailure ε]

/-- Writes that are the same without times are kept or refused alike. -/
theorem alike_save {write write' : Write} (h : write.untimed = write'.untimed) :
    Alike Eq (save write : Work ε Unit) (save write' : Work ε Unit) :=
  .save h fun _ => .done (.refl _)

/-- Audit rows that are the same without times get the same number. -/
theorem alike_append {row row' : AuditRow} (h : row.untimed = row'.untimed) :
    Alike (fun a b => a.untimed = b.untimed) (append row : Work ε AuditRow)
      (append row' : Work ε AuditRow) := by
  refine .append h fun a b hab => .done ?_
  cases a with
  | ok a =>
    cases b with
    | ok b => exact .ok (Except.ok.inj hab)
    | error e => cases hab
  | error e =>
    cases b with
    | ok b => cases hab
    | error e' =>
      cases hab
      exact .error _

/-- Whether a commit succeeds does not depend on times. -/
theorem alike_commit : Alike Eq (commit : Work ε Unit) (commit : Work ε Unit) :=
  .commit fun _ => .done (.refl _)

/-- Work that is tried again is alike if its attempts are. -/
theorem alike_retried (policy : RetryPolicy) {op : Nat → Work ε α} {op' : Nat → Work ε β}
    (h : ∀ attempt, Alike R (op attempt) (op' attempt)) :
    Alike R (retried policy op) (retried policy op') := by
  change Program.Alike _ (retryFrom _ policy _ _ _) (retryFrom _ policy _ _ _)
  generalize policy.attempts - 1 = retries
  generalize 1 = attempt
  induction retries generalizing attempt with
  | zero =>
    refine Program.Alike.bind (h attempt) fun outcome outcome' houtcome => ?_
    cases houtcome with
    | ok h => exact .done (.ok h)
    | error e => exact .done (.error _)
  | succ retries ih =>
    refine Program.Alike.bind (h attempt) fun outcome outcome' houtcome => ?_
    cases houtcome with
    | ok h => exact .done (.ok h)
    | error e =>
      dsimp only
      split
      · exact .wait _ (ih (attempt + 1))
      · exact .done (.error _)

end Work

end Reactions
