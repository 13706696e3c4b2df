import Mathlib.Logic.Function.Basic
import Reactions.Proofs.Store.Transcript

/-!
# Serializability

Any number of clients work on one store, each by a program of its own, and a schedule says whose
call comes next. A unit of work whose commit succeeds might as well have been carried out alone at
that moment: the same calls on the store as it stood just before get the same answers and leave the
same rows. So the rows are always those of a serial run of exactly the units that were committed, in
the order of their commits (`commits_are_serial`).

The invariant is `UnitOfWork.Sound`. What a unit remembers is never newer than the present versions;
and as long as no version has moved, the present store still answers the unit's calls the way they
were answered. A commit gives what it writes a version that is newer than all others, so a unit that
remembers any of it has moved for good, whatever is written there later.
-/

namespace Reactions

variable {α : Type}

/-! ## Clients and schedules -/

/-- A client of a store: a process, with the transcript of its open unit of work. -/
structure Client (α : Type) where
  process : Process α
  made : List Made := []

namespace Client

/-- The transcript after the client's next step. Opening and ending a unit of work start it anew. -/
def madeAfter (c : Client α) (s : Store) : List Made :=
  match c.process.program with
  | .call call _ => ⟨call, (c.process.unit.perform s call).1⟩ :: c.made
  | .wait .. | .done _ => c.made
  | .begin .. | .commit _ => []

/-- The client's next step, on a store. -/
def step (s : Store) (c : Client α) : Store × Client α :=
  ((c.process.step s).1, ⟨(c.process.step s).2, c.madeAfter s⟩)

/-- Whether the next step commits, with success, a unit of work that may write. -/
def commits (c : Client α) (s : Store) : Bool :=
  match c.process.program with
  | .commit _ =>
    c.process.unit.isolation = .serializable && (s.commit c.process.unit).1.toBool
  | _ => false

/-- The calls of the open unit of work, in order. -/
def calls (c : Client α) : List Call := (c.made.map Made.call).reverse

end Client

/-- A store with its clients, and the transcripts of the units of work that were committed, the last
one first. -/
structure System (α : Type) where
  store : Store := .empty
  clients : Nat → Client α
  committed : List (List Made) := []

/-- What a schedule is made of: a step of a client, or errors that the next commits are made to fail
with. -/
inductive Turn
  | client (i : Nat)
  | failNext (errors : List StoreError)

namespace System

/-- The system after a turn. -/
def step (σ : System α) : Turn → System α
  | .client i =>
    { store := ((σ.clients i).step σ.store).1
      clients := Function.update σ.clients i ((σ.clients i).step σ.store).2
      committed :=
        if (σ.clients i).commits σ.store then (σ.clients i).made :: σ.committed else σ.committed }
  | .failNext errors => { σ with store := σ.store.failNextCommits errors }

/-- The system after a schedule, from an empty store and the beginning of every client's program. -/
def after (programs : Nat → Program α) (turns : List Turn) : System α :=
  turns.foldl step { clients := fun i => { process := ⟨programs i, default⟩ } }

/-- The client whose turn it is takes its next step. -/
theorem clients_step_self (σ : System α) (i : Nat) :
    (σ.step (.client i)).clients i = ((σ.clients i).step σ.store).2 := Function.update_self ..

/-- The other clients stay as they are. -/
theorem clients_step_of_ne (σ : System α) {i j : Nat} (h : j ≠ i) :
    (σ.step (.client i)).clients j = σ.clients j := Function.update_of_ne h ..

/-- A turn that is not a client's own leaves the client as it is. -/
theorem clients_step_cases (σ : System α) (turn : Turn) (i : Nat) :
    turn = .client i ∨ (σ.step turn).clients i = σ.clients i := by
  cases turn with
  | failNext errors => exact .inr rfl
  | client j =>
    by_cases hj : j = i
    · exact .inl (congrArg Turn.client hj)
    · exact .inr (clients_step_of_ne σ (Ne.symm hj))

/-- What a client keeps by its own steps, on whatever stores, it keeps on every schedule. -/
theorem clients_foldl_step {motive : Client α → Prop} {σ : System α} {i : Nat}
    (h : motive (σ.clients i)) (hstep : ∀ c s, motive c → motive (c.step s).2) (turns : List Turn) :
    motive ((turns.foldl step σ).clients i) := by
  induction turns generalizing σ with
  | nil => exact h
  | cons turn rest ih =>
    refine ih ?_
    rcases clients_step_cases σ turn i with rfl | hsame
    · rw [clients_step_self]
      exact hstep _ _ h
    · exact hsame ▸ h

/-- The last turn is taken after the others. -/
theorem after_append_singleton (programs : Nat → Program α) (turns : List Turn) (turn : Turn) :
    after programs (turns ++ [turn]) = (after programs turns).step turn := by
  rw [after, List.foldl_append]
  rfl

end System

/-- Units of work, the last one first, are carried out one after the other on an empty store, each
alone: every call is answered as it was, and every commit succeeds. -/
inductive Serial : List (List Made) → Store → Prop
  | nil : Serial [] .empty
  | cons {units : List (List Made)} {made made' : List Made} {s s' : Store} (h : Serial units s)
    (hrun : (Program.unitOf (made.map Made.call).reverse).run s = ((made', .ok ()), s'))
    (hagrees : List.Forall₂ Made.Agrees made made') : Serial (made :: units) s'

/-! ## The invariant -/

/-- A unit of work that has not moved when another has been committed had not moved before, and the
other has written nothing that it remembers. -/
theorem Store.unmoved_of_publish {s : Store} {u other : UnitOfWork}
    (hseen : ∀ key seen, u.reads.get? key = some seen → seen ≤ s.version key)
    (hclock : ∀ key, s.version key ≤ s.clock) (hunmoved : (s.publish other).unmoved u) :
    s.unmoved u ∧
      ∀ key seen, u.reads.get? key = some seen → key ∉ other.writes.map Write.key := by
  rw [unmoved_iff] at hunmoved
  have hunwritten : ∀ key seen, u.reads.get? key = some seen →
      key ∉ other.writes.map Write.key := by
    intro key seen hkey hmem
    have hversion := hunmoved key seen hkey
    have hle := hseen key seen hkey
    have hpast := hclock key
    rw [version_publish, if_pos hmem] at hversion
    omega
  refine ⟨unmoved_iff.2 fun key seen hkey => ?_, hunwritten⟩
  have hversion := hunmoved key seen hkey
  rwa [version_publish, if_neg (hunwritten key seen hkey)] at hversion

namespace UnitOfWork

/-- What holds of an open unit of work that may write, at any time. It has made the calls of its
transcript; it remembers no version from the future; and unless a version has moved, the store would
answer the calls as they were answered. -/
structure Sound (s : Store) (u : UnitOfWork) (made : List Made) : Prop where
  follows : u.Follows made
  seen_le : ∀ key seen, u.reads.get? key = some seen → seen ≤ s.version key
  answered : s.unmoved u → AnsweredBy s made

namespace Sound

variable {s s' : Store} {u : UnitOfWork} {made : List Made}

/-- A unit that has just been opened is sound. -/
theorem opened (s : Store) : (opened .serializable).Sound s [] where
  follows := follows_opened
  seen_le := fun _ _ h => nomatch h
  answered := fun _ => trivial

/-- Changes that touch neither rows nor versions do not matter. -/
theorem quiet (h : u.Sound s made) (hs : s.Quiet s') : u.Sound s' made where
  follows := h.follows
  seen_le := by
    obtain ⟨failures, id, rfl⟩ := hs
    exact h.seen_le
  answered := fun hunmoved => by
    have hunmoved : s.unmoved u := by
      obtain ⟨failures, id, rfl⟩ := hs
      exact hunmoved
    exact (h.answered hunmoved).congr fun key _ => hs.agreesAt key

/-- A commit of another unit: either this one remembers something that was written, and has moved;
or nothing that it has touched was written, and its answers stand. -/
theorem publish (h : u.Sound s made) (hclock : ∀ key, s.version key ≤ s.clock)
    (other : UnitOfWork) : u.Sound (s.publish other) made := by
  refine ⟨h.follows, fun key seen hseen => ?_, fun hunmoved => ?_⟩
  · have hle := h.seen_le key seen hseen
    have hpast := hclock key
    rw [Store.version_publish]
    split <;> omega
  · obtain ⟨hbefore, hunwritten⟩ := Store.unmoved_of_publish h.seen_le hclock hunmoved
    refine (h.answered hbefore).congr fun key hkey => Store.agreesAt_publish s ?_
    obtain ⟨seen, hseen⟩ := h.follows.touched key hkey
    exact hunwritten key seen hseen

/-- A call of the unit itself. -/
theorem perform (h : u.Sound s made) (call : Call) :
    (u.perform s call).2.2.Sound (u.perform s call).2.1
      (⟨call, (u.perform s call).1⟩ :: made) := by
  obtain ⟨⟨⟨id, hstore⟩, hkept, hfresh⟩, hfollows, hanswered⟩ := h.follows.perform s call
  have hs : s.Quiet (u.perform s call).2.1 := ⟨s.failures, id, hstore⟩
  have hhere : (u.perform s call).2.2.Sound s (⟨call, (u.perform s call).1⟩ :: made) := by
    refine ⟨hfollows, fun key seen hseen => ?_, fun hunmoved => hanswered (h.answered ?_)⟩
    · rcases hfresh key seen hseen with hold | rfl
      · exact h.seen_le key seen hold
      · exact Nat.le_refl _
    · rw [Store.unmoved_iff] at hunmoved ⊢
      exact fun key seen hseen => hunmoved key seen (hkept key seen hseen)
  exact hhere.quiet hs

/-- A unit of work that can be committed now can be carried out alone instead. -/
theorem rerun (h : u.Sound s made) (hunmoved : s.unmoved u) {t : Store}
    (ht : t.SameRows s) (hfailures : t.failures = []) :
    ∃ made' t', (Program.unitOf (made.map Made.call).reverse).run t = ((made', .ok ()), t') ∧
      List.Forall₂ Made.Agrees made made' ∧ t'.SameRows (s.publish u) ∧ t'.failures = [] := by
  obtain ⟨made', u', id, hrun, hfollows, hmade', hcalls⟩ :=
    Program.run_unitOf (made.map Made.call).reverse hfailures
  have hmade : AnsweredBy t made := (h.answered hunmoved).congr fun key _ => ht.symm.agreesAt key
  rw [List.reverse_reverse] at hcalls
  obtain ⟨hagrees, hwrites, haudit⟩ := hmade.agrees hmade' hcalls.symm
  refine ⟨made', _, hrun, hagrees, ?_, ?_⟩
  · have hquiet : t.Quiet { t with lastTransactionId := id } := ⟨t.failures, id, rfl⟩
    refine (hquiet.symm.sameRows.trans ht).publish ?_ ?_
    · rw [hfollows.writes, h.follows.writes, hwrites]
    · rw [hfollows.audit, h.follows.audit, haudit]
  · rw [Store.failures_publish]
    exact hfailures

end Sound

/-- A call, in whatever unit of work, changes no row and no version. -/
theorem perform_quiet (u : UnitOfWork) (s : Store) (call : Call) :
    s.Quiet (u.perform s call).2.1 := by
  cases call with
  | read q => exact .refl s
  | save write => rw [UnitOfWork.perform]; split <;> exact .refl s
  | append row =>
    cases hisolation : u.isolation with
    | readOnly => simp only [UnitOfWork.perform, append, writable, hisolation]; exact .refl s
    | serializable =>
      simp only [UnitOfWork.perform, append, writable, hisolation]
      exact ⟨s.failures, s.lastTransactionId + 1, rfl⟩

/-- A call leaves a unit's isolation. -/
theorem isolation_perform (u : UnitOfWork) (s : Store) (call : Call) :
    (u.perform s call).2.2.isolation = u.isolation := by
  cases call with
  | read q => exact isolation_touch s u _
  | save write =>
    cases hisolation : u.isolation <;>
      simp [UnitOfWork.perform, save, writable, hisolation, bind, Except.bind, pure, Except.pure]
  | append row =>
    cases hisolation : u.isolation <;>
      simp [UnitOfWork.perform, append, writable, hisolation, bind, Except.bind, pure,
        Except.pure]

end UnitOfWork

namespace Client

variable {s : Store} {c : Client α}

/-- The invariant of one client: its unit of work is sound if it may write. -/
def Sound (s : Store) (c : Client α) : Prop :=
  c.process.unit.isolation = .serializable → c.process.unit.Sound s c.made

/-- What a client's step does to the store: it commits a unit that has not moved, or it changes no
row and no version. -/
theorem step_cases (s : Store) (c : Client α) :
    (c.commits s = true ∧ c.process.unit.isolation = .serializable ∧
      s.unmoved c.process.unit ∧ (c.step s).1 = s.publish c.process.unit) ∨
    (c.commits s = false ∧ s.Quiet (c.step s).1) := by
  obtain ⟨⟨program, u⟩, made⟩ := c
  cases program with
  | done result => exact .inr ⟨rfl, .refl s⟩
  | begin isolation next => exact .inr ⟨rfl, .refl s⟩
  | call call next => exact .inr ⟨rfl, u.perform_quiet s call⟩
  | wait ms next => exact .inr ⟨rfl, .refl s⟩
  | commit next =>
    rcases s.commit_cases u with
      ⟨hisolation, -, hunmoved, hcommit⟩ | ⟨outcome, failures, hcommit, he⟩
    · refine .inl ⟨?_, hisolation, hunmoved, ?_⟩
      · simp [commits, hisolation, hcommit, Except.toBool]
      · simp [step, Process.step, hcommit]
    · refine .inr ⟨?_, ?_⟩
      · by_cases hisolation : u.isolation = .serializable
        · obtain ⟨e, rfl⟩ := he hisolation
          simp [commits, hcommit, Except.toBool]
        · simp [commits, hisolation]
      · simp only [step, Process.step, hcommit]
        exact ⟨failures, s.lastTransactionId, rfl⟩

/-- A client's step keeps its own unit of work sound. -/
theorem Sound.step (h : c.Sound s) : (c.step s).2.Sound (c.step s).1 := by
  obtain ⟨⟨program, u⟩, made⟩ := c
  cases program with
  | done result => exact h
  | wait ms next => exact h
  | commit next => exact fun hisolation => nomatch hisolation
  | begin isolation next =>
    intro hisolation
    cases isolation with
    | readOnly => cases hisolation
    | serializable => exact .opened s
  | call call next =>
    intro hisolation
    have hu : u.isolation = .serializable := by
      rw [← u.isolation_perform s call]
      exact hisolation
    exact (h hu).perform call

end Client

/-! ## Runs -/

namespace System

/-- The invariant of a system: all clients are sound, no version is newer than the clock, and the
rows are those of a serial run of what was committed. -/
structure Sound (σ : System α) : Prop where
  clients : ∀ i, (σ.clients i).Sound σ.store
  clock : ∀ key, σ.store.version key ≤ σ.store.clock
  serial : ∃ s, Serial σ.committed s ∧ s.failures = [] ∧ s.SameRows σ.store

namespace Sound

variable {σ : System α}

/-- At the start the system is sound. -/
theorem start (programs : Nat → Program α) :
    Sound { clients := fun i => { process := ⟨programs i, default⟩ } } where
  clients := fun _ hisolation => nomatch hisolation
  clock := fun _ => Nat.le_refl 0
  serial := ⟨.empty, .nil, rfl, .refl _⟩

/-- A change that touches neither rows nor versions does not matter. -/
theorem quiet (h : σ.Sound) {s : Store} (hs : σ.store.Quiet s) : Sound { σ with store := s } where
  clients := fun i hisolation => (h.clients i hisolation).quiet hs
  clock := by
    obtain ⟨failures, id, rfl⟩ := hs
    exact h.clock
  serial := by
    obtain ⟨t, hserial, hfailures, hrows⟩ := h.serial
    exact ⟨t, hserial, hfailures, hrows.trans hs.sameRows⟩

/-- Publishing a sound unit of work which has not moved appends it to the serial run, and leaves all
others sound. -/
theorem publish (h : σ.Sound) {i : Nat}
    (hisolation : (σ.clients i).process.unit.isolation = .serializable)
    (hunmoved : σ.store.unmoved (σ.clients i).process.unit) :
    Sound { σ with
      store := σ.store.publish (σ.clients i).process.unit
      committed := (σ.clients i).made :: σ.committed } where
  clients := fun j hj => (h.clients j hj).publish h.clock _
  clock := Store.version_publish_le h.clock _
  serial := by
    obtain ⟨t, hserial, hfailures, hrows⟩ := h.serial
    obtain ⟨made', t', hrun, hagrees, hrows', hfailures'⟩ :=
      (h.clients i hisolation).rerun hunmoved hrows hfailures
    exact ⟨t', hserial.cons hrun hagrees, hfailures', hrows'⟩

/-- A client moves on. -/
theorem update (h : σ.Sound) {i : Nat} {c : Client α} (hc : c.Sound σ.store) :
    Sound { σ with clients := Function.update σ.clients i c } where
  clients := fun j => by
    change (Function.update σ.clients i c j).Sound σ.store
    by_cases hj : j = i
    · subst hj
      rwa [Function.update_self]
    · rw [Function.update_of_ne hj]
      exact h.clients j
  clock := h.clock
  serial := h.serial

/-- A turn keeps the system sound. -/
theorem step (h : σ.Sound) (turn : Turn) : (σ.step turn).Sound := by
  cases turn with
  | failNext errors => exact h.quiet ⟨_, σ.store.lastTransactionId, rfl⟩
  | client i =>
    have hclient : ((σ.clients i).step σ.store).2.Sound ((σ.clients i).step σ.store).1 :=
      (h.clients i).step
    rw [System.step]
    rcases (σ.clients i).step_cases σ.store with
      ⟨hcommits, hisolation, hunmoved, hstore⟩ | ⟨hcommits, hquiet⟩
    · rw [hstore] at hclient ⊢
      rw [if_pos hcommits]
      exact (h.publish hisolation hunmoved).update hclient
    · rw [if_neg (by simp [hcommits])]
      exact (h.quiet hquiet).update hclient

/-- The invariant holds after every schedule. -/
theorem after (programs : Nat → Program α) (turns : List Turn) :
    (System.after programs turns).Sound := by
  rw [System.after]
  generalize hσ : ({ clients := _ } : System α) = σ
  have h : σ.Sound := hσ ▸ start programs
  clear hσ
  induction turns generalizing σ with
  | nil => exact h
  | cons turn rest ih => exact ih _ (h.step turn)

end Sound

/-- A commit that succeeds, whatever went on before it, might as well be that of the same calls made
alone at this moment: they get the same answers and leave the same rows. And all committed rows are
those of a serial run of exactly the committed units of work, in the order of their commits. -/
theorem commits_are_serial (programs : Nat → Program α) (turns : List Turn) :
    (∀ i next u s, ((after programs turns).clients i).process = ⟨.commit next, u⟩ →
      u.isolation = .serializable → (after programs turns).store.commit u = (.ok (), s) →
      ∃ made s', (Program.unitOf ((after programs turns).clients i).calls).run
          (after programs turns).store = ((made, .ok ()), s') ∧
        List.Forall₂ Made.Agrees ((after programs turns).clients i).made made ∧ s'.SameRows s) ∧
    ∃ s, Serial (after programs turns).committed s ∧ s.SameRows (after programs turns).store := by
  have h := Sound.after programs turns
  generalize after programs turns = σ at h
  constructor
  · intro i next u s hprocess hisolation hcommit
    have hsound := h.clients i
    rw [Client.Sound, hprocess] at hsound
    rcases σ.store.commit_cases u with
      ⟨-, hfailures, hunmoved, hok⟩ | ⟨outcome, failures, hfail, he⟩
    · obtain ⟨made, s', hrun, hagrees, hrows, -⟩ :=
        (hsound hisolation).rerun hunmoved (.refl σ.store) hfailures
      obtain rfl : σ.store.publish u = s := congrArg Prod.snd (hok.symm.trans hcommit)
      exact ⟨made, s', hrun, hagrees, hrows⟩
    · obtain ⟨e, rfl⟩ := he hisolation
      cases congrArg Prod.fst (hfail.symm.trans hcommit)
  · obtain ⟨s, hserial, -, hrows⟩ := h.serial
    exact ⟨s, hserial, hrows⟩

/-- Reads the ledger row of a nullifier, writes another one and commits. -/
def rewriting (row : LedgerRow) : Program (Except StoreError Unit) :=
  .begin .serializable <| .call (.read (.nullifier row.nullifier)) fun _ =>
    .call (.save (.nullifier row)) fun _ => .commit .done

/-- Two clients that race for one ledger row: both have read and written it, and either may still
commit, but not both. -/
theorem racing_commit_is_serial :
    let row : LedgerRow := ⟨default, default, .identity, [], default, default⟩
    let programs := fun _ => rewriting row
    let σ := after programs [.client 0, .client 1, .client 0, .client 1, .client 0, .client 1]
    (∃ made s', (Program.unitOf (σ.clients 1).calls).run σ.store = ((made, .ok ()), s') ∧
        List.Forall₂ Made.Agrees (σ.clients 1).made made ∧
        s'.SameRows (σ.step (.client 1)).store) ∧
      ((σ.step (.client 1)).step (.client 0)).committed.length = 1 := by
  intro row programs σ
  have hcommit : σ.store.commit (σ.clients 1).process.unit =
      (.ok (), (σ.step (.client 1)).store) := rfl
  exact ⟨(commits_are_serial programs _).1 1 _ _ _ rfl rfl hcommit, rfl⟩

end System

end Reactions
