import Mathlib.Data.List.Forall2
import Reactions.Proofs.Store.Frame
import Reactions.Store.Program

/-!
# Transcripts of units of work

A transcript lists the calls that a unit of work has made with the answers they got, the last one
first. It tells what the unit has pending (`writesOf`, `auditOf`) and which keys it has touched
(`touchedBy`), so whether a store would give the same answers again can be said without the unit:
`AnsweredBy`. Making the calls of a transcript again, alone on a store that would answer them the
same way, gives answers that agree with it (`Made.Agrees`) and publishes the same rows
(`run_unitOf`, `AnsweredBy.agrees`, `Store.SameRows.publish`).
-/

namespace Reactions

/-- A call that a unit of work has made, with its answer. -/
structure Made where
  call : Call
  answer : call.Answer

namespace Made

/-- Two calls agree: they are the same call with the same answer. The numbers of audit rows are not
compared, nor are reads of the audit log. -/
inductive Agrees : Made → Made → Prop
  | same (made : Made) : Agrees made made
  | numbered (row : AuditRow) (id id' : Nat) :
    Agrees ⟨.append row, .ok { row with id }⟩ ⟨.append row, .ok { row with id := id' }⟩
  | untracked (message : MessageId) (rows rows' : List AuditRow) :
    Agrees ⟨.read (.transactions message), rows⟩ ⟨.read (.transactions message), rows'⟩

end Made

/-! ## What a transcript says -/

/-- The writes that calls leave pending, the last one first. -/
def writesOf (made : List Made) : List Write :=
  made.filterMap fun
    | ⟨.save write, _⟩ => some write
    | _ => none

/-- The audit rows that calls leave pending, the last one first. -/
def auditOf (made : List Made) : List AuditRow :=
  made.filterMap fun
    | ⟨.append _, .ok row⟩ => some row
    | _ => none

/-- A unit of work with some writes pending. -/
def UnitOfWork.holding (writes : List Write) : UnitOfWork := { isolation := .serializable, writes }

/-- The keys that calls have touched. -/
def touchedBy : List Made → List RowKey
  | [] => []
  | ⟨.read q, _⟩ :: rest => (UnitOfWork.holding (writesOf rest)).touched q ++ touchedBy rest
  | _ :: rest => touchedBy rest

/-- Every answer in a transcript is the one that a store gives, where the numbers of audit rows may
be any and reads of the audit log may say anything. -/
def AnsweredBy (s : Store) : List Made → Prop
  | [] => True
  | ⟨.read q, answer⟩ :: rest =>
    (q.Tracked → answer = (UnitOfWork.holding (writesOf rest)).answer s q) ∧ AnsweredBy s rest
  | ⟨.save _, answer⟩ :: rest => answer = .ok () ∧ AnsweredBy s rest
  | ⟨.append row, answer⟩ :: rest => (∃ id, answer = .ok { row with id }) ∧ AnsweredBy s rest

/-- A store that has the same rows under all keys that were touched gives the same answers. -/
theorem AnsweredBy.congr {s s' : Store} {made : List Made} (h : AnsweredBy s made)
    (hkeys : ∀ key ∈ touchedBy made, s.AgreesAt s' key) : AnsweredBy s' made := by
  induction made with
  | nil => trivial
  | cons m rest ih =>
    obtain ⟨call, answer⟩ := m
    cases call with
    | read q =>
      refine ⟨fun hq => ?_, ih h.2 fun key hk => hkeys key (List.mem_append_right _ hk)⟩
      rw [h.1 hq]
      exact UnitOfWork.answer_congr rfl hq fun key hk => hkeys key (List.mem_append_left _ hk)
    | save write => exact ⟨h.1, ih h.2 hkeys⟩
    | append row => exact ⟨h.1, ih h.2 hkeys⟩

/-- Two transcripts of the same calls that one store answers agree, and leave the same rows pending,
the numbers of audit rows aside. -/
theorem AnsweredBy.agrees {s : Store} {made made' : List Made} (h : AnsweredBy s made)
    (h' : AnsweredBy s made') (hcalls : made.map Made.call = made'.map Made.call) :
    List.Forall₂ Made.Agrees made made' ∧ writesOf made = writesOf made' ∧
      (auditOf made).map AuditRow.unnumbered = (auditOf made').map AuditRow.unnumbered := by
  induction made generalizing made' with
  | nil =>
    obtain rfl := List.map_eq_nil_iff.1 hcalls.symm
    exact ⟨.nil, rfl, rfl⟩
  | cons m rest ih =>
    obtain ⟨m', rest', rfl, hm, hrest⟩ := List.map_eq_cons_iff.1 hcalls.symm
    obtain ⟨call, answer⟩ := m
    obtain ⟨call', answer'⟩ := m'
    obtain rfl : call' = call := hm
    cases call' with
    | read q =>
      obtain ⟨hagree, hwrites, haudit⟩ := ih h.2 h'.2 hrest.symm
      refine ⟨.cons ?_ hagree, hwrites, haudit⟩
      cases q with
      | transactions message => exact .untracked message _ _
      | _ => rw [h.1 trivial, h'.1 trivial, hwrites]; exact .same _
    | save write =>
      obtain ⟨hagree, hwrites, haudit⟩ := ih h.2 h'.2 hrest.symm
      rw [h.1, h'.1]
      exact ⟨.cons (.same _) hagree, congrArg (write :: ·) hwrites, haudit⟩
    | append row =>
      obtain ⟨hagree, hwrites, haudit⟩ := ih h.2 h'.2 hrest.symm
      obtain ⟨⟨id, rfl⟩, -⟩ := h
      obtain ⟨⟨id', rfl⟩, -⟩ := h'
      exact ⟨.cons (.numbered row id id') hagree, hwrites, congrArg (row.unnumbered :: ·) haudit⟩

/-! ## Units of work and their transcripts -/

namespace UnitOfWork

/-- A unit of work that may write has made the calls of a transcript: it holds what they left
pending, and remembers a version of everything they touched. -/
structure Follows (u : UnitOfWork) (made : List Made) : Prop where
  isolation : u.isolation = .serializable
  writes : u.writes = writesOf made
  audit : u.audit = auditOf made
  touched : ∀ key ∈ touchedBy made, ∃ seen, u.reads.get? key = some seen

theorem follows_opened : (opened .serializable).Follows [] where
  isolation := rfl
  writes := rfl
  audit := rfl
  touched := by simp [touchedBy]

/-- What a call does: at most the number of the last audit row changes in the store, and what the
unit remembers grows by keys at their present versions. -/
structure Performed (s s' : Store) (u u' : UnitOfWork) : Prop where
  store : ∃ id, s' = { s with lastTransactionId := id }
  kept : ∀ key seen, u.reads.get? key = some seen → u'.reads.get? key = some seen
  fresh : ∀ key seen, u'.reads.get? key = some seen →
    u.reads.get? key = some seen ∨ seen = s.version key

variable {u : UnitOfWork} {made : List Made}

/-- A call extends the transcript by itself and its answer, which is the one that the store gives at
the time. -/
theorem Follows.perform (h : u.Follows made) (s : Store) (call : Call) :
    Performed s (u.perform s call).2.1 u (u.perform s call).2.2 ∧
      (u.perform s call).2.2.Follows (⟨call, (u.perform s call).1⟩ :: made) ∧
      (AnsweredBy s made → AnsweredBy s (⟨call, (u.perform s call).1⟩ :: made)) := by
  obtain ⟨hisolation, hwrites, haudit, htouched⟩ := h
  cases call with
  | read q =>
    have hholding : u.writes = (holding (writesOf made)).writes := hwrites
    refine ⟨⟨⟨_, rfl⟩, fun key seen hseen => ?_, fun key seen hseen => ?_⟩,
      ⟨?_, ?_, ?_, fun key hkey => ?_⟩, fun hmade => ⟨fun hq => ?_, hmade⟩⟩
    · simp only [UnitOfWork.perform, read, get?_foldl_touch, hseen, Option.some_or]
    · simp only [UnitOfWork.perform, read, get?_foldl_touch] at hseen
      cases hold : u.reads.get? key with
      | some v => rw [hold, Option.some_or] at hseen; exact .inl hseen
      | none =>
        rw [hold, Option.none_or] at hseen
        split at hseen
        · exact .inr (Option.some.inj hseen).symm
        · cases hseen
    · exact (isolation_touch s u _).trans hisolation
    · exact (writes_touch s u _).trans hwrites
    · exact (audit_touch s u _).trans haudit
    · simp only [UnitOfWork.perform, read, get?_foldl_touch]
      rw [touchedBy, ← touched_congr hholding, List.mem_append] at hkey
      rcases hkey with hkey | hkey
      · cases u.reads.get? key with
        | some v => exact ⟨v, rfl⟩
        | none => exact ⟨s.version key, by simp [hkey]⟩
      · obtain ⟨v, hv⟩ := htouched key hkey
        exact ⟨v, by rw [hv, Option.some_or]⟩
    · exact answer_congr hholding hq fun key _ => .refl s key
  | save write =>
    rw [perform_save_of_serializable hisolation]
    exact ⟨⟨⟨_, rfl⟩, fun _ _ h => h, fun _ _ h => .inl h⟩,
      ⟨hisolation, congrArg (write :: ·) hwrites, haudit, htouched⟩, fun hmade => ⟨rfl, hmade⟩⟩
  | append row =>
    rw [perform_append_of_serializable hisolation]
    exact ⟨⟨⟨_, rfl⟩, fun _ _ h => h, fun _ _ h => .inl h⟩,
      ⟨hisolation, hwrites, congrArg (_ :: ·) haudit, htouched⟩, fun hmade => ⟨⟨_, rfl⟩, hmade⟩⟩

end UnitOfWork

/-! ## Making the calls again -/

namespace Program

/-- Makes calls in the open unit of work and commits it. `made` has the calls made so far. -/
def makeAll : List Call → (made : List Made) → Program (List Made × Except StoreError Unit)
  | [], made => .commit fun outcome => .done (made, outcome)
  | c :: rest, made => .call c fun answer => makeAll rest (⟨c, answer⟩ :: made)

/-- The program that makes calls in a unit of work of its own and commits it. It ends with the
transcript of the unit and the outcome of the commit. -/
def unitOf (calls : List Call) : Program (List Made × Except StoreError Unit) :=
  .begin .serializable (makeAll calls [])

/-- Calls that are made alone on a store lead to a commit, from whatever point on, if the unit of
work has not moved so far and no commit is made to fail. -/
theorem runIn_makeAll (calls : List Call) {made : List Made} {u : UnitOfWork} {s : Store}
    (hu : u.Follows made) (hmade : AnsweredBy s made) (hfailures : s.failures = [])
    (hreads : ∀ key seen, u.reads.get? key = some seen → s.version key = seen) :
    ∃ made' u' id, (makeAll calls made).runIn u s =
        ((made', .ok ()), { s with lastTransactionId := id }.publish u') ∧
      u'.Follows made' ∧ AnsweredBy s made' ∧
      made'.map Made.call = calls.reverse ++ made.map Made.call := by
  induction calls generalizing made u s with
  | nil =>
    have hcommit := Store.commit_of_unmoved hu.isolation hfailures (Store.unmoved_iff.2 hreads)
    refine ⟨made, u, s.lastTransactionId, ?_, hu, hmade, rfl⟩
    rw [makeAll, runIn, hcommit]
    rfl
  | cons c rest ih =>
    obtain ⟨⟨⟨id, hstore⟩, -, hfresh⟩, hfollows, hans⟩ := hu.perform s c
    have hquiet : s.Quiet { s with lastTransactionId := id } := ⟨s.failures, id, rfl⟩
    rw [makeAll, runIn]
    generalize u.perform s c = result at hstore hfresh hfollows hans
    obtain ⟨answer, s', u'⟩ := result
    obtain rfl := hstore
    obtain ⟨made', u'', id', hrun, hfollows', hmade', hcalls⟩ :=
      ih (s := { s with lastTransactionId := id }) hfollows
        ((hans hmade).congr fun key _ => hquiet.agreesAt key) hfailures
        fun key seen hseen => (hfresh key seen hseen).elim (hreads key seen) Eq.symm
    refine ⟨made', u'', id', hrun, hfollows',
      hmade'.congr fun key _ => hquiet.symm.agreesAt key, ?_⟩
    rw [hcalls, List.map_cons, List.reverse_cons, List.append_assoc, List.singleton_append]

/-- Calls made alone on a store that makes no commit fail are answered by that store and lead to a
commit. -/
theorem run_unitOf (calls : List Call) {s : Store} (hfailures : s.failures = []) :
    ∃ made u id, (unitOf calls).run s =
        ((made, .ok ()), { s with lastTransactionId := id }.publish u) ∧
      u.Follows made ∧ AnsweredBy s made ∧ made.map Made.call = calls.reverse := by
  have h := runIn_makeAll calls UnitOfWork.follows_opened trivial hfailures fun _ _ h => nomatch h
  simpa [unitOf, run, runIn] using h

end Program

end Reactions
