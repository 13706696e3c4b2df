import Reactions.Proofs.Ledger.Attempt

/-!
# Histories of a ledger

A ledger starts empty and then takes reactions one after the other, each under a retry policy and a
clock of its own, while commits may be made to fail at any time. `History.of` is the state after
such events, together with the reactions that were accepted. One event either changes no row or
records one accepted reaction (`History.step_cases`), so whatever holds at the beginning and is kept
by both holds in every history (`History.extend_induction`).
-/

namespace Reactions.Ledger

/-- What happens to a ledger: a reaction is submitted, or the next commits are made to fail. -/
inductive Event
  | submit (policy : RetryPolicy) (clock : Clock) (tx : Reaction) (height : Nat)
  | failNext (errors : List StoreError)

/-- The reaction that an event submits. -/
def Event.reaction? : Event → Option Reaction
  | .submit _ _ tx _ => some tx
  | .failNext _ => none

/-- The reactions that are submitted, accepted or not. -/
def submitted (events : List Event) : List Reaction := events.filterMap Event.reaction?

/-- The state of a ledger with the reactions that it has accepted, the last one first. -/
structure History where
  store : Store := .empty
  accepted : List Reaction := []

namespace History

/-- The history after one more event. -/
def step (h : History) : Event → History
  | .submit policy clock tx height =>
    match (process policy clock tx height).run.run h.store with
    | (.ok _, store) => ⟨store, tx :: h.accepted⟩
    | (.error _, store) => ⟨store, h.accepted⟩
  | .failNext errors => { h with store := h.store.failNextCommits errors }

/-- The history after more events. -/
def extend (h : History) (events : List Event) : History := events.foldl step h

/-- The history of events from the beginning. -/
def of (events : List Event) : History := extend {} events

/-- Later events extend the history of the others. -/
theorem of_append (events more : List Event) : of (events ++ more) = (of events).extend more :=
  List.foldl_append

/-- The reaction that was accepted last under a nullifier. -/
def latest? (h : History) (nullifier : Nullifier) : Option Reaction :=
  h.accepted.find? (·.nullifier = nullifier)

/-- The last accepted reaction of a nullifier is the latest one. -/
theorem latest?_cons (s : Store) (tx : Reaction) (accepted : List Reaction)
    (nullifier : Nullifier) :
    latest? ⟨s, tx :: accepted⟩ nullifier =
      if tx.nullifier = nullifier then some tx else latest? ⟨s, accepted⟩ nullifier := by
  by_cases h : tx.nullifier = nullifier <;> simp [latest?, h]

/-- An event leaves all rows as they are, or records the reaction that it submits. -/
theorem step_cases (h : History) (e : Event) :
    (∃ s, h.store.Quiet s ∧ h.step e = { h with store := s }) ∨
    ∃ tx height now kind tally row s, e.reaction? = some tx ∧ h.store.Quiet s ∧
      Accepts s tx now kind tally row ∧
      h.step e = ⟨s.record tally row (nextAudit s tx height now), tx :: h.accepted⟩ := by
  cases e with
  | failNext errors =>
    exact .inl ⟨_, ⟨_, h.store.lastTransactionId, rfl⟩, rfl⟩
  | submit policy clock tx height =>
    rcases process_cases policy clock tx height h.store with
      ⟨e, s, hrun, hquiet⟩ | ⟨attempt, kind, tally, row, s, hquiet, haccepts, hrun⟩
    · refine .inl ⟨s, hquiet, ?_⟩
      rw [step, hrun]
    · rw [← accepts_iff, ← judge_quiet hquiet, accepts_iff] at haccepts
      refine .inr ⟨tx, height, clock attempt, kind, tally, row, s, rfl, hquiet, haccepts, ?_⟩
      rw [step, hrun]

/-- What holds of a history holds of all that extend it, if it does not depend on what no row
depends on and is kept whenever an accepted reaction is recorded. Of the reactions it may be assumed
what is true of all that are submitted. -/
theorem extend_induction {P : History → Prop} {Q : Reaction → Prop} {h : History}
    {events : List Event} (hsubmitted : ∀ tx ∈ submitted events, Q tx) (hstart : P h)
    (hquiet : ∀ h s, P h → h.store.Quiet s → P { h with store := s })
    (hrecord : ∀ h tx height now kind tally row, P h → Q tx →
      Accepts h.store tx now kind tally row →
      P ⟨h.store.record tally row (nextAudit h.store tx height now), tx :: h.accepted⟩) :
    P (h.extend events) := by
  induction events generalizing h with
  | nil => exact hstart
  | cons e rest ih =>
    refine ih (fun tx htx => hsubmitted tx ?_) ?_
    · cases he : e.reaction? with
      | none => rwa [submitted, List.filterMap_cons_none he]
      | some tx' => rw [submitted, List.filterMap_cons_some he]; exact .tail _ htx
    · rcases h.step_cases e with
        ⟨s, hs, hstep⟩ | ⟨tx, height, now, kind, tally, row, s, he, hs, haccepts, hstep⟩
      · rw [hstep]
        exact hquiet h s hstart hs
      · rw [hstep]
        refine hrecord { h with store := s } tx height now kind tally row (hquiet h s hstart hs)
          (hsubmitted tx ?_) haccepts
        rw [submitted, List.filterMap_cons_some he]
        exact .head _

/-- What is accepted was submitted. -/
theorem forall_accepted {Q : Reaction → Prop} {events : List Event}
    (hsubmitted : ∀ tx ∈ submitted events, Q tx) : ∀ tx ∈ (of events).accepted, Q tx := by
  refine extend_induction (P := fun h => ∀ tx ∈ h.accepted, Q tx) hsubmitted
    (fun tx htx => nomatch htx) (fun h s haccepted _ => haccepted)
    fun h tx height now kind tally row haccepted htx _ => ?_
  exact List.forall_mem_cons.2 ⟨htx, haccepted⟩

end History

end Reactions.Ledger
