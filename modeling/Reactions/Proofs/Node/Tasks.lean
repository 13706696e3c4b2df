import Reactions.Node.Replay
import Reactions.Proofs.Admission.Verdict
import Reactions.Proofs.Ledger.Indexing

/-!
# The tasks of a replay, each alone

Taking a record is a matter of members and roots alone, and processing a reaction one of tallies and
ledger alone (`Replay.on_take`, `Ledger.on_index`), and each begins with a unit of work of its own.
So the work of a replay can be divided: `Replay.reading` takes all records and collects the
reactions that are handed on, and `Replay.indexing` processes those.
-/

namespace Reactions

namespace Membership

variable {feed : FeedId} {commitment : Commitment} {height : Nat} {policy : RetryPolicy}
  {clock : Clock} {count : Nat}

/-- An attempt to register a member concerns members and roots alone. -/
theorem on_tryRegister (now : Timestamp) :
    (tryRegister feed commitment height now).run.On .members := by
  refine Work.on_bind (Work.on_begin _) fun _ => Work.on_bind (Work.on_read _ rfl) fun found => ?_
  split
  · exact Work.on_pure _
  · refine Work.on_bind (Work.on_read _ rfl) fun rows => ?_
    dsimp only
    split
    · trivial
    · exact Work.on_bind (Work.on_save _ rfl) fun _ => Work.on_bind (Work.on_save _ rfl) fun _ =>
        Work.on_bind Work.on_commit fun _ => Work.on_pure _

/-- Registering a member, however often it is tried, concerns members and roots alone. -/
theorem on_register : (register policy clock feed commitment height).run.On .members :=
  Work.on_adapt _ (Work.on_retried policy fun attempt => on_tryRegister (clock attempt))

/-- Logging the root of a feed again concerns members and roots alone. -/
theorem on_updateRoot : (updateRoot policy clock feed height).run.On .members :=
  Work.on_adapt _ <| Work.on_retried policy fun _ =>
    Work.on_bind (Work.on_begin _) fun _ => Work.on_bind (Work.on_read _ rfl) fun _ =>
      Work.on_bind (Work.on_save _ rfl) fun _ => Work.on_bind Work.on_commit fun _ => Work.on_pure _

/-- Whatever an event about a member asks for is done on the members' side. -/
theorem on_handle (event : MembershipEvent) : (handle policy clock event).run.On .members := by
  rw [handle]
  cases event.kind with
  | joined | unbanned => exact Work.on_bind on_register fun _ => Work.on_pure _
  | left | banned => exact Work.on_bind on_updateRoot fun _ => Work.on_pure _

/-- The newest roots are asked for, and logged if there are none, on the members' side. -/
theorem on_recentRoots : (recentRoots policy clock feed count).run.On .members := by
  refine Work.on_bind (Work.on_begin _) fun _ => Work.on_bind (Work.on_read _ rfl) fun rows => ?_
  split
  · exact Work.on_pure _
  · refine Work.on_bind (Work.on_read _ rfl) fun members => ?_
    split
    · exact Work.on_pure _
    · exact Work.on_bind on_updateRoot fun _ => Work.on_bind (Work.on_begin _) fun _ =>
        Work.on_read _ rfl

/-- Handling an event begins with a unit of work of its own. -/
theorem opens_handle (event : MembershipEvent) : (handle policy clock event).run.Opens := by
  have hregister (commitment : Commitment) :
      (register policy clock event.feedId commitment event.blockHeight).run.Opens :=
    Work.opens_adapt _ (Work.opens_retried policy fun _ => trivial)
  have hupdate : (updateRoot policy clock event.feedId event.blockHeight).run.Opens :=
    Work.opens_adapt _ (Work.opens_retried policy fun _ => trivial)
  rw [handle]
  cases event.kind with
  | joined | unbanned => exact Work.opens_bind (hregister _) fun _ => trivial
  | left | banned => exact Work.opens_bind hupdate fun _ => trivial

end Membership

namespace Admission

variable {verifier : Verifier} {secrets : FeedSecrets} {window : Nat} {policy : RetryPolicy}
  {clock : Clock} {tx : Reaction}

/-- Admission asks for roots and for nothing on the ledger's side. -/
theorem on_verdict : (verdict verifier secrets window policy clock tx).run.On .members := by
  refine Work.on_bind ?_ fun assessed => ?_
  · rcases assess_cases verifier secrets window policy clock tx with
      ⟨outcome, -, h⟩ | ⟨nullifier, messageId, key, author, h⟩
    · rw [h]
      trivial
    · rw [assess_of_known h]
      exact Work.on_bind (Work.on_adapt _ Membership.on_recentRoots) fun _ => Work.on_pure _
  · cases assessed with
    | error rejection => exact Work.on_pure _
    | ok statements => exact Work.on_liftExcept _

/-- Admission begins with a unit of work of its own, or comes to an end without one. -/
theorem opens_verdict : (verdict verifier secrets window policy clock tx).run.Opens := by
  refine Work.opens_bind ?_ fun assessed => ?_
  · rcases assess_cases verifier secrets window policy clock tx with
      ⟨outcome, -, h⟩ | ⟨nullifier, messageId, key, author, h⟩
    · rw [h]
      trivial
    · rw [assess_of_known h]
      trivial
  · cases assessed with
    | error rejection => trivial
    | ok statements => exact Work.opens_liftExcept _

end Admission

namespace Replay

/-- Taking a record concerns members and roots alone. -/
theorem on_take (setting : Setting) (state : ReaderState) (line : Nat) (record : LogRecord) :
    (take setting state line record).On .members := by
  cases record with
  | feedKey feed key => trivial
  | message feed message author => trivial
  | membership event =>
    refine Program.on_bind (Membership.on_handle event) fun outcome => ?_
    cases outcome <;> trivial
  | reaction reaction =>
    refine Program.on_bind Admission.on_verdict fun outcome => ?_
    cases refusal? outcome <;> trivial

theorem opens_take (setting : Setting) (state : ReaderState) (line : Nat) (record : LogRecord) :
    (take setting state line record).Opens := by
  cases record with
  | feedKey feed key => trivial
  | message feed message author => trivial
  | membership event =>
    refine Program.opens_bind (Membership.opens_handle event) fun outcome => ?_
    cases outcome <;> trivial
  | reaction reaction =>
    refine Program.opens_bind Admission.opens_verdict fun outcome => ?_
    cases refusal? outcome <;> trivial

/-! ## One record -/

variable (setting : Setting)

/-- The reader after an event about a member. -/
def ReaderState.afterEvent (state : ReaderState) : Except MembershipError Unit → ReaderState
  | .ok _ => state
  | .error _ => { state with membershipFailures := state.membershipFailures + 1 }

/-- The reader after admission has come to an outcome, with the reaction if it is handed on. -/
def ReaderState.afterVerdict (state : ReaderState) (line : Nat) (reaction : IndexedReaction)
    (outcome : Except AdmissionError Verdict) : ReaderState × Option IndexedReaction :=
  match refusal? outcome with
  | none =>
    ({ state with
      seen := (reaction.transaction.feedId, reaction.transaction.messageId) :: state.seen
      admitted := state.admitted + 1 }, some reaction)
  | some (code, reason) =>
    ({ state with
      refused := ⟨line, reaction.transaction.messageId, code, reason⟩ :: state.refused }, none)

/-- An event about a member is handled, and counted if that fails. -/
theorem run_take_membership (state : ReaderState) (line : Nat) (event : MembershipEvent)
    (s : Store) :
    (take setting state line (.membership event)).run s =
      ((state.afterEvent
        ((Membership.handle setting.retry (setting.clocks line) event).run.run s).1, none),
        ((Membership.handle setting.retry (setting.clocks line) event).run.run s).2) := by
  rw [take, Program.run_bind]
  · generalize (Membership.handle setting.retry (setting.clocks line) event).run.run s = out
    obtain ⟨outcome, s'⟩ := out
    cases outcome <;> rfl
  · intro outcome
    cases outcome <;> trivial

/-- A reaction is put to admission, and then handed on or refused. -/
theorem run_take_reaction (state : ReaderState) (line : Nat) (reaction : IndexedReaction)
    (s : Store) :
    (take setting state line (.reaction reaction)).run s =
      (state.afterVerdict line reaction
        ((Admission.verdict setting.verifier state.secrets setting.rootWindow setting.retry
          (setting.clocks line) reaction.transaction).run.run s).1,
        ((Admission.verdict setting.verifier state.secrets setting.rootWindow setting.retry
          (setting.clocks line) reaction.transaction).run.run s).2) := by
  rw [take, Program.run_bind]
  · generalize (Admission.verdict setting.verifier state.secrets setting.rootWindow setting.retry
      (setting.clocks line) reaction.transaction).run.run s = out
    obtain ⟨outcome, s'⟩ := out
    rw [ReaderState.afterVerdict]
    cases refusal? outcome <;> rfl
  · intro outcome
    cases refusal? outcome <;> trivial

/-! ## All records and all reactions -/

/-- An admitted reaction, with the line that it comes from. -/
abbrev Item := Nat × IndexedReaction

/-- Takes all records and collects the reactions that are handed on. -/
def reading : ReaderState → List (Nat × LogRecord) → Program (ReaderState × List Item)
  | state, [] => return (state, [])
  | state, (line, record) :: rest => do
    let taken ← take setting state line record
    let (state, handed) ← reading taken.1 rest
    return (state, (taken.2.map (line, ·)).toList ++ handed)

/-- What is left of the reading once the record of a line is taken. -/
def readingAfter (records : List (Nat × LogRecord)) (line : Nat)
    (taken : ReaderState × Option IndexedReaction) : Program (ReaderState × List Item) := do
  let (state, handed) ← reading setting taken.1 records
  return (state, (taken.2.map (line, ·)).toList ++ handed)

/-- Processes all reactions that were handed on. -/
def indexing : Ledger.IndexStats → List Item → Program Ledger.IndexStats
  | stats, [] => return stats
  | stats, (line, reaction) :: rest => do
    indexing (← Ledger.index setting.retry (setting.clocks line) stats reaction) rest

variable {setting} {state : ReaderState} {stats : Ledger.IndexStats} {line : Nat}
  {record : LogRecord} {records : List (Nat × LogRecord)} {reaction : IndexedReaction}
  {items : List Item}

/-- Taking all records concerns members and roots alone. -/
theorem on_reading (state : ReaderState) (records : List (Nat × LogRecord)) :
    (reading setting state records).On .members := by
  induction records generalizing state with
  | nil => trivial
  | cons record rest ih =>
    exact Program.on_bind (on_take setting state _ _) fun taken =>
      Program.on_bind (ih taken.1) fun _ => trivial

theorem on_readingAfter (taken : ReaderState × Option IndexedReaction) :
    (readingAfter setting records line taken).On .members :=
  Program.on_bind (on_reading taken.1 records) fun _ => trivial

/-- Processing reactions concerns tallies and ledger alone. -/
theorem on_indexing (stats : Ledger.IndexStats) (items : List Item) :
    (indexing setting stats items).On .ledger := by
  induction items generalizing stats with
  | nil => trivial
  | cons item rest ih => exact Program.on_bind (Ledger.on_index _ _ stats _) fun stats => ih stats

/-- The reading begins with a unit of work of its own, if it needs one. -/
theorem opens_reading (state : ReaderState) (records : List (Nat × LogRecord)) :
    (reading setting state records).Opens := by
  induction records generalizing state with
  | nil => trivial
  | cons record rest ih =>
    exact Program.opens_bind (opens_take setting state _ _) fun taken =>
      Program.opens_bind (ih taken.1) fun _ => trivial

theorem opens_readingAfter (taken : ReaderState × Option IndexedReaction) :
    (readingAfter setting records line taken).Opens :=
  Program.opens_bind (opens_reading taken.1 records) fun _ => trivial

theorem opens_indexing (stats : Ledger.IndexStats) (items : List Item) :
    (indexing setting stats items).Opens := by
  induction items generalizing stats with
  | nil => trivial
  | cons item rest ih =>
    exact Program.opens_bind (Ledger.opens_index _ _ stats _) fun stats => ih stats

/-- Once a record is taken, what it hands on comes before what the others hand on. -/
theorem run_readingAfter (taken : ReaderState × Option IndexedReaction) (s : Store) :
    (readingAfter setting records line taken).run s =
      ((((reading setting taken.1 records).run s).1.1,
        (taken.2.map (line, ·)).toList ++ ((reading setting taken.1 records).run s).1.2),
        ((reading setting taken.1 records).run s).2) := by
  rw [readingAfter]
  exact Program.run_bind_pure _ _ s

/-- The first record is taken before the others, on the store as it stands. -/
theorem run_reading_cons (s : Store) :
    (reading setting state ((line, record) :: records)).run s =
      (readingAfter setting records line ((take setting state line record).run s).1).run
        ((take setting state line record).run s).2 :=
  Program.run_bind _ opens_readingAfter s

/-- The first reaction is processed before the others, on the store as it stands. -/
theorem run_indexing_cons (s : Store) :
    (indexing setting stats ((line, reaction) :: items)).run s =
      (indexing setting ((Ledger.index setting.retry (setting.clocks line) stats reaction).run s).1
        items).run ((Ledger.index setting.retry (setting.clocks line) stats reaction).run s).2 :=
  Program.run_bind _ (fun stats => opens_indexing stats items) s

/-! ## One record after the other -/

/-- What is left of a record once it is taken: the reaction that it hands on is processed. -/
def handOn (setting : Setting) (stats : Ledger.IndexStats) (line : Nat) :
    ReaderState × Option IndexedReaction → Program (ReaderState × Ledger.IndexStats)
  | (state, none) => return (state, stats)
  | (state, some reaction) =>
    return (state, ← Ledger.index setting.retry (setting.clocks line) stats reaction)

/-- A record is taken, and then what it hands on is processed. -/
theorem step_eq (states : ReaderState × Ledger.IndexStats) : step setting states (line, record) =
    take setting states.1 line record >>= handOn setting states.2 line := by
  refine bind_congr fun taken => ?_
  obtain ⟨state, reaction?⟩ := taken
  cases reaction? <;> rfl

/-- What is left of a record begins with a unit of work of its own, if it needs one. -/
theorem opens_handOn (taken : ReaderState × Option IndexedReaction) :
    (handOn setting stats line taken).Opens := by
  obtain ⟨state, reaction?⟩ := taken
  cases reaction? with
  | none => trivial
  | some reaction => exact Program.opens_bind (Ledger.opens_index _ _ _ _) fun _ => trivial

/-- A record is dealt with by taking it and then processing what it hands on. -/
theorem run_step (states : ReaderState × Ledger.IndexStats) (s : Store) :
    (step setting states (line, record)).run s =
      (handOn setting states.2 line ((take setting states.1 line record).run s).1).run
        ((take setting states.1 line record).run s).2 := by
  rw [step_eq, Program.run_bind _ opens_handOn]

/-- A reaction that is handed on is processed, and the reader stays as it is. -/
theorem run_handOn_some (s : Store) : (handOn setting stats line (state, some reaction)).run s =
    ((state, ((Ledger.index setting.retry (setting.clocks line) stats reaction).run s).1),
      ((Ledger.index setting.retry (setting.clocks line) stats reaction).run s).2) := by
  rw [handOn]
  exact Program.run_bind_pure _ _ s

/-- Dealing with records one after the other begins with a unit of its own, if it needs one. -/
theorem opens_foldlM_step (states : ReaderState × Ledger.IndexStats)
    (records : List (Nat × LogRecord)) : (records.foldlM (step setting) states).Opens := by
  induction records generalizing states with
  | nil => trivial
  | cons record rest ih =>
    rw [List.foldlM_cons, step_eq]
    exact Program.opens_bind (Program.opens_bind (opens_take _ _ _ _) opens_handOn) ih

theorem opens_mapM_tallies (groups : List (FeedId × List MessageId)) :
    (groups.mapM fun (feed, messages) => Ledger.tallies feed messages).Opens := by
  induction groups with
  | nil => trivial
  | cons group rest ih =>
    rw [List.mapM_cons]
    exact Program.opens_bind trivial fun _ => Program.opens_bind ih fun _ => trivial

theorem opens_report (states : ReaderState × Ledger.IndexStats) : (report states).Opens :=
  Program.opens_bind (Program.opens_bind (opens_mapM_tallies _) fun _ => trivial) fun _ => trivial

/-- The first record is dealt with completely before the others. -/
theorem run_foldlM_step_cons (states : ReaderState × Ledger.IndexStats) (record : Nat × LogRecord)
    (s : Store) :
    ((record :: records).foldlM (step setting) states).run s =
      (records.foldlM (step setting) ((step setting states record).run s).1).run
        ((step setting states record).run s).2 := by
  rw [List.foldlM_cons, Program.run_bind _ fun states => opens_foldlM_step states records]

/-- A replay deals with all records and then puts the report together. -/
theorem run_replay (s : Store) : (replay setting records).run s =
    (report ((records.foldlM (step setting) ({}, {})).run s).1).run
      ((records.foldlM (step setting) ({}, {})).run s).2 :=
  Program.run_bind _ opens_report s

end Replay

end Reactions
