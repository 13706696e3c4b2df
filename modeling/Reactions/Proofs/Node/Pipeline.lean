import Reactions.Proofs.Node.Tasks

/-!
# The reader and the indexer at the same time

A replay is two tasks on one store. The reader takes the records of the log in order and sends the
reactions that it admits into a queue; the indexer receives them from the queue and processes them.
The queue is first in, first out and holds at most `queueCapacity` reactions, so the reader may have
to wait for the indexer, and the indexer for the reader. A schedule says whose step comes next,
where a step is one call to the store, or one reaction sent or received (`Pipeline.after`).

The reader keeps to the members' side of the store and the indexer to the ledger's, so no schedule
makes a difference: whenever both have come to their ends, the reader has what it would have come to
alone, and the indexer what it would have come to alone with all that the reader has handed on
(`Pipeline.finished_eq`). One of the schedules is the one on which each record is dealt with
completely before the next is read (`exists_schedule`), and every schedule can be carried on until
both have come to their ends (`exists_finish`).
-/

namespace Reactions

namespace Replay

variable {setting : Setting}

/-! ## The two tasks -/

/-- The task that takes the records of a log. -/
inductive Reader
  /-- Before the next record. -/
  | ready (state : ReaderState)
  /-- At work on the record of a line. -/
  | taking (line : Nat) (process : Process (ReaderState × Option IndexedReaction))
  /-- About to send a reaction. -/
  | sending (state : ReaderState) (item : Item)

/-- The reader once a record is taken: a reaction that is handed on has to be sent. -/
def Reader.taken (line : Nat) : ReaderState × Option IndexedReaction → Reader
  | (state, none) => .ready state
  | (state, some reaction) => .sending state (line, reaction)

/-- The task that processes reactions. -/
inductive Indexer
  /-- Before the next reaction. -/
  | ready (stats : Ledger.IndexStats)
  /-- At work on a reaction. -/
  | processing (process : Process Ledger.IndexStats)

/-- The number of reactions that the queue has room for. -/
def queueCapacity : Nat := 256

/-- A replay on its way. -/
structure Pipeline where
  store : Store := .empty
  /-- The records that are not read yet. -/
  records : List (Nat × LogRecord)
  reader : Reader := .ready {}
  /-- The reactions that are sent and not received yet, the first one first. -/
  queue : List Item := []
  indexer : Indexer := .ready {}

/-- The tasks of a replay. -/
inductive Task
  | reader
  | indexer

namespace Pipeline

/-- The reader's next step. At the end of the log it has none, and while the queue is full it cannot
send. -/
def stepReader (setting : Setting) (σ : Pipeline) : Pipeline :=
  match σ.reader with
  | .ready state =>
    match σ.records with
    | [] => σ
    | (line, record) :: rest =>
      { σ with records := rest, reader := .taking line ⟨take setting state line record, default⟩ }
  | .taking line process =>
    match process.program.result? with
    | some taken => { σ with reader := .taken line taken }
    | none =>
      { σ with
        store := (process.step σ.store).1
        reader := .taking line (process.step σ.store).2 }
  | .sending state item =>
    if σ.queue.length < queueCapacity then
      { σ with reader := .ready state, queue := σ.queue ++ [item] }
    else σ

/-- The indexer's next step. While the queue is empty it has none. -/
def stepIndexer (setting : Setting) (σ : Pipeline) : Pipeline :=
  match σ.indexer with
  | .ready stats =>
    match σ.queue with
    | [] => σ
    | (line, reaction) :: rest =>
      { σ with
        queue := rest
        indexer := .processing
          ⟨Ledger.index setting.retry (setting.clocks line) stats reaction, default⟩ }
  | .processing process =>
    match process.program.result? with
    | some stats => { σ with indexer := .ready stats }
    | none =>
      { σ with
        store := (process.step σ.store).1
        indexer := .processing (process.step σ.store).2 }

/-- One step of a task. -/
def step (setting : Setting) (σ : Pipeline) : Task → Pipeline
  | .reader => σ.stepReader setting
  | .indexer => σ.stepIndexer setting

/-- The replay of a log on a schedule, from an empty store. -/
def after (setting : Setting) (records : List (Nat × LogRecord)) (schedule : List Task) :
    Pipeline :=
  schedule.foldl (step setting) { records }

/-- Both tasks have come to their ends. -/
structure Finished (σ : Pipeline) (states : ReaderState × Ledger.IndexStats) : Prop where
  records : σ.records = []
  reader : σ.reader = .ready states.1
  queue : σ.queue = []
  indexer : σ.indexer = .ready states.2

end Pipeline

/-! ## What the tasks come to -/

namespace Reader

/-- The open unit of work. -/
def unit : Reader → UnitOfWork
  | .taking _ process => process.unit
  | _ => default

/-- What is left of the reading, with the records that are not read yet. -/
def rest (setting : Setting) (records : List (Nat × LogRecord)) :
    Reader → Program (ReaderState × List Item)
  | .ready state => reading setting state records
  | .taking line process => process.program >>= readingAfter setting records line
  | .sending state item => readingAfter setting records item.1 (state, some item.2)

/-- What the reader comes to alone. -/
def out (setting : Setting) (s : Store) (records : List (Nat × LogRecord)) (reader : Reader) :
    (ReaderState × List Item) × Store :=
  (reader.rest setting records).runIn reader.unit s

/-- The reader keeps to its side. -/
def Within (s : Store) : Reader → Prop
  | .taking _ process => process.Within .members s
  | _ => True

variable {s t : Store} {records : List (Nat × LogRecord)} {reader : Reader} {state : ReaderState}
  {item : Item} {line : Nat} {process : Process (ReaderState × Option IndexedReaction)}

/-- What is left of the reading concerns members and roots alone. -/
theorem Within.on_rest (h : reader.Within s) (setting : Setting)
    (records : List (Nat × LogRecord)) : (reader.rest setting records).On .members := by
  cases reader with
  | ready state => exact on_reading state records
  | taking line process =>
    exact Program.on_bind (Process.Within.program h) fun taken => on_readingAfter taken
  | sending state item => exact on_readingAfter _

/-- The reader's unit of work keeps to the members' side. -/
theorem Within.within_unit (h : reader.Within s) : reader.unit.Within .members s := by
  cases reader with
  | ready state => exact .opened .readOnly
  | taking line process => exact Process.Within.unit h
  | sending state item => exact .opened .readOnly

/-- The reader goes on keeping to its side when the ledger's side changes. -/
theorem Within.untouched (h : reader.Within s) (ht : s.Untouched t .members) : reader.Within t := by
  cases reader with
  | ready state => trivial
  | taking line process => exact ⟨h.program, h.unit.untouched ht⟩
  | sending state item => trivial

/-- What is about to be sent comes before all that is still to be taken. -/
theorem out_sending : (sending state item).out setting s records =
    ((((ready state).out setting s records).1.1,
      item :: ((ready state).out setting s records).1.2),
        ((ready state).out setting s records).2) :=
  run_readingAfter _ s

/-- Once a record is taken, what is left is the reading of the others. -/
theorem out_taken (taken : ReaderState × Option IndexedReaction) :
    (Reader.taken line taken).out setting s records =
      (readingAfter setting records line taken).run s := by
  obtain ⟨state, reaction?⟩ := taken
  cases reaction? with
  | none => exact (run_readingAfter (state, none) s).symm
  | some reaction => rfl

/-- A record is taken before the others are read. -/
theorem out_taking : (taking line process).out setting s records =
    (readingAfter setting records line (process.program.runIn process.unit s).1).run
      (process.program.runIn process.unit s).2 :=
  Program.runIn_bind _ (fun taken => opens_readingAfter taken) process.unit s

/-- Between two calls to the store the reader keeps to its side. -/
theorem within_taken (line : Nat) (taken : ReaderState × Option IndexedReaction) :
    (Reader.taken line taken).Within s := by
  obtain ⟨state, reaction?⟩ := taken
  cases reaction? <;> trivial

/-- What happens on the other side makes no difference. -/
theorem Within.out_untouched (h : reader.Within s) (ht : s.Untouched t .members)
    (hfailures : s.failures = []) :
    (reader.out setting s records).1 = (reader.out setting t records).1 ∧
      (reader.out setting s records).2.SameOn (reader.out setting t records).2 .members :=
  h.within_unit.runIn_untouched (h.on_rest setting records) ht hfailures

end Reader

namespace Indexer

/-- The open unit of work. -/
def unit : Indexer → UnitOfWork
  | .ready _ => default
  | .processing process => process.unit

/-- What is left of the indexing, with the reactions that are not received yet. -/
def rest (setting : Setting) (items : List Item) : Indexer → Program Ledger.IndexStats
  | .ready stats => indexing setting stats items
  | .processing process => process.program >>= fun stats => indexing setting stats items

/-- What the indexer comes to alone. -/
def out (setting : Setting) (s : Store) (items : List Item) (indexer : Indexer) :
    Ledger.IndexStats × Store :=
  (indexer.rest setting items).runIn indexer.unit s

/-- The indexer keeps to its side. -/
def Within (s : Store) : Indexer → Prop
  | .ready _ => True
  | .processing process => process.Within .ledger s

variable {s t : Store} {items : List Item} {indexer : Indexer}
  {process : Process Ledger.IndexStats}

/-- What is left of the indexing concerns tallies and ledger alone. -/
theorem Within.on_rest (h : indexer.Within s) (setting : Setting) (items : List Item) :
    (indexer.rest setting items).On .ledger := by
  cases indexer with
  | ready stats => exact on_indexing stats items
  | processing process =>
    exact Program.on_bind (Process.Within.program h) fun stats => on_indexing stats items

/-- The indexer's unit of work keeps to the ledger's side. -/
theorem Within.within_unit (h : indexer.Within s) : indexer.unit.Within .ledger s := by
  cases indexer with
  | ready stats => exact .opened .readOnly
  | processing process => exact Process.Within.unit h

/-- The indexer goes on keeping to its side when the members' side changes. -/
theorem Within.untouched (h : indexer.Within s) (ht : s.Untouched t .ledger) :
    indexer.Within t := by
  cases indexer with
  | ready stats => trivial
  | processing process => exact ⟨h.program, h.unit.untouched ht⟩

/-- A reaction is processed before those in the queue. -/
theorem out_processing : (processing process).out setting s items =
    (indexing setting (process.program.runIn process.unit s).1 items).run
      (process.program.runIn process.unit s).2 :=
  Program.runIn_bind _ (fun stats => opens_indexing stats items) process.unit s

/-- What happens on the other side makes no difference. -/
theorem Within.out_untouched (h : indexer.Within s) (ht : s.Untouched t .ledger)
    (hfailures : s.failures = []) :
    (indexer.out setting s items).1 = (indexer.out setting t items).1 ∧
      (indexer.out setting s items).2.SameOn (indexer.out setting t items).2 .ledger :=
  h.within_unit.runIn_untouched (h.on_rest setting items) ht hfailures

end Indexer

/-! ## No schedule makes a difference -/

namespace Pipeline

/-- What a replay comes to: what the reader comes to alone, and what the indexer comes to alone with
the reactions in the queue and those that are still to be sent. On each side the rows are those of a
given store. -/
structure Leads (setting : Setting) (states : ReaderState × Ledger.IndexStats)
    (members ledger : Store) (σ : Pipeline) : Prop where
  failures : σ.store.failures = []
  reader : σ.reader.Within σ.store
  indexer : σ.indexer.Within σ.store
  outcome : ∃ later s s',
    σ.reader.out setting σ.store σ.records = ((states.1, later), s) ∧ s.SameOn members .members ∧
    σ.indexer.out setting σ.store (σ.queue ++ later) = (states.2, s') ∧ s'.SameOn ledger .ledger

variable {states : ReaderState × Ledger.IndexStats} {members ledger : Store} {σ : Pipeline}

/-- At the start, each task is to come to what it would come to alone. -/
theorem Leads.start (setting : Setting) (records : List (Nat × LogRecord)) :
    Leads setting
      (((reading setting {} records).run .empty).1.1,
        ((indexing setting {} ((reading setting {} records).run .empty).1.2).run .empty).1)
      ((reading setting {} records).run .empty).2
      ((indexing setting {} ((reading setting {} records).run .empty).1.2).run .empty).2
      { records } where
  failures := rfl
  reader := trivial
  indexer := trivial
  outcome := ⟨_, _, _, rfl, .refl _ _, rfl, .refl _ _⟩

/-- A step of the reader's process is part of what the reader comes to, and touches nothing on the
other side. -/
theorem Leads.step_taking (h : Leads setting states members ledger σ) {line : Nat}
    {process : Process (ReaderState × Option IndexedReaction)}
    (hreader : σ.reader = .taking line process) :
    Leads setting states members ledger { σ with
      store := (process.step σ.store).1
      reader := .taking line (process.step σ.store).2 } := by
  have hprocess : process.Within .members σ.store := by
    have hwithin := h.reader
    rwa [hreader] at hwithin
  have huntouched : σ.store.Untouched (process.step σ.store).1 .ledger :=
    hprocess.untouched_step h.failures (by decide)
  obtain ⟨later, s, s', hread, hmembers, hindexed, hledger⟩ := h.outcome
  obtain ⟨houtcome, hrows⟩ := h.indexer.out_untouched huntouched h.failures
  refine ⟨huntouched.failures.trans h.failures, hprocess.step, h.indexer.untouched huntouched,
    later, s, _, ?_, hmembers, Prod.ext ?_ rfl, ?_⟩
  · rw [hreader, Reader.out_taking] at hread
    rw [Reader.out_taking, Process.runIn_step, hread]
  · rw [← houtcome, hindexed]
  · rw [hindexed] at hrows
    exact hrows.symm.trans hledger

/-- A step of the indexer's process likewise. -/
theorem Leads.step_processing (h : Leads setting states members ledger σ)
    {process : Process Ledger.IndexStats} (hindexer : σ.indexer = .processing process) :
    Leads setting states members ledger { σ with
      store := (process.step σ.store).1
      indexer := .processing (process.step σ.store).2 } := by
  have hprocess : process.Within .ledger σ.store := by
    have hwithin := h.indexer
    rwa [hindexer] at hwithin
  have huntouched : σ.store.Untouched (process.step σ.store).1 .members :=
    hprocess.untouched_step h.failures (by decide)
  obtain ⟨later, s, s', hread, hmembers, hindexed, hledger⟩ := h.outcome
  obtain ⟨houtcome, hrows⟩ := h.reader.out_untouched huntouched h.failures
  refine ⟨huntouched.failures.trans h.failures, h.reader.untouched huntouched, hprocess.step,
    later, _, s', Prod.ext ?_ rfl, ?_, ?_, hledger⟩
  · rw [← houtcome, hread]
  · rw [hread] at hrows
    exact hrows.symm.trans hmembers
  · rw [hindexer, Indexer.out_processing] at hindexed
    rw [Indexer.out_processing, Process.runIn_step, hindexed]

/-- A step of the reader between two calls to the store. -/
theorem Leads.step_reader_of_out (h : Leads setting states members ledger σ) {reader : Reader}
    {records : List (Nat × LogRecord)} (hwithin : reader.Within σ.store)
    (hout : reader.out setting σ.store records = σ.reader.out setting σ.store σ.records) :
    Leads setting states members ledger { σ with records, reader } where
  failures := h.failures
  reader := hwithin
  indexer := h.indexer
  outcome := by
    obtain ⟨later, s, s', hread, hrest⟩ := h.outcome
    exact ⟨later, s, s', hout.trans hread, hrest⟩

/-- What is sent was still to be sent before, and is in the queue now. -/
theorem Leads.step_sending (h : Leads setting states members ledger σ) {state : ReaderState}
    {item : Item} (hreader : σ.reader = .sending state item) :
    Leads setting states members ledger
      { σ with reader := .ready state, queue := σ.queue ++ [item] } where
  failures := h.failures
  reader := trivial
  indexer := h.indexer
  outcome := by
    obtain ⟨later, s, s', hread, hmembers, hindexed, hledger⟩ := h.outcome
    rw [hreader, Reader.out_sending] at hread
    rcases hready : (Reader.ready state).out setting σ.store σ.records with ⟨⟨state', rest⟩, t⟩
    rw [hready] at hread
    cases hread
    refine ⟨rest, t, s', rfl, hmembers, ?_, hledger⟩
    rw [List.append_assoc]
    exact hindexed

/-- Whatever the reader's next step is, both tasks still come to the same. -/
theorem Leads.step_reader (h : Leads setting states members ledger σ) :
    Leads setting states members ledger (σ.stepReader setting) := by
  rw [stepReader]
  cases hreader : σ.reader with
  | ready state =>
    cases hrecords : σ.records with
    | nil => exact h
    | cons record rest =>
      refine h.step_reader_of_out (.start (on_take setting state _ _)) ?_
      rw [hreader, hrecords]
      rfl
  | taking line process =>
    dsimp only
    cases hresult : process.program.result? with
    | some taken =>
      refine h.step_reader_of_out (Reader.within_taken line taken) ?_
      rw [hreader, Reader.out_taking, Reader.out_taken, Program.eq_done hresult]
      rfl
    | none => exact h.step_taking hreader
  | sending state item =>
    dsimp only
    split
    · exact h.step_sending hreader
    · exact h

/-- Whatever the indexer's next step is, both tasks still come to the same. -/
theorem Leads.step_indexer (h : Leads setting states members ledger σ) :
    Leads setting states members ledger (σ.stepIndexer setting) := by
  obtain ⟨later, s, s', hread, hmembers, hindexed, hledger⟩ := h.outcome
  rw [stepIndexer]
  cases hindexer : σ.indexer with
  | ready stats =>
    cases hqueue : σ.queue with
    | nil => exact h
    | cons item rest =>
      refine ⟨h.failures, h.reader, .start (Ledger.on_index _ _ stats _), later, s, s', hread,
        hmembers, ?_, hledger⟩
      rw [hindexer, hqueue] at hindexed
      exact hindexed
  | processing process =>
    dsimp only
    cases hresult : process.program.result? with
    | some stats =>
      refine ⟨h.failures, h.reader, trivial, later, s, s', hread, hmembers, ?_, hledger⟩
      rw [hindexer, Indexer.out_processing, Program.eq_done hresult] at hindexed
      exact hindexed
    | none => exact h.step_processing hindexer

/-- On every schedule, both tasks are on the way to what they would have come to alone. -/
theorem Leads.after (setting : Setting) (records : List (Nat × LogRecord)) (schedule : List Task) :
    Leads setting
      (((reading setting {} records).run .empty).1.1,
        ((indexing setting {} ((reading setting {} records).run .empty).1.2).run .empty).1)
      ((reading setting {} records).run .empty).2
      ((indexing setting {} ((reading setting {} records).run .empty).1.2).run .empty).2
      (after setting records schedule) := by
  have h := Leads.start setting records
  rw [Pipeline.after]
  generalize ({ records } : Pipeline) = σ at h
  induction schedule generalizing σ with
  | nil => exact h
  | cons task rest ih =>
    refine ih _ ?_
    cases task with
    | reader => exact h.step_reader
    | indexer => exact h.step_indexer

/-- Whenever both tasks have come to their ends, each has what it would have come to alone. -/
theorem finished_eq {records : List (Nat × LogRecord)} {schedule : List Task}
    (h : (Pipeline.after setting records schedule).Finished states) :
    let read := (reading setting {} records).run .empty
    let indexed := (indexing setting {} read.1.2).run .empty
    states = (read.1.1, indexed.1) ∧
      (Pipeline.after setting records schedule).store.SameOn read.2 .members ∧
      (Pipeline.after setting records schedule).store.SameOn indexed.2 .ledger := by
  obtain ⟨later, s, s', hread, hmembers, hindexed, hledger⟩ :=
    (Leads.after setting records schedule).outcome
  rw [h.reader, h.records] at hread
  obtain rfl : [] = later := congrArg (·.1.2) hread
  obtain rfl : _ = s := congrArg Prod.snd hread
  rw [h.indexer, h.queue] at hindexed
  obtain rfl : _ = s' := congrArg Prod.snd hindexed
  exact ⟨Prod.ext (congrArg (·.1.1) hread) (congrArg Prod.fst hindexed), hmembers, hledger⟩

/-! ## One record after the other is a schedule -/

/-- Some schedule leads from one state of a replay to another. -/
def Reaches (setting : Setting) (σ σ' : Pipeline) : Prop :=
  ∃ schedule : List Task, schedule.foldl (step setting) σ = σ'

theorem Reaches.refl (setting : Setting) (σ : Pipeline) : Reaches setting σ σ := ⟨[], rfl⟩

theorem Reaches.trans {σ' σ'' : Pipeline} (h : Reaches setting σ σ')
    (h' : Reaches setting σ' σ'') : Reaches setting σ σ'' := by
  obtain ⟨schedule, rfl⟩ := h
  obtain ⟨schedule', rfl⟩ := h'
  exact ⟨schedule ++ schedule', List.foldl_append⟩

/-- One step of the reader is a schedule. -/
theorem Reaches.of_reader {σ' : Pipeline} (h : σ.stepReader setting = σ') :
    Reaches setting σ σ' := ⟨[.reader], h⟩

/-- One step of the indexer is a schedule. -/
theorem Reaches.of_indexer {σ' : Pipeline} (h : σ.stepIndexer setting = σ') :
    Reaches setting σ σ' := ⟨[.indexer], h⟩

/-- The reader makes its next call to the store. -/
theorem reaches_taking {line : Nat} {process : Process (ReaderState × Option IndexedReaction)}
    (hreader : σ.reader = .taking line process) (hresult : process.program.result? = none) :
    Reaches setting σ { σ with
      store := (process.step σ.store).1
      reader := .taking line (process.step σ.store).2 } :=
  .of_reader (by simp only [stepReader, hreader, hresult])

/-- The indexer makes its next call to the store. -/
theorem reaches_processing {process : Process Ledger.IndexStats}
    (hindexer : σ.indexer = .processing process) (hresult : process.program.result? = none) :
    Reaches setting σ { σ with
      store := (process.step σ.store).1
      indexer := .processing (process.step σ.store).2 } :=
  .of_indexer (by simp only [stepIndexer, hindexer, hresult])

/-- Left alone, the reader carries the record that it is at work on to the end. -/
theorem reaches_taken (p : Program (ReaderState × Option IndexedReaction)) (u : UnitOfWork)
    (line : Nat) (σ : Pipeline) (hreader : σ.reader = .taking line ⟨p, u⟩) :
    Reaches setting σ { σ with
      store := (p.runIn u σ.store).2
      reader := .taken line (p.runIn u σ.store).1 } := by
  induction p generalizing u σ with
  | done taken => exact .of_reader (by simp only [stepReader, hreader, Program.result?]; rfl)
  | begin isolation next ih => exact (reaches_taking hreader rfl).trans (ih _ _ rfl)
  | call c next ih => exact (reaches_taking hreader rfl).trans (ih _ _ _ rfl)
  | commit next ih => exact (reaches_taking hreader rfl).trans (ih _ _ _ rfl)
  | wait ms next ih => exact (reaches_taking hreader rfl).trans (ih _ _ rfl)

/-- Left alone, the indexer carries the reaction that it is at work on to the end. -/
theorem reaches_processed (p : Program Ledger.IndexStats) (u : UnitOfWork) (σ : Pipeline)
    (hindexer : σ.indexer = .processing ⟨p, u⟩) :
    Reaches setting σ { σ with
      store := (p.runIn u σ.store).2
      indexer := .ready (p.runIn u σ.store).1 } := by
  induction p generalizing u σ with
  | done stats => exact .of_indexer (by simp only [stepIndexer, hindexer, Program.result?]; rfl)
  | begin isolation next ih => exact (reaches_processing hindexer rfl).trans (ih _ _ rfl)
  | call c next ih => exact (reaches_processing hindexer rfl).trans (ih _ _ _ rfl)
  | commit next ih => exact (reaches_processing hindexer rfl).trans (ih _ _ _ rfl)
  | wait ms next ih => exact (reaches_processing hindexer rfl).trans (ih _ _ rfl)

/-- A replay between two records, with nothing in the queue. -/
def between (s : Store) (records : List (Nat × LogRecord))
    (states : ReaderState × Ledger.IndexStats) : Pipeline where
  store := s
  records
  reader := .ready states.1
  indexer := .ready states.2

/-- Dealing with a record completely is a schedule. -/
theorem reaches_step (s : Store) (record : Nat × LogRecord) (rest : List (Nat × LogRecord))
    (states : ReaderState × Ledger.IndexStats) :
    Reaches setting (between s (record :: rest) states)
      (between ((Replay.step setting states record).run s).2 rest
        ((Replay.step setting states record).run s).1) := by
  obtain ⟨line, record⟩ := record
  obtain ⟨state, stats⟩ := states
  rw [run_step]
  have htaken : Reaches setting (between s ((line, record) :: rest) (state, stats))
      { between ((take setting state line record).run s).2 rest (state, stats) with
        reader := .taken line ((take setting state line record).run s).1 } :=
    .trans (.of_reader rfl) (reaches_taken _ _ line _ rfl)
  refine htaken.trans ?_
  rcases (take setting state line record).run s with ⟨⟨state', reaction?⟩, s'⟩
  cases reaction? with
  | none => exact .refl setting _
  | some reaction =>
    rw [run_handOn_some]
    exact .trans (.of_reader rfl) (.trans (.of_indexer rfl) (reaches_processed _ _ _ rfl))

/-- Dealing with all records one after the other is a schedule. -/
theorem reaches_end (setting : Setting) (s : Store) (records : List (Nat × LogRecord))
    (states : ReaderState × Ledger.IndexStats) :
    Reaches setting (between s records states)
      (between ((records.foldlM (Replay.step setting) states).run s).2 []
        ((records.foldlM (Replay.step setting) states).run s).1) := by
  induction records generalizing s states with
  | nil => exact .refl setting _
  | cons record rest ih =>
    rw [run_foldlM_step_cons]
    exact (reaches_step s record rest states).trans (ih _ _)

/-- Dealing with each record completely before the next one is read is a schedule. -/
theorem exists_schedule (setting : Setting) (records : List (Nat × LogRecord)) :
    ∃ schedule states, (Pipeline.after setting records schedule).Finished states ∧
      (replay setting records).run .empty =
        (report states).run (Pipeline.after setting records schedule).store := by
  obtain ⟨schedule, hschedule⟩ := reaches_end setting .empty records ({}, {})
  refine ⟨schedule, ((records.foldlM (Replay.step setting) ({}, {})).run .empty).1, ?_, ?_⟩
  · rw [Pipeline.after]
    change (schedule.foldl (step setting) (between .empty records ({}, {}))).Finished _
    rw [hschedule]
    exact ⟨rfl, rfl, rfl, rfl⟩
  · rw [run_replay, Pipeline.after]
    change _ =
      (report _).run (schedule.foldl (step setting) (between .empty records ({}, {}))).store
    rw [hschedule]
    rfl

/-! ## Every schedule can be carried on to the end -/

/-- Left alone between two reactions, the indexer processes all that is in the queue. -/
theorem reaches_drained_of_ready (s : Store) (records : List (Nat × LogRecord)) (reader : Reader)
    (queue : List Item) (stats : Ledger.IndexStats) : ∃ s' stats',
      Reaches setting ⟨s, records, reader, queue, .ready stats⟩
        ⟨s', records, reader, [], .ready stats'⟩ := by
  induction queue generalizing s stats with
  | nil => exact ⟨s, stats, .refl setting _⟩
  | cons item rest ih =>
    obtain ⟨s', stats', hrest⟩ := ih _ _
    exact ⟨s', stats', .trans (.of_indexer rfl) (.trans (reaches_processed _ _ _ rfl) hrest)⟩

/-- Left alone, the indexer ends what it is at work on, and processes all that is in the queue. -/
theorem reaches_drained (setting : Setting) (σ : Pipeline) : ∃ s stats,
    Reaches setting σ ⟨s, σ.records, σ.reader, [], .ready stats⟩ := by
  obtain ⟨s, records, reader, queue, indexer⟩ := σ
  cases indexer with
  | ready stats => exact reaches_drained_of_ready s records reader queue stats
  | processing process =>
    obtain ⟨s', stats, hdrained⟩ := reaches_drained_of_ready _ records reader queue _
    exact ⟨s', stats, (reaches_processed process.program process.unit _ rfl).trans hdrained⟩

/-- Left alone, the reader takes records ahead of the indexer, as many as the queue has room for. -/
theorem reaches_read (front rest : List (Nat × LogRecord)) (s : Store) (state : ReaderState)
    (queue : List Item) (indexer : Indexer)
    (hroom : queue.length + ((reading setting state front).run s).1.2.length ≤ queueCapacity) :
    Reaches setting ⟨s, front ++ rest, .ready state, queue, indexer⟩
      ⟨((reading setting state front).run s).2, rest,
        .ready ((reading setting state front).run s).1.1,
        queue ++ ((reading setting state front).run s).1.2, indexer⟩ := by
  induction front generalizing s state queue with
  | nil =>
    rw [show queue ++ ((reading setting state []).run s).1.2 = queue from List.append_nil queue]
    exact .refl setting _
  | cons record front ih =>
    obtain ⟨line, record⟩ := record
    rw [run_reading_cons, run_readingAfter] at hroom ⊢
    refine .trans (.of_reader rfl) (.trans (reaches_taken _ _ line _ rfl) ?_)
    change Reaches setting ⟨((take setting state line record).run s).2, front ++ rest,
      .taken line ((take setting state line record).run s).1, queue, indexer⟩ _
    generalize (take setting state line record).run s = out at hroom ⊢
    obtain ⟨⟨state', reaction?⟩, s'⟩ := out
    cases reaction? with
    | none => exact ih s' state' queue hroom
    | some reaction =>
      dsimp only [Option.map_some, Option.toList_some, List.singleton_append] at hroom ⊢
      rw [List.length_cons] at hroom
      have hqueue : queue.length < queueCapacity := by omega
      have hsent : Reaches setting
          ⟨s', front ++ rest, .sending state' (line, reaction), queue, indexer⟩
          ⟨s', front ++ rest, .ready state', queue ++ [(line, reaction)], indexer⟩ :=
        .of_reader (if_pos hqueue)
      rw [List.append_cons]
      refine hsent.trans (ih s' state' _ ?_)
      rw [List.length_append, List.length_singleton]
      omega

/-- Left alone, the indexer makes room, and the reader sends what it is about to send. -/
theorem reaches_sent (s : Store) (records : List (Nat × LogRecord)) (state : ReaderState)
    (item : Item) (stats : Ledger.IndexStats) : ∃ s' states,
      Reaches setting ⟨s, records, .sending state item, [], .ready stats⟩
        (between s' records states) := by
  obtain ⟨s', stats', hdrained⟩ := reaches_drained_of_ready s records (.ready state) [item] stats
  exact ⟨s', (state, stats'), .trans (.of_reader rfl) hdrained⟩

/-- Whatever the tasks are at, both can come to stand between two records. -/
theorem reaches_between (setting : Setting) (σ : Pipeline) : ∃ s states,
    Reaches setting σ (between s σ.records states) := by
  obtain ⟨s, stats, hdrained⟩ := reaches_drained setting σ
  obtain ⟨s₀, records, reader, queue, indexer⟩ := σ
  cases reader with
  | ready state => exact ⟨s, (state, stats), hdrained⟩
  | taking line process =>
    have htaken : Reaches setting _ ⟨(process.program.runIn process.unit s).2, records,
        .taken line (process.program.runIn process.unit s).1, [], .ready stats⟩ :=
      hdrained.trans (reaches_taken process.program process.unit line _ rfl)
    generalize process.program.runIn process.unit s = out at htaken
    obtain ⟨⟨state, reaction?⟩, s'⟩ := out
    cases reaction? with
    | none => exact ⟨s', (state, stats), htaken⟩
    | some reaction =>
      obtain ⟨s'', states, hsent⟩ := reaches_sent s' records state (line, reaction) stats
      exact ⟨s'', states, htaken.trans hsent⟩
  | sending state item =>
    obtain ⟨s', states, hsent⟩ := reaches_sent s records state item stats
    exact ⟨s', states, hdrained.trans hsent⟩

/-- Whatever schedule the tasks have been on, on some further steps both come to their ends. -/
theorem exists_finish (setting : Setting) (records : List (Nat × LogRecord))
    (schedule : List Task) : ∃ later states,
      (Pipeline.after setting records (schedule ++ later)).Finished states := by
  obtain ⟨s, states, hbetween⟩ := reaches_between setting (Pipeline.after setting records schedule)
  obtain ⟨later, hlater⟩ := hbetween.trans (reaches_end setting s _ states)
  refine ⟨later, ?_⟩
  rw [Pipeline.after, List.foldl_append, ← Pipeline.after, hlater]
  exact ⟨_, rfl, rfl, rfl, rfl⟩

end Pipeline

end Replay

end Reactions
