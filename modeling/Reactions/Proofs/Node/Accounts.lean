import Mathlib.Algebra.BigOperators.Group.List.Basic
import Reactions.Node.Run
import Reactions.Proofs.Basic
import Reactions.Proofs.Bytes.Encoding
import Reactions.Proofs.Node.HandedOn
import Reactions.Proofs.Node.Pipeline

/-!
# The report of a replay adds up

What a report says is counted in three places. The reader counts the reactions that it hands on and
lists those that it refuses; the indexer counts what comes of those handed on; and the tallies count
votes and versions themselves. All of them agree, and the tallies reported are all that there are,
each once and in order (`Accounts`): a tally belongs to a message that was handed on under its feed,
and is not found under any other feed that the message was handed on under.
-/

namespace Reactions

namespace Replay

variable {setting : Setting} {state : ReaderState} {records : List (Nat × LogRecord)}
  {items : List Item} {stats : Ledger.IndexStats} {s : Store}

/-! ## The reader's counts -/

/-- The message of a reaction, with its feed. -/
def Item.message (item : Item) : FeedId × MessageId :=
  (item.2.transaction.feedId, item.2.transaction.messageId)

/-- The reader's counts go from one state to another while it comes upon some number of reactions
and hands on some of them. -/
structure Counted (state : ReaderState) (reactions : Nat) (handed : List Item)
    (state' : ReaderState) : Prop where
  admitted : state'.admitted = state.admitted + handed.length
  refused : state'.refused.length + handed.length = state.refused.length + reactions
  seen : state'.seen = (handed.map Item.message).reverse ++ state.seen

/-- What the reader counts on two stretches of a log adds up. -/
theorem Counted.trans {state state' state'' : ReaderState} {m n : Nat} {handed handed' : List Item}
    (h : Counted state m handed state') (h' : Counted state' n handed' state'') :
    Counted state (m + n) (handed ++ handed') state'' where
  admitted := by
    rw [h'.admitted, h.admitted, List.length_append]
    omega
  refused := by
    have hfirst := h.refused
    have hsecond := h'.refused
    rw [List.length_append]
    omega
  seen := by
    rw [h'.seen, h.seen, List.map_append, List.reverse_append, List.append_assoc]

/-- A reaction is either handed on and counted, or refused and listed. -/
theorem counted_afterVerdict (state : ReaderState) (line : Nat) (reaction : IndexedReaction)
    (outcome : Except AdmissionError Verdict) :
    Counted state 1 ((state.afterVerdict line reaction outcome).2.map (line, ·)).toList
      (state.afterVerdict line reaction outcome).1 := by
  rw [ReaderState.afterVerdict]
  cases refusal? outcome with
  | none => exact ⟨rfl, rfl, rfl⟩
  | some refusal => exact ⟨rfl, rfl, rfl⟩

/-- A record counts as one reaction or as none. -/
theorem counted_take (state : ReaderState) (line : Nat) (record : LogRecord) (s : Store) :
    Counted state record.reaction?.toList.length
      (((take setting state line record).run s).1.2.map (line, ·)).toList
      ((take setting state line record).run s).1.1 := by
  cases record with
  | feedKey feed key => exact ⟨rfl, rfl, rfl⟩
  | message feed message author => exact ⟨rfl, rfl, rfl⟩
  | membership event =>
    rw [run_take_membership]
    cases ((Membership.handle setting.retry (setting.clocks line) event).run.run s).1 with
    | ok => exact ⟨rfl, rfl, rfl⟩
    | error => exact ⟨rfl, rfl, rfl⟩
  | reaction reaction =>
    rw [run_take_reaction]
    exact counted_afterVerdict state line reaction _

/-- Of the reactions of a log, those that are handed on are counted and remembered, and the others
are refused. -/
theorem counted_reading (setting : Setting) (state : ReaderState) (records : List (Nat × LogRecord))
    (s : Store) :
    Counted state (records.filterMap (·.2.reaction?)).length
      ((reading setting state records).run s).1.2 ((reading setting state records).run s).1.1 := by
  induction records generalizing state s with
  | nil => exact ⟨rfl, rfl, rfl⟩
  | cons record rest ih =>
    obtain ⟨line, record⟩ := record
    have hreactions : (((line, record) :: rest).filterMap (·.2.reaction?)).length =
        record.reaction?.toList.length + (rest.filterMap (·.2.reaction?)).length := by
      cases hrecord : record.reaction? with
      | none => simp [hrecord]
      | some reaction => simp [hrecord, Nat.add_comm]
    rw [run_reading_cons, run_readingAfter, hreactions]
    exact (counted_take state line record s).trans (ih _ _)

/-! ## The indexer's counts -/

/-- The indexer counts each reaction once. -/
theorem total_indexing (setting : Setting) (stats : Ledger.IndexStats) (items : List Item)
    (s : Store) :
    ((indexing setting stats items).run s).1.total = stats.total + items.length := by
  induction items generalizing stats s with
  | nil => rfl
  | cons item rest ih =>
    rw [run_indexing_cons, ih, Ledger.total_index, List.length_cons]
    omega

/-- The indexer's counts go on agreeing with those of the tallies. -/
theorem counts_indexing (h : stats.Counts s) (items : List Item) :
    ((indexing setting stats items).run s).1.Counts ((indexing setting stats items).run s).2 := by
  induction items generalizing stats s with
  | nil => exact h
  | cons item rest ih =>
    rw [run_indexing_cons]
    exact ih h.index

/-- A tally is an old one, or belongs to a message that was handed on, under the feed that it was
handed on under. -/
theorem mem_tallies_indexing {t : Tally}
    (h : t ∈ ((indexing setting stats items).run s).2.tallies.rows) :
    (t.feedId, t.messageId) ∈ items.map Item.message ∨ t ∈ s.tallies.rows := by
  induction items generalizing stats s with
  | nil => exact .inr h
  | cons item rest ih =>
    rw [run_indexing_cons] at h
    rcases ih h with hmem | hold
    · exact .inl (.tail _ hmem)
    · rcases Ledger.mem_tallies_index hold with hkey | hold
      · exact .inl (hkey ▸ .head _)
      · exact .inr hold

/-! ## The order of messages -/

/-- Feeds come before each other by their bytes, and messages of one feed likewise. -/
def Before (a b : FeedId × MessageId) : Prop :=
  a.1.word.toNat < b.1.word.toNat ∨ a.1 = b.1 ∧ a.2.word.toNat < b.2.word.toNat

/-- Messages come in the order of their feeds, and of their own bytes under one feed. -/
theorem precedes_iff {a b : FeedId × MessageId} : precedes a b = true ↔
    a.1.word.toNat < b.1.word.toNat ∨
      a.1.word.toNat = b.1.word.toNat ∧ a.2.word.toNat ≤ b.2.word.toNat := by
  rw [precedes, Ordering.isLE_then_iff_or]
  exact or_congr Nat.compare_eq_lt (and_congr Nat.compare_eq_eq Nat.isLE_compare)

/-- Of two messages in order, the first comes before the other unless they are the same. -/
theorem Before.of_precedes {a b : FeedId × MessageId} (h : precedes a b = true) (hne : a ≠ b) :
    Before a b := by
  obtain ⟨⟨feed⟩, ⟨message⟩⟩ := a
  obtain ⟨⟨feed'⟩, ⟨message'⟩⟩ := b
  rcases precedes_iff.1 h with hfeed | ⟨hfeed, hmessage⟩
  · exact .inl hfeed
  · obtain rfl := Bytes32.toNat_injective hfeed
    refine .inr ⟨rfl, lt_of_le_of_ne hmessage fun heq => hne ?_⟩
    obtain rfl := Bytes32.toNat_injective heq
    rfl

/-- Putting messages in order loses none and adds none. -/
theorem mem_ordered {seen : List (FeedId × MessageId)} {message : FeedId × MessageId} :
    message ∈ ordered seen ↔ message ∈ seen := by
  rw [ordered, List.mem_mergeSort, List.mem_eraseDups]

/-- Every message is listed once under each of its feeds, in order. -/
theorem pairwise_ordered (seen : List (FeedId × MessageId)) : (ordered seen).Pairwise Before := by
  have hnodup : (ordered seen).Nodup :=
    ((List.mergeSort_perm _ _).nodup_iff).2 (nodup_eraseDups seen)
  have hsorted : (ordered seen).Pairwise fun a b => precedes a b = true := by
    refine List.pairwise_mergeSort ?_ ?_ _
    · intro a b c hab hbc
      rw [precedes_iff] at hab hbc ⊢
      omega
    · intro a b
      rw [Bool.or_eq_true, precedes_iff, precedes_iff]
      omega
  exact (hsorted.and hnodup).imp fun h => .of_precedes h.1 h.2

/-! ## The messages of each feed -/

/-- Gathering messages under their feeds keeps them all, in order. -/
theorem flatMap_byFeed (messages : List (FeedId × MessageId)) :
    (byFeed messages).flatMap (fun group => group.2.map (group.1, ·)) = messages := by
  induction messages with
  | nil => rfl
  | cons head rest ih =>
    obtain ⟨feed, message⟩ := head
    rw [byFeed]
    split
    · rename_i hrest
      rw [hrest] at ih
      rw [← ih]
      rfl
    · rename_i feed' messages groups hrest
      rw [hrest] at ih
      split
      · rename_i hfeed
        rw [← ih, hfeed]
        rfl
      · rw [← ih]
        rfl

/-- The first feed is that of the first message. -/
theorem head?_byFeed (messages : List (FeedId × MessageId)) :
    (byFeed messages).head?.map Prod.fst = messages.head?.map Prod.fst := by
  cases messages with
  | nil => rfl
  | cons head rest =>
    rw [byFeed]
    split
    · rfl
    · split <;> rfl

/-- No feed is asked about twice: if messages are in order then so are their feeds, each once. -/
theorem pairwise_byFeed {messages : List (FeedId × MessageId)} (h : messages.Pairwise Before) :
    ((byFeed messages).map fun group => group.1.word.toNat).Pairwise (· < ·) := by
  induction messages with
  | nil => exact .nil
  | cons head rest ih =>
    obtain ⟨feed, message⟩ := head
    obtain ⟨hfirst, hrest⟩ := List.pairwise_cons.1 h
    have hfeeds := ih hrest
    rw [byFeed]
    split
    · exact List.pairwise_singleton _ _
    · rename_i feed' messages groups hgroups
      rw [hgroups] at hfeeds
      split
      · rename_i hfeed
        rw [hfeed]
        exact hfeeds
      · rename_i hfeed
        -- the next feed is that of the next message, and it is another one
        have hhead := head?_byFeed rest
        rw [hgroups] at hhead
        obtain ⟨next, hnext, hnextFeed : next.1 = feed'⟩ := Option.map_eq_some_iff.1 hhead.symm
        have hlt : feed.word.toNat < feed'.word.toNat := by
          rcases hfirst next (List.mem_of_head? hnext) with hlt | ⟨heq, -⟩
          · rwa [hnextFeed] at hlt
          · exact absurd (heq.trans hnextFeed) hfeed
        refine List.pairwise_cons.2 ⟨fun n hn => ?_, hfeeds⟩
        rcases List.mem_cons.1 hn with rfl | hn
        · exact hlt
        · exact hlt.trans ((List.pairwise_cons.1 hfeeds).1 n hn)

/-! ## The tallies that are reported -/

/-- The tally of a message, if it belongs to the feed. -/
def tallyUnder (s : Store) (message : FeedId × MessageId) : Option Tally :=
  (s.tallies.find? message.2).filter (·.feedId = message.1)

/-- A tally is listed under a feed and a message if it is a row with both. -/
theorem tallyUnder_eq_some_iff {message : FeedId × MessageId} {t : Tally} :
    tallyUnder s message = some t ↔
      t ∈ s.tallies.rows ∧ (t.feedId, t.messageId) = message := by
  obtain ⟨feed, message⟩ := message
  rw [tallyUnder, Option.filter_eq_some_iff, Table.find?_eq_some_iff, Prod.mk.injEq,
    decide_eq_true_eq]
  tauto

/-- The tallies of some messages under one feed. -/
theorem run_tallies (feed : FeedId) (messages : List MessageId) (s : Store) :
    (Ledger.tallies feed messages).run s =
      (messages.filterMap fun message => tallyUnder s (feed, message), s) := by
  have hanswer : ((UnitOfWork.opened .readOnly).answer s (.tallies feed messages)) =
      messages.filterMap fun message => tallyUnder s (feed, message) := by
    rw [UnitOfWork.answer, List.filter_filterMap]
    rfl
  exact Prod.ext hanswer rfl

/-- The tallies under several feeds are asked for without a change to the store. -/
theorem run_mapM_tallies (groups : List (FeedId × List MessageId)) (s : Store) :
    (groups.mapM fun (feed, messages) => Ledger.tallies feed messages).run s =
      (groups.map fun group => group.2.filterMap fun message => tallyUnder s (group.1, message),
        s) := by
  induction groups with
  | nil => rfl
  | cons group rest ih =>
    rw [List.mapM_cons, Program.run_bind, run_tallies, Program.run_bind_pure, ih]
    · rfl
    · exact fun _ => Program.opens_bind (opens_mapM_tallies rest) fun _ => trivial

/-- Asking for the tallies of each feed's messages at once gives the tallies of all messages, each
under its feed. -/
theorem run_talliesOf (messages : List (FeedId × MessageId)) (s : Store) :
    (talliesOf messages).run s = (messages.filterMap (tallyUnder s), s) := by
  have hgroups : (byFeed messages).flatMap
      (fun group => group.2.filterMap fun message => tallyUnder s (group.1, message)) =
      messages.filterMap (tallyUnder s) := by
    conv_rhs => rw [← flatMap_byFeed messages, List.filterMap_flatMap]
    exact List.flatMap_congr fun group _ => by rw [List.filterMap_map]; rfl
  rw [talliesOf, Program.run_bind_pure, run_mapM_tallies, ← List.flatMap_def, hgroups]

/-- A report is put together from what both tasks came to, without a change to the store. -/
theorem run_report (states : ReaderState × Ledger.IndexStats) (s : Store) :
    (report states).run s = ({
      admitted := states.1.admitted
      refused := states.1.refused.reverse
      membershipFailures := states.1.membershipFailures
      indexer := states.2
      tallies := (ordered states.1.seen).filterMap (tallyUnder s) }, s) := by
  rw [report, Program.run_bind_pure, run_talliesOf]

/-- If every tally belongs to a message that was seen under the tally's feed, then all tallies are
listed, each once and in order. -/
theorem listed_tallies {seen : List (FeedId × MessageId)}
    (h : ∀ t ∈ s.tallies.rows, (t.feedId, t.messageId) ∈ seen) :
    let tallies := (ordered seen).filterMap (tallyUnder s)
    tallies.Perm s.tallies.rows ∧
      (tallies.map fun t => (t.feedId, t.messageId)).Pairwise Before := by
  intro tallies
  have hsorted : (tallies.map fun t => (t.feedId, t.messageId)).Pairwise Before := by
    rw [List.pairwise_map, List.pairwise_filterMap]
    refine (pairwise_ordered seen).imp fun hbefore t ht t' ht' => ?_
    rw [(tallyUnder_eq_some_iff.1 ht).2, (tallyUnder_eq_some_iff.1 ht').2]
    exact hbefore
  refine ⟨(List.perm_ext_iff_of_nodup ?_ (List.Nodup.of_map _ s.tallies.nodup)).2 fun t => ?_,
    hsorted⟩
  · refine List.Nodup.of_map _ (hsorted.imp fun {a b} hbefore (heq : a = b) => ?_)
    rcases hbefore with hfeed | ⟨-, hmessage⟩
    · exact absurd (heq ▸ hfeed) (Nat.lt_irrefl _)
    · exact absurd (heq ▸ hmessage) (Nat.lt_irrefl _)
  · rw [List.mem_filterMap]
    constructor
    · rintro ⟨message, -, ht⟩
      exact (tallyUnder_eq_some_iff.1 ht).1
    · intro ht
      exact ⟨_, mem_ordered.2 (h t ht), tallyUnder_eq_some_iff.2 ⟨ht, rfl⟩⟩

/-! ## The report -/

/-- The report on a log adds up, and agrees with the store at the end. -/
structure Accounts (records : List (Nat × LogRecord)) (report : ReplayReport) (s : Store) :
    Prop where
  /-- Every reaction of the log is admitted or refused. -/
  reactions : (records.filterMap (·.2.reaction?)).length = report.admitted + report.refused.length
  /-- Every admitted reaction is a new vote, an update, or failed. -/
  admitted : report.admitted =
    report.indexer.newVotes + report.indexer.updates + report.indexer.failed
  totalCounts : (report.tallies.map (·.totalCount)).sum = report.indexer.newVotes
  versions : (report.tallies.map (·.version)).sum =
    report.indexer.newVotes + report.indexer.updates
  /-- The tallies are those of the store. -/
  tallies : report.tallies.Perm s.tallies.rows
  messages : (report.tallies.map (·.messageId)).Nodup
  sorted : (report.tallies.map fun t => (t.feedId, t.messageId)).Pairwise Before

/-- Whatever the schedule, the report adds up. -/
theorem accounts_of_finished {schedule : List Task} {states : ReaderState × Ledger.IndexStats}
    (h : (Pipeline.after setting records schedule).Finished states) :
    Accounts records
      ((report states).run (Pipeline.after setting records schedule).store).1
      (Pipeline.after setting records schedule).store := by
  obtain ⟨rfl, -, htallies, -⟩ := Pipeline.finished_eq h
  clear h
  generalize (Pipeline.after setting records schedule).store = s at htallies ⊢
  have hread := counted_reading setting {} records .empty
  generalize (reading setting {} records).run .empty = read at hread htallies ⊢
  have htotal := total_indexing setting {} read.1.2 .empty
  have hcounts : ((indexing setting {} read.1.2).run .empty).1.Counts
      ((indexing setting {} read.1.2).run .empty).2 := counts_indexing ⟨rfl, rfl⟩ read.1.2
  have hseen : ∀ t ∈ s.tallies.rows, (t.feedId, t.messageId) ∈ read.1.1.seen := by
    intro t ht
    rw [htallies] at ht
    rcases mem_tallies_indexing ht with hmem | hempty
    · rw [hread.seen, List.mem_append, List.mem_reverse]
      exact .inl hmem
    · cases hempty
  have hcounts : ((indexing setting {} read.1.2).run .empty).1.Counts s :=
    ⟨htallies ▸ hcounts.totalCounts, htallies ▸ hcounts.versions⟩
  generalize ((indexing setting {} read.1.2).run .empty).1 = stats at htotal hcounts ⊢
  obtain ⟨hlisted, hsorted⟩ := listed_tallies hseen
  have hadmitted : read.1.1.admitted = read.1.2.length :=
    hread.admitted.trans (Nat.zero_add _)
  have hrefused : read.1.1.refused.length + read.1.2.length =
      (records.filterMap (·.2.reaction?)).length := hread.refused.trans (Nat.zero_add _)
  have htotal : stats.newVotes + stats.updates + stats.failed = read.1.2.length :=
    htotal.trans (Nat.zero_add _)
  rw [run_report]
  refine ⟨?_, ?_, ?_, ?_, hlisted, ?_, hsorted⟩
  · change _ = read.1.1.admitted + read.1.1.refused.reverse.length
    rw [List.length_reverse]
    omega
  · exact hadmitted.trans htotal.symm
  · rw [(hlisted.map _).sum_eq]
    exact hcounts.totalCounts
  · rw [(hlisted.map _).sum_eq]
    exact hcounts.versions
  · exact ((hlisted.map _).nodup_iff).2 s.tallies.nodup

/-- What a replay comes to, by the reactions that its reader hands on. -/
theorem run_replay_of_handed {handed : List Item}
    (h : ((reading setting {} records).run .empty).1.2 = handed) :
    ∃ report s, (replay setting records).run .empty = (report, s) ∧
      report.admitted = handed.length ∧
      report.refused.length + handed.length = (records.filterMap (·.2.reaction?)).length ∧
      report.indexer = ((indexing setting {} handed).run .empty).1 ∧
      s.SameOn ((indexing setting {} handed).run .empty).2 .ledger := by
  obtain ⟨schedule, states, hfinished, hrun⟩ := Pipeline.exists_schedule setting records
  obtain ⟨rfl, -, hledger⟩ := Pipeline.finished_eq hfinished
  have hcounted := counted_reading setting {} records .empty
  rw [h] at hledger hcounted
  refine ⟨_, _, hrun.trans (run_report _ _), ?_, ?_, ?_, hledger⟩
  · exact hcounted.admitted.trans (Nat.zero_add _)
  · have hrefused := hcounted.refused
    rw [← List.length_reverse] at hrefused
    exact hrefused.trans (Nat.zero_add _)
  · rw [h]

end Replay

namespace Node

variable {read : ReadFile Id} {clocks : Nat → Clock} {config : Config} {log : String}
  {report : ReplayReport}

/-- A replay whose verifier can be built and whose log can be read has a report. -/
theorem replay_of_records {verifier : Verifier} {records : List (Nat × LogRecord)}
    (hbuild : (config.verifier.build read).run = .ok verifier)
    (hrecords : Log.records (read log) = .ok records) :
    Node.replay read clocks config log = .ok ((Replay.replay
      { verifier, retry := config.retry, rootWindow := config.rootWindow, clocks }
      records).run .empty).1 := by
  dsimp only [Node.replay, bind, pure]
  rw [hbuild]
  dsimp only
  rw [hrecords]

/-- There is no other replay with a report. -/
theorem replay_eq_ok (h : Node.replay read clocks config log = .ok report) :
    ∃ verifier records, (config.verifier.build read).run = .ok verifier ∧
      Log.records (read log) = .ok records ∧
      ((Replay.replay { verifier, retry := config.retry, rootWindow := config.rootWindow, clocks }
        records).run .empty).1 = report := by
  cases hbuild : (config.verifier.build read).run with
  | error e =>
    have herror : Node.replay read clocks config log = .error (.config e) := by
      rw [Node.replay, hbuild]
      rfl
    cases herror.symm.trans h
  | ok verifier =>
    cases hrecords : Log.records (read log) with
    | error e =>
      have herror : Node.replay read clocks config log = .error (.log e) := by
        dsimp only [Node.replay, bind, pure]
        rw [hbuild]
        dsimp only
        rw [hrecords]
      cases herror.symm.trans h
    | ok records =>
      exact ⟨verifier, records, rfl, rfl,
        Except.ok.inj ((replay_of_records hbuild hrecords).symm.trans h)⟩

end Node

namespace Replay

/-- The log of two feeds is replayed: three of its reactions are admitted, one of which casts a vote
and one changes it, while the third fails, and the last is refused. -/
theorem TwoFeeds.exists_report :
    ∃ report s, Node.replay TwoFeeds.read (fun _ _ => default) TwoFeeds.config "log" = .ok report ∧
      (replay TwoFeeds.setting TwoFeeds.lines).run .empty = (report, s) ∧
      report.admitted = 3 ∧ report.refused.length = 1 ∧ report.indexer = ⟨1, 1, 1⟩ ∧
      s.SameOn ((indexing TwoFeeds.setting {} [(4, TwoFeeds.cast), (6, TwoFeeds.changed),
        (10, TwoFeeds.claimed)]).run .empty).2 .ledger := by
  obtain ⟨report, s, hrun, hadmitted, hrefused, hindexer, hledger⟩ :=
    run_replay_of_handed TwoFeeds.handed
  have hreactions : (TwoFeeds.lines.filterMap (·.2.reaction?)).length = 4 := rfl
  have hreplay : Node.replay TwoFeeds.read (fun _ _ => default) TwoFeeds.config "log" =
      .ok ((replay TwoFeeds.setting TwoFeeds.lines).run .empty).1 :=
    Node.replay_of_records TwoFeeds.run_build TwoFeeds.records_read
  rw [hrun] at hreplay
  rw [hreactions] at hrefused
  exact ⟨report, s, hreplay, hrun, hadmitted, Nat.add_right_cancel hrefused,
    hindexer.trans TwoFeeds.indexed, hledger⟩

/-- Whenever a replay has a report, the report adds up: that of the records taken one after the
other, and that of every schedule on which both tasks come to their ends. -/
theorem report_adds_up (read : ReadFile Id) (clocks : Nat → Clock) (config : Config) (log : String)
    (report : ReplayReport) (h : Node.replay read clocks config log = .ok report) :
    ∃ verifier records, (config.verifier.build read).run = .ok verifier ∧
      Log.records (read log) = .ok records ∧
      let setting : Setting :=
        { verifier, retry := config.retry, rootWindow := config.rootWindow, clocks }
      (∃ s, (replay setting records).run .empty = (report, s) ∧ Accounts records report s) ∧
      ∀ schedule states, (Pipeline.after setting records schedule).Finished states →
        Accounts records
          ((Replay.report states).run (Pipeline.after setting records schedule).store).1
          (Pipeline.after setting records schedule).store := by
  obtain ⟨verifier, records, hbuild, hrecords, rfl⟩ := Node.replay_eq_ok h
  obtain ⟨schedule, states, hfinished, hrun⟩ := Pipeline.exists_schedule
    { verifier, retry := config.retry, rootWindow := config.rootWindow, clocks } records
  refine ⟨verifier, records, hbuild, hrecords, ⟨_, ?_, hrun ▸ accounts_of_finished hfinished⟩,
    fun schedule states h => accounts_of_finished h⟩
  rw [hrun, run_report]

/-- On the log of two feeds every counter moves, and the message is listed once, under the feed that
its tally belongs to. -/
theorem two_feeds_add_up :
    ∃ report, Node.replay TwoFeeds.read (fun _ _ => default) TwoFeeds.config "log" = .ok report ∧
      report.admitted = 3 ∧ report.refused.length = 1 ∧ report.indexer = ⟨1, 1, 1⟩ ∧
      (report.tallies.map (·.totalCount)).sum = 1 ∧ (report.tallies.map (·.version)).sum = 2 ∧
      report.tallies.map (fun t => (t.feedId, t.messageId)) = [(default, default)] := by
  obtain ⟨report, s, hreplay, hrun, hadmitted, hrefused, hindexer, hledger⟩ :=
    TwoFeeds.exists_report
  obtain ⟨_, records, hbuild, hread, ⟨t, hrun', haccounts⟩, -⟩ :=
    report_adds_up _ _ _ _ report hreplay
  cases Except.ok.inj (hbuild.symm.trans TwoFeeds.run_build)
  cases Except.ok.inj (hread.symm.trans TwoFeeds.records_read)
  obtain rfl : s = t := congrArg Prod.snd (hrun.symm.trans hrun')
  refine ⟨report, hreplay, hadmitted, hrefused, hindexer, ?_, ?_, ?_⟩
  · rw [haccounts.totalCounts, hindexer]
  · rw [haccounts.versions, hindexer]
    rfl
  · have hrows := haccounts.tallies.map fun t => (t.feedId, t.messageId)
    rw [hledger.1] at hrows
    exact List.perm_singleton.1 hrows

end Replay

end Reactions
