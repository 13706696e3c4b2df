import Reactions.Proofs.Node.Accounts
import Reactions.Proofs.Store.Times

/-!
# The report does not depend on the schedule

Nothing that a node decides depends on the time: with other clocks, the registry, admission and the
ledger make the same calls and come to the same outcomes (`Membership.alike_handle`,
`Admission.alike_verdict`, `Ledger.alike_index`). So neither does what the reader and the indexer
come to when each is alone, and since no schedule makes another difference than one of times, the
report on a log is the same for all schedules, the times of the tallies aside
(`report_does_not_depend_on_schedule`).
-/

namespace Reactions

/-! ## Members and roots -/

namespace Membership

variable {feed : FeedId} {commitment : Commitment} {height count : Nat} {policy : RetryPolicy}
  {clock clock' : Clock}

/-- Rows of members that are the same without times have the same leaves. -/
theorem leavesOf_congr {rows rows' : List MemberCommitment}
    (h : rows.map MemberCommitment.untimed = rows'.map MemberCommitment.untimed) :
    leavesOf rows = leavesOf rows' := by
  have huntimed (rows : List MemberCommitment) :
      leavesOf (rows.map MemberCommitment.untimed) = leavesOf rows := by
    rw [leavesOf, leavesOf, List.map_map]
    rfl
  rw [← huntimed, h, huntimed]

/-- An attempt to register a member does not depend on the time. -/
theorem alike_tryRegister (now now' : Timestamp) :
    Work.Alike Eq (tryRegister feed commitment height now)
      (tryRegister feed commitment height now') := by
  refine (Work.alike_begin _).bind fun _ _ _ => ?_
  refine (Work.alike_read _).bind fun found found' hfound => ?_
  obtain rfl : found = found' := hfound
  split
  · exact Work.alike_pure rfl
  · refine (Work.alike_read _).bind fun rows rows' hrows => ?_
    have hleaves : leavesOf rows = leavesOf rows' := leavesOf_congr hrows
    dsimp only
    rw [hleaves]
    split
    · exact .done (.error _)
    · refine Work.Alike.bind (Work.alike_save (by rfl)) fun _ _ _ => ?_
      refine Work.Alike.bind (Work.alike_save (by rfl)) fun _ _ _ => ?_
      exact Work.alike_commit.bind fun _ _ _ => Work.alike_pure rfl

/-- Registering a member, however often it is tried, does not depend on the time. -/
theorem alike_register :
    Work.Alike Eq (register policy clock feed commitment height)
      (register policy clock' feed commitment height) :=
  (Work.alike_retried policy fun _ => alike_tryRegister _ _).adapt _

/-- Logging the root of a feed again does not depend on the time. -/
theorem alike_updateRoot :
    Work.Alike Eq (updateRoot policy clock feed height) (updateRoot policy clock' feed height) := by
  refine (Work.alike_retried policy fun _ => ?_).adapt _
  refine (Work.alike_begin _).bind fun _ _ _ => (Work.alike_read _).bind fun rows rows' hrows => ?_
  have hleaves : leavesOf rows = leavesOf rows' := leavesOf_congr hrows
  rw [hleaves]
  refine Work.Alike.bind (Work.alike_save (by rfl)) fun _ _ _ => ?_
  exact Work.alike_commit.bind fun _ _ _ => Work.alike_pure rfl

/-- Handling an event about a member does not depend on the time. -/
theorem alike_handle (event : MembershipEvent) :
    Work.Alike Eq (handle policy clock event) (handle policy clock' event) := by
  rw [handle, handle]
  cases event.kind with
  | joined | unbanned => exact alike_register.bind fun _ _ _ => Work.alike_pure rfl
  | left | banned => exact alike_updateRoot.bind fun _ _ _ => Work.alike_pure rfl

/-- Roots that are the same apart from times. -/
theorem alike_recentRoots :
    Work.Alike (fun rows rows' => rows.map RootEntry.untimed = rows'.map RootEntry.untimed)
      (recentRoots policy clock feed count) (recentRoots policy clock' feed count) := by
  refine (Work.alike_begin _).bind fun _ _ _ => (Work.alike_read _).bind fun rows rows' hrows => ?_
  have hempty : rows.isEmpty = rows'.isEmpty := by
    have h := congrArg List.isEmpty hrows
    simpa [Query.untimed] using h
  rw [hempty]
  split
  · exact Work.alike_pure hrows
  · refine (Work.alike_read _).bind fun members members' hmembers => ?_
    have hnobody : members.isEmpty = members'.isEmpty := by
      have h := congrArg List.isEmpty hmembers
      simpa [Query.untimed] using h
    rw [hnobody]
    split
    · exact Work.alike_pure hrows
    · refine alike_updateRoot.bind fun _ _ _ => (Work.alike_begin _).bind fun _ _ _ => ?_
      exact Work.alike_read (.recentRoots feed count)

end Membership

/-! ## Admission -/

namespace Admission

variable {verifier : Verifier} {secrets : FeedSecrets} {window : Nat} {policy : RetryPolicy}
  {clock clock' : Clock} {tx : Reaction}

/-- What admission can put together does not depend on the time. -/
theorem alike_assess :
    Work.Alike Eq (assess verifier secrets window policy clock tx)
      (assess verifier secrets window policy clock' tx) := by
  have hroots {rows rows' : List RootEntry}
      (h : rows.map RootEntry.untimed = rows'.map RootEntry.untimed) :
      rows.filterMap (·.rootField?) = rows'.filterMap (·.rootField?) := by
    have huntimed (rows : List RootEntry) :
        (rows.map RootEntry.untimed).filterMap (·.rootField?) = rows.filterMap (·.rootField?) := by
      rw [List.filterMap_map]
      rfl
    rw [← huntimed, h, huntimed]
  rw [assess, assess]
  cases verifier.policyRejection tx.circuitVersion with
  | some rejection => exact Work.alike_pure rfl
  | none =>
    cases tx.nullifier.toField? with
    | none => exact Work.alike_pure rfl
    | some nullifier =>
      cases tx.messageId.toField? with
      | none => exact Work.alike_pure rfl
      | some messageId =>
        cases secrets.key? tx.feedId with
        | none => exact Work.alike_throw _
        | some key =>
          cases secrets.author? tx.feedId tx.messageId with
          | none => exact Work.alike_throw _
          | some author =>
            refine (Membership.alike_recentRoots.adapt _).bind fun rows rows' hrows => ?_
            rw [hroots hrows]
            exact Work.alike_pure rfl

/-- The verdict of admission does not depend on the time. -/
theorem alike_verdict :
    Work.Alike Eq (verdict verifier secrets window policy clock tx)
      (verdict verifier secrets window policy clock' tx) := by
  refine alike_assess.bind fun assessed assessed' hassessed => ?_
  obtain rfl : assessed = assessed' := hassessed
  cases assessed with
  | error rejection => exact Work.alike_pure rfl
  | ok statements => exact Work.alike_liftExcept (Work.Related.refl _)

end Admission

/-! ## The ledger -/

namespace Ledger

variable {tx : Reaction} {now now' : Timestamp} {policy : RetryPolicy} {clock clock' : Clock}

/-- What a reaction comes to does not depend on times. -/
theorem related_tallied {current current' : Tally} (hcurrent : current.untimed = current'.untimed)
    {recorded recorded' : Option LedgerRow}
    (hrecorded : recorded.map LedgerRow.untimed = recorded'.map LedgerRow.untimed) :
    Work.Related
      (fun a b => a.1 = b.1 ∧ a.2.1.untimed = b.2.1.untimed ∧ a.2.2.untimed = b.2.2.untimed)
      (tallied tx now current recorded) (tallied tx now' current' recorded') := by
  have hadd (t : Tally) (now : Timestamp) :
      (t.addVote tx.vote now).untimed = (t.untimed.addVote tx.vote default).untimed := rfl
  have hreplace (t : Tally) (old : Vote) (now : Timestamp) :
      (t.replaceVote old tx.vote now).untimed =
        (t.untimed.replaceVote old tx.vote default).untimed := rfl
  cases recorded with
  | none =>
    obtain rfl : recorded' = none := by simpa using hrecorded
    refine .ok ⟨rfl, ?_, rfl⟩
    rw [hadd, hadd current', hcurrent]
  | some row =>
    obtain ⟨row', rfl, hrow⟩ := Option.map_eq_some_iff.1 hrecorded.symm
    have hvote : row.vote = row'.vote := (congrArg LedgerRow.vote hrow).symm
    have hmessage : row.messageId = row'.messageId := (congrArg LedgerRow.messageId hrow).symm
    rw [tallied_some, tallied_some, ← hmessage, ← hvote]
    split
    · refine .ok ⟨rfl, ?_, ?_⟩
      · rw [hreplace, hreplace current', hcurrent]
      · have hwith (r : LedgerRow) (now : Timestamp) :
            (r.withVote tx.vote tx.backup now).untimed =
              (r.untimed.withVote tx.vote tx.backup default).untimed := rfl
        rw [hwith, hwith row', hrow]
    · exact .error _

/-- An attempt to process a reaction comes to the same kind at any time. -/
theorem alike_tryProcess (height attempt : Nat) :
    Work.Alike (fun a b => a.kind = b.kind) (tryProcess tx height now attempt)
      (tryProcess tx height now' attempt) := by
  refine (Work.alike_begin _).bind fun _ _ _ => ?_
  refine (Work.alike_read _).bind fun found found' hfound => ?_
  have hcurrent : (found.getD (.empty tx.messageId tx.feedId now)).untimed =
      (found'.getD (.empty tx.messageId tx.feedId now')).untimed := by
    cases found with
    | none =>
      obtain rfl : found' = none := by simpa [Query.untimed] using hfound
      rfl
    | some t =>
      obtain ⟨t', rfl, ht⟩ := Option.map_eq_some_iff.1 hfound.symm
      exact ht.symm
  generalize found.getD (.empty tx.messageId tx.feedId now) = current,
    found'.getD (.empty tx.messageId tx.feedId now') = current' at hcurrent
  have hfeed : current.feedId = current'.feedId := by
    have h := congrArg Tally.feedId hcurrent
    exact h
  dsimp only
  rw [hfeed]
  split
  · exact .done (.error _)
  · refine (Work.alike_read _).bind fun recorded recorded' hrecorded => ?_
    refine (Work.alike_liftExcept (related_tallied hcurrent hrecorded)).bind ?_
    rintro ⟨kind, tally, row⟩ ⟨kind', tally', row'⟩ ⟨hkind, htally, hrow⟩
    refine Work.Alike.bind (Work.alike_save (congrArg Write.nullifier hrow)) fun _ _ _ => ?_
    refine Work.Alike.bind (Work.alike_save (congrArg Write.tally htally)) fun _ _ _ => ?_
    refine Work.Alike.bind (Work.alike_append (by rfl)) fun _ _ _ => ?_
    exact Work.alike_commit.bind fun _ _ _ => Work.alike_pure hkind

/-- The outcome that is counted does not depend on times. -/
theorem count_congr (stats : IndexStats) {processed processed' : Processed}
    (h : processed.kind = processed'.kind) :
    stats.count (.ok processed) = stats.count (.ok processed') := by
  obtain ⟨kind, tally, id, attempts⟩ := processed
  obtain ⟨kind', tally', id', attempts'⟩ := processed'
  obtain rfl : kind = kind' := h
  cases kind <;> rfl

/-- What the indexer counts for a reaction does not depend on the time. -/
theorem alike_index (stats : IndexStats) (reaction : IndexedReaction) :
    Program.Alike Eq (index policy clock stats reaction) (index policy clock' stats reaction) := by
  have hprocess : Work.Alike (fun a b => a.kind = b.kind)
      (process policy clock reaction.transaction reaction.blockHeight)
      (process policy clock' reaction.transaction reaction.blockHeight) :=
    (Work.alike_retried policy fun attempt => alike_tryProcess _ attempt).adapt finalError
  refine Program.Alike.bind hprocess fun outcome outcome' houtcome => .done ?_
  cases houtcome with
  | error e => rfl
  | ok hkind => exact count_congr stats hkind

end Ledger

/-! ## The tasks of a replay -/

namespace Replay

variable {setting : Setting} {clocks : Nat → Clock}

/-- Taking a record does not depend on the time. -/
theorem alike_take (state : ReaderState) (line : Nat) (record : LogRecord) :
    Program.Alike Eq (take setting state line record)
      (take { setting with clocks } state line record) := by
  cases record with
  | feedKey feed key => exact .done rfl
  | message feed message author => exact .done rfl
  | membership event =>
    refine Program.Alike.bind (Membership.alike_handle event) fun outcome outcome' houtcome => ?_
    obtain rfl := houtcome.eq
    cases outcome <;> exact .done rfl
  | reaction reaction =>
    refine Program.Alike.bind Admission.alike_verdict fun outcome outcome' houtcome => ?_
    obtain rfl := houtcome.eq
    cases refusal? outcome <;> exact .done rfl

/-- Taking all records does not depend on the time. -/
theorem alike_reading (state : ReaderState) (records : List (Nat × LogRecord)) :
    Program.Alike Eq (reading setting state records)
      (reading { setting with clocks } state records) := by
  induction records generalizing state with
  | nil => exact .done rfl
  | cons record rest ih =>
    refine Program.Alike.bind (alike_take state _ _) fun taken taken' htaken => ?_
    subst htaken
    refine Program.Alike.bind (ih taken.1) fun read read' hread => ?_
    subst hread
    exact .done rfl

/-- What the indexer counts in all does not depend on the time. -/
theorem alike_indexing (stats : Ledger.IndexStats) (items : List Item) :
    Program.Alike Eq (indexing setting stats items)
      (indexing { setting with clocks } stats items) := by
  induction items generalizing stats with
  | nil => exact .done rfl
  | cons item rest ih =>
    refine Program.Alike.bind (Ledger.alike_index stats _) fun stats stats' hstats => ?_
    subst hstats
    exact ih stats

/-! ## The report -/

/-- The tallies that are listed, without their times. -/
theorem untimed_tallyUnder (s : Store) (message : FeedId × MessageId) :
    (tallyUnder s message).map Tally.untimed = tallyUnder s.untimed message := by
  rw [tallyUnder, tallyUnder, Store.find?_untimed_tallies, Option.filter_map]
  rfl

/-- Stores with the same tallies list the same ones, without their times. -/
theorem untimed_tallies {s t : Store} (h : s.tallies = t.tallies)
    (messages : List (FeedId × MessageId)) :
    (messages.filterMap (tallyUnder s)).map Tally.untimed =
      messages.filterMap (tallyUnder t.untimed) := by
  rw [List.map_filterMap]
  refine List.filterMap_congr fun message _ => ?_
  rw [untimed_tallyUnder, tallyUnder, tallyUnder, Store.untimed, Store.untimed, h]

end Replay

/-- A report without the times of its tallies. -/
def ReplayReport.untimed (report : ReplayReport) : ReplayReport :=
  { report with tallies := report.tallies.map Tally.untimed }

namespace Replay

variable {setting : Setting} {clocks : Nat → Clock} {records : List (Nat × LogRecord)}

/-! ## A schedule on which both tasks are at work -/

/-- The indexer receives a reaction and reads the tally of its message, in a unit of work that stays
open. -/
theorem TwoFeeds.reaches_tally_read (s : Store) (records : List (Nat × LogRecord)) (reader : Reader)
    (line : Nat) (reaction : IndexedReaction) (rest : List Item) (stats : Ledger.IndexStats) :
    ∃ process : Process Ledger.IndexStats,
      process.unit.reads.rows = [(.tally reaction.transaction.messageId,
        s.version (.tally reaction.transaction.messageId))] ∧
      Pipeline.Reaches TwoFeeds.setting
        ⟨s, records, reader, (line, reaction) :: rest, .ready stats⟩
        ⟨s, records, reader, rest, .processing process⟩ := by
  let received : Process Ledger.IndexStats :=
    ⟨Ledger.index setting.retry (setting.clocks line) stats reaction, default⟩
  let opened := (received.step s).2
  have hbegin : Pipeline.Reaches setting ⟨s, records, reader, rest, .processing received⟩
      ⟨s, records, reader, rest, .processing opened⟩ := .of_indexer rfl
  have hread : Pipeline.Reaches setting ⟨s, records, reader, rest, .processing opened⟩
      ⟨s, records, reader, rest, .processing (opened.step s).2⟩ := .of_indexer rfl
  exact ⟨(opened.step s).2, rfl, .trans (.of_indexer rfl) (hbegin.trans hread)⟩

/-- On the log of two feeds, some schedule has a member leave while the vote before that is being
processed: the indexer has read the tally and not committed yet, when the reader logs another root.
-/
theorem TwoFeeds.exists_overlap :
    ∃ (front during : List Task) (process : Process Ledger.IndexStats),
    let before := Pipeline.after TwoFeeds.setting TwoFeeds.lines front
    let after := Pipeline.after TwoFeeds.setting TwoFeeds.lines (front ++ during)
    process.unit.reads.rows = [(.tally default, 0)] ∧
      before.indexer = .processing process ∧ before.store.roots.length = 1 ∧
      after.indexer = .processing process ∧ after.store.roots.length = 2 ∧
      after.store.tallies.rows = [] := by
  have hring : setting.verifier = ring.verifier := rfl
  have hfront := (Reflects.start setting).after_reading hring (lines.take 4)
  have hread := Pipeline.reaches_read (lines.take 4) (lines.drop 4) .empty {} [] (.ready {})
    (by rw [handed_until_departure]; decide)
  rw [handed_until_departure] at hread
  generalize (reading setting {} (lines.take 4)).run .empty = read at hfront hread
  obtain ⟨⟨state, handed⟩, s⟩ := read
  obtain ⟨process, hreads, hasked⟩ :=
    reaches_tally_read s (lines.drop 4) (.ready state) 4 cast [] {}
  -- The reader takes the departure while the indexer stands.
  let departure : Nat × LogRecord := (5, .membership ⟨.left, default, "member", 0, 3⟩)
  have hlater := hfront.after_reading hring [departure]
  have hnone : ((reading setting state [departure]).run s).1.2 = [] := by
    rw [hfront.handed_reading hring]
    rfl
  have htaken := Pipeline.reaches_read [departure] (lines.drop 5) s state [] (.processing process)
    (by rw [hnone]; decide)
  rw [hnone] at htaken
  generalize (reading setting state [departure]).run s = read at hlater htaken
  obtain ⟨⟨state', handed'⟩, s'⟩ := read
  obtain ⟨front, hfront'⟩ := hread.trans hasked
  obtain ⟨during, hduring⟩ := htaken
  have hbefore : Pipeline.after setting lines front =
      ⟨s, lines.drop 4, .ready state, [], .processing process⟩ := hfront'
  have hafter : Pipeline.after setting lines (front ++ during) =
      ⟨s', lines.drop 5, .ready state', [], .processing process⟩ := by
    rw [Pipeline.after, List.foldl_append, ← Pipeline.after, hbefore]
    exact hduring
  have hs : s = registry setting (lines.take 4) := hfront.store
  have hs' : s' = registry setting (lines.take 4 ++ [departure]) := hlater.store
  have hversion : s.version (.tally default) = 0 := by rw [hs]; decide +kernel
  have hroot : s.roots.length = 1 := by rw [hs]; decide +kernel
  have hroots : s'.roots.length = 2 := by rw [hs']; decide +kernel
  have htallies : s'.tallies.rows = [] := by rw [hs']; decide +kernel
  refine ⟨front, during, process, hreads.trans (by rw [← hversion]; rfl), ?_⟩
  rw [hbefore, hafter]
  exact ⟨rfl, hroot, rfl, hroots, htallies⟩

/-! ## One report -/

/-- Two schedules on which both tasks come to their ends lead to the same report apart from times,
on whatever clocks. -/
theorem untimed_report_of_finished {schedule schedule' : List Task}
    {states states' : ReaderState × Ledger.IndexStats}
    (h : (Pipeline.after setting records schedule).Finished states)
    (h' : (Pipeline.after { setting with clocks } records schedule').Finished states') :
    ((report states).run (Pipeline.after setting records schedule).store).1.untimed =
      ((report states').run
        (Pipeline.after { setting with clocks } records schedule').store).1.untimed := by
  obtain ⟨hstates, -, htallies, -⟩ := Pipeline.finished_eq h
  obtain ⟨hstates', -, htallies', -⟩ := Pipeline.finished_eq h'
  have hreading : Program.Alike Eq (reading setting {} records)
      (reading { setting with clocks } {} records) := alike_reading {} records
  obtain ⟨hread, -⟩ := hreading.run .empty
  generalize (Pipeline.after setting records schedule).store = s at htallies ⊢
  generalize (Pipeline.after { setting with clocks } records schedule').store = s' at htallies' ⊢
  rw [← hread] at hstates' htallies'
  generalize ((reading setting {} records).run .empty).1 = read
    at hstates hstates' htallies htallies'
  have hindexing : Program.Alike Eq (indexing setting {} read.2)
      (indexing { setting with clocks } {} read.2) := alike_indexing {} read.2
  obtain ⟨hstats, hstore⟩ := hindexing.run .empty
  generalize (indexing setting {} read.2).run .empty = indexed
    at hstats hstore hstates htallies
  generalize (indexing { setting with clocks } {} read.2).run .empty = indexed'
    at hstats hstore hstates' htallies'
  rw [run_report, run_report, ReplayReport.untimed, ReplayReport.untimed, hstates, hstates',
    untimed_tallies htallies, untimed_tallies htallies', hstats, hstore]

/-- Whatever the schedule on which the reader and the indexer take their steps, and whatever the
clocks: if both come to their ends, then the report is the one that comes of dealing with each
record completely before the next is read, apart from the times of the tallies. And on some schedule
both come to their ends. -/
theorem report_does_not_depend_on_schedule (read : ReadFile Id) (clocks clocks' : Nat → Clock)
    (config : Config) (log : String) (report : ReplayReport)
    (h : Node.replay read clocks config log = .ok report) :
    ∃ verifier records, (config.verifier.build read).run = .ok verifier ∧
      Log.records (read log) = .ok records ∧
      let setting : Setting :=
        { verifier, retry := config.retry, rootWindow := config.rootWindow, clocks := clocks' }
      (∃ schedule states, (Pipeline.after setting records schedule).Finished states) ∧
      ∀ schedule states, (Pipeline.after setting records schedule).Finished states →
        ((Replay.report states).run
          (Pipeline.after setting records schedule).store).1.untimed = report.untimed := by
  obtain ⟨verifier, records, hbuild, hrecords, rfl⟩ := Node.replay_eq_ok h
  refine ⟨verifier, records, hbuild, hrecords, ?_, fun schedule states hfinished => ?_⟩
  · obtain ⟨schedule, states, hfinished, -⟩ := Pipeline.exists_schedule _ records
    exact ⟨schedule, states, hfinished⟩
  · obtain ⟨schedule', states', hfinished', hrun⟩ := Pipeline.exists_schedule
      { verifier, retry := config.retry, rootWindow := config.rootWindow, clocks } records
    rw [hrun]
    exact untimed_report_of_finished hfinished hfinished'

/-- The log on two feeds, on a schedule on which its first vote is being processed while a member
leaves. -/
theorem two_feeds_reported_alike_when_interleaved :
    ∃ report front during later states process,
      Node.replay TwoFeeds.read (fun _ _ => default) TwoFeeds.config "log" = .ok report ∧
      report.admitted = 3 ∧ report.refused.length = 1 ∧ report.indexer = ⟨1, 1, 1⟩ ∧
      let after := Pipeline.after TwoFeeds.setting TwoFeeds.lines
      process.unit.reads.rows = [(.tally default, 0)] ∧
      (after front).indexer = .processing process ∧ (after front).store.roots.length = 1 ∧
      (after (front ++ during)).indexer = .processing process ∧
      (after (front ++ during)).store.roots.length = 2 ∧
      (after (front ++ during)).store.tallies.rows = [] ∧
      (after (front ++ during ++ later)).Finished states ∧
      ((Replay.report states).run (after (front ++ during ++ later)).store).1.untimed =
        report.untimed := by
  obtain ⟨report, -, hreplay, -, hadmitted, hrefused, hindexer, -⟩ := TwoFeeds.exists_report
  obtain ⟨front, during, process, hreads, hfront, hroot, hduring, hroots, htallies⟩ :=
    TwoFeeds.exists_overlap
  obtain ⟨later, states, hfinished⟩ :=
    Pipeline.exists_finish TwoFeeds.setting TwoFeeds.lines (front ++ during)
  obtain ⟨_, _, hbuild, hrecords, -, hreport⟩ :=
    report_does_not_depend_on_schedule _ _ (fun _ _ => default) _ _ report hreplay
  cases Except.ok.inj (hbuild.symm.trans TwoFeeds.run_build)
  cases Except.ok.inj (hrecords.symm.trans TwoFeeds.records_read)
  exact ⟨report, front, during, later, states, process, hreplay, hadmitted, hrefused, hindexer,
    hreads, hfront, hroot, hduring, hroots, htallies, hfinished, hreport _ states hfinished⟩

end Replay

end Reactions
