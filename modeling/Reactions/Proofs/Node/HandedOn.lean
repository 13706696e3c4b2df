import Reactions.Proofs.Admission.RootWindow
import Reactions.Proofs.Groth16.Infinity
import Reactions.Proofs.Node.BuiltVerifiers
import Reactions.Proofs.Node.LogText
import Reactions.Proofs.Node.Tasks

/-!
# What the reader of a log hands on

Whether a reaction of a log gets in depends on the lines before it alone: on the last key of its
feed, the last author of its message, and the roots that the events about members have led to
(`Occurrence.Admissible`). The reader keeps just that (`Reflects`), so the reactions that it hands
on are the admissible ones, in the order of the log (`Reflects.handed_reading`).

The last section has a log in which a reaction meets every end: one is a new vote, one changes that
vote, one is admitted under another feed and then fails, and one is refused (`TwoFeeds.handed`).
-/

namespace Reactions

namespace LogRecord

/-- The reaction that a record holds. -/
def reaction? : LogRecord → Option IndexedReaction
  | .reaction indexed => some indexed
  | _ => none

/-- The key that a record gives a feed. -/
def keyOf? (feed : FeedId) : LogRecord → Option Point
  | .feedKey feed' key => if feed' = feed then some key else none
  | _ => none

/-- The author that a record gives a message of a feed. -/
def authorOf? (feed : FeedId) (message : MessageId) : LogRecord → Option Commitment
  | .message feed' message' author =>
    if feed' = feed ∧ message' = message then some (.ofAddress author) else none
  | _ => none

end LogRecord

namespace FeedSecrets

/-- The key that is set is found, and every other feed keeps its own. -/
theorem key?_setKey (secrets : FeedSecrets) (feed feed' : FeedId) (key : Point) :
    (secrets.setKey feed key).key? feed' = if feed = feed' then some key else secrets.key? feed' :=
  Assoc.get?_save ..

/-- The author that is set is found, and every other message keeps its own. -/
theorem author?_setAuthor (secrets : FeedSecrets) (feed feed' : FeedId)
    (message message' : MessageId) (author : Commitment) :
    (secrets.setAuthor feed message author).author? feed' message' =
      if feed = feed' ∧ message = message' then some author
      else secrets.author? feed' message' := by
  rw [author?, setAuthor, Assoc.get?_save]
  simp only [Prod.mk.injEq]
  rfl

end FeedSecrets

namespace Replay

variable {setting : Setting} {ring : KeyRing} {before records : List (Nat × LogRecord)} {line : Nat}
  {record : LogRecord} {state : ReaderState} {s : Store}

/-! ## What comes before a line -/

/-- What the last of some lines to say anything about a matter says about it. -/
def last? {α : Type} (matter : LogRecord → Option α) (lines : List (Nat × LogRecord)) : Option α :=
  lines.reverse.findSome? fun line => matter line.2

/-- The last line has its say before the others. -/
theorem last?_append_singleton {α : Type} (matter : LogRecord → Option α)
    (lines : List (Nat × LogRecord)) (line : Nat × LogRecord) :
    last? matter (lines ++ [line]) = (matter line.2).or (last? matter lines) := by
  rw [last?, List.reverse_append, List.reverse_singleton, List.singleton_append,
    List.findSome?_cons]
  cases matter line.2 <;> rfl

/-- What is said last is said by a line, and by none after it. -/
theorem last?_eq_some_iff {α : Type} {matter : LogRecord → Option α}
    {lines : List (Nat × LogRecord)} {a : α} : last? matter lines = some a ↔
      ∃ earlier line later, lines = earlier ++ line :: later ∧ matter line.2 = some a ∧
        ∀ other ∈ later, matter other.2 = none := by
  rw [last?, List.findSome?_eq_some_iff]
  constructor
  · rintro ⟨later, line, earlier, hlines, hline, hlater⟩
    refine ⟨earlier.reverse, line, later.reverse, ?_, hline, fun other hother =>
      hlater other (List.mem_reverse.1 hother)⟩
    rw [← List.reverse_reverse lines, hlines]
    simp
  · rintro ⟨earlier, line, later, rfl, hline, hlater⟩
    exact ⟨later.reverse, line, earlier.reverse, by simp, hline, fun other hother =>
      hlater other (List.mem_reverse.1 hother)⟩

/-- What a record asks of the registry of members. -/
def memberRequest? (setting : Setting) : Nat × LogRecord → Option Request
  | (line, .membership event) => some (.membership setting.retry (setting.clocks line) event)
  | _ => none

/-- The store that the events about members alone lead to. -/
def registry (setting : Setting) (lines : List (Nat × LogRecord)) : Store :=
  .serving (lines.filterMap (memberRequest? setting))

/-- The last line makes its request of the registry after the others. -/
theorem registry_append_singleton (setting : Setting) (lines : List (Nat × LogRecord))
    (line : Nat × LogRecord) :
    registry setting (lines ++ [line]) =
      (memberRequest? setting line).toList.foldl Request.serve (registry setting lines) := by
  rw [registry, List.filterMap_append, Store.serving_append]
  cases h : memberRequest? setting line with
  | none => rw [List.filterMap_cons_none h]; rfl
  | some request => rw [List.filterMap_cons_some h]; rfl

/-! ## Reactions and what comes before them -/

/-- A reaction of a log, with its line and all lines before it. -/
structure Occurrence where
  before : List (Nat × LogRecord)
  line : Nat
  reaction : IndexedReaction

namespace Occurrence

/-- The reaction as it is handed on. -/
def item (o : Occurrence) : Item := (o.line, o.reaction)

/-- The reaction may enter where it stands: with the last key of its feed and the last author of its
message before it, and by one of the newest roots that the events before it have led to. -/
def Admissible (ring : KeyRing) (setting : Setting) (o : Occurrence) : Prop :=
  Admission.Admissible ring (last? (·.keyOf? o.reaction.transaction.feedId) o.before)
    (last? (·.authorOf? o.reaction.transaction.feedId o.reaction.transaction.messageId) o.before)
    o.reaction.transaction
    (((registry setting o.before).history o.reaction.transaction.feedId).take
      (max setting.rootWindow 1))

/-- The reaction that a record holds, as it occurs after other lines. -/
def ofRecord? (before : List (Nat × LogRecord)) (line : Nat) (record : LogRecord) :
    Option Occurrence := record.reaction?.map (⟨before, line, ·⟩)

end Occurrence

/-- The reactions among some lines, in order, when other lines come before those. -/
def occurrences (before : List (Nat × LogRecord)) : List (Nat × LogRecord) → List Occurrence
  | [] => []
  | (line, record) :: rest =>
    (Occurrence.ofRecord? before line record).toList ++
      occurrences (before ++ [(line, record)]) rest

/-- An occurrence is a line that holds its reaction, and all that stands before that line. -/
theorem mem_occurrences {o : Occurrence} : o ∈ occurrences before records ↔
    ∃ earlier later, records = earlier ++ (o.line, .reaction o.reaction) :: later ∧
      o.before = before ++ earlier := by
  induction records generalizing before with
  | nil => simp [occurrences]
  | cons head rest ih =>
    obtain ⟨line, record⟩ := head
    rw [occurrences, List.mem_append, ih, Option.mem_toList]
    constructor
    · rintro (hhead | ⟨earlier, later, rfl, hbefore⟩)
      · obtain ⟨reaction, hreaction, rfl⟩ := Option.map_eq_some_iff.1 hhead
        cases record with
        | reaction indexed =>
          cases hreaction
          exact ⟨[], rest, rfl, (List.append_nil before).symm⟩
        | feedKey | message | membership => cases hreaction
      · exact ⟨(line, record) :: earlier, later, rfl, by rw [hbefore, List.append_assoc]; rfl⟩
    · rintro ⟨earlier, later, hrecords, hbefore⟩
      cases earlier with
      | nil =>
        obtain ⟨hline, rfl⟩ := List.cons.inj hrecords
        obtain ⟨rfl, rfl⟩ := Prod.mk.inj hline
        rw [List.append_nil] at hbefore
        exact .inl (congrArg some (by rw [← hbefore]))
      | cons first earlier =>
        obtain ⟨rfl, rfl⟩ := List.cons.inj hrecords
        exact .inr ⟨earlier, later, rfl, by rw [hbefore, List.append_assoc]; rfl⟩

/-! ## The reader hands on what is admissible -/

/-- The reader and its store stand as the lines before them have it. -/
structure Reflects (setting : Setting) (before : List (Nat × LogRecord)) (state : ReaderState)
    (s : Store) : Prop where
  key : ∀ feed, state.secrets.key? feed = last? (·.keyOf? feed) before
  author : ∀ feed message,
    state.secrets.author? feed message = last? (·.authorOf? feed message) before
  store : s = registry setting before

/-- At the start there are no lines before. -/
theorem Reflects.start (setting : Setting) : Reflects setting [] {} .empty :=
  ⟨fun _ => rfl, fun _ _ => rfl, rfl⟩

/-- A reaction is handed on if it is accepted. -/
theorem refusal?_eq_none_iff {outcome : Except AdmissionError Verdict} :
    refusal? outcome = none ↔ Admission.Accepted outcome := by
  rw [Admission.Accepted]
  rcases outcome with e | verdict
  · simp [refusal?]
  · cases verdict <;> simp [refusal?, Verdict.accepts]

/-- The verdict on a reaction is what is admissible where it stands, and leaves the store as it is.
-/
theorem Reflects.run_verdict (h : Reflects setting before state s)
    (hring : setting.verifier = ring.verifier) (line : Nat) (reaction : IndexedReaction) :
    ∃ outcome, (Admission.verdict setting.verifier state.secrets setting.rootWindow setting.retry
        (setting.clocks line) reaction.transaction).run.run s = (outcome, s) ∧
      (Admission.Accepted outcome ↔
        Occurrence.Admissible ring setting ⟨before, line, reaction⟩) := by
  have hrooted : s.Rooted reaction.transaction.feedId := by
    rw [h.store]
    exact .serving _ _
  obtain ⟨outcome, u, hfinish, haccepted⟩ := Admission.finish_verdict_of_rooted ring state.secrets
    setting.rootWindow setting.retry (setting.clocks line) reaction.transaction default hrooted
  refine ⟨outcome, ?_, ?_⟩
  · rw [hring, Work.run_run, hfinish]
  · rw [haccepted, Occurrence.Admissible, h.key, h.author, ← h.store]

/-- What is known after a line is what the line says, or else what was known before it. -/
theorem Reflects.append (h : Reflects setting before state s) {state' : ReaderState} {s' : Store}
    (hkey : ∀ feed, state'.secrets.key? feed = (record.keyOf? feed).or (state.secrets.key? feed))
    (hauthor : ∀ feed message, state'.secrets.author? feed message =
      (record.authorOf? feed message).or (state.secrets.author? feed message))
    (hstore : s' = (memberRequest? setting (line, record)).toList.foldl Request.serve s) :
    Reflects setting (before ++ [(line, record)]) state' s' where
  key feed := by rw [last?_append_singleton, ← h.key feed, hkey]
  author feed message := by rw [last?_append_singleton, ← h.author feed message, hauthor]
  store := by rw [registry_append_singleton, ← h.store, hstore]

/-- Having taken a record, the reader and its store stand as that line and those before it have it.
-/
theorem Reflects.after (h : Reflects setting before state s)
    (hring : setting.verifier = ring.verifier) (line : Nat) (record : LogRecord) :
    Reflects setting (before ++ [(line, record)]) ((take setting state line record).run s).1.1
      ((take setting state line record).run s).2 := by
  cases record with
  | feedKey feed key =>
    refine h.append (fun feed' => ?_) (fun _ _ => rfl) rfl
    change (state.secrets.setKey feed key).key? feed' = _
    rw [FeedSecrets.key?_setKey, LogRecord.keyOf?]
    split <;> rfl
  | message feed message author =>
    refine h.append (fun _ => rfl) (fun feed' message' => ?_) rfl
    change (state.secrets.setAuthor feed message (.ofAddress author)).author? feed' message' = _
    rw [FeedSecrets.author?_setAuthor, LogRecord.authorOf?]
    split <;> rfl
  | membership event =>
    rw [run_take_membership]
    cases ((Membership.handle setting.retry (setting.clocks line) event).run.run s).1 <;>
      exact h.append (fun _ => rfl) (fun _ _ => rfl) rfl
  | reaction reaction =>
    obtain ⟨outcome, hrun, -⟩ := h.run_verdict hring line reaction
    rw [run_take_reaction, hrun, ReaderState.afterVerdict]
    cases refusal? outcome <;> exact h.append (fun _ => rfl) (fun _ _ => rfl) rfl

/-- Having taken several records, the reader and its store stand as all lines so far have it. -/
theorem Reflects.after_reading (h : Reflects setting before state s)
    (hring : setting.verifier = ring.verifier) (records : List (Nat × LogRecord)) :
    Reflects setting (before ++ records) ((reading setting state records).run s).1.1
      ((reading setting state records).run s).2 := by
  induction records generalizing before state s with
  | nil => rwa [List.append_nil]
  | cons head rest ih =>
    obtain ⟨line, record⟩ := head
    rw [run_reading_cons, run_readingAfter, List.append_cons]
    exact ih (h.after hring line record)

open Classical in
/-- A record hands on its reaction if that is admissible where it stands. -/
theorem Reflects.handed_take (h : Reflects setting before state s)
    (hring : setting.verifier = ring.verifier) (line : Nat) (record : LogRecord) :
    (((take setting state line record).run s).1.2.map (line, ·)).toList =
      ((Occurrence.ofRecord? before line record).toList.filter
        (·.Admissible ring setting)).map Occurrence.item := by
  cases record with
  | feedKey feed key => rfl
  | message feed message author => rfl
  | membership event =>
    rw [run_take_membership]
    rfl
  | reaction reaction =>
    obtain ⟨outcome, hrun, haccepted⟩ := h.run_verdict hring line reaction
    rw [run_take_reaction, hrun, ReaderState.afterVerdict]
    rw [← refusal?_eq_none_iff] at haccepted
    cases hrefusal : refusal? outcome with
    | none =>
      have hadmissible := haccepted.1 hrefusal
      simp [Occurrence.ofRecord?, LogRecord.reaction?, hadmissible, Occurrence.item]
    | some refusal =>
      have hnot : ¬ Occurrence.Admissible ring setting ⟨before, line, reaction⟩ := by
        intro hadmissible
        rw [haccepted.2 hadmissible] at hrefusal
        cases hrefusal
      simp [Occurrence.ofRecord?, LogRecord.reaction?, hnot]

open Classical in
/-- What the reader hands on is what is admissible where it stands, in the order of the log. -/
theorem Reflects.handed_reading (h : Reflects setting before state s)
    (hring : setting.verifier = ring.verifier) (records : List (Nat × LogRecord)) :
    ((reading setting state records).run s).1.2 =
      ((occurrences before records).filter (·.Admissible ring setting)).map Occurrence.item := by
  induction records generalizing before state s with
  | nil => rfl
  | cons head rest ih =>
    obtain ⟨line, record⟩ := head
    rw [run_reading_cons, run_readingAfter, occurrences, List.filter_append, List.map_append,
      ← h.handed_take hring, ih (h.after hring line record)]

end Replay

/-! ## A log on two feeds -/

namespace Replay.TwoFeeds

/-- A key whose points are all infinity, for the version that a node has by default. -/
def key : VerificationKey :=
  ⟨"omega-v1", .infinity, .infinity, .infinity, .infinity,
    .replicate VerificationKey.icCount .infinity⟩

/-- A proof that the key lets pass, whatever the statement. -/
def proof : Proof := ⟨.infinity, .infinity, .infinity⟩

/-- The feed beside the default one. -/
def second : FeedId := ⟨⟨.replicate 32 1⟩⟩

/-- A feed whose key the log does not give. -/
def unknown : FeedId := ⟨⟨.replicate 32 2⟩⟩

/-- A reaction to the default message, which every feed claims as its own. -/
def reaction (feed : FeedId) (nullifier : Nullifier) (choice : Point) (height : Nat) :
    IndexedReaction where
  transaction := {
    feedId := feed
    messageId := default
    nullifier
    c1 := .replicate emojiSlots .identity
    c2 := .replicate emojiSlots choice
    proof := proof.encode
    circuitVersion := "omega-v1"
    backup := []
    sender := "relay" }
  blockHeight := height

/-- A new vote. -/
def cast : IndexedReaction := reaction default default .generator 2

/-- The same member changes the vote. -/
def changed : IndexedReaction := reaction default default .identity 4

/-- Another member votes on the message under the second feed, which it does not belong to. -/
def claimed : IndexedReaction := reaction second ⟨⟨.replicate 32 1⟩⟩ .identity 6

/-- A vote under the feed without a key. -/
def stray : IndexedReaction := reaction unknown default .identity 7

/-- The records of the log. -/
def records : List LogRecord := [
  .feedKey default .generator,
  .message default default "author",
  .membership ⟨.joined, default, "member", 0, 1⟩,
  .reaction cast,
  .membership ⟨.left, default, "member", 0, 3⟩,
  .reaction changed,
  .feedKey second .generator,
  .message second default "author",
  .membership ⟨.joined, second, "member", 0, 5⟩,
  .reaction claimed,
  .reaction stray]

/-- The records with their lines. -/
def lines : List (Nat × LogRecord) := (records.zipIdx 1).map Prod.swap

/-- The files of the node: the log, and its key everywhere else. -/
def read : ReadFile Id := fun path =>
  if path = "log" then .bytes (Log.write records) else .bytes (KeyCache.write key)

/-- The configuration of the node. -/
def config : Config := { verifier.circuits := [⟨"omega-v1", "omega.bin"⟩] }

/-- The key ring that the configuration describes. -/
def ring : KeyRing := ⟨"omega-v1", [key], [], []⟩

/-- What the node goes by. -/
def setting : Setting where
  verifier := ring.verifier
  retry := config.retry
  rootWindow := config.rootWindow
  clocks _ _ := default

/-- The log is read as its records. -/
theorem records_read : Log.records (read "log") = .ok lines := by
  have hvote (choice : Point) (h : choice.OnCurve) :
      ∀ p ∈ Vector.replicate emojiSlots choice, p.OnCurve := by
    intro p hp
    rwa [Vector.eq_of_mem_replicate hp]
  have hidentity := hvote _ Point.identity_onCurve
  have hgenerator := hvote _ Point.generator_onCurve
  refine Log.records_write fun record hrecord => ?_
  simp only [records, List.mem_cons, List.not_mem_nil, or_false] at hrecord
  rcases hrecord with rfl | rfl | rfl | rfl | rfl | rfl | rfl | rfl | rfl | rfl | rfl
  · exact Point.generator_onCurve
  · trivial
  · exact ⟨by decide, by decide⟩
  · exact ⟨hidentity, hgenerator, by decide⟩
  · exact ⟨by decide, by decide⟩
  · exact ⟨hidentity, hidentity, by decide⟩
  · exact Point.generator_onCurve
  · trivial
  · exact ⟨by decide, by decide⟩
  · exact ⟨hidentity, hidentity, by decide⟩
  · exact ⟨hidentity, hidentity, by decide⟩

/-- The key has the version and the number of inputs that are asked for. -/
theorem fits_key : key.Fits "omega-v1" where
  version := rfl
  ic_length := List.length_replicate
  valid := by
    refine ⟨trivial, G2.valid_infinity, G2.valid_infinity, G2.valid_infinity, fun p hp => ?_⟩
    rw [List.eq_of_mem_replicate hp]
    trivial

/-- The configuration describes the key ring. -/
theorem built : VerifierConfig.Built read config.verifier ring where
  keys := by
    refine .cons ?_ .nil
    rw [VerifierConfig.Loads, KeyFile.run_load]
    exact KeyFile.key_write fits_key (by decide) (by decide)
  current := rfl
  deprecated := rfl
  vulnerable := rfl
  not_vulnerable := List.not_mem_nil
  current_mem := List.mem_singleton.2 rfl

/-- The node builds its verifier from the files. -/
theorem run_build : (config.verifier.build read).run = .ok ring.verifier := by
  rw [VerifierConfig.run_build rfl, built.run_keyRing]
  rfl

/-- Every statement is verified. -/
theorem accepts_examine (statement : Statement) :
    (ring.examine "omega-v1" proof.encode statement).accepts = true := by
  have hdecode : Proof.decode? proof.encode = some proof :=
    Proof.decode?_eq_some_iff.2 ⟨⟨trivial, G2.valid_infinity, trivial⟩, rfl⟩
  have hcheck : key.check? proof statement.inputs = some true :=
    VerificationKey.check?_of_infinity rfl rfl rfl rfl
      (by rw [statement.length_inputs, fits_key.ic_length]; rfl)
  have hkey : ring.key? "omega-v1" = some key := by decide +kernel
  rw [KeyRing.examine_of_not_vulnerable (List.not_mem_nil), hkey]
  dsimp only
  rw [KeyRing.judge, hdecode]
  dsimp only
  rw [hcheck]
  rfl

/-- A reaction is admissible where its feed has a key and a root and its message an author. -/
theorem admissible {before : List (Nat × LogRecord)} {line height : Nat} {feed : FeedId}
    {nullifier : Nullifier} {choice : Point} (hkey : (last? (·.keyOf? feed) before).isSome)
    (hauthor : (last? (·.authorOf? feed default) before).isSome)
    (hnullifier : nullifier.toField?.isSome)
    (hroot : ((registry setting before).history feed).length ≠ 0) :
    Occurrence.Admissible ring setting ⟨before, line, reaction feed nullifier choice height⟩ := by
  have hhasKey : (ring.key? "omega-v1").isSome := by decide +kernel
  have hmessage : (default : MessageId).toField?.isSome := by decide +kernel
  obtain ⟨key, hkey⟩ := Option.isSome_iff_exists.1 hkey
  obtain ⟨author, hauthor⟩ := Option.isSome_iff_exists.1 hauthor
  obtain ⟨n, hnullifier⟩ := Option.isSome_iff_exists.1 hnullifier
  obtain ⟨m, hmessage⟩ := Option.isSome_iff_exists.1 hmessage
  have hrooted : (registry setting before).Rooted feed := .serving _ _
  obtain ⟨row, older, hhistory⟩ := List.exists_cons_of_ne_nil fun hnil =>
    hroot (congrArg List.length hnil)
  obtain ⟨root, hfield⟩ := hrooted.rootField?_isSome (hhistory ▸ List.mem_cons_self)
  refine ⟨rfl, hhasKey, n, m, key, author, hnullifier, hmessage, hkey, hauthor, row, ?_,
    root, hfield, accepts_examine _⟩
  exact hhistory.symm ▸ List.mem_cons_self

/-- The new vote is admissible where it stands. -/
theorem admissible_cast : Occurrence.Admissible ring setting ⟨lines.take 3, 4, cast⟩ :=
  admissible (by decide +kernel) (by decide +kernel) (by decide +kernel) (by decide +kernel)

open Classical in
/-- The first reaction is handed on before the member of its feed leaves. -/
theorem handed_until_departure : ((reading setting {} (lines.take 4)).run .empty).1.2 =
    [(4, cast)] := by
  have hoccurrences : occurrences [] (lines.take 4) = [⟨lines.take 3, 4, cast⟩] := rfl
  rw [(Reflects.start setting).handed_reading (show setting.verifier = ring.verifier from rfl),
    hoccurrences]
  simp [admissible_cast, Occurrence.item]

open Classical in
/-- The reader hands on the first three reactions and refuses the last. -/
theorem handed : ((reading setting {} lines).run .empty).1.2 =
    [(4, cast), (6, changed), (10, claimed)] := by
  have hchanged : Occurrence.Admissible ring setting ⟨lines.take 5, 6, changed⟩ :=
    admissible (by decide +kernel) (by decide +kernel) (by decide +kernel) (by decide +kernel)
  have hclaimed : Occurrence.Admissible ring setting ⟨lines.take 9, 10, claimed⟩ :=
    admissible (by decide +kernel) (by decide +kernel) (by decide +kernel) (by decide +kernel)
  have hstray : ¬ Occurrence.Admissible ring setting ⟨lines.take 10, 11, stray⟩ := by
    intro hadmissible
    obtain ⟨_, _, _, _, -, -, hkey, -⟩ := hadmissible.verified
    cases hkey
  have hoccurrences : occurrences [] lines = [⟨lines.take 3, 4, cast⟩,
    ⟨lines.take 5, 6, changed⟩, ⟨lines.take 9, 10, claimed⟩, ⟨lines.take 10, 11, stray⟩] := rfl
  rw [(Reflects.start setting).handed_reading (show setting.verifier = ring.verifier from rfl),
    hoccurrences]
  simp [admissible_cast, hchanged, hclaimed, hstray, Occurrence.item]

/-- The indexer counts one new vote, one change, and one failure. -/
theorem indexed : ((indexing setting {} [(4, cast), (6, changed), (10, claimed)]).run .empty).1 =
    ⟨1, 1, 1⟩ := rfl

/-- The vote and its change are audited. -/
theorem audited : List.Forall₂ (fun reaction audit => AuditRow.Of audit reaction) [cast, changed]
    ((indexing setting {} [(4, cast), (6, changed), (10, claimed)]).run
      .empty).2.transactions.reverse :=
  .cons ⟨rfl, rfl, rfl, rfl, rfl, rfl, rfl⟩ (.cons ⟨rfl, rfl, rfl, rfl, rfl, rfl, rfl⟩ .nil)

end Replay.TwoFeeds

end Reactions
