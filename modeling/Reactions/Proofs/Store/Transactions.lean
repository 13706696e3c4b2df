import Mathlib.Data.List.Induction
import Reactions.Proofs.Store.Serializability
import Reactions.Store.Work

/-!
# What programs commit

What a program can commit is said on the transcripts of its units of work. `Program.Commits` follows
a program through all answers that it may get: every transcript that it commits has to be a lawful
one, and its result has to fit the transcript of the unit that is open at the end. There is one rule
for each way to put work together, and each step of a client preserves the condition
(`Client.Commits.step`).

Among others a unit is committed only if the store would still answer its calls as they were
answered. So a turn of a system changes no row, or it publishes the writes of a lawful transcript
that the store at this moment answers (`System.step_cases`), and what such writes preserve holds
after every schedule (`System.after_append_induction`).
-/

namespace Reactions

namespace Program

variable {α β : Type} {lawful : List Made → Prop}

/-- What is left of a program commits lawful transcripts only and ends with a result that fits,
whatever answers it gets. `made` has the calls of the unit of work that is open. -/
def Commits (lawful : List Made → Prop) (post : α → List Made → Prop) :
    Program α → (made : List Made) → Prop
  | .done a, made => post a made
  | .begin _ next, _ => next.Commits lawful post []
  | .call c next, made => ∀ answer, (next answer).Commits lawful post (⟨c, answer⟩ :: made)
  | .commit next, made => lawful made ∧ ∀ outcome, (next outcome).Commits lawful post []
  | .wait _ next, made => next.Commits lawful post made

/-- A program that goes on with another. -/
theorem commits_bind {post : β → List Made → Prop} {p : Program α} {f : α → Program β}
    {made : List Made} (h : p.Commits lawful (fun a => (f a).Commits lawful post) made) :
    (p >>= f).Commits lawful post made := by
  change (p.bind f).Commits lawful post made
  induction p generalizing made with
  | done a => exact h
  | begin isolation next ih => exact ih h
  | call c next ih => exact fun answer => ih answer (h answer)
  | commit next ih => exact ⟨h.1, fun outcome => ih outcome (h.2 outcome)⟩
  | wait ms next ih => exact ih h

/-- A result may be asked for less. -/
theorem Commits.mono {post post' : α → List Made → Prop} {p : Program α} {made : List Made}
    (h : p.Commits lawful post made) (hpost : ∀ a made, post a made → post' a made) :
    p.Commits lawful post' made := by
  induction p generalizing made with
  | done a => exact hpost a made h
  | begin isolation next ih => exact ih h
  | call c next ih => exact fun answer => ih answer (h answer)
  | commit next ih => exact ⟨h.1, fun outcome => ih outcome (h.2 outcome)⟩
  | wait ms next ih => exact ih h

/-- Less may be asked of the transcripts. -/
theorem Commits.weaken {lawful' : List Made → Prop} {post : α → List Made → Prop} {p : Program α}
    {made : List Made} (h : p.Commits lawful post made)
    (hlawful : ∀ made, lawful made → lawful' made) : p.Commits lawful' post made := by
  induction p generalizing made with
  | done a => exact h
  | begin isolation next ih => exact ih h
  | call c next ih => exact fun answer => ih answer (h answer)
  | commit next ih => exact ⟨hlawful made h.1, fun outcome => ih outcome (h.2 outcome)⟩
  | wait ms next ih => exact ih h

end Program

/-! ## Fallible work -/

namespace Work

variable {ε ε' α β : Type} {lawful : List Made → Prop}

/-- What is left of fallible work commits lawful transcripts only; nothing is asked of failures. -/
def Commits (lawful : List Made → Prop) (post : α → List Made → Prop) (w : Work ε α)
    (made : List Made) : Prop :=
  w.run.Commits lawful (fun outcome made => ∀ a, outcome = .ok a → post a made) made

variable {made : List Made} {post : α → List Made → Prop}

theorem commits_pure {a : α} (h : post a made) : Commits lawful post (pure a : Work ε α) made := by
  rintro _ ⟨⟩
  exact h

theorem commits_throw (e : ε) : Commits lawful post (throw e : Work ε α) made := nofun

theorem commits_liftExcept {outcome : Except ε α} (h : ∀ a, outcome = .ok a → post a made) :
    Commits lawful post (liftExcept outcome : Work ε α) made := by
  cases outcome with
  | ok a => exact commits_pure (h a rfl)
  | error e => exact commits_throw e

/-- Work that goes on with the result of its first part. -/
theorem commits_bind {post : β → List Made → Prop} {w : Work ε α} {f : α → Work ε β}
    (h : w.Commits lawful (fun a => (f a).Commits lawful post) made) :
    (w >>= f).Commits lawful post made := by
  refine Program.commits_bind (Program.Commits.mono h fun outcome made houtcome => ?_)
  cases outcome with
  | ok a => exact houtcome a rfl
  | error e => exact nofun

/-- Rewording a failure commits nothing. -/
theorem commits_adapt (f : ε → ε') {w : Work ε α} (h : w.Commits lawful post made) :
    Commits lawful post (ExceptT.adapt f w) made := by
  refine Program.commits_bind (Program.Commits.mono h fun outcome made houtcome => ?_)
  cases outcome with
  | ok a => exact fun b hb => houtcome b (by cases hb; rfl)
  | error e => exact nofun

/-- Opening a unit of work starts the transcript anew. -/
theorem commits_begin {post : Unit → List Made → Prop} {isolation : Isolation} (h : post () []) :
    (begin isolation : Work ε Unit).Commits lawful post made :=
  fun _ _ => h

/-- Whatever the answer to a question is, it goes to the transcript. -/
theorem commits_read {q : Query} {post : q.Answer → List Made → Prop}
    (h : ∀ answer, post answer (⟨.read q, answer⟩ :: made)) :
    (read q : Work ε q.Answer).Commits lawful post made := by
  rintro answer _ ⟨⟩
  exact h answer

variable [StoreFailure ε]

/-- A write goes to the transcript if it is kept; else the work has failed. -/
theorem commits_save {post : Unit → List Made → Prop} {write : Write}
    (h : post () (⟨.save write, .ok ()⟩ :: made)) :
    (save write : Work ε Unit).Commits lawful post made := by
  intro answer
  cases answer with
  | ok _ => exact fun _ _ => h
  | error e => exact nofun

/-- An audit row goes to the transcript, under whatever number, if it is kept; else the work has
failed. -/
theorem commits_append {row : AuditRow} {post : AuditRow → List Made → Prop}
    (h : ∀ numbered, post numbered (⟨.append row, .ok numbered⟩ :: made)) :
    (append row : Work ε AuditRow).Commits lawful post made := by
  intro answer
  cases answer with
  | ok numbered =>
    intro a hok
    cases hok
    exact h numbered
  | error e =>
    intro a hok
    cases hok

/-- A commit asks for a lawful transcript and starts anew. -/
theorem commits_commit {post : Unit → List Made → Prop} (hlawful : lawful made) (h : post () []) :
    (commit : Work ε Unit).Commits lawful post made := by
  refine ⟨hlawful, fun outcome => ?_⟩
  cases outcome with
  | ok _ => exact fun _ _ => h
  | error e => exact nofun

/-- Work that is tried again commits what each attempt commits, from wherever the attempt starts. -/
theorem commits_retried (policy : RetryPolicy) {op : Nat → Work ε α}
    (h : ∀ attempt made, (op attempt).Commits lawful post made) :
    (retried policy op).Commits lawful post made := by
  change Program.Commits _ _ (retryFrom _ policy _ _ _) made
  generalize policy.attempts - 1 = retries
  generalize 1 = attempt
  induction retries generalizing attempt made with
  | zero =>
    refine Program.commits_bind (Program.Commits.mono (h attempt made) fun outcome made hpost => ?_)
    cases outcome with
    | ok a => exact fun b hb => hpost b (by cases hb; rfl)
    | error e => exact nofun
  | succ retries ih =>
    refine Program.commits_bind (Program.Commits.mono (h attempt made) fun outcome made hpost => ?_)
    cases outcome with
    | ok a => exact fun b hb => hpost b (by cases hb; rfl)
    | error e =>
      dsimp only
      split
      · exact ih (attempt + 1)
      · exact nofun

end Work

/-! ## Clients and systems -/

variable {α : Type} {lawful : List Made → Prop}

/-- What is left of a client's program commits lawful transcripts only. -/
def Client.Commits (lawful : List Made → Prop) (post : α → List Made → Prop) (c : Client α) :
    Prop :=
  c.process.program.Commits lawful post c.made

/-- A step preserves this, on whatever store. -/
theorem Client.Commits.step {post : α → List Made → Prop} {c : Client α}
    (h : c.Commits lawful post) (s : Store) : (c.step s).2.Commits lawful post := by
  obtain ⟨⟨program, u⟩, made⟩ := c
  cases program with
  | done a => exact h
  | begin isolation next => exact h
  | call c next => exact h (u.perform s c).1
  | commit next => exact h.2 (s.commit u).1
  | wait ms next => exact h

/-- A client that commits does so with a lawful transcript. -/
theorem Client.Commits.lawful_made {post : α → List Made → Prop} {c : Client α}
    (h : c.Commits lawful post) {s : Store} (hcommits : c.commits s = true) : lawful c.made := by
  obtain ⟨⟨program, u⟩, made⟩ := c
  cases program with
  | commit next => exact h.1
  | done _ | begin _ _ | call _ _ | wait _ _ => cases hcommits

/-- The unit of work that a transcript leaves. -/
def UnitOfWork.ofMade (made : List Made) : UnitOfWork where
  isolation := .serializable
  writes := writesOf made
  audit := auditOf made

namespace System

variable {post : Nat → α → List Made → Prop} {programs : Nat → Program α}

/-- On every schedule, what is left of a client's program commits lawful transcripts only. -/
theorem commits_after {i : Nat} {post : α → List Made → Prop}
    (h : (programs i).Commits lawful post []) (turns : List Turn) :
    ((after programs turns).clients i).Commits lawful post :=
  clients_foldl_step h (fun _ _ hc => hc.step _) turns

/-- What a turn does to the store: it changes no row, or it publishes the writes of a lawful
transcript that the store answers as it was answered. Only the program whose turn it is has to
commit lawfully. -/
theorem step_cases {turn : Turn}
    (h : ∀ i, turn = .client i → (programs i).Commits lawful (post i) []) (turns : List Turn) :
    (after programs turns).store.Quiet ((after programs turns).step turn).store ∨
    ∃ made, lawful made ∧ AnsweredBy (after programs turns).store made ∧
      ((after programs turns).step turn).store =
        (after programs turns).store.publish (.ofMade made) := by
  cases turn with
  | failNext errors => exact .inl ⟨_, (after programs turns).store.lastTransactionId, rfl⟩
  | client i =>
    have hcommits := commits_after (h i rfl) turns
    have hsound := (Sound.after programs turns).clients i
    generalize after programs turns = σ at hcommits hsound ⊢
    rcases (σ.clients i).step_cases σ.store with ⟨hi, hisolation, hunmoved, hstore⟩ | ⟨-, hquiet⟩
    · have hunit := hsound hisolation
      refine .inr ⟨(σ.clients i).made, hcommits.lawful_made hi, hunit.answered hunmoved, ?_⟩
      exact hstore.trans (Store.publish_congr _ hunit.follows.writes hunit.follows.audit)
    · exact .inl hquiet

/-- What holds at some time and is preserved by quiet changes and by lawful writes holds ever after,
if all programs that have a turn from then on commit lawfully. -/
theorem after_append_induction {P : Store → Prop} (earlier : List Turn) {later : List Turn}
    (h : ∀ i, .client i ∈ later → (programs i).Commits lawful (post i) [])
    (hstart : P (after programs earlier).store)
    (hquiet : ∀ s s', P s → s.Quiet s' → P s')
    (hpublish : ∀ s made, P s → lawful made → AnsweredBy s made → P (s.publish (.ofMade made))) :
    P (after programs (earlier ++ later)).store := by
  induction later using List.reverseRecOn with
  | nil =>
    rw [List.append_nil]
    exact hstart
  | append_singleton later turn ih =>
    have hlater := ih fun i hi => h i (List.mem_append_left _ hi)
    have hturn : ∀ i, turn = .client i → (programs i).Commits lawful (post i) [] :=
      fun i hi => h i (by simp [hi])
    rw [← List.append_assoc, after_append_singleton]
    rcases step_cases hturn (earlier ++ later) with hstep | ⟨made, hlawful, hanswered, hstep⟩
    · exact hquiet _ _ hlater hstep
    · rw [hstep]
      exact hpublish _ made hlater hlawful hanswered

end System

end Reactions
