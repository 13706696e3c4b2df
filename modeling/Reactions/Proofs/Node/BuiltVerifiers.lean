import Reactions.Proofs.Groth16.ProofLayout
import Reactions.Proofs.Node.KeyFiles
import Reactions.Node.Config

/-!
# Verifiers that are built from a configuration

Unless every proof is to be accepted unchecked, a verifier can only be built if the keys of all
circuits are loaded, and if the current version is one of the circuits and not vulnerable
(`VerifierConfig.built_of_run_keyRing`). The keys stand in the order of the circuits, so what counts
for a version is the file of the last circuit of that version (`VerifierConfig.Built.key?_cases`).

All these keys fit the circuit, whatever the files hold (`KeyFile.fits_of_key`), so none of them has
too few or too many input points for a statement. Hence a proof that the policy lets pass and that
can be read is judged by the pairing equation alone (`VerifierConfig.Built.answers`).
-/

namespace Reactions

/-! ## Statements and keys -/

instance : Nonempty Statement :=
  ⟨⟨default, default, default, default, .identity, .replicate emojiSlots .identity,
    .replicate emojiSlots .identity⟩⟩

/-- A statement has as many public inputs as the circuit. -/
theorem Statement.length_inputs (s : Statement) : s.inputs.length = inputCount := by
  simp [inputs, inputCount, Point.coordinates, List.length_flatMap]
  omega

/-- A key that fits has an input point for every input of a statement, so the pairing equation holds
or does not. -/
theorem VerificationKey.Fits.exists_check? {key : VerificationKey} {version : String}
    (h : key.Fits version) (proof : Proof) (statement : Statement) :
    ∃ holds, key.check? proof statement.inputs = some holds := by
  obtain ⟨constant, points, hic⟩ := List.exists_cons_of_length_eq_add_one h.ic_length
  have hlength : points.length = statement.inputs.length := by
    have := h.ic_length
    rw [hic, List.length_cons] at this
    rw [Statement.length_inputs]
    exact Nat.succ.inj this
  rw [check?, hic]
  exact ⟨_, if_pos hlength⟩

/-! ## Key rings -/

namespace KeyRing

variable {ring : KeyRing} {version : String} {key : VerificationKey}

/-- A vulnerable version is rejected before its key is looked for. -/
theorem examine_of_vulnerable (h : version ∈ ring.vulnerable) (proof : Bytes)
    (statement : Statement) :
    ring.examine version proof statement = .reject (.vulnerable version) :=
  if_pos (List.contains_iff_mem.2 h)

/-- Any other version is judged by its key, or rejected if it has none. -/
theorem examine_of_not_vulnerable (h : version ∉ ring.vulnerable) (proof : Bytes)
    (statement : Statement) :
    ring.examine version proof statement =
      match ring.key? version with
      | none => .reject (.unknown version)
      | some key => ring.judge key version proof statement :=
  if_neg (mt List.contains_iff_mem.1 h)

/-- A proof that cannot be read is rejected as one of no valid form. -/
theorem judge_of_not_decoded {proof : Bytes} (h : Proof.decode? proof = none)
    (statement : Statement) :
    ∃ message, ring.judge key version proof statement = .reject ⟨.invalidFormat, message⟩ := by
  rw [judge, h]
  exact ⟨_, rfl⟩

/-- The policy asks for what an examination begins with. -/
theorem policyRejection_verifier (ring : KeyRing) (version : String) :
    ring.verifier.policyRejection version =
      if version ∈ ring.vulnerable then some (.vulnerable version)
      else if (ring.key? version).isSome then none
      else some (.unknown version) := by
  by_cases h : version ∈ ring.vulnerable <;>
    simp [Verifier.policyRejection, verifier, supports, isVulnerable, h]

end KeyRing

/-! ## Configurations -/

/-- The code of a refusal. -/
def Verdict.code? : Verdict → Option RejectCode
  | .reject r => some r.code
  | _ => none

namespace VerifierConfig

variable {read : ReadFile Id} {config : VerifierConfig} {ring : KeyRing} {version : String}

/-- The circuit that counts for a version, the last one of it. -/
def circuit? (config : VerifierConfig) (version : String) : Option CircuitKey :=
  config.circuits.reverse.find? (·.version = version)

/-- No circuit is found for a version that is not configured. -/
theorem circuit?_eq_none_iff :
    config.circuit? version = none ↔ version ∉ config.circuits.map (·.version) := by
  simp [circuit?]

/-- A circuit that is found is one of the version that was asked for. -/
theorem of_circuit?_eq_some {circuit : CircuitKey} (h : config.circuit? version = some circuit) :
    circuit.version = version ∧ version ∈ config.circuits.map (·.version) := by
  obtain rfl : circuit.version = version := by simpa using List.find?_some h
  exact ⟨rfl, List.mem_map_of_mem (List.mem_reverse.1 (List.mem_of_find?_eq_some h))⟩

/-- The verdict on a proof that the policy lets pass and that can be read, by whether the pairing
equation holds. -/
def conclusion (config : VerifierConfig) (version : String) (holds : Bool) : Verdict :=
  if holds then
    if version ∈ config.deprecated then
      .acceptWithWarning ("circuit version " ++ version ++ " is deprecated, upgrade to " ++
        config.currentVersion)
    else .accept
  else .reject ⟨.invalidProof, "pairing check failed"⟩

/-- Whether the key in the file of a circuit has been loaded. -/
def Loads (read : ReadFile Id) (circuit : CircuitKey) (key : VerificationKey) : Prop :=
  (KeyFile.load read circuit.version circuit.path).run = .ok key

/-- A verdict that is the one that a configuration asks for: the policy on versions comes first,
then the layout of the proof, and then the pairing equation for the key of the version decides. -/
structure Answers (read : ReadFile Id) (config : VerifierConfig) (version : String) (proof : Bytes)
    (statement : Statement) (verdict : Verdict) : Prop where
  vulnerable : verdict.code? = some .vulnerableVersion ↔ version ∈ config.vulnerable
  unknown : verdict.code? = some .unknownVersion ↔
    version ∉ config.vulnerable ∧ version ∉ config.circuits.map (·.version)
  invalidFormat : verdict.code? = some .invalidFormat ↔
    version ∉ config.vulnerable ∧ version ∈ config.circuits.map (·.version) ∧
      Proof.decode? proof = none
  decided : version ∉ config.vulnerable →
    ∀ circuit decoded, config.circuit? version = some circuit → Proof.decode? proof = some decoded →
      ∃ key holds, Loads read circuit key ∧ key.check? decoded statement.inputs = some holds ∧
        verdict = config.conclusion version holds

/-! ### Building -/

/-- Building goes on after a part only if that part comes to a value. -/
theorem ok_of_run_bind {α β : Type} {x : ExceptT ConfigError Id α}
    {f : α → ExceptT ConfigError Id β} {b : β} (h : (x >>= f).run = .ok b) :
    ∃ a, x.run = .ok a ∧ (f a).run = .ok b := by
  rw [ExceptT.run_bind] at h
  cases hx : x.run with
  | error e =>
    rw [hx] at h
    cases h
  | ok a =>
    rw [hx] at h
    exact ⟨a, rfl, h⟩

/-- The steps of a configuration succeed one after the other. -/
theorem run_bind_of_ok {α β : Type} {x : ExceptT ConfigError Id α}
    {f : α → ExceptT ConfigError Id β} {a : α} {b : β} (hx : x.run = .ok a)
    (hf : (f a).run = .ok b) : (x >>= f).run = .ok b := by
  rw [ExceptT.run_bind, hx]
  exact hf

/-- Unless every proof is accepted unchecked, the verifier that is built is that of the keys. -/
theorem run_build (hdev : config.devMode = false) :
    (config.build read).run = Except.map KeyRing.verifier (config.keyRing read).run := by
  rw [build, hdev]
  change (ExceptT.bind (config.keyRing read) fun ring => pure ring.verifier).run = _
  rw [ExceptT.bind, ExceptT.run_mk]
  change ExceptT.bindCont _ (config.keyRing read).run = _
  cases (config.keyRing read).run <;> rfl

/-- What is built outside of development is the verifier of a key ring. -/
theorem exists_ring_of_build (hdev : config.devMode = false) {verifier : Verifier}
    (h : (config.build read).run = .ok verifier) :
    ∃ ring, (config.keyRing read).run = .ok ring ∧ ring.verifier = verifier := by
  rw [run_build hdev] at h
  cases hring : (config.keyRing read).run with
  | error e =>
    rw [hring] at h
    cases h
  | ok ring =>
    rw [hring] at h
    exact ⟨ring, rfl, Except.ok.inj h⟩

/-- All keys are loaded, in the order of the circuits. -/
theorem forall₂_of_run_loadKeys {circuits : List CircuitKey} {keys : List VerificationKey}
    (h : (loadKeys read circuits).run = .ok keys) : List.Forall₂ (Loads read) circuits keys := by
  induction circuits generalizing keys with
  | nil =>
    cases h
    exact .nil
  | cons circuit rest ih =>
    rw [loadKeys, List.mapM_cons] at h
    obtain ⟨key, hkey, h⟩ := ok_of_run_bind h
    obtain ⟨keys', hrest, h⟩ := ok_of_run_bind h
    cases h
    refine .cons ?_ (ih hrest)
    rw [Loads]
    generalize KeyFile.load read circuit.version circuit.path = loaded at hkey ⊢
    cases loaded with
    | error e => cases hkey
    | ok key =>
      cases hkey
      rfl

/-- If the file of every circuit holds a key, then the keys are loaded. -/
theorem run_loadKeys_of_forall₂ {circuits : List CircuitKey} {keys : List VerificationKey}
    (h : List.Forall₂ (Loads read) circuits keys) : (loadKeys read circuits).run = .ok keys := by
  induction h with
  | nil => rfl
  | @cons circuit key rest keys hload _ ih =>
    rw [loadKeys, List.mapM_cons]
    refine run_bind_of_ok ?_ (run_bind_of_ok ih rfl)
    rw [Loads] at hload
    generalize KeyFile.load read circuit.version circuit.path = loaded at hload ⊢
    obtain rfl : loaded = .ok key := hload
    rfl

/-- A key that is loaded fits the version of its circuit. -/
theorem Loads.fits {circuit : CircuitKey} {key : VerificationKey} (h : Loads read circuit key) :
    key.Fits circuit.version := by
  rw [Loads, KeyFile.run_load] at h
  exact KeyFile.fits_of_key h

/-- What a key ring of a configuration holds: the key of every circuit, in order, and the policy,
under which the current version can be verified. -/
structure Built (read : ReadFile Id) (config : VerifierConfig) (ring : KeyRing) : Prop where
  keys : List.Forall₂ (Loads read) config.circuits ring.keys
  current : ring.current = config.currentVersion
  deprecated : ring.deprecated = config.deprecated
  vulnerable : ring.vulnerable = config.vulnerable
  not_vulnerable : config.currentVersion ∉ config.vulnerable
  current_mem : config.currentVersion ∈ config.circuits.map (·.version)

/-- A key ring that comes of the files is the one that the configuration describes. -/
theorem built_of_run_keyRing (h : (config.keyRing read).run = .ok ring) :
    Built read config ring := by
  rw [keyRing] at h
  split at h
  · cases h
  · rename_i hvulnerable
    obtain ⟨keys, hkeys, h⟩ := ok_of_run_bind h
    split at h
    · cases h
    · rename_i hcurrent
      cases h
      have hloaded := forall₂_of_run_loadKeys hkeys
      have hversions : config.circuits.map (·.version) = keys.map (·.version) := by
        have := List.rel_map (fun _ _ h => h.fits.version.symm) hloaded
        rwa [List.forall₂_eq_eq_eq] at this
      refine ⟨hloaded, rfl, rfl, rfl, mt List.contains_iff_mem.2 hvulnerable, ?_⟩
      rw [hversions, List.mem_map]
      simpa using hcurrent

/-- The key ring that the configuration describes comes of the files. -/
theorem Built.run_keyRing (h : Built read config ring) : (config.keyRing read).run = .ok ring := by
  obtain ⟨hkeys, hcurrent, hdeprecated, hvulnerable, hnot, hmem⟩ := h
  have hversions : config.circuits.map (·.version) = ring.keys.map (·.version) := by
    have := List.rel_map (fun _ _ h => h.fits.version.symm) hkeys
    rwa [List.forall₂_eq_eq_eq] at this
  have hany : (!ring.keys.any (·.version = config.currentVersion)) = false := by
    rw [hversions, List.mem_map] at hmem
    simpa using hmem
  rw [keyRing, if_neg (mt List.contains_iff_mem.1 hnot)]
  refine run_bind_of_ok (run_loadKeys_of_forall₂ hkeys) ?_
  rw [hany, if_neg Bool.false_ne_true, ← hcurrent, ← hdeprecated, ← hvulnerable]
  rfl

/-- There is a key for the versions of circuits: the one in the file of the circuit that counts for
the version, and it fits. -/
theorem Built.key?_cases (h : Built read config ring) (version : String) :
    (config.circuit? version = none ∧ ring.key? version = none) ∨
    ∃ circuit key, config.circuit? version = some circuit ∧ ring.key? version = some key ∧
      Loads read circuit key ∧ key.Fits version := by
  have hrel : Option.Rel (Loads read) (config.circuit? version) (ring.key? version) :=
    find?_of_forall₂ (List.rel_reverse h.keys) fun circuit key hloads => by
      rw [hloads.fits.version]
  cases hcircuit : config.circuit? version with
  | none =>
    rw [hcircuit] at hrel
    cases hkey : ring.key? version with
    | none => exact .inl ⟨rfl, rfl⟩
    | some key =>
      rw [hkey] at hrel
      cases hrel
  | some circuit =>
    rw [hcircuit] at hrel
    cases hkey : ring.key? version with
    | none =>
      rw [hkey] at hrel
      cases hrel
    | some key =>
      rw [hkey] at hrel
      cases hrel with
      | some hloads =>
        obtain ⟨rfl, -⟩ := of_circuit?_eq_some hcircuit
        exact .inr ⟨circuit, key, rfl, rfl, hloads, hloads.fits⟩

/-! ### Verdicts -/

/-- A conclusion has a code if the proof does not hold, and that code says so. -/
theorem code?_conclusion (config : VerifierConfig) (version : String) (holds : Bool) :
    (config.conclusion version holds).code? = if holds then none else some .invalidProof := by
  cases holds with
  | false => rfl
  | true =>
    rw [conclusion, if_pos rfl]
    split <;> rfl

/-- A key that fits decides on a proof that can be read by the pairing equation alone. -/
theorem Built.judge (h : Built read config ring) {key : VerificationKey} (hfits : key.Fits version)
    {proof : Bytes} {decoded : Proof} (hproof : Proof.decode? proof = some decoded)
    (statement : Statement) :
    ∃ holds, key.check? decoded statement.inputs = some holds ∧
      ring.judge key version proof statement = config.conclusion version holds := by
  obtain ⟨holds, hcheck⟩ := hfits.exists_check? decoded statement
  refine ⟨holds, hcheck, ?_⟩
  rw [KeyRing.judge, hproof]
  simp only [hcheck, h.deprecated, h.current]
  cases holds <;> simp [conclusion]

/-- The verdicts of a key ring are those that its configuration asks for. -/
theorem Built.answers (h : Built read config ring) (version : String) (proof : Bytes)
    (statement : Statement) :
    Answers read config version proof statement (ring.examine version proof statement) := by
  by_cases hvulnerable : version ∈ config.vulnerable
  · rw [KeyRing.examine_of_vulnerable (h.vulnerable ▸ hvulnerable)]
    constructor <;> simp [Verdict.code?, Rejection.vulnerable, hvulnerable]
  rw [KeyRing.examine_of_not_vulnerable (h.vulnerable ▸ hvulnerable)]
  obtain ⟨hcircuit, hkey⟩ | ⟨circuit, key, hcircuit, hkey, hloads, hfits⟩ := h.key?_cases version
  · have hmem := circuit?_eq_none_iff.1 hcircuit
    rw [hkey]
    constructor <;> simp [Verdict.code?, Rejection.unknown, hvulnerable, hmem, hcircuit]
  · obtain ⟨-, hmem⟩ := of_circuit?_eq_some hcircuit
    rw [hkey]
    dsimp only
    cases hproof : Proof.decode? proof with
    | none =>
      obtain ⟨message, hjudge⟩ := KeyRing.judge_of_not_decoded hproof statement
      rw [hjudge]
      constructor <;> simp [Verdict.code?, hvulnerable, hmem, hproof]
    | some decoded =>
      obtain ⟨holds, hcheck, hjudge⟩ := h.judge hfits hproof statement
      have hcode := code?_conclusion config version holds
      rw [hjudge]
      refine ⟨?_, ?_, ?_, fun _ circuit' decoded' hcircuit' hproof' => ?_⟩
      · cases holds <;> simp [hcode, hvulnerable]
      · cases holds <;> simp [hcode, hmem]
      · cases holds <;> simp [hcode, hproof]
      · cases hcircuit.symm.trans hcircuit'
        cases hproof.symm.trans hproof'
        exact ⟨key, holds, hloads, hcheck, rfl⟩

/-! ### What the policy forces -/

/-- A verdict is forced by the policy exactly if it is given for every proof and statement. What the
policy lets pass is not judged alike: bytes that cannot be read are refused for their layout, a
proof of three points at infinity is not. -/
theorem Built.policyRejection_iff (h : Built read config ring) (version : String)
    (verdict : Verdict) :
    (ring.verifier.policyRejection version).map .reject = some verdict ↔
      ∀ proof statement, ring.examine version proof statement = verdict := by
  rw [KeyRing.policyRejection_verifier]
  by_cases hvulnerable : version ∈ ring.vulnerable
  · simp [hvulnerable, KeyRing.examine_of_vulnerable hvulnerable]
  obtain ⟨-, hkey⟩ | ⟨circuit, key, hcircuit, hkey, -, -⟩ := h.key?_cases version
  · simp [hvulnerable, hkey, KeyRing.examine_of_not_vulnerable hvulnerable]
  · rw [if_neg hvulnerable, hkey]
    refine ⟨nofun, fun hall => ?_⟩
    let infinities : Proof := ⟨.infinity, .infinity, .infinity⟩
    have hread : Proof.decode? infinities.encode = some infinities :=
      Proof.decode?_eq_some_iff.2 ⟨⟨trivial, G2.valid_infinity, trivial⟩, rfl⟩
    obtain ⟨statement⟩ : Nonempty Statement := inferInstance
    have hempty := h.answers version [] statement
    have hinfinities := h.answers version infinities.encode statement
    rw [hall] at hempty hinfinities
    rw [h.vulnerable] at hvulnerable
    obtain ⟨-, hmem⟩ := of_circuit?_eq_some hcircuit
    have hformat := hempty.invalidFormat.2 ⟨hvulnerable, hmem, rfl⟩
    have := (hinfinities.invalidFormat.1 hformat).2.2
    rw [hread] at this
    cases this

/-- A verifier that is built to check proofs does what its configuration says. The current version
is one of its circuits and not vulnerable. Every key is loaded with 31 input points, all of them and
all its other points in their groups. Every proof gets the verdict that the configuration asks for,
so the pairing equation, which is never without an answer, decides on what the policy lets pass and
what can be read. And a rejection is forced by the policy exactly if it is the verdict on every
proof of every statement. -/
theorem built_verifier_answers_as_configured (read : ReadFile Id) (config : VerifierConfig)
    (hdev : config.devMode = false) (verifier : Verifier)
    (hbuild : (config.build read).run = .ok verifier) :
    config.currentVersion ∈ config.circuits.map (·.version) ∧
    config.currentVersion ∉ config.vulnerable ∧
    (∀ circuit ∈ config.circuits, ∃ key, Loads read circuit key ∧ key.ic.length = 31 ∧ key.Valid) ∧
    (∀ version proof statement, ∃ verdict,
      verifier.examine version proof statement = .ok verdict ∧
      Answers read config version proof statement verdict) ∧
    ∀ version verdict, (verifier.policyRejection version).map .reject = some verdict ↔
      ∀ proof statement, verifier.examine version proof statement = .ok verdict := by
  obtain ⟨ring, hring, rfl⟩ := exists_ring_of_build hdev hbuild
  have hbuilt := built_of_run_keyRing hring
  refine ⟨hbuilt.current_mem, hbuilt.not_vulnerable, fun circuit hcircuit => ?_,
    fun version proof statement => ⟨_, rfl, hbuilt.answers version proof statement⟩,
    fun version verdict => ?_⟩
  · obtain ⟨i, hi, rfl⟩ := List.getElem_of_mem hcircuit
    obtain ⟨hlength, hkeys⟩ := List.forall₂_iff_get.1 hbuilt.keys
    have hloads := hkeys i hi (hlength ▸ hi)
    exact ⟨_, hloads, hloads.fits.ic_length, hloads.fits.valid⟩
  · rw [hbuilt.policyRejection_iff]
    exact forall₂_congr fun proof statement => ⟨congrArg Except.ok, Except.ok.inj⟩

/-- A version that is at once a circuit, deprecated and vulnerable is refused as vulnerable,
whatever the proof. Under the current version, bytes that cannot be read are refused for their
layout. -/
theorem vulnerable_circuit_is_refused_as_such :
    let key : VerificationKey := ⟨"", .infinity, .infinity, .infinity, .infinity,
      List.replicate VerificationKey.icCount .infinity⟩
    let read : ReadFile Id := fun _ => .bytes (KeyCache.write key)
    let config : VerifierConfig := {
      currentVersion := "omega-v2"
      circuits := [⟨"omega-v1", "omega.bin"⟩, ⟨"omega-v2", "omega.bin"⟩]
      deprecated := ["omega-v1"]
      vulnerable := ["omega-v1"] }
    ∃ verifier, (config.build read).run = .ok verifier ∧
      (∀ proof statement, ∃ verdict, verifier.examine "omega-v1" proof statement = .ok verdict ∧
        verdict.code? = some .vulnerableVersion) ∧
      ∀ statement, ∃ verdict, verifier.examine "omega-v2" [] statement = .ok verdict ∧
        verdict.code? = some .invalidFormat := by
  intro key read config
  have hkeys : ((config.keyRing read).run.toOption).isSome := by decide +kernel
  obtain ⟨ring, hring⟩ : ∃ ring, (config.keyRing read).run = .ok ring := by
    cases h : (config.keyRing read).run with
    | error e =>
      rw [h] at hkeys
      cases hkeys
    | ok ring => exact ⟨ring, rfl⟩
  have hbuild : (config.build read).run = .ok ring.verifier := by
    rw [run_build rfl, hring]
    rfl
  obtain ⟨-, -, -, hanswers, -⟩ :=
    built_verifier_answers_as_configured read config rfl ring.verifier hbuild
  refine ⟨ring.verifier, hbuild, fun proof statement => ?_, fun statement => ?_⟩
  · obtain ⟨verdict, hverdict, hanswer⟩ := hanswers "omega-v1" proof statement
    exact ⟨verdict, hverdict, hanswer.vulnerable.2 (by decide)⟩
  · obtain ⟨verdict, hverdict, hanswer⟩ := hanswers "omega-v2" [] statement
    exact ⟨verdict, hverdict, hanswer.invalidFormat.2 ⟨by decide, by decide, rfl⟩⟩

end VerifierConfig

end Reactions
