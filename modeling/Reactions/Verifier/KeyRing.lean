import Reactions.Groth16.Key
import Reactions.Verifier.Verdict

/-!
# Verification by keys

A key ring has a key for every circuit version that it knows, and of two keys for one version the
later one counts. A proof is refused by the policy on versions, then for its layout, then by the
pairing equation; one that passes under a deprecated version is accepted with a warning.
-/

namespace Reactions

/-- The keys of a verifier and its policy. -/
structure KeyRing where
  current : String
  keys : List VerificationKey
  deprecated : List String
  vulnerable : List String

namespace KeyRing

/-- The key of a version. -/
def key? (ring : KeyRing) (version : String) : Option VerificationKey :=
  ring.keys.reverse.find? (·.version = version)

/-- Whether a version is known to be vulnerable. -/
def isVulnerable (ring : KeyRing) (version : String) : Bool := ring.vulnerable.contains version

/-- Whether proofs of a version can be verified at all. -/
def supports (ring : KeyRing) (version : String) : Bool :=
  (ring.key? version).isSome && !ring.isVulnerable version

/-- Checks a proof against a key. -/
def judge (ring : KeyRing) (key : VerificationKey) (version : String) (proof : Bytes)
    (statement : Statement) : Verdict :=
  match Proof.decode? proof with
  | none => .reject ⟨.invalidFormat,
      "proof must be " ++ Decimal.write proofBytes ++ " bytes of valid curve points"⟩
  | some proof =>
    match key.check? proof statement.inputs with
    | none => .reject ⟨.invalidProof, "malformed verifying key"⟩
    | some false => .reject ⟨.invalidProof, "pairing check failed"⟩
    | some true =>
      if ring.deprecated.contains version then
        .acceptWithWarning ("circuit version " ++ version ++ " is deprecated, upgrade to " ++
          ring.current)
      else .accept

/-- The verdict on a proof of a version. -/
def examine (ring : KeyRing) (version : String) (proof : Bytes) (statement : Statement) :
    Verdict :=
  if ring.isVulnerable version then .reject (.vulnerable version)
  else
    match ring.key? version with
    | none => .reject (.unknown version)
    | some key => ring.judge key version proof statement

/-- The verifier of a key ring. -/
def verifier (ring : KeyRing) : Verifier where
  current := ring.current
  supports := ring.supports
  isVulnerable := ring.isVulnerable
  examine version proof statement := .ok (ring.examine version proof statement)

end KeyRing

end Reactions
