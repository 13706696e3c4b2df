import Reactions.Groth16.Statement
import Reactions.Bytes.Bytes32

/-!
# Verdicts and the policy on versions

A verifier answers every proof with a verdict. Policy comes first: a circuit version with a known
vulnerability is refused before anything else, and then one that the verifier does not support,
both without a look at the proof.
-/

namespace Reactions

/-- Why a proof is refused. -/
inductive RejectCode
  | vulnerableVersion
  | unknownVersion
  | invalidFormat
  | invalidProof
deriving DecidableEq, Repr

/-- The name of a code. -/
def RejectCode.name : RejectCode → String
  | .vulnerableVersion => "VULNERABLE_CIRCUIT_VERSION"
  | .unknownVersion => "UNKNOWN_CIRCUIT_VERSION"
  | .invalidFormat => "INVALID_PROOF_FORMAT"
  | .invalidProof => "INVALID_PROOF"

/-- A refusal with its reason. -/
structure Rejection where
  code : RejectCode
  message : String
deriving DecidableEq, Repr

/-- What a verifier says about a proof. -/
inductive Verdict
  | accept
  | acceptWithWarning (message : String)
  | reject (rejection : Rejection)
deriving DecidableEq, Repr

/-- The proof may pass, be it with a warning. -/
def Verdict.accepts : Verdict → Bool
  | .reject _ => false
  | _ => true

/-- A verifier of reaction proofs. An examination that breaks off leaves a text that says how. -/
structure Verifier where
  /-- The version that new proofs should use. -/
  current : String
  supports : String → Bool
  isVulnerable : String → Bool
  examine : (version : String) → (proof : Bytes) → Statement → Except String Verdict

namespace Rejection

/-- The refusal of a version with a known vulnerability. -/
def vulnerable (version : String) : Rejection :=
  ⟨.vulnerableVersion, "circuit version " ++ version ++ " has a known vulnerability"⟩

/-- The refusal of a version without a key. -/
def unknown (version : String) : Rejection :=
  ⟨.unknownVersion, "no verification key for circuit version " ++ version⟩

end Rejection

/-- The refusal that the policy on versions alone demands. -/
def Verifier.policyRejection (v : Verifier) (version : String) : Option Rejection :=
  if v.isVulnerable version then some (.vulnerable version)
  else if v.supports version then none
  else some (.unknown version)

/-- A verifier that supports every version and accepts every proof with a warning, for runs
without real circuits. -/
def Verifier.development (current : String) : Verifier where
  current
  supports _ := true
  isVulnerable _ := false
  examine _ _ _ :=
    .ok (.acceptWithWarning "development verifier accepted this proof without checking it")

end Reactions
