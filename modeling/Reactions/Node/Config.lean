import Reactions.Node.KeyFile
import Reactions.Store.Retry
import Reactions.Verifier.KeyRing

/-!
# Configuration

A JSON document of three sections, all of which may be left out or be given in part. From the
first the verifier is built: the keys are loaded in order, and the current version must have one
and must not be vulnerable.
-/

namespace Reactions

/-- The key of a circuit version and the file that holds it. -/
structure CircuitKey where
  version : String
  path : String
deriving DecidableEq, Repr

/-- What verifier a node runs. -/
structure VerifierConfig where
  currentVersion : String := "omega-v1"
  circuits : List CircuitKey := []
  deprecated : List String := []
  vulnerable : List String := []
  /-- Accept every proof unchecked. -/
  devMode : Bool := false
deriving DecidableEq, Repr

/-- The configuration of a node. -/
structure Config where
  verifier : VerifierConfig := {}
  retry : RetryPolicy := {}
  /-- How many of a feed's newest roots a proof may be about. -/
  rootWindow : Nat := 1
deriving DecidableEq, Repr

/-- Why there is no configuration, or no verifier for it. -/
inductive ConfigError
  | unreadable (path : String)
  | document (error : ReadError)
  | verificationKey (circuit : CircuitKey) (error : KeyError)
  | missingCurrentKey (version : String)
  | vulnerableCurrentVersion (version : String)
deriving DecidableEq, Repr

/-- The wording of a failure, where it has one. -/
def ConfigError.message? : ConfigError → Option String
  | .unreadable _ => none
  | .document e => e.message?
  | .verificationKey _ e => e.message?
  | .missingCurrentKey version =>
    some ("current circuit version " ++ version ++ " has no verification key")
  | .vulnerableCurrentVersion version =>
    some ("current circuit version " ++ version ++ " is marked vulnerable")

/-! ## Reading -/

open Fields in
/-- Reads the key of a version. -/
def CircuitKey.reader : Reader CircuitKey :=
  record (mk <$> required "version" .string <*> required "verification_key" .string)

open Fields in
/-- Reads the verifier's section. -/
def VerifierConfig.reader : Reader VerifierConfig :=
  let default : VerifierConfig := {}
  record (mk <$> optional "current_version" default.currentVersion .string
    <*> optional "circuits" default.circuits (.list CircuitKey.reader)
    <*> optional "deprecated" default.deprecated (.list .string)
    <*> optional "vulnerable" default.vulnerable (.list .string)
    <*> optional "dev_mode" default.devMode .bool)

namespace Config

open Fields in
/-- Reads the section on members, which holds the width of the window. -/
def windowReader : Reader Nat :=
  record (optional "accepted_root_window" ({} : Config).rootWindow .nat64)

open Fields in
/-- Reads a configuration. -/
def reader : Reader Config :=
  let default : Config := {}
  record (mk <$> optional "verifier" default.verifier VerifierConfig.reader
    <*> optional "processor" default.retry RetryPolicy.reader
    <*> optional "membership" default.rootWindow windowReader)

/-- Reads the document of a configuration. -/
def ofDocument (text : String) : Except ConfigError Config :=
  (reader.document text).mapError .document

/-- The configuration with all relative paths taken relative to a directory. -/
def locatedIn (directory : String) (config : Config) : Config :=
  { config with verifier.circuits := config.verifier.circuits.map fun circuit =>
      { circuit with path := PathName.join directory circuit.path } }

/-- The configuration in the file at a path. -/
def ofFile (path : String) (content : FileContent) : Except ConfigError Config := do
  let some text := content.text? | throw (.unreadable path)
  let config ← ofDocument text
  match PathName.parent? path with
  | some directory => return config.locatedIn directory
  | none => return config

/-- Loads the configuration at a path, or at the path of the environment, or the default one. -/
def load {m : Type → Type} [Monad m] (read : ReadFile m) (path environment : Option String) :
    m (Except ConfigError Config) := do
  match path.or environment with
  | some path => return ofFile path (← read path)
  | none => return .ok {}

end Config

/-! ## Building the verifier -/

namespace VerifierConfig

variable {m : Type → Type} [Monad m]

/-- Loads the keys of circuits in order. -/
def loadKeys (read : ReadFile m) (circuits : List CircuitKey) :
    ExceptT ConfigError m (List VerificationKey) :=
  circuits.mapM fun circuit => ExceptT.mk do
    return (← KeyFile.load read circuit.version circuit.path).mapError (.verificationKey circuit)

/-- The key ring that a configuration describes. -/
def keyRing (read : ReadFile m) (config : VerifierConfig) : ExceptT ConfigError m KeyRing := do
  if config.vulnerable.contains config.currentVersion then
    throw (.vulnerableCurrentVersion config.currentVersion)
  let keys ← loadKeys read config.circuits
  if !keys.any (·.version = config.currentVersion) then
    throw (.missingCurrentKey config.currentVersion)
  return {
    current := config.currentVersion
    keys
    deprecated := config.deprecated
    vulnerable := config.vulnerable }

/-- The verifier that a configuration describes. -/
def build (read : ReadFile m) (config : VerifierConfig) : ExceptT ConfigError m Verifier := do
  if config.devMode then return .development config.currentVersion
  return (← config.keyRing read).verifier

end VerifierConfig

end Reactions
