import Reactions.Groth16.Key

/-!
# Verification keys in binary

The binary form of a key is a run of fields: the version, with its length in front, the four
points, and the input points, with their number in front. Lengths are eight bytes and
coordinates thirty-two, lowest byte first. The two top bits of a point's last byte are flags:
one for infinity, and one for the larger of the two roots, which reading does not check.
-/

namespace Reactions

namespace KeyCache

/-! ## Writing -/

/-- A number in `width` bytes, lowest first. -/
def littleEndian (width n : Nat) : Bytes := (Bytes.ofNat width n).reverse

/-- A coordinate. -/
def putBase (x : BaseField) : Bytes := littleEndian 32 x.val

/-- Sets flags in the last byte. -/
def withFlags (flags : UInt8) (bytes : Bytes) : Bytes :=
  bytes.dropLast ++ (bytes.getLast?.map (· ||| flags)).toList

/-- The flag of infinity. -/
def infinityFlag : UInt8 := 0x40

/-- The flag of the larger root. -/
def largerFlag : UInt8 := 0x80

/-- Whether a coordinate is larger than its opposite. -/
def isLarger (y : BaseField) : Bool := (-y).val < y.val

/-- The same over the quadratic extension, where the higher component counts first. -/
def isLarger2 (y : Fq2) : Bool := if y.c1 = -y.c1 then isLarger y.c0 else isLarger y.c1

/-- A point of the first group. -/
def putG1 : G1Point → Bytes
  | .infinity => withFlags infinityFlag (putBase 0 ++ putBase 0)
  | .affine x y => withFlags (if isLarger y then largerFlag else 0) (putBase x ++ putBase y)

/-- A point of the second group. -/
def putG2 : G2Point → Bytes
  | .infinity => withFlags infinityFlag ((List.replicate 4 (putBase 0)).flatten)
  | .affine x y => withFlags (if isLarger2 y then largerFlag else 0)
      (putBase x.c0 ++ putBase x.c1 ++ putBase y.c0 ++ putBase y.c1)

/-- The binary form of a key. -/
def write (key : VerificationKey) : Bytes :=
  let version := key.version.toUTF8.toList
  littleEndian 8 version.length ++ version ++ putG1 key.alpha ++ putG2 key.beta ++
    putG2 key.gamma ++ putG2 key.delta ++ littleEndian 8 key.ic.length ++ key.ic.flatMap putG1

/-! ## Reading -/

/-- Reads from the front of a run of bytes. -/
abbrev Get := StateT Bytes (Except CacheError)

/-- The next `count` bytes. -/
def take (count : Nat) : Get Bytes := do
  let bytes ← get
  if bytes.length < count then throw .ended
  set (bytes.drop count)
  return bytes.take count

/-- A number of `width` bytes, lowest first. -/
def number (width : Nat) : Get Nat := do return Bytes.toNat (← take width).reverse

/-- A canonical coordinate. -/
def canonical (bytes : Bytes) : Except CacheError BaseField :=
  match Residue.ofNat? (Bytes.toNat bytes.reverse) with
  | some x => .ok x
  | none => .error .invalidData

/-- A coordinate. -/
def base : Get BaseField := do
  let bytes ← take 32
  canonical bytes

/-- A coordinate whose last byte holds the flags: with it, whether infinity is marked. -/
def flaggedBase : Get (BaseField × Bool) := do
  let bytes ← take 32
  let last := bytes.getLastD 0
  if last &&& 0xc0 = 0xc0 then throw .unexpectedFlags
  let x ← canonical (bytes.dropLast ++ [last &&& 0x3f])
  return (x, last &&& infinityFlag = infinityFlag)

/-- A point of the first curve's plane. -/
def g1 : Get G1Point := do
  let x ← base
  let (y, infinity) ← flaggedBase
  return if infinity then .infinity else .affine x y

/-- A point of the second curve's plane. -/
def g2 : Get G2Point := do
  let x : Fq2 := ⟨← base, ← base⟩
  let c0 ← base
  let (c1, infinity) ← flaggedBase
  return if infinity then .infinity else .affine x ⟨c0, c1⟩

/-- Refuses what does not hold. -/
def ensure (p : Prop) [Decidable p] : Get Unit := if p then pure () else throw .invalidData

/-- A point of the first group. -/
def checkedG1 : Get G1Point := do
  let p ← g1
  ensure (G1.Valid p)
  return p

/-- A point of the second group. -/
def checkedG2 : Get G2Point := do
  let p ← g2
  ensure (G2.Valid p)
  return p

/-- `count` points of the first curve's plane. The bytes run out before a count larger than
theirs does. -/
def points : (count : Nat) → Get (List G1Point)
  | 0 => return []
  | count + 1 => do
    let p ← g1
    let rest ← points count
    return p :: rest

/-- The input points: all of them are read before any is checked. -/
def inputPoints : Get (List G1Point) := do
  let count ← number 8
  let bytes ← get
  if bytes.length < 64 * count then
    let _ ← points (bytes.length / 64 + 1)
    throw .ended
  let ps ← points count
  ensure (∀ p ∈ ps, G1.Valid p)
  return ps

/-- A text, with its length in front. -/
def string : Get String := do
  let bytes ← take (← number 8)
  match String.fromUTF8? ⟨bytes.toArray⟩ with
  | some s => return s
  | none => throw .invalidData

/-- A key. -/
def key : Get VerificationKey := do
  let version ← string
  let alpha ← checkedG1
  let beta ← checkedG2
  let gamma ← checkedG2
  let delta ← checkedG2
  let ic ← inputPoints
  return { version, alpha, beta, gamma, delta, ic }

/-- Reads a key from the front of a run of bytes. -/
def read (bytes : Bytes) : Except KeyError VerificationKey :=
  match key.run bytes with
  | .error e => .error (.cache e)
  | .ok (key, _) =>
    if key.ic.length = VerificationKey.icCount then .ok key else .error (.inputCount key.ic.length)

end KeyCache

end Reactions
