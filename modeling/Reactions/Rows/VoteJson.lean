import Reactions.Json.Record
import Reactions.Json.Value
import Reactions.BabyJubJub.Ciphertext

/-!
# Points and votes in JSON

A point is an object of its two coordinates, each thirty-two bytes in hexadecimal, a ciphertext
an object of two points, and a vote the array of its six ciphertexts. A point is read only from
canonical coordinates and only if it lies on the curve.
-/

namespace Reactions

instance : ToJson Point :=
  ⟨fun p => .object [("x", toJson p.x.toBytes), ("y", toJson p.y.toBytes)]⟩

instance : ToJson Ciphertext := ⟨fun c => .object [("c1", toJson c.c1), ("c2", toJson c.c2)]⟩

instance : ToJson Vote := ⟨fun v => toJson v.slots⟩

open Fields in
/-- Reads the coordinates of a point and checks them. -/
def Point.reader : Reader Point := fun node => do
  let (x, y) ← record (Prod.mk <$> required "x" .bytes32 <*> required "y" .bytes32) node
  (Point.ofBytes x y).mapError .point

open Fields in
/-- Reads a ciphertext. -/
def Ciphertext.reader : Reader Ciphertext :=
  record (Ciphertext.mk <$> required "c1" Point.reader <*> required "c2" Point.reader)

/-- Reads a vote. -/
def Vote.reader : Reader Vote := fun node =>
  (Reader.vector emojiSlots Ciphertext.reader node).map Vote.mk

/-- A point, named and with its coordinates. -/
def Point.describe (p : Point) : String :=
  "CurvePoint(" ++ p.x.toBytes.toHex ++ ", " ++ p.y.toBytes.toHex ++ ")"

end Reactions
