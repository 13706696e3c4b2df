import Reactions.BabyJubJub.Point

/-!
# Ciphertexts and encrypted votes

A ciphertext is a pair of points and a vote is one ciphertext for each of six emoji slots. Both
are added and subtracted slot by slot, so sums of ciphertexts encrypt sums of counts.
-/

namespace Reactions

/-- The number of emoji slots of a vote. -/
abbrev emojiSlots : Nat := 6

/-- An additive ElGamal ciphertext. -/
structure Ciphertext where
  c1 : Point
  c2 : Point
deriving DecidableEq

namespace Ciphertext

/-- The ciphertext with both points neutral. -/
def identity : Ciphertext := ⟨.identity, .identity⟩

instance : Inhabited Ciphertext := ⟨identity⟩
instance : Add Ciphertext := ⟨fun a b => ⟨a.c1 + b.c1, a.c2 + b.c2⟩⟩
instance : Sub Ciphertext := ⟨fun a b => ⟨a.c1 - b.c1, a.c2 - b.c2⟩⟩

/-- Both points lie on the curve. -/
def OnCurve (c : Ciphertext) : Prop := c.c1.OnCurve ∧ c.c2.OnCurve

end Ciphertext

/-- One ciphertext per emoji slot. -/
structure Vote where
  slots : Vector Ciphertext emojiSlots
deriving DecidableEq

namespace Vote

/-- Every slot neutral: the vote that changes no tally. -/
def identity : Vote := ⟨Vector.replicate emojiSlots .identity⟩

instance : Inhabited Vote := ⟨identity⟩
instance : Add Vote := ⟨fun a b => ⟨Vector.zipWith (· + ·) a.slots b.slots⟩⟩
instance : Sub Vote := ⟨fun a b => ⟨Vector.zipWith (· - ·) a.slots b.slots⟩⟩

/-- The vote whose ciphertexts are made of the given first and second points. -/
def ofParts (c1 c2 : Vector Point emojiSlots) : Vote :=
  ⟨Vector.zipWith Ciphertext.mk c1 c2⟩

/-- The first points, slot by slot. -/
def c1 (v : Vote) : Vector Point emojiSlots := v.slots.map Ciphertext.c1

/-- The second points, slot by slot. -/
def c2 (v : Vote) : Vector Point emojiSlots := v.slots.map Ciphertext.c2

/-- Every point of every slot lies on the curve. -/
def OnCurve (v : Vote) : Prop := ∀ c ∈ v.slots, c.OnCurve

end Vote

end Reactions
