import Reactions.Arithmetic.Fields

/-!
# Random multipliers

A generator yields 64-bit words: first those it was given, then the SplitMix64 sequence of its
seed. A multiplier is drawn from four words read as one number, lowest word first and the five
top bits cleared. Draws at or above the order are thrown away; a number below it is a multiplier
in Montgomery form, that is, it stands for itself times `2⁻²⁵⁶`.
-/

namespace Reactions

/-- A source of 64-bit words. -/
structure Generator where
  words : List UInt64
  seed : UInt64

namespace Generator

/-- The next word and the generator after it. -/
def next (g : Generator) : UInt64 × Generator :=
  match g.words with
  | w :: rest => (w, { g with words := rest })
  | [] =>
    let s := g.seed + 0x9E3779B97F4A7C15
    let z := (s ^^^ (s >>> 30)) * 0xBF58476D1CE4E5B9
    let z := (z ^^^ (z >>> 27)) * 0x94D049BB133111EB
    (z ^^^ (z >>> 31), { g with seed := s })

/-- A number below `2²⁵¹`, from four words. -/
def draw (g : Generator) : Nat × Generator :=
  let (a, g) := g.next
  let (b, g) := g.next
  let (c, g) := g.next
  let (d, g) := g.next
  (a.toNat + Nat.pow 2 64 * b.toNat + Nat.pow 2 128 * c.toNat +
    Nat.pow 2 192 * (d.toNat % Nat.pow 2 59), g)

/-- Removes the factor of a Montgomery form. -/
def ofMontgomery (k : Nat) : Multiplier :=
  Residue.ofNat k * (Residue.ofNat (Nat.pow 2 256))⁻¹

/-- Draws until a number is below the order, at most `draws` times. -/
def multiplierWithin : (draws : Nat) → Generator → Multiplier × Generator
  | 0, g => (0, g)
  | draws + 1, g =>
    let (k, g) := g.draw
    if k < subgroupOrder then (ofMontgomery k, g) else multiplierWithin draws g

/-- A uniform multiplier. Three draws in four are below the order, so the bound on their number,
which leaves a thousand after the given words are used up, is never met by a sound source. -/
def multiplier (g : Generator) : Multiplier × Generator :=
  multiplierWithin (g.words.length / 4 + 1000) g

end Generator

end Reactions
