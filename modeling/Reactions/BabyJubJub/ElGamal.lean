import Reactions.BabyJubJub.Ciphertext
import Reactions.BabyJubJub.Generator

/-!
# Exponential ElGamal

A count `m` is encrypted as `(r·G, m·G + r·P)`. Sums of ciphertexts encrypt sums of counts, and
a small count is found again by a search through the multiples of the generator. A vote for one
emoji encrypts one in its slot and zero in the others.
-/

namespace Reactions

/-- A secret key. -/
structure SecretKey where
  multiplier : Multiplier

/-- The ciphertext of `m` under the public key `key`, with randomness `r`. -/
def Ciphertext.encrypt (key : Point) (m : Nat) (r : Multiplier) : Ciphertext where
  c1 := Point.multiple r.val .generator
  c2 := Point.multiple m .generator + Point.multiple r.val key

/-- What the slot at `slot` of a vote for `emoji` counts. -/
def oneHot (emoji slot : Nat) : Nat := if slot = emoji then 1 else 0

/-- The vote for `emoji`, with one multiplier of randomness for each slot. -/
def Vote.oneHot (key : Point) (emoji : Nat) (rs : Vector Multiplier emojiSlots) : Vote :=
  ⟨rs.mapIdx fun slot r => Ciphertext.encrypt key (Reactions.oneHot emoji slot) r⟩

namespace Generator

/-- As many multipliers as asked for, in the order in which they are drawn. -/
def multipliers : (count : Nat) → Generator → Vector Multiplier count × Generator
  | 0, g => (#v[], g)
  | count + 1, g =>
    let (rs, g) := multipliers count g
    let (r, g) := g.multiplier
    (rs.push r, g)

/-- Encrypts a count with fresh randomness. -/
def encrypt (g : Generator) (key : Point) (m : Nat) : Ciphertext × Generator :=
  let (r, g) := g.multiplier
  (.encrypt key m r, g)

/-- Encrypts a vote for `emoji` with fresh randomness, unless there is no such slot. -/
def encryptVote (g : Generator) (key : Point) (emoji : Nat) : Option Vote × Generator :=
  if emoji < emojiSlots then
    let (rs, g) := g.multipliers emojiSlots
    (some (.oneHot key emoji rs), g)
  else
    (none, g)

/-- Draws a secret key. -/
def secretKey (g : Generator) : SecretKey × Generator :=
  let (k, g) := g.multiplier
  (⟨k⟩, g)

end Generator

namespace SecretKey

/-- The public key `k·G`. -/
def publicKey (key : SecretKey) : Point := Point.multiple key.multiplier.val .generator

/-- The point `m·G` of the count `m` that a ciphertext holds. -/
def decryptPoint (key : SecretKey) (c : Ciphertext) : Point :=
  c.c2 - Point.multiple key.multiplier.val c.c1

/-- Walks through the multiples of the generator, from the `m`-th one, `reached`, over at most
`steps` further ones, to the first that is `target`. -/
def search (target : Point) : (steps : Nat) → (m : Nat) → (reached : Point) → Option Nat
  | 0, m, reached => if reached = target then some m else none
  | steps + 1, m, reached =>
    if reached = target then some m
    else search target steps (m + 1) (reached + .generator)

/-- The least count up to `max` that a ciphertext may hold, if there is one. -/
def decryptCount (key : SecretKey) (c : Ciphertext) (max : Nat) : Option Nat :=
  search (key.decryptPoint c) max 0 .identity

end SecretKey

end Reactions
