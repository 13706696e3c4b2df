import Reactions.BabyJubJub.Ciphertext

/-!
# Statements

What a reaction's proof is about: the field elements that the circuit takes as public inputs, in
the order that every version of the circuit has agreed on.
-/

namespace Reactions

/-- The public statement of a reaction proof. -/
structure Statement where
  nullifier : ScalarField
  messageId : ScalarField
  membersRoot : ScalarField
  authorCommitment : ScalarField
  feedKey : Point
  c1 : Vector Point emojiSlots
  c2 : Vector Point emojiSlots

namespace Statement

/-- The number of public inputs of the circuit. -/
def inputCount : Nat := 4 + 2 + 4 * emojiSlots

/-- The public inputs, in circuit order. -/
def inputs (s : Statement) : List ScalarField :=
  [s.nullifier, s.messageId, s.membersRoot, s.authorCommitment] ++ s.feedKey.coordinates ++
    s.c1.toList.flatMap Point.coordinates ++ s.c2.toList.flatMap Point.coordinates

end Statement

end Reactions
