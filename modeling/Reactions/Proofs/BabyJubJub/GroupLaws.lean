import Reactions.Proofs.BabyJubJub.VoteSum

/-!
# The laws of points, ciphertexts and votes

`AbelianOn` says of the values with a property that their addition and subtraction make them an
abelian group. It holds of the points of the curve, whether they belong to the subgroup of the
generator or not (`Point.abelianOn`). What is made of parts and added part by part has the laws that
its parts have (`Partwise.abelianOn`); so ciphertexts have them from points, and votes from
ciphertexts.

The laws rest on a fact that has no exceptions either: between points of the curve no denominator of
the addition law vanishes, neither for affine points nor for triples
(`Point.OnCurve.denominators_ne_zero`).
-/

namespace Reactions

/-- Addition and subtraction make the values that have a property an abelian group. -/
structure AbelianOn {α : Type} [Add α] [Sub α] (P : α → Prop) (zero : α) : Prop where
  zero_mem : P zero
  add_mem : ∀ {a b : α}, P a → P b → P (a + b)
  sub_mem : ∀ {a b : α}, P a → P b → P (a - b)
  add_assoc : ∀ {a b c : α}, P a → P b → P c → a + b + c = a + (b + c)
  add_comm : ∀ {a b : α}, P a → P b → a + b = b + a
  add_zero : ∀ {a : α}, P a → a + zero = a
  sub_add_cancel : ∀ {a b : α}, P a → P b → a - b + b = a
  add_sub_cancel : ∀ {a b : α}, P a → P b → a + b - b = a

/-! ## Values made of parts -/

/-- Values are made of parts: they are known by their parts, have a property if their parts have
one, and are added and subtracted part by part. -/
structure Partwise {ι α β : Type} [Add α] [Sub α] [Add β] [Sub β] (part : ι → β → α)
    (P : α → Prop) (zero : α) (Q : β → Prop) (zero' : β) : Prop where
  ext : ∀ {v w : β}, (∀ i, part i v = part i w) → v = w
  mem_iff : ∀ {v : β}, Q v ↔ ∀ i, P (part i v)
  part_zero : ∀ i, part i zero' = zero
  part_add : ∀ (v w : β) i, part i (v + w) = part i v + part i w
  part_sub : ∀ (v w : β) i, part i (v - w) = part i v - part i w

/-- What is made of parts has the laws of its parts. -/
theorem Partwise.abelianOn {ι α β : Type} [Add α] [Sub α] [Add β] [Sub β] {part : ι → β → α}
    {P : α → Prop} {zero : α} {Q : β → Prop} {zero' : β} (h : Partwise part P zero Q zero')
    (hP : AbelianOn P zero) : AbelianOn Q zero' where
  zero_mem := by
    rw [h.mem_iff]
    intro i
    rw [h.part_zero]
    exact hP.zero_mem
  add_mem ha hb := by
    rw [h.mem_iff] at ha hb ⊢
    intro i
    rw [h.part_add]
    exact hP.add_mem (ha i) (hb i)
  sub_mem ha hb := by
    rw [h.mem_iff] at ha hb ⊢
    intro i
    rw [h.part_sub]
    exact hP.sub_mem (ha i) (hb i)
  add_assoc ha hb hc := by
    rw [h.mem_iff] at ha hb hc
    refine h.ext fun i => ?_
    simp only [h.part_add]
    exact hP.add_assoc (ha i) (hb i) (hc i)
  add_comm ha hb := by
    rw [h.mem_iff] at ha hb
    refine h.ext fun i => ?_
    simp only [h.part_add]
    exact hP.add_comm (ha i) (hb i)
  add_zero ha := by
    rw [h.mem_iff] at ha
    refine h.ext fun i => ?_
    rw [h.part_add, h.part_zero]
    exact hP.add_zero (ha i)
  sub_add_cancel ha hb := by
    rw [h.mem_iff] at ha hb
    refine h.ext fun i => ?_
    rw [h.part_add, h.part_sub]
    exact hP.sub_add_cancel (ha i) (hb i)
  add_sub_cancel ha hb := by
    rw [h.mem_iff] at ha hb
    refine h.ext fun i => ?_
    rw [h.part_sub, h.part_add]
    exact hP.add_sub_cancel (ha i) (hb i)

/-! ## Points -/

namespace Point

variable {p q : Point}

theorem OnCurve.add_neg (hp : p.OnCurve) : p + -p = identity :=
  (add_comm p (-p)).trans hp.neg_add

/-- Between points of the curve no denominator of the addition law vanishes: not the two of affine
points, and not the one that the sum of their triples has, which is the triple of their sum. -/
theorem OnCurve.denominators_ne_zero (hp : p.OnCurve) (hq : q.OnCurve) :
    1 + coefficient * (p.x * q.x) * (p.y * q.y) ≠ 0 ∧
    1 - coefficient * (p.x * q.x) * (p.y * q.y) ≠ 0 ∧
    (ScaledPoint.ofPoint p + ScaledPoint.ofPoint q).z ≠ 0 ∧
    (ScaledPoint.ofPoint p + ScaledPoint.ofPoint q).toPoint = p + q := by
  have htriple :=
    (ScaledPoint.represents_ofPoint ⟨p, hp⟩).add (ScaledPoint.represents_ofPoint ⟨q, hq⟩)
  exact ⟨Edwards.one_add_ne_zero two_ne_zero coefficient_not_isSquare hp hq,
    Edwards.one_sub_ne_zero two_ne_zero coefficient_not_isSquare hp hq, htriple.1, htriple.toPoint⟩

/-- The points of the curve are an abelian group, in the subgroup of the generator and outside of
it. -/
theorem abelianOn : AbelianOn OnCurve identity where
  zero_mem := identity_onCurve
  add_mem := OnCurve.add
  sub_mem := OnCurve.sub
  add_assoc := OnCurve.add_assoc
  add_comm _ _ := add_comm _ _
  add_zero _ := add_identity _
  sub_add_cancel {a b} ha hb :=
    congrArg Subtype.val (sub_add_cancel (⟨a, ha⟩ : EdwardsPoint) ⟨b, hb⟩)
  add_sub_cancel {a b} ha hb :=
    congrArg Subtype.val (add_sub_cancel_right (⟨a, ha⟩ : EdwardsPoint) ⟨b, hb⟩)

end Point

/-! ## Ciphertexts and votes -/

/-- A ciphertext is made of two points. -/
theorem Ciphertext.partwise :
    Partwise (fun (i : Fin 2) (c : Ciphertext) => if i = 0 then c.c1 else c.c2)
      Point.OnCurve .identity Ciphertext.OnCurve .identity where
  ext h := eq_of_points (h 0) (h 1)
  mem_iff := by simp [Fin.forall_fin_two, OnCurve]
  part_zero := by simp [identity]
  part_add _ _ := Fin.forall_fin_two.2 ⟨rfl, rfl⟩
  part_sub _ _ := Fin.forall_fin_two.2 ⟨rfl, rfl⟩

/-- A vote is made of the ciphertexts of its slots. -/
theorem Vote.partwise :
    Partwise (fun (k : Fin emojiSlots) (v : Vote) => v.slot k)
      Ciphertext.OnCurve .identity Vote.OnCurve .identity where
  ext h :=
    eq_of_points (fun k => congrArg Ciphertext.c1 (h k)) (fun k => congrArg Ciphertext.c2 (h k))
  mem_iff := onCurve_iff
  part_zero := slot_identity
  part_add := slot_add
  part_sub := slot_sub

/-- Points of the curve add up without exceptions: no denominator vanishes, for no two of them, be
they equal, opposite or of small order. Their sums, differences and opposites are points of the
curve, and they are an abelian group with neutral element `(0, 1)`. Ciphertexts and votes of such
points are added and subtracted part by part, and are abelian groups too. -/
theorem points_and_votes_are_groups :
    (∀ p q : Point, p.OnCurve → q.OnCurve →
      1 + Point.coefficient * (p.x * q.x) * (p.y * q.y) ≠ 0 ∧
      1 - Point.coefficient * (p.x * q.x) * (p.y * q.y) ≠ 0 ∧
      (ScaledPoint.ofPoint p + ScaledPoint.ofPoint q).z ≠ 0 ∧
      (ScaledPoint.ofPoint p + ScaledPoint.ofPoint q).toPoint = p + q) ∧
    AbelianOn Point.OnCurve ⟨0, 1⟩ ∧
    (∀ p : Point, p.OnCurve → (-p).OnCurve ∧ p + -p = ⟨0, 1⟩) ∧
    (∀ p q : Point, p - q = p + -q) ∧
    AbelianOn Ciphertext.OnCurve .identity ∧
    AbelianOn Vote.OnCurve .identity ∧
    (∀ (v w : Vote) (k : Fin emojiSlots),
      (v + w).slot k = ⟨(v.slot k).c1 + (w.slot k).c1, (v.slot k).c2 + (w.slot k).c2⟩ ∧
      (v - w).slot k = ⟨(v.slot k).c1 - (w.slot k).c1, (v.slot k).c2 - (w.slot k).c2⟩) := by
  have hciphertexts := Ciphertext.partwise.abelianOn Point.abelianOn
  refine ⟨fun p q hp hq => hp.denominators_ne_zero hq, Point.abelianOn,
    fun p hp => ⟨hp.neg, hp.add_neg⟩, fun _ _ => rfl, hciphertexts,
    Vote.partwise.abelianOn hciphertexts, fun v w k => ?_⟩
  rw [Vote.slot_add, Vote.slot_sub]
  exact ⟨rfl, rfl⟩

/-- The points of order two and four are added to themselves, to each other and to their opposites
without a vanishing denominator. -/
theorem points_of_small_order_are_added :
    let points : List Point := [⟨0, -1⟩, ⟨1, 0⟩, ⟨-1, 0⟩]
    (∀ p ∈ points, p.OnCurve) ∧
    (∀ p ∈ points, ∀ q ∈ points,
      1 + Point.coefficient * (p.x * q.x) * (p.y * q.y) ≠ 0 ∧
      1 - Point.coefficient * (p.x * q.x) * (p.y * q.y) ≠ 0) ∧
    (⟨1, 0⟩ + ⟨1, 0⟩ : Point) = ⟨0, -1⟩ ∧ (⟨1, 0⟩ + ⟨-1, 0⟩ : Point) = ⟨0, 1⟩ := by
  intro points
  have hcurve : ∀ p ∈ points, p.OnCurve := by decide +kernel
  refine ⟨hcurve, fun p hp q hq => ?_, by decide +kernel, by decide +kernel⟩
  obtain ⟨hadd, hsub, -⟩ := points_and_votes_are_groups.1 p q (hcurve p hp) (hcurve q hq)
  exact ⟨hadd, hsub⟩

end Reactions
