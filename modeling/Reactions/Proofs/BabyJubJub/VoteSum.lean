import Mathlib.Algebra.BigOperators.Group.List.Basic
import Mathlib.Data.List.Lemmas
import Mathlib.Tactic.Abel
import Reactions.BabyJubJub.Ciphertext
import Reactions.Proofs.BabyJubJub.PointGroup

/-!
# Sums of points and of votes

On points of the curve, a sum grows by what is appended (`Point.sum_append_singleton`), and
subtracting one of its terms and adding another replaces the term wherever it stands
(`Point.sum_replace`). Votes are added slot by slot, so whatever is additive on votes of the curve,
such as any of their twelve points, follows sums of votes (`Vote.Additive`).
-/

namespace Reactions

/-! ## Sums of points -/

/-- The sum of points. -/
def Point.sum (points : List Point) : Point := points.foldr (· + ·) .identity

/-- Sums in the group are sums of the points. -/
theorem EdwardsPoint.coe_sum (points : List EdwardsPoint) :
    ((points.sum : EdwardsPoint) : Point) = Point.sum (points.map Subtype.val) := by
  induction points with
  | nil => rfl
  | cons p rest ih => rw [List.sum_cons, coe_add, ih]; rfl

namespace Point

/-- A point at the end is added to the sum of the others. -/
theorem sum_append_singleton {points : List Point} {p : Point}
    (hpoints : ∀ q ∈ points, q.OnCurve) (hp : p.OnCurve) :
    sum (points ++ [p]) = sum points + p := by
  lift points to List EdwardsPoint using hpoints
  lift p to EdwardsPoint using hp
  have h : (points ++ [p]).sum = points.sum + p := by simp
  have hcoe := congrArg Subtype.val h
  rwa [EdwardsPoint.coe_add, EdwardsPoint.coe_sum, EdwardsPoint.coe_sum, List.map_append] at hcoe

/-- A sum does not depend on the order of its terms. -/
theorem sum_perm {points points' : List Point} (h : points.Perm points')
    (hpoints : ∀ q ∈ points, q.OnCurve) : sum points = sum points' := by
  have hpoints' : ∀ q ∈ points', q.OnCurve := fun q hq => hpoints q (h.mem_iff.2 hq)
  lift points to List EdwardsPoint using hpoints
  lift points' to List EdwardsPoint using hpoints'
  have hperm : points.Perm points' := (List.map_perm_map_iff Subtype.val_injective).1 h
  have hcoe := congrArg Subtype.val hperm.sum_eq
  rwa [EdwardsPoint.coe_sum, EdwardsPoint.coe_sum] at hcoe

/-- Taking one term out of a sum and putting another in replaces the first by the second. -/
theorem sum_replace {before after : List Point} {p q : Point} (hp : p.OnCurve) (hq : q.OnCurve)
    (hbefore : ∀ r ∈ before, r.OnCurve) (hafter : ∀ r ∈ after, r.OnCurve) :
    sum (before ++ p :: after) - p + q = sum (before ++ q :: after) := by
  lift before to List EdwardsPoint using hbefore
  lift after to List EdwardsPoint using hafter
  lift p to EdwardsPoint using hp
  lift q to EdwardsPoint using hq
  have h : (before ++ p :: after).sum - p + q = (before ++ q :: after).sum := by
    rw [List.sum_append, List.sum_append, List.sum_cons, List.sum_cons]
    abel
  have hcoe := congrArg Subtype.val h
  rwa [EdwardsPoint.coe_add, EdwardsPoint.coe_sub, EdwardsPoint.coe_sum, EdwardsPoint.coe_sum,
    List.map_append, List.map_append, List.map_cons, List.map_cons] at hcoe

end Point

/-! ## Votes on the curve -/

namespace Ciphertext

variable {c d : Ciphertext}

/-- Ciphertexts with the same two points are the same. -/
theorem eq_of_points (h₁ : c.c1 = d.c1) (h₂ : c.c2 = d.c2) : c = d := by
  obtain ⟨p, q⟩ := c
  obtain ⟨p', q'⟩ := d
  obtain rfl : p = p' := h₁
  obtain rfl : q = q' := h₂
  rfl

theorem identity_onCurve : identity.OnCurve := ⟨Point.identity_onCurve, Point.identity_onCurve⟩

/-- A ciphertext on the curve is a pair of points of the group. -/
theorem OnCurve.exists_coe (hc : c.OnCurve) : ∃ p q : EdwardsPoint, c = ⟨p, q⟩ :=
  ⟨⟨c.c1, hc.1⟩, ⟨c.c2, hc.2⟩, rfl⟩

/-- Sums of ciphertexts on the curve are on the curve. -/
theorem OnCurve.add (hc : c.OnCurve) (hd : d.OnCurve) : (c + d).OnCurve :=
  ⟨hc.1.add hd.1, hc.2.add hd.2⟩

theorem OnCurve.sub (hc : c.OnCurve) (hd : d.OnCurve) : (c - d).OnCurve :=
  ⟨hc.1.sub hd.1, hc.2.sub hd.2⟩

end Ciphertext

namespace Vote

variable {v w : Vote}

/-- The ciphertext of a slot. -/
def slot (v : Vote) (k : Fin emojiSlots) : Ciphertext := v.slots[k]

@[simp] theorem slot_identity (k : Fin emojiSlots) : identity.slot k = .identity := by
  simp [slot, identity]

/-- Votes are added slot by slot. -/
@[simp] theorem slot_add (v w : Vote) (k : Fin emojiSlots) :
    (v + w).slot k = v.slot k + w.slot k := by
  change (Vector.zipWith (· + ·) v.slots w.slots)[k] = _
  simp [slot]

@[simp] theorem slot_sub (v w : Vote) (k : Fin emojiSlots) :
    (v - w).slot k = v.slot k - w.slot k := by
  change (Vector.zipWith (· - ·) v.slots w.slots)[k] = _
  simp [slot]

/-- A vote is made of its first and its second points. -/
theorem ofParts_parts (v : Vote) : ofParts v.c1 v.c2 = v := by
  obtain ⟨slots⟩ := v
  refine congrArg mk (Vector.ext fun i hi => ?_)
  simp [c1, c2]

/-- A vote is known by its points. -/
theorem eq_of_points (h₁ : ∀ k, (v.slot k).c1 = (w.slot k).c1)
    (h₂ : ∀ k, (v.slot k).c2 = (w.slot k).c2) : v = w := by
  obtain ⟨slots⟩ := v
  obtain ⟨slots'⟩ := w
  refine congrArg mk (Vector.ext fun i hi => ?_)
  exact Ciphertext.eq_of_points (h₁ ⟨i, hi⟩) (h₂ ⟨i, hi⟩)

/-- A vote is on the curve if each of its slots is. -/
theorem onCurve_iff : v.OnCurve ↔ ∀ k : Fin emojiSlots, (v.slot k).OnCurve := by
  constructor
  · intro h k
    exact h _ (Vector.getElem_mem k.isLt)
  · intro h c hc
    obtain ⟨i, hi, rfl⟩ := Vector.getElem_of_mem hc
    exact h ⟨i, hi⟩

theorem identity_onCurve : identity.OnCurve := by
  rw [onCurve_iff]
  intro k
  rw [slot_identity]
  exact Ciphertext.identity_onCurve

/-- Sums of votes on the curve are on the curve. -/
theorem OnCurve.add (hv : v.OnCurve) (hw : w.OnCurve) : (v + w).OnCurve := by
  rw [onCurve_iff] at hv hw ⊢
  intro k
  rw [slot_add]
  exact (hv k).add (hw k)

theorem OnCurve.sub (hv : v.OnCurve) (hw : w.OnCurve) : (v - w).OnCurve := by
  rw [onCurve_iff] at hv hw ⊢
  intro k
  rw [slot_sub]
  exact (hv k).sub (hw k)

/-- A point that is made of a vote in such a way that sums of votes of the curve go to sums of
points. -/
structure Additive (f : Vote → Point) : Prop where
  onCurve : ∀ {v}, v.OnCurve → (f v).OnCurve
  identity : f .identity = .identity
  add : ∀ {v w}, v.OnCurve → w.OnCurve → f (v + w) = f v + f w
  sub : ∀ {v w}, v.OnCurve → w.OnCurve → f (v - w) = f v - f w

/-- An additive function takes votes on the curve to points on the curve. -/
theorem Additive.forall_mem_map {f : Vote → Point} (hf : Additive f) {votes : List Vote}
    (hvotes : ∀ v ∈ votes, v.OnCurve) : ∀ p ∈ votes.map f, p.OnCurve := by
  intro p hp
  obtain ⟨v, hv, rfl⟩ := List.mem_map.1 hp
  exact hf.onCurve (hvotes v hv)

/-- The first point of a slot is additive in the vote. -/
theorem additive_c1 (k : Fin emojiSlots) : Additive fun v => (v.slot k).c1 where
  onCurve hv := (onCurve_iff.1 hv k).1
  identity := by rw [slot_identity]; rfl
  add {v w} _ _ := by rw [slot_add]; rfl
  sub {v w} _ _ := by rw [slot_sub]; rfl

/-- The second point of a slot is additive in the vote. -/
theorem additive_c2 (k : Fin emojiSlots) : Additive fun v => (v.slot k).c2 where
  onCurve hv := (onCurve_iff.1 hv k).2
  identity := by rw [slot_identity]; rfl
  add {v w} _ _ := by rw [slot_add]; rfl
  sub {v w} _ _ := by rw [slot_sub]; rfl

end Vote

end Reactions
