import Reactions.BabyJubJub.ElGamal
import Reactions.Proofs.BabyJubJub.VoteSum

/-!
# Decryption

Decryption undoes encryption (`SecretKey.decryptPoint_encrypt`) and takes sums of ciphertexts to
sums of points, so it is additive on votes (`Vote.additive_decryptPoint`). The search for a count
finds the least one whose multiple of the generator is the decrypted point
(`SecretKey.decryptCount_eq_some_iff`), and below the order of the generator there is no other
(`SecretKey.decryptCount_multiple`).
-/
namespace Reactions

namespace SecretKey

variable (key : SecretKey) {c d : Ciphertext}

/-! ## Decrypted points -/

/-- Decryption in the group of points of the curve. -/
theorem decryptPoint_coe (p q : EdwardsPoint) :
    key.decryptPoint ⟨p, q⟩ = ((q - key.multiplier.val • p : EdwardsPoint) : Point) := by
  rw [EdwardsPoint.coe_sub, EdwardsPoint.coe_nsmul]
  rfl

/-- A ciphertext on the curve decrypts to a point on the curve. -/
theorem decryptPoint_onCurve (hc : c.OnCurve) : (key.decryptPoint c).OnCurve :=
  hc.2.sub (hc.1.multiple _)

/-- The neutral ciphertext decrypts to the neutral point. -/
theorem decryptPoint_identity : key.decryptPoint .identity = .identity := by
  change key.decryptPoint ⟨(0 : EdwardsPoint), (0 : EdwardsPoint)⟩ = ((0 : EdwardsPoint) : Point)
  rw [decryptPoint_coe, smul_zero, sub_zero]

/-- The sum of ciphertexts is decrypted to the sum of what they are decrypted to. -/
theorem decryptPoint_add (hc : c.OnCurve) (hd : d.OnCurve) :
    key.decryptPoint (c + d) = key.decryptPoint c + key.decryptPoint d := by
  obtain ⟨p, q, rfl⟩ := hc.exists_coe
  obtain ⟨p', q', rfl⟩ := hd.exists_coe
  change key.decryptPoint ⟨(p + p' : EdwardsPoint), (q + q' : EdwardsPoint)⟩ = _
  rw [decryptPoint_coe, decryptPoint_coe, decryptPoint_coe, ← EdwardsPoint.coe_add, smul_add]
  refine congrArg Subtype.val ?_
  abel

/-- A difference decrypts to the difference. -/
theorem decryptPoint_sub (hc : c.OnCurve) (hd : d.OnCurve) :
    key.decryptPoint (c - d) = key.decryptPoint c - key.decryptPoint d := by
  obtain ⟨p, q, rfl⟩ := hc.exists_coe
  obtain ⟨p', q', rfl⟩ := hd.exists_coe
  change key.decryptPoint ⟨(p - p' : EdwardsPoint), (q - q' : EdwardsPoint)⟩ = _
  rw [decryptPoint_coe, decryptPoint_coe, decryptPoint_coe, ← EdwardsPoint.coe_sub, smul_sub]
  refine congrArg Subtype.val ?_
  abel

/-- A ciphertext under the public key of a secret key. -/
theorem encrypt_publicKey (m : Nat) (r : Multiplier) :
    Ciphertext.encrypt key.publicKey m r =
      ⟨(r.val • EdwardsPoint.generator : EdwardsPoint),
        (m • EdwardsPoint.generator + r.val • key.multiplier.val • EdwardsPoint.generator :
          EdwardsPoint)⟩ := by
  simp only [EdwardsPoint.coe_add, EdwardsPoint.coe_nsmul, EdwardsPoint.coe_generator]
  rfl

/-- What is encrypted is on the curve. -/
theorem encrypt_onCurve (m : Nat) (r : Multiplier) :
    (Ciphertext.encrypt key.publicKey m r).OnCurve := by
  rw [encrypt_publicKey]
  constructor
  · exact (r.val • EdwardsPoint.generator).2
  · exact (m • EdwardsPoint.generator +
      r.val • key.multiplier.val • EdwardsPoint.generator).2

/-- Decryption finds the multiple of the generator that was encrypted, whatever the randomness. -/
theorem decryptPoint_encrypt (m : Nat) (r : Multiplier) :
    key.decryptPoint (.encrypt key.publicKey m r) = Point.multiple m .generator := by
  rw [encrypt_publicKey, decryptPoint_coe, smul_comm r.val, add_sub_cancel_right,
    EdwardsPoint.coe_nsmul, EdwardsPoint.coe_generator]

/-! ## Counts -/

/-- The search goes through the multiples of the generator in order. -/
theorem search_eq (target : Point) (steps m : Nat) :
    search target steps m (Point.multiple m .generator) =
      (List.range' m (steps + 1)).find? fun j => Point.multiple j .generator = target := by
  induction steps generalizing m with
  | zero =>
    by_cases h : Point.multiple m .generator = target <;> simp [search, h]
  | succ steps ih =>
    have hnext : Point.multiple m .generator + .generator = Point.multiple (m + 1) .generator := by
      have h := congrArg Subtype.val (succ_nsmul EdwardsPoint.generator m)
      rw [EdwardsPoint.coe_add, EdwardsPoint.coe_nsmul, EdwardsPoint.coe_nsmul] at h
      exact h.symm
    rw [List.range'_succ, List.find?_cons, search, hnext, ih]
    by_cases h : Point.multiple m .generator = target <;> simp [h]

/-- A ciphertext is decrypted to the least count, up to a bound, whose multiple of the generator is
the decrypted point. -/
theorem decryptCount_eq (c : Ciphertext) (max : Nat) :
    key.decryptCount c max =
      (List.range (max + 1)).find? fun j => Point.multiple j .generator = key.decryptPoint c := by
  have h0 : Point.multiple 0 .generator = .identity := by
    rw [← EdwardsPoint.coe_generator, ← EdwardsPoint.coe_nsmul, zero_nsmul, EdwardsPoint.coe_zero]
  rw [decryptCount, ← h0, search_eq, List.range_eq_range']

/-- Below the order of the generator, different counts have different multiples. -/
theorem multiple_generator_inj {m n : Nat} (hm : m < subgroupOrder) (hn : n < subgroupOrder)
    (h : Point.multiple m .generator = Point.multiple n .generator) : m = n := by
  rw [← EdwardsPoint.addOrderOf_generator] at hm hn
  refine nsmul_injOn_Iio_addOrderOf hm hn (Subtype.ext ?_)
  rw [EdwardsPoint.coe_nsmul, EdwardsPoint.coe_nsmul, EdwardsPoint.coe_generator]
  exact h

/-- A count that is found is the least one within the bound whose multiple of the generator is the
decrypted point. -/
theorem decryptCount_eq_some_iff {max n : Nat} : key.decryptCount c max = some n ↔
    IsLeast {k : Nat | k ≤ max ∧
      (k • EdwardsPoint.generator : EdwardsPoint) = key.decryptPoint c} n := by
  simp only [decryptCount_eq, List.find?_range_eq_some, List.mem_range, Nat.lt_succ_iff,
    decide_eq_true_eq, Bool.not_eq_true', decide_eq_false_iff_not, EdwardsPoint.coe_nsmul,
    EdwardsPoint.coe_generator]
  constructor
  · rintro ⟨hn, hmax, hleast⟩
    refine ⟨⟨hmax, hn⟩, fun k hk => ?_⟩
    by_contra hlt
    exact hleast k (Nat.lt_of_not_le hlt) hk.2
  · rintro ⟨⟨hmax, hn⟩, hleast⟩
    refine ⟨hn, hmax, fun k hk heq => ?_⟩
    exact absurd (hleast ⟨hk.le.trans hmax, heq⟩) (Nat.not_le_of_lt hk)

/-- No count is found exactly if none up to the bound has the decrypted point as its multiple. -/
theorem decryptCount_eq_none_iff {max : Nat} : key.decryptCount c max = none ↔
    ∀ k ≤ max, (k • EdwardsPoint.generator : EdwardsPoint) ≠ key.decryptPoint c := by
  simp [decryptCount_eq]

/-- A count below the order of the generator is found if it is within the bound, and no other is
found in its place. -/
theorem decryptCount_multiple {n max : Nat} (h : key.decryptPoint c = Point.multiple n .generator)
    (hn : n < subgroupOrder) : key.decryptCount c max = if n ≤ max then some n else none := by
  -- a count up to `n` with the same multiple is `n`, since it is below the order too
  have hinj : ∀ k ≤ n,
      (k • EdwardsPoint.generator : EdwardsPoint) = key.decryptPoint c → k = n := by
    intro k hk heq
    rw [h, EdwardsPoint.coe_nsmul, EdwardsPoint.coe_generator] at heq
    exact multiple_generator_inj (lt_of_le_of_lt hk hn) hn heq
  split
  · rename_i hmax
    refine (key.decryptCount_eq_some_iff).2 ⟨⟨hmax, by simp [h]⟩, fun k hk => ?_⟩
    by_contra hlt
    exact hlt (hinj k (Nat.le_of_not_le hlt) hk.2).ge
  · rename_i hmax
    refine (key.decryptCount_eq_none_iff).2 fun k hk heq => hmax ?_
    have hkn : k ≤ n := hk.trans (Nat.le_of_not_le hmax)
    exact hinj k hkn heq ▸ hk

/-- A count within the bound is found, if the bound is below the order of the generator. -/
theorem decryptCount_of_multiple {n max : Nat}
    (h : key.decryptPoint c = Point.multiple n .generator) (hn : n ≤ max)
    (hmax : max < subgroupOrder) : key.decryptCount c max = some n := by
  rw [key.decryptCount_multiple h (lt_of_le_of_lt hn hmax), if_pos hn]

/-- Decryption inverts encryption. A 64-bit count is decrypted to its multiple of the generator,
whatever is drawn for it, and is found again if it is within the bound. Sums and differences of
ciphertexts of the curve are decrypted to those of what they are decrypted to. Of any ciphertext,
the least count is found within the bound whose multiple of the generator is the decrypted point,
and none if there is no such count. -/
theorem decryption_inverts_encryption (key : SecretKey) :
    (∀ (g : Generator) (p : Point) (m : Nat), (g.encrypt p m).1 = .encrypt p m g.multiplier.1) ∧
    (∀ (m : UInt64) (r : Multiplier),
      key.decryptPoint (.encrypt key.publicKey m.toNat r) =
        (m.toNat • EdwardsPoint.generator : EdwardsPoint) ∧
      ∀ max : Nat, key.decryptCount (.encrypt key.publicKey m.toNat r) max =
        if m.toNat ≤ max then some m.toNat else none) ∧
    (∀ a b : Ciphertext, a.OnCurve → b.OnCurve →
      key.decryptPoint (a + b) = key.decryptPoint a + key.decryptPoint b ∧
      key.decryptPoint (a - b) = key.decryptPoint a - key.decryptPoint b) ∧
    (∀ (c : Ciphertext) (max : Nat),
      (∀ n, key.decryptCount c max = some n ↔
        IsLeast {k : Nat | k ≤ max ∧
          (k • EdwardsPoint.generator : EdwardsPoint) = key.decryptPoint c} n) ∧
      (key.decryptCount c max = none ↔
        ∀ k ≤ max, (k • EdwardsPoint.generator : EdwardsPoint) ≠ key.decryptPoint c)) := by
  refine ⟨fun _ _ _ => rfl, fun m r => ?_,
    fun a b ha hb => ⟨key.decryptPoint_add ha hb, key.decryptPoint_sub ha hb⟩,
    fun c max => ⟨fun n => key.decryptCount_eq_some_iff, key.decryptCount_eq_none_iff⟩⟩
  have hm : m.toNat < subgroupOrder := lt_trans m.toNat_lt (by decide)
  have hpoint := key.decryptPoint_encrypt m.toNat r
  exact ⟨by simp [hpoint], fun max => key.decryptCount_multiple hpoint hm⟩

/-- A ciphertext of points outside the subgroup of the generator is decrypted additively too: it
holds no count, but added to itself it holds zero. -/
theorem ciphertext_of_small_order_is_decrypted :
    let key : SecretKey := ⟨Residue.ofNat 3⟩
    let c : Ciphertext := ⟨⟨1, 0⟩, ⟨1, 0⟩⟩
    c.OnCurve ∧ key.decryptPoint (c + c) = key.decryptPoint c + key.decryptPoint c ∧
      key.decryptPoint c = ⟨0, -1⟩ ∧ key.decryptCount c 2 = none ∧
        key.decryptCount (c + c) 2 = some 0 := by
  intro key c
  have hc : c.OnCurve := ⟨by decide +kernel, by decide +kernel⟩
  have hsum := ((decryption_inverts_encryption key).2.2.1 c c hc hc).1
  exact ⟨hc, hsum, by decide +kernel, by decide +kernel, by decide +kernel⟩

end SecretKey

/-! ## Votes for one emoji -/

namespace Vote

variable (key : SecretKey)

/-- A vote for one choice encrypts one in its slot and zero in all others. -/
theorem slot_oneHot (p : Point) (emoji : Nat) (rs : Vector Multiplier emojiSlots)
    (k : Fin emojiSlots) : (oneHot p emoji rs).slot k =
      .encrypt p (Reactions.oneHot emoji k) (rs.get k) := by
  rw [slot, oneHot, Fin.getElem_fin, Vector.getElem_mapIdx]
  rfl

/-- A vote for one choice is on the curve. -/
theorem oneHot_onCurve (emoji : Nat) (rs : Vector Multiplier emojiSlots) :
    (oneHot key.publicKey emoji rs).OnCurve := by
  rw [onCurve_iff]
  intro k
  rw [slot_oneHot]
  exact key.encrypt_onCurve _ _

/-- A vote for one emoji is decrypted to one in its slot and to zero in the others. -/
theorem decryptPoint_oneHot (emoji : Nat) (rs : Vector Multiplier emojiSlots)
    (k : Fin emojiSlots) : key.decryptPoint ((oneHot key.publicKey emoji rs).slot k) =
      Point.multiple (Reactions.oneHot emoji k) .generator := by
  rw [slot_oneHot, key.decryptPoint_encrypt]

/-- What a generator makes of an emoji is a vote for it. -/
theorem eq_oneHot_of_encryptVote {g : Generator} {p : Point} {emoji : Nat} {v : Vote}
    (h : (g.encryptVote p emoji).1 = some v) : ∃ rs, v = oneHot p emoji rs := by
  rw [Generator.encryptVote] at h
  split at h
  · exact ⟨_, (Option.some.inj h).symm⟩
  · cases h

/-- What a slot decrypts to is additive in the vote. -/
theorem additive_decryptPoint (k : Fin emojiSlots) :
    Additive fun v => key.decryptPoint (v.slot k) where
  onCurve hv := key.decryptPoint_onCurve (onCurve_iff.1 hv k)
  identity := by rw [slot_identity, key.decryptPoint_identity]
  add {v w} hv hw := by
    rw [slot_add, key.decryptPoint_add (onCurve_iff.1 hv k) (onCurve_iff.1 hw k)]
  sub {v w} hv hw := by
    rw [slot_sub, key.decryptPoint_sub (onCurve_iff.1 hv k) (onCurve_iff.1 hw k)]

end Vote

end Reactions
