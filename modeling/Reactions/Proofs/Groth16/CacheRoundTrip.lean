import Mathlib.Tactic.Ring
import Reactions.Groth16.KeyCache
import Reactions.Proofs.Groth16.ProofLayout
import Reactions.Proofs.Text.Utf8

/-!
# Cached keys are read back

A reader of the binary format stands against the bytes that it takes: `Get.Reads get bytes a` says
that `get` takes exactly `bytes` off the front of its input and yields `a`, whatever follows.
Readers that do so can be run one after the other (`Get.Reads.bind`), so the statement for a whole
key follows the layout of its bytes field by field, from numbers and coordinates over points to
`reads_key`. What is special is the last byte of a point, which carries flags: coordinates leave its
two top bits free (`exists_putBase`), so that the flags can be told and taken off again
(`flags_of_top`).

Every key that fits the circuit and has only points of the groups is read back as it was written,
flags, points at infinity and the text of the version included (`read_write_append`).
-/

namespace Reactions

/-! ## Bytes -/

/-- The first byte counts for as many places as there are others. -/
theorem Bytes.toNat_cons (b : UInt8) (rest : Bytes) :
    toNat (b :: rest) = b.toNat * 256 ^ rest.length + toNat rest := by
  induction rest using List.reverseRecOn with
  | nil => simp [toNat]
  | append_singleton rest c ih =>
    rw [← List.cons_append, toNat_append_singleton, ih, toNat_append_singleton, List.length_append,
      List.length_singleton, Nat.pow_succ]
    ring

namespace KeyCache

/-! ## Readers -/

namespace Get

variable {α β : Type} {get : Get α} {f : α → Get β} {bytes more rest : Bytes} {a : α} {b : β}

/-- What is read first leaves the rest to what is read next. -/
theorem run_bind_ok (f : α → Get β) (h : get.run bytes = .ok (a, rest)) :
    (get >>= f).run bytes = (f a).run rest := by
  rw [StateT.run_bind, h]
  rfl

/-- The reader takes exactly these bytes off the front of its input, and yields this value. -/
def Reads (get : Get α) (bytes : Bytes) (a : α) : Prop :=
  ∀ rest, get.run (bytes ++ rest) = .ok (a, rest)

theorem reads_pure (a : α) : Reads (pure a) [] a := fun _ => rfl

theorem reads_lift {outcome : Except CacheError α} (h : outcome = .ok a) :
    Reads (liftM outcome) [] a := by
  intro rest
  rw [h]
  rfl

/-- What is read of bytes in a row is read of one after the other. -/
theorem Reads.bind (h : get.Reads bytes a) (hf : (f a).Reads more b) :
    Reads (get >>= f) (bytes ++ more) b := by
  intro rest
  rw [List.append_assoc, run_bind_ok f (h _)]
  exact hf rest

/-- A reader that goes on without taking any more. -/
theorem Reads.bind_nil (h : get.Reads bytes a) (hf : (f a).Reads [] b) :
    Reads (get >>= f) bytes b := by
  have hbind := h.bind hf
  rwa [List.append_nil] at hbind

end Get

/-- As many bytes as are asked for are taken as they are. -/
theorem reads_take {count : Nat} {bytes : Bytes} (h : bytes.length = count) :
    (take count).Reads bytes bytes := by
  intro rest
  have henough : ¬ (bytes ++ rest).length < count := by
    rw [List.length_append]
    omega
  rw [take, Get.run_bind_ok _ rfl, if_neg henough, Get.run_bind_ok _ rfl, ← h, List.take_left,
    List.drop_left]
  rfl

/-- A condition that holds is passed without reading. -/
theorem reads_ensure {p : Prop} [Decidable p] (h : p) : (ensure p).Reads [] () := by
  rw [ensure, if_pos h]
  exact Get.reads_pure ()

/-! ## Numbers and texts -/

/-- A number is written in as many bytes as it is given. -/
theorem length_littleEndian (width n : Nat) : (littleEndian width n).length = width := by
  rw [littleEndian, List.length_reverse, Bytes.length_ofNat]

/-- The bytes of a number, the last one first, denote it if they are enough. -/
theorem toNat_littleEndian {width n : Nat} (h : n < 256 ^ width) :
    Bytes.toNat (littleEndian width n).reverse = n := by
  rw [littleEndian, List.reverse_reverse, Bytes.toNat_ofNat, Nat.mod_eq_of_lt h]

/-- A number that fits its width is read back. -/
theorem reads_number {width n : Nat} (h : n < 256 ^ width) :
    (number width).Reads (littleEndian width n) n := by
  have hreads := (reads_take (length_littleEndian width n)).bind_nil
    (f := fun bytes => pure (Bytes.toNat bytes.reverse)) (Get.reads_pure _)
  rwa [toNat_littleEndian h] at hreads

/-- A text is read back if its length fits into the eight bytes that are there for it. -/
theorem reads_string {s : String} (h : s.toUTF8.toList.length < 256 ^ 8) :
    string.Reads (littleEndian 8 s.toUTF8.toList.length ++ s.toUTF8.toList) s := by
  refine (reads_number h).bind ((reads_take rfl).bind_nil ?_)
  rw [fromUTF8?_toUTF8]
  exact Get.reads_pure s

/-! ## Coordinates -/

/-- Thirty-two bytes are enough for a coordinate. -/
theorem val_lt_width (x : BaseField) : x.val < 256 ^ 32 := Nat.lt_of_lt_of_le x.isLt baseOrder_le

/-- The bytes of a coordinate are canonical. -/
theorem canonical_putBase (x : BaseField) : canonical (putBase x) = .ok x := by
  rw [canonical, putBase, toNat_littleEndian (val_lt_width x), Residue.ofNat?_eq_some_iff.2 rfl]

/-- A coordinate is read back. -/
theorem reads_base (x : BaseField) : base.Reads (putBase x) x :=
  (reads_take (length_littleEndian 32 x.val)).bind_nil (Get.reads_lift (canonical_putBase x))

/-- A coordinate leaves the two top bits of its last byte free. -/
theorem exists_putBase (x : BaseField) :
    ∃ low top, putBase x = low ++ [top] ∧ top.toNat < 64 := by
  obtain ⟨top, rest, hdigits⟩ :=
    List.exists_cons_of_length_eq_add_one (Bytes.length_ofNat 32 x.val)
  have hlength : rest.length = 31 := by
    have h := Bytes.length_ofNat 32 x.val
    rw [hdigits, List.length_cons] at h
    omega
  refine ⟨rest.reverse, top, ?_, ?_⟩
  · rw [putBase, littleEndian, hdigits, List.reverse_cons]
  · have hnumber := Bytes.toNat_ofNat 32 x.val
    have hbound : baseOrder < 64 * 256 ^ 31 := by decide
    rw [hdigits, Bytes.toNat_cons, hlength, Nat.mod_eq_of_lt (val_lt_width x)] at hnumber
    have hx := x.isLt
    omega

/-- The flags that stand in the last byte of a point: none, or one of the two. -/
def flagBytes : List UInt8 := [0, infinityFlag, largerFlag]

/-- Flags in the top bits of a byte can be told, and the byte without them too. -/
theorem flags_of_top {top flags : UInt8} (htop : top.toNat < 64) (hflags : flags ∈ flagBytes) :
    ¬ (top ||| flags) &&& 0xc0 = 0xc0 ∧ (top ||| flags) &&& 0x3f = top ∧
      ((top ||| flags) &&& infinityFlag = infinityFlag ↔ flags = infinityFlag) := by
  have hall : ∀ top : Fin 64, ∀ flags ∈ flagBytes,
      ¬ (UInt8.ofNat top ||| flags) &&& 0xc0 = 0xc0 ∧
        (UInt8.ofNat top ||| flags) &&& 0x3f = UInt8.ofNat top ∧
        ((UInt8.ofNat top ||| flags) &&& infinityFlag = infinityFlag ↔ flags = infinityFlag) := by
    decide +kernel
  have h := hall ⟨top.toNat, htop⟩ flags hflags
  rwa [UInt8.ofNat_toNat] at h

/-- Flags go to the last byte. -/
theorem withFlags_append_singleton (flags top : UInt8) (low : Bytes) :
    withFlags flags (low ++ [top]) = low ++ [top ||| flags] := by
  simp [withFlags]

/-- A coordinate with flags is read back together with what the flags say of infinity. -/
theorem reads_flaggedBase (x : BaseField) {flags : UInt8} (hflags : flags ∈ flagBytes) :
    flaggedBase.Reads (withFlags flags (putBase x)) (x, decide (flags = infinityFlag)) := by
  obtain ⟨low, top, hbase, htop⟩ := exists_putBase x
  obtain ⟨hclash, htake, hinfinity⟩ := flags_of_top htop hflags
  have hlength : (low ++ [top ||| flags]).length = 32 := by
    have h := length_littleEndian 32 x.val
    rw [← putBase, hbase] at h
    simpa using h
  have hlast : (low ++ [top ||| flags]).getLastD 0 = top ||| flags := by simp
  have hlow : (low ++ [top ||| flags]).dropLast = low := List.dropLast_concat
  rw [hbase, withFlags_append_singleton, flaggedBase]
  refine (reads_take hlength).bind_nil ?_
  simp only [hlast, hlow, hclash, if_false, htake, hinfinity, ← hbase]
  exact (Get.reads_lift (canonical_putBase x)).bind_nil (Get.reads_pure _)

/-! ## Points -/

/-- The flags of a pair of coordinates are those of the second. -/
theorem withFlags_append (flags : UInt8) (bytes : Bytes) (x : BaseField) :
    withFlags flags (bytes ++ putBase x) = bytes ++ withFlags flags (putBase x) := by
  obtain ⟨low, top, hbase, -⟩ := exists_putBase x
  rw [hbase, ← List.append_assoc, withFlags_append_singleton, withFlags_append_singleton,
    List.append_assoc]

/-- The flag byte of a point: that of infinity, or that of a coordinate which may be the larger
root. -/
def flagByte {K : Type} (isLarger : K → Bool) : AffinePoint K → UInt8
  | .infinity => infinityFlag
  | .affine _ y => if isLarger y then largerFlag else 0

/-- The flags of a point are one of the three that there are. -/
theorem flagByte_mem {K : Type} (isLarger : K → Bool) (p : AffinePoint K) :
    flagByte isLarger p ∈ flagBytes := by
  cases p with
  | infinity =>
    rw [flagByte]
    decide
  | affine x y =>
    rw [flagByte]
    cases isLarger y <;> decide

/-- A point is its coordinates, unless its flags mark infinity. -/
theorem point_of_flagByte {K : Type} [Zero K] (isLarger : K → Bool) (p : AffinePoint K) :
    (if decide (flagByte isLarger p = infinityFlag) then .infinity
      else .affine p.coordinates.1 p.coordinates.2) = p := by
  cases p with
  | infinity => rfl
  | affine x y =>
    have hflag : ¬ flagByte isLarger (.affine x y) = infinityFlag := by
      rw [flagByte]
      cases isLarger y <;> decide
    rw [decide_eq_false hflag]
    rfl

/-- A point of the first group is written as its coordinates, the last with flags. -/
theorem putG1_eq (p : G1Point) :
    putG1 p = putBase p.coordinates.1 ++
      withFlags (flagByte isLarger p) (putBase p.coordinates.2) := by
  cases p <;> exact withFlags_append _ _ _

/-- A point of the first group is read back. -/
theorem reads_g1 (p : G1Point) : g1.Reads (putG1 p) p := by
  rw [putG1_eq, g1]
  refine (reads_base _).bind ((reads_flaggedBase _ (flagByte_mem isLarger p)).bind_nil ?_)
  dsimp only
  rw [point_of_flagByte]
  exact Get.reads_pure p

/-- A point of the second group is written as its coordinates, the last component with flags. -/
theorem putG2_eq (p : G2Point) :
    putG2 p = putBase p.coordinates.1.c0 ++ (putBase p.coordinates.1.c1 ++
      (putBase p.coordinates.2.c0 ++
        withFlags (flagByte isLarger2 p) (putBase p.coordinates.2.c1))) := by
  cases p with
  | infinity =>
    have hflatten : (List.replicate 4 (putBase 0)).flatten =
        putBase 0 ++ putBase 0 ++ putBase 0 ++ putBase 0 := by
      simp [List.replicate]
    rw [putG2, hflatten, withFlags_append, List.append_assoc, List.append_assoc]
    rfl
  | affine x y =>
    rw [putG2, withFlags_append, List.append_assoc, List.append_assoc]
    rfl

theorem reads_g2 (p : G2Point) : g2.Reads (putG2 p) p := by
  rw [putG2_eq, g2]
  refine (reads_base _).bind ((reads_base _).bind ((reads_base _).bind
    ((reads_flaggedBase _ (flagByte_mem isLarger2 p)).bind_nil ?_)))
  dsimp only
  rw [point_of_flagByte]
  exact Get.reads_pure p

/-- A valid point of the first group passes the check and is read back. -/
theorem reads_checkedG1 {p : G1Point} (h : G1.Valid p) : checkedG1.Reads (putG1 p) p :=
  (reads_g1 p).bind_nil ((reads_ensure h).bind_nil (Get.reads_pure p))

theorem reads_checkedG2 {p : G2Point} (h : G2.Valid p) : checkedG2.Reads (putG2 p) p :=
  (reads_g2 p).bind_nil ((reads_ensure h).bind_nil (Get.reads_pure p))

/-- Points in a row are read back. -/
theorem reads_points (ps : List G1Point) : (points ps.length).Reads (ps.flatMap putG1) ps := by
  induction ps with
  | nil => exact Get.reads_pure []
  | cons p rest ih => exact (reads_g1 p).bind (ih.bind_nil (Get.reads_pure (p :: rest)))

/-- A point of the first group is written in 64 bytes. -/
theorem length_putG1 (p : G1Point) : (putG1 p).length = 64 := by
  obtain ⟨low, top, hbase, -⟩ := exists_putBase p.coordinates.2
  have hlength : (low ++ [top]).length = 32 := hbase ▸ length_littleEndian 32 _
  have hx : (putBase p.coordinates.1).length = 32 := length_littleEndian 32 _
  rw [List.length_append, List.length_singleton] at hlength
  rw [putG1_eq, hbase, withFlags_append_singleton, List.length_append, hx, List.length_append,
    List.length_singleton]
  omega

/-- Points of the first group are written in 64 bytes each. -/
theorem length_flatMap_putG1 (ps : List G1Point) : (ps.flatMap putG1).length = 64 * ps.length := by
  induction ps with
  | nil => rfl
  | cons p rest ih =>
    rw [List.flatMap_cons, List.length_append, length_putG1, ih, List.length_cons]
    omega

/-- The input points are read back, since there are bytes enough for as many of them as announced.
-/
theorem reads_inputPoints {ps : List G1Point} (hlength : ps.length < 256 ^ 8)
    (hvalid : ∀ p ∈ ps, G1.Valid p) :
    inputPoints.Reads (littleEndian 8 ps.length ++ ps.flatMap putG1) ps := by
  refine (reads_number hlength).bind fun rest => ?_
  have henough : ¬ (ps.flatMap putG1 ++ rest).length < 64 * ps.length := by
    rw [List.length_append, length_flatMap_putG1]
    omega
  rw [Get.run_bind_ok _ rfl, if_neg henough]
  exact (reads_points ps).bind_nil ((reads_ensure hvalid).bind_nil (Get.reads_pure ps)) rest

/-! ## Keys -/

/-- A key with valid points is read back, if the counts of its version and its inputs fit their
width. -/
theorem reads_key {k : VerificationKey} (hvalid : k.Valid)
    (hversion : k.version.utf8ByteSize < 2 ^ 64) (hic : k.ic.length < 2 ^ 64) :
    key.Reads (write k) k := by
  obtain ⟨halpha, hbeta, hgamma, hdelta, hpoints⟩ := hvalid
  have hwrite : write k =
      (littleEndian 8 k.version.toUTF8.toList.length ++ k.version.toUTF8.toList) ++
      (putG1 k.alpha ++ (putG2 k.beta ++ (putG2 k.gamma ++ (putG2 k.delta ++
        (littleEndian 8 k.ic.length ++ k.ic.flatMap putG1))))) := by
    simp only [write, List.append_assoc]
  rw [hwrite]
  refine (reads_string ?_).bind ?_
  · rw [length_toUTF8]
    exact hversion
  refine (reads_checkedG1 halpha).bind ?_
  refine (reads_checkedG2 hbeta).bind ?_
  refine (reads_checkedG2 hgamma).bind ?_
  refine (reads_checkedG2 hdelta).bind ?_
  exact (reads_inputPoints hic hpoints).bind_nil (Get.reads_pure k)

/-- What is written of a key that fits the circuit and has only points of the groups is read as that
key, whatever bytes stand after it. -/
theorem read_write_append {k : VerificationKey} (hvalid : k.Valid)
    (hic : k.ic.length = VerificationKey.icCount) (hversion : k.version.utf8ByteSize < 2 ^ 64)
    (rest : Bytes) : read (write k ++ rest) = .ok k := by
  have hcount : k.ic.length < 2 ^ 64 := by
    rw [hic]
    decide
  rw [read, reads_key hvalid hversion hcount rest]
  exact if_pos hic

end KeyCache

end Reactions
