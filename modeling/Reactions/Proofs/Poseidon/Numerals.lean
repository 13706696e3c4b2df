import Mathlib.Algebra.Group.Nat.Defs
import Mathlib.Data.List.Basic
import Reactions.Poseidon.Permutation

/-!
# The compression on numerals

What two elements are compressed to can be computed by the kernel, but not from the definition of
the compression: that works on bit vectors and residues, and each of them carries a proof along.
Here the generator and the permutation are followed on the numbers behind them, by the same
recursions and with the functions on `Nat` that the kernel has at hand. What a step yields is handed
on to a continuation and is a numeral by then (`forced`), so that nothing is computed twice.

The equations say that this is all that differs: the numbers drawn from the register are those of
the generator (`number_eq`, `list_eq`, `rows_eq`), the constants are those of the permutation
(`withTable_eq`), and what is compressed is compressed to the same (`compress_eq`).
-/

namespace Reactions

namespace Numeral

variable {β : Type}

/-! ## Numerals -/

/-- Computes a number before it is handed on. -/
def forced (x : Nat) (k : Nat → β) : β :=
  match x with
  | 0 => k 0
  | x + 1 => k (Nat.succ x)

/-- Computes the entries of a list before it is handed on, each of them by `force`. -/
def forcedList {α : Type} (force : α → (α → β) → β) : List α → (List α → β) → β
  | [], k => k []
  | x :: xs, k => force x fun x => forcedList force xs fun xs => k (x :: xs)

/-- Computes a row of numbers before it is handed on. -/
def forcedRow : List Nat → (List Nat → β) → β := forcedList forced

/-- Computes some rows of numbers before they are handed on. -/
def forcedRows : List (List Nat) → (List (List Nat) → β) → β := forcedList forcedRow

/-- Forcing a number hands on that number. -/
theorem forced_eq (x : Nat) (k : Nat → β) : forced x k = k x := by
  cases x with
  | zero => rfl
  | succ x => rfl

/-- Forcing the elements of a list hands on that list. -/
theorem forcedList_eq {α : Type} {force : α → (α → β) → β} (h : ∀ x k, force x k = k x)
    (xs : List α) (k : List α → β) : forcedList force xs k = k xs := by
  induction xs generalizing k with
  | nil => rfl
  | cons x xs ih => rw [forcedList, h, ih]

theorem forcedRow_eq (row : List Nat) (k : List Nat → β) : forcedRow row k = k row :=
  forcedList_eq forced_eq row k

theorem forcedRows_eq (rows : List (List Nat)) (k : List (List Nat) → β) :
    forcedRows rows k = k rows :=
  forcedList_eq forcedRow_eq rows k

/-! ## The register -/

/-- The sums of the bits that feed back in the next two steps of a register: bit one in the first of
them and bit zero in the second, to which every bit has moved up by one place. -/
def taps (s : Nat) : Nat :=
  Nat.xor (Nat.shiftRight s 16) (Nat.xor (Nat.shiftRight s 27) (Nat.xor (Nat.shiftRight s 40)
    (Nat.xor (Nat.shiftRight s 55) (Nat.xor (Nat.shiftRight s 65) (Nat.shiftRight s 78)))))

/-- The next two bits that a register puts out, as a number below four. -/
def pair (s : Nat) : Nat := Nat.mod (taps s) 4

/-- The register after these two bits. -/
def push (s : Nat) : Nat := Nat.mod (Nat.add (Nat.mul 4 s) (pair s)) 1208925819614629174706176

/-- A bit of the taps is the sum of the six bits that they draw on, from that place on. -/
theorem testBit_taps (s i : Nat) : (taps s).testBit i = (s.testBit (16 + i) ^^ s.testBit (27 + i) ^^
    s.testBit (40 + i) ^^ s.testBit (55 + i) ^^ s.testBit (65 + i) ^^ s.testBit (78 + i)) := by
  change (s >>> 16 ^^^ (s >>> 27 ^^^ (s >>> 40 ^^^ (s >>> 55 ^^^ (s >>> 65 ^^^ s >>> 78))))).testBit
    i = _
  simp only [Nat.testBit_xor, Nat.testBit_shiftRight, Bool.xor_assoc]

/-- Two steps of feedback are two bits of the taps. -/
theorem pair_eq (s : Nat) :
    pair s = 2 * ((taps s).testBit 1).toNat + ((taps s).testBit 0).toNat := by
  have hone : ((taps s).testBit 1).toNat = taps s / 2 % 2 := Nat.toNat_testBit _ _
  have hzero : ((taps s).testBit 0).toNat = taps s % 2 := (Nat.toNat_testBit _ _).trans (by simp)
  change taps s % 4 = _
  rw [hone, hzero]
  omega

section Register

variable (g : Grain)

/-- A step shifts the register by one and puts the feedback in, as a number. -/
theorem toNat_step : g.step.2.bits.toNat = (2 * g.bits.toNat + g.step.1.toNat) % 2 ^ 80 := by
  rw [Grain.step, BitVec.toNat_shiftConcat, Nat.shiftLeft_eq, Nat.pow_one, Nat.mul_comm]

/-- The feedback of a register is a bit of its taps. -/
theorem feedback_eq : g.feedback = (taps g.bits.toNat).testBit 1 := by
  simp only [Grain.feedback, BitVec.getMsbD_eq_getLsbD, testBit_taps, BitVec.testBit_toNat]
  simp only [Nat.reduceLT, decide_true, Bool.true_and, Nat.reduceSub, Nat.reduceAdd]

/-- A step moves every bit but the oldest up by one place. -/
theorem testBit_step {i : Nat} (hi : i < 79) :
    g.step.2.bits.toNat.testBit (i + 1) = g.bits.toNat.testBit i := by
  have hbit := g.step.1.toNat_lt
  have hhalf : (2 * g.bits.toNat + g.step.1.toNat) / 2 = g.bits.toNat := by omega
  rw [toNat_step, Nat.testBit_mod_two_pow, Nat.testBit_succ, hhalf, decide_eq_true (by omega),
    Bool.true_and]

/-- The feedback after a step is the next bit of the same taps. -/
theorem feedback_step : g.step.2.feedback = (taps g.bits.toNat).testBit 0 := by
  rw [feedback_eq, testBit_taps, testBit_taps, testBit_step g (i := 16), testBit_step g (i := 27),
    testBit_step g (i := 40), testBit_step g (i := 55), testBit_step g (i := 65),
    testBit_step g (i := 78)]
  all_goals omega

/-- The pair of bits is what two steps put in. -/
theorem pair_toNat : pair g.bits.toNat = 2 * g.step.1.toNat + g.step.2.step.1.toNat := by
  have hfirst : g.step.1 = (taps g.bits.toNat).testBit 1 := feedback_eq g
  have hsecond : g.step.2.step.1 = (taps g.bits.toNat).testBit 0 := feedback_step g
  rw [pair_eq, hfirst, hsecond]

/-- Pushing a pair of bits is two steps. -/
theorem push_toNat : push g.bits.toNat = g.step.2.step.2.bits.toNat := by
  change (4 * g.bits.toNat + pair g.bits.toNat) % 1208925819614629174706176 = _
  rw [pair_toNat, toNat_step, toNat_step]
  omega

end Register

/-- Pairs of steps whose output is thrown away. -/
def warmUp : (pairs : Nat) → (s : Nat) → Nat
  | 0, s => s
  | pairs + 1, s => warmUp pairs (push s)

/-- Warming up by pairs is warming up by twice as many steps. -/
theorem warmUp_eq (pairs : Nat) (g : Grain) :
    warmUp pairs g.bits.toNat = (Grain.warmUp (2 * pairs) g).bits.toNat := by
  induction pairs generalizing g with
  | zero => rfl
  | succ pairs ih =>
    rw [warmUp, push_toNat, ih]
    rfl

/-- The next bit that counts, as `Grain.bitWithin` has it. -/
def bitWithin : (pairs : Nat) → (s : Nat) → (k : Nat → Nat → β) → β
  | 0, s, k =>
    let bit := Nat.div (pair s) 2
    k bit (Nat.mod (Nat.add (Nat.mul 2 s) bit) 1208925819614629174706176)
  | pairs + 1, s, k =>
    bif Nat.ble 2 (pair s) then k (Nat.sub (pair s) 2) (push s) else bitWithin pairs (push s) k

/-- The next bit is drawn alike from the number and from the register. -/
theorem bitWithin_eq (pairs : Nat) (g : Grain) (k : Nat → Nat → β) :
    bitWithin pairs g.bits.toNat k =
      k (g.bitWithin pairs).1.toNat (g.bitWithin pairs).2.bits.toNat := by
  induction pairs generalizing g with
  | zero =>
    have hpair := pair_toNat g
    have hlow := g.step.2.step.1.toNat_lt
    have hbit : Nat.div (pair g.bits.toNat) 2 = g.step.1.toNat := by
      change pair g.bits.toNat / 2 = _
      omega
    rw [bitWithin, hbit, Grain.bitWithin, toNat_step]
    rfl
  | succ pairs ih =>
    have hnext : g.bitWithin (pairs + 1) =
        if g.step.1 then (g.step.2.step.1, g.step.2.step.2)
        else g.step.2.step.2.bitWithin pairs := rfl
    rw [bitWithin, push_toNat, ih, pair_toNat, hnext]
    cases g.step.1 <;> cases g.step.2.step.1 <;> rfl

/-- A number of `count` bits, as `Grain.number` has it. -/
def number : (count : Nat) → (acc s : Nat) → (k : Nat → Nat → β) → β
  | 0, acc, s, k => k acc s
  | count + 1, acc, s, k =>
    bitWithin 160 s fun bit s => number count (Nat.add (Nat.mul 2 acc) bit) s k

/-- A number of several bits is drawn from the numeral as the generator draws it. -/
theorem number_eq (count acc : Nat) (g : Grain) (k : Nat → Nat → β) :
    number count acc g.bits.toNat k =
      k (g.number count acc).1 (g.number count acc).2.bits.toNat := by
  induction count generalizing acc g with
  | zero => rfl
  | succ count ih =>
    rw [number, bitWithin_eq, ih]
    rfl

/-! ## Drawing elements -/

section Draw

variable {n : Nat}

/-- Elements are drawn on numbers as they are on residues. -/
def Draws (draw : Grain → Residue n × Grain) (drawn : Nat → (Nat → Nat → β) → β) : Prop :=
  ∀ g k, drawn g.bits.toNat k = k (draw g).1.val (draw g).2.bits.toNat

/-- A row of numbers, as `Grain.list` has it. -/
def list (drawn : Nat → (Nat → Nat → β) → β) :
    (count : Nat) → (s : Nat) → (k : List Nat → Nat → β) → β
  | 0, s, k => k [] s
  | count + 1, s, k => drawn s fun x s => list drawn count s fun xs s => k (x :: xs) s

/-- Rows of numbers, as `Grain.rows` has them. -/
def rows (drawn : Nat → (Nat → Nat → β) → β) (width : Nat) :
    (count : Nat) → (s : Nat) → (k : List (List Nat) → Nat → β) → β
  | 0, s, k => k [] s
  | count + 1, s, k =>
    list drawn width s fun row s => rows drawn width count s fun rest s => k (row :: rest) s

variable {draw : Grain → Residue n × Grain} {drawn : Nat → (Nat → Nat → β) → β}

/-- A list of elements is drawn alike if each of them is. -/
theorem list_eq (h : Draws draw drawn) (count : Nat) (g : Grain) (k : List Nat → Nat → β) :
    list drawn count g.bits.toNat k =
      k ((g.list draw count).1.map Residue.val) (g.list draw count).2.bits.toNat := by
  induction count generalizing g k with
  | zero => rfl
  | succ count ih =>
    rw [list, h, ih]
    rfl

/-- A matrix is drawn alike if each of its elements is. -/
theorem rows_eq (h : Draws draw drawn) (width count : Nat) (g : Grain)
    (k : List (List Nat) → Nat → β) :
    rows drawn width count g.bits.toNat k =
      k ((g.rows draw width count).1.map (·.map Residue.val))
        (g.rows draw width count).2.bits.toNat := by
  induction count generalizing g k with
  | zero => rfl
  | succ count ih =>
    rw [rows, list_eq h, ih]
    rfl

/-- A number reduced modulo `n`, as `Grain.reduced` has it. -/
def reduced (n fieldBits s : Nat) (k : Nat → Nat → β) : β :=
  number fieldBits 0 s fun x s => forced (Nat.mod x n) fun x => forced s fun s => k x s

/-- The next number below `n`, as `Grain.belowWithin` has it. -/
def belowWithin (n fieldBits : Nat) : (draws : Nat) → (s : Nat) → (k : Nat → Nat → β) → β
  | 0, s, k => reduced n fieldBits s k
  | draws + 1, s, k =>
    number fieldBits 0 s fun x s => forced x fun x => forced s fun s =>
      bif Nat.ble n x then belowWithin n fieldBits draws s k else k x s

variable [Modulus n]

/-- An element that is reduced is drawn alike. -/
theorem draws_reduced (fieldBits : Nat) :
    Draws (Grain.reduced fieldBits : Grain → Residue n × Grain)
      (reduced n fieldBits : Nat → (Nat → Nat → β) → β) := by
  intro g k
  rw [reduced, number_eq, forced_eq, forced_eq]
  rfl

/-- An element that is drawn until it is below the order is drawn alike. -/
theorem draws_belowWithin (fieldBits draws : Nat) :
    Draws (Grain.belowWithin fieldBits draws : Grain → Residue n × Grain)
      (belowWithin n fieldBits draws : Nat → (Nat → Nat → β) → β) := by
  induction draws with
  | zero => exact draws_reduced fieldBits
  | succ draws ih =>
    intro g k
    rw [belowWithin, number_eq, forced_eq, forced_eq, Grain.belowWithin]
    by_cases h : (g.number fieldBits 0).1 < n
    · have hble : Nat.ble n (g.number fieldBits 0).1 = false := by
        simpa [← Bool.not_eq_true, Nat.ble_eq] using h
      simp only [hble, cond_false, h, dite_true]
    · have hble : Nat.ble n (g.number fieldBits 0).1 = true := by
        simpa [Nat.ble_eq] using h
      simp only [hble, cond_true, h, dite_false]
      exact ih _ k

end Draw

/-! ## The permutation -/

section Permutation

variable {n : Nat}

/-- A sum modulo `n`. -/
def add (n a b : Nat) : Nat := Nat.mod (Nat.add a b) n

/-- A product modulo `n`. -/
def mul (n a b : Nat) : Nat := Nat.mod (Nat.mul a b) n

/-- A power modulo `n`, from what the ladder has reached so far. -/
def power (n x : Nat) : (digits : List Bool) → (acc : Nat) → Nat
  | [], acc => acc
  | digit :: digits, acc =>
    power n x digits (bif digit then mul n (mul n acc acc) x else mul n acc acc)

/-- The constants of a permutation: the rows of the early full rounds, of the partial rounds and of
the late full rounds, the matrix, and the binary digits of the power. -/
structure Table where
  early : List (List Nat)
  middle : List (List Nat)
  late : List (List Nat)
  matrix : List (List Nat)
  digits : List Bool

/-- The constants of a permutation as numbers. -/
def Table.of (params : PoseidonParams n) : Table where
  early := (params.constants.take (params.shape.fullRounds / 2)).map (·.map Residue.val)
  middle := ((params.constants.drop (params.shape.fullRounds / 2)).take
    params.shape.partialRounds).map (·.map Residue.val)
  late := (params.constants.drop
    (params.shape.fullRounds / 2 + params.shape.partialRounds)).map (·.map Residue.val)
  matrix := params.matrix.map (·.map Residue.val)
  digits := binaryDigits params.shape.alpha

/-- The power of an element. -/
def sbox (n : Nat) (table : Table) (x : Nat) : Nat := power n x table.digits (Nat.mod 1 n)

/-- The products of two lists, added to what is reached so far. -/
def dot (n : Nat) : List Nat → List Nat → (acc : Nat) → Nat
  | x :: xs, y :: ys, acc => dot n xs ys (add n acc (mul n x y))
  | _, _, acc => acc

/-- The product of the matrix and a state. -/
def mix (n : Nat) (table : Table) (state : List Nat) : List Nat :=
  table.matrix.map fun row => dot n row state 0

/-- Rounds with the power on every element, one for every row of constants. -/
def full (n : Nat) (table : Table) : List (List Nat) → List Nat → (List Nat → β) → β
  | [], state, k => k state
  | row :: rows, state, k =>
    forcedRow (mix n table ((List.zipWith (add n) state row).map (sbox n table))) fun state =>
      full n table rows state k

/-- Rounds with the power on the first element alone. -/
def part (n : Nat) (table : Table) : List (List Nat) → List Nat → (List Nat → β) → β
  | [], state, k => k state
  | row :: rows, state, k =>
    forcedRow (match List.zipWith (add n) state row with
      | x :: rest => mix n table (sbox n table x :: rest)
      | [] => []) fun state => part n table rows state k

/-- The compression of two elements, as `poseidon2` has it. -/
def compress (n : Nat) (table : Table) (left right : Nat) (k : Nat → β) : β :=
  full n table table.early [0, left, right] fun state =>
    part n table table.middle state fun state =>
      full n table table.late state fun state => forced (state.getD 1 0) k

variable [Modulus n]

/-- The ladder of multiplications is the same on numbers as in the field. -/
theorem power_eq (x acc : Residue n) (digits : List Bool) :
    power n x.val digits acc.val = (digits.foldl (ladderStep (· * ·) x) acc).val := by
  induction digits generalizing acc with
  | nil => rfl
  | cons digit digits ih =>
    cases digit with
    | false => exact ih (acc * acc)
    | true => exact ih (acc * acc * x)

/-- It comes to the power. -/
theorem power_eq_pow (x : Residue n) (k : Nat) :
    power n x.val (binaryDigits k) (Nat.mod 1 n) = (x ^ k).val :=
  power_eq x 1 (binaryDigits k)

variable (params : PoseidonParams n)

/-- Rows are added alike. -/
theorem zipWith_add_eq (xs ys : List (Residue n)) :
    List.zipWith (add n) (xs.map Residue.val) (ys.map Residue.val) =
      (List.zipWith (· + ·) xs ys).map Residue.val := by
  rw [List.zipWith_map, List.map_zipWith]
  rfl

/-- The product of a row and a state is the same on numbers as in the field. -/
theorem dot_eq (xs ys : List (Residue n)) (acc : Residue n) :
    dot n (xs.map Residue.val) (ys.map Residue.val) acc.val =
      ((List.zipWith (· * ·) xs ys).foldl (· + ·) acc).val := by
  induction xs generalizing ys acc with
  | nil => rfl
  | cons x xs ih =>
    cases ys with
    | nil => rfl
    | cons y ys => exact ih ys (acc + x * y)

/-- Mixing a state is the same on numbers as in the field. -/
theorem mix_eq (state : List (Residue n)) :
    mix n (.of params) (state.map Residue.val) = (params.mix state).map Residue.val := by
  rw [mix, Table.of, PoseidonParams.mix, List.map_map, List.map_map]
  refine List.map_congr_left fun row _ => ?_
  have hdot := dot_eq row state 0
  rw [Residue.val_zero] at hdot
  exact hdot

/-- The power map is the same on numbers as in the field. -/
theorem sbox_eq (x : Residue n) :
    sbox n (.of params) x.val = (x ^ params.shape.alpha).val :=
  power_eq_pow x params.shape.alpha

/-- Full rounds are the same on numbers as in the field. -/
theorem full_eq (rows : List (List (Residue n))) (state : List (Residue n)) (k : List Nat → β) :
    full n (.of params) (rows.map (·.map Residue.val)) (state.map Residue.val) k =
      k ((rows.foldl params.fullRound state).map Residue.val) := by
  induction rows generalizing state with
  | nil => rfl
  | cons row rows ih =>
    have hpowers : ((List.zipWith (· + ·) state row).map Residue.val).map (sbox n (.of params)) =
        ((List.zipWith (· + ·) state row).map (· ^ params.shape.alpha)).map Residue.val := by
      rw [List.map_map, List.map_map]
      exact List.map_congr_left fun x _ => sbox_eq params x
    rw [List.map_cons, full, forcedRow_eq, zipWith_add_eq, hpowers, mix_eq]
    exact ih _

/-- Partial rounds are the same on numbers as in the field. -/
theorem part_eq (rows : List (List (Residue n))) (state : List (Residue n)) (k : List Nat → β) :
    part n (.of params) (rows.map (·.map Residue.val)) (state.map Residue.val) k =
      k ((rows.foldl params.partialRound state).map Residue.val) := by
  induction rows generalizing state with
  | nil => rfl
  | cons row rows ih =>
    rw [List.map_cons, part, forcedRow_eq, zipWith_add_eq, List.foldl_cons,
      PoseidonParams.partialRound]
    cases List.zipWith (· + ·) state row with
    | nil => exact ih []
    | cons x rest =>
      have hstate : sbox n (.of params) x.val :: rest.map Residue.val =
          (x ^ params.shape.alpha :: rest).map Residue.val := by
        rw [sbox_eq, List.map_cons]
      change part n _ _ (mix n _ (sbox n _ x.val :: rest.map Residue.val)) k = _
      rw [hstate, mix_eq]
      exact ih _

/-- What two elements are compressed to. -/
theorem compress_eq (left right : Residue n) (k : Nat → β) :
    compress n (.of params) left.val right.val k =
      k ((params.permute [0, left, right]).getD 1 0).val := by
  have hstate : [0, left.val, right.val] = [0, left, right].map Residue.val := by
    rw [List.map_cons, Residue.val_zero]
    rfl
  have hgetD (state : List (Residue n)) :
      (state.map Residue.val).getD 1 0 = (state.getD 1 0).val := by
    rw [List.getD_eq_getElem?_getD, List.getD_eq_getElem?_getD, List.getElem?_map]
    cases state[1]? with
    | none => exact Residue.val_zero.symm
    | some x => rfl
  rw [compress, hstate]
  refine (full_eq params _ _ _).trans
    ((part_eq params _ _ _).trans ((full_eq params _ _ _).trans ?_))
  rw [forced_eq, hgetD]
  rfl

end Permutation

/-! ## The constants -/

section Constants

variable {n : Nat} [Modulus n]

/-- The fields of a shape and the ones after them fill the register. -/
theorem start_width : 2 + 4 + 12 + 12 + 10 + 10 + 30 = 80 := rfl

/-- The register of a shape before it is warmed up. -/
def start (shape : PoseidonShape) : BitVec 80 :=
  (1#2 ++ 0#4 ++ BitVec.ofNat 12 shape.fieldBits ++ BitVec.ofNat 12 (shape.rate + 1) ++
    BitVec.ofNat 10 shape.fullRounds ++ BitVec.ofNat 10 shape.partialRounds ++
    BitVec.allOnes 30).cast start_width

/-- The entry of the matrix for two numbers, the inverse of their sum. -/
def entry (n x y : Nat) : Nat := power n (add n x y) (binaryDigits (n - 2)) (Nat.mod 1 n)

/-- Computes the constants of a shape before they are handed on. -/
def withTable (n : Nat) (shape : PoseidonShape) (k : Table → β) : β :=
  let half := shape.fullRounds / 2
  rows (belowWithin n shape.fieldBits 200) (shape.rate + 1) shape.rounds
      (warmUp 80 (start shape).toNat) fun constants s =>
    list (reduced n shape.fieldBits) (shape.rate + 1) s fun xs s =>
      list (reduced n shape.fieldBits) (shape.rate + 1) s fun ys _ =>
        forcedRows (constants.take half) fun early =>
          forcedRows ((constants.drop half).take shape.partialRounds) fun middle =>
            forcedRows (constants.drop (half + shape.partialRounds)) fun late =>
              forcedRows (xs.map fun x => ys.map (entry n x)) fun matrix =>
                k ⟨early, middle, late, matrix, binaryDigits shape.alpha⟩

/-- An entry of the matrix is the same on numbers as in the field. -/
theorem entry_eq (x y : Residue n) : entry n x.val y.val = ((x + y)⁻¹).val :=
  power_eq_pow (x + y) (n - 2)

/-- The constants of a shape. -/
theorem withTable_eq (shape : PoseidonShape) (k : Table → β) :
    withTable n shape k = k (.of (.ofShape shape : PoseidonParams n)) := by
  have hstart : warmUp 80 (start shape).toNat = (Grain.ofShape shape).bits.toNat :=
    warmUp_eq 80 ⟨start shape⟩
  have hmatrix (xs ys : List (Residue n)) :
      ((xs.map Residue.val).map fun x => (ys.map Residue.val).map (entry n x)) =
        (xs.map fun x => ys.map fun y => (x + y)⁻¹).map (·.map Residue.val) := by
    rw [List.map_map, List.map_map]
    refine List.map_congr_left fun x _ => ?_
    rw [Function.comp_apply, Function.comp_apply, List.map_map, List.map_map]
    exact List.map_congr_left fun y _ => entry_eq x y
  rw [withTable, hstart, rows_eq (draws_belowWithin _ _), list_eq (draws_reduced _),
    list_eq (draws_reduced _)]
  simp only [forcedRows_eq, hmatrix, ← List.map_take, ← List.map_drop]
  rfl

end Constants

/-- Computes the constants of the compression before they are handed on. -/
def withCompression : (Table → β) → β := withTable scalarOrder ⟨254, 2, 17, 8, 31⟩

/-- The parameters that are handed on are those of the compression. -/
theorem withCompression_eq (k : Table → β) : withCompression k = k (.of compressionParams) :=
  withTable_eq _ k

/-- Elements are compressed to the same as by the library. -/
theorem compress_poseidon2 (left right : ScalarField) (k : Nat → β) :
    compress scalarOrder (.of compressionParams) left.val right.val k =
      k (poseidon2 left right).val :=
  compress_eq compressionParams left right k

end Numeral

end Reactions
