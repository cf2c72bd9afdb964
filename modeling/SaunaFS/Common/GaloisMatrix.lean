import SaunaFS.Common.GaloisField
import SaunaFS.Lib.FlatArray
import SaunaFS.Lib.GaussJordan
import SaunaFS.Lib.SystematicCode

/-! The matrices of the erasure coder (`src/common/galois_field_isal.cc`): the
generators `gf_gen_rs_matrix` and `gf_gen_cauchy1_matrix`, and
`gf_invert_matrix`. Matrices are flat row-major arrays; `toMatrix` reads one as
a matrix.

Both generators are systematic (`SystematicCode.generator`): the identity, then
parity rows, the powers `(2^r)^j` or the Cauchy entries `1 / ((k + r) ^ j)`.
Every square submatrix of the Cauchy rows is nonsingular; for the power rows this
holds with up to three parity rows, and with four when `k ≤ 20`, which is where
`createRSMatrix` uses them. `gf_invert_matrix` is the Gauss–Jordan loop of
`GaussJordan` over `GF`, whose subtraction is `^`.
-/

set_option autoImplicit false

namespace SaunaFS

open FlatArray SystematicCode

/-- A flat row-major array read as a `rows × cols` matrix. -/
def toMatrix (a : Nat → GF) (rows cols : Nat) : Matrix (Fin rows) (Fin cols) GF :=
  Matrix.of fun i j => a (i.val * cols + j.val)

/-- The first lines of both generators: `memset(a, 0, k * m)`, then `a[k * i + i] = 1`. -/
def systematicTop (a : Nat → GF) (m k : Nat) : Nat → GF :=
  (List.range k).foldl (fun a i => Function.update a (k * i + i) 1) fun t => if t < k * m then 0 else a t

/-- `gf_gen_rs_matrix(a, m, k)`: parity row `i` holds the powers of `gen = 2^(i - k)`. -/
def gfGenRsMatrix (a : Nat → GF) (m k : Nat) : Nat → GF :=
  ((List.range' k (m - k)).foldl
    (fun (acc : (Nat → GF) × GF) i =>
      let row := (List.range k).foldl
        (fun (row : (Nat → GF) × GF) j => (Function.update row.1 (k * i + j) row.2, row.2 * acc.2))
        (acc.1, 1)
      (row.1, acc.2 * ⟨2⟩))
    (systematicTop a m k, 1)).1

/-- `gf_gen_cauchy1_matrix(a, m, k)`: the pointer `p` runs over the parity entries
from `a[k * k]` on. -/
def gfGenCauchy1Matrix (a : Nat → GF) (m k : Nat) : Nat → GF :=
  ((List.range' k (m - k)).foldl
    (fun (acc : (Nat → GF) × Nat) i =>
      (List.range k).foldl
        (fun (acc : (Nat → GF) × Nat) j => (Function.update acc.1 acc.2 ⟨gfInv (i ^^^ j).toUInt8⟩, acc.2 + 1))
        acc)
    (systematicTop a m k, k * k)).1

/-- A matrix written back row-major over the first `n * n` entries of `out`. -/
def ofMatrix {n : Nat} (R : Matrix (Fin n) (Fin n) GF) (out : Nat → GF) : Nat → GF :=
  fun t => if h : t < n * n then
      R ⟨t / n, Nat.div_lt_of_lt_mul h⟩ ⟨t % n, Nat.mod_lt _ (Nat.pos_of_ne_zero fun zero => by simp [zero] at h)⟩
    else out t

/-- `gf_invert_matrix(in_mat, out_mat, n)`: 0 and the inverse, or -1 when a column
has no pivot, with `out_mat` as the loop left it. The reduced `in_mat` is not
returned: no caller reads it. -/
def gfInvertMatrix (inMat outMat : Nat → GF) (n : Nat) : Int × (Nat → GF) :=
  match GaussJordan.invert (toMatrix inMat n n) with
  | .ok inverse => (0, ofMatrix inverse outMat)
  | .error stopped => (-1, ofMatrix stopped outMat)

/-! ## Reading the flat arrays -/

@[simp] theorem toMatrix_apply (a : Nat → GF) (rows cols : Nat) (i : Fin rows) (j : Fin cols) :
    toMatrix a rows cols i j = a (i.val * cols + j.val) := rfl

theorem ofMatrix_apply {n : Nat} (R : Matrix (Fin n) (Fin n) GF) (out : Nat → GF) (i j : Fin n) :
    ofMatrix R out (i.val * n + j.val) = R i j := by
  have inside : i.val * n + j.val < n * n := by nlinarith [i.isLt, j.isLt]
  have row : (i.val * n + j.val) / n = i.val := by
    rw [Nat.mul_comm, Nat.mul_add_div (by omega), Nat.div_eq_of_lt j.isLt, Nat.add_zero]
  have col : (i.val * n + j.val) % n = j.val := by
    rw [Nat.mul_comm, Nat.mul_add_mod, Nat.mod_eq_of_lt j.isLt]
  simp only [ofMatrix, dif_pos inside]
  congr 1 <;> exact Fin.ext (by simp [row, col])

@[simp] theorem toMatrix_ofMatrix {n : Nat} (R : Matrix (Fin n) (Fin n) GF) (out : Nat → GF) :
    toMatrix (ofMatrix R out) n n = R := by
  ext i j
  exact ofMatrix_apply R out i j

theorem gfInvertMatrix_eq {inMat : Nat → GF} {n : Nat} (nonsingular : (toMatrix inMat n n).det ≠ 0)
    (outMat : Nat → GF) : gfInvertMatrix inMat outMat n = (0, ofMatrix (toMatrix inMat n n)⁻¹ outMat) := by
  rw [gfInvertMatrix, GaussJordan.invert_eq_inv nonsingular]

/-! ## The generators -/

section Generators

variable (a : Nat → GF) (m k : Nat)

theorem systematicTop_apply {i j : Nat} (hi : i < m) (hj : j < k) :
    systematicTop a m k (k * i + j) = if i = j then 1 else 0 := by
  have inside : k * i + j < k * m := by nlinarith
  rw [systematicTop, foldl_update_const_apply, if_pos inside]
  by_cases diagonal : i = j
  · subst diagonal
    have hit : (List.range k).any (fun i' => k * i' + i' == k * i + i) = true :=
      List.any_eq_true.mpr ⟨i, List.mem_range.mpr hj, by simp⟩
    simp [hit]
  · have miss : (List.range k).any (fun i' => k * i' + i' == k * i + j) = false := by
      simp only [List.any_eq_false, List.mem_range, beq_iff_eq]
      intro i' below same
      obtain ⟨rfl, rfl⟩ := block_offset_inj below hj same
      exact diagonal rfl
    rw [miss, if_neg diagonal]
    rfl

/-- The powers are kept in accumulators; the loop writes row `i` with the powers of `2^(i - k)`. -/
theorem gfGenRsMatrix_eq :
    gfGenRsMatrix a m k =
      (List.range' k (m - k)).foldl (fun a i => writeBlock a (k * i) k fun j => (GF.mk 2 ^ (i - k)) ^ j)
        (systematicTop a m k) := by
  -- the inner loop: `p = gen^j` at column `j`
  have row : ∀ (gen : GF) (i : Nat) (b : Nat → GF),
      (List.range k).foldl (fun (row : (Nat → GF) × GF) j =>
        (Function.update row.1 (k * i + j) row.2, row.2 * gen)) (b, 1) =
        (writeBlock b (k * i) k fun j => gen ^ j, gen ^ k) := by
    intro gen i b
    rw [List.range_eq_range', show (1 : GF) = gen ^ 0 from (pow_zero gen).symm,
      foldl_range'_counter _ (fun b j => Function.update b (k * i + j) (gen ^ j)) (fun j => gen ^ j) 0 k
        (fun b j _ _ => by rw [pow_succ]), writeBlock, List.range_eq_range', Nat.zero_add]
  -- the outer loop: `gen = 2^(i - k)` at row `i`
  have start : (systematicTop a m k, (1 : GF)) = (systematicTop a m k, GF.mk 2 ^ (k - k)) := by simp
  rw [gfGenRsMatrix, start, foldl_range'_counter _ (fun b i => writeBlock b (k * i) k fun j => (GF.mk 2 ^ (i - k)) ^ j)
      (fun i => GF.mk 2 ^ (i - k)) k (m - k)]
  intro b i lo _
  simp only [row]
  rw [show i + 1 - k = i - k + 1 by omega, pow_succ]

theorem gfGenCauchy1Matrix_eq :
    gfGenCauchy1Matrix a m k =
      (List.range' k (m - k)).foldl (fun a i => writeBlock a (k * i) k fun j => ⟨gfInv (i ^^^ j).toUInt8⟩)
        (systematicTop a m k) := by
  -- the inner loop: the pointer is at `k * i + j` for column `j`
  have row : ∀ (i : Nat) (b : Nat → GF),
      (List.range k).foldl (fun (acc : (Nat → GF) × Nat) j =>
        (Function.update acc.1 acc.2 ⟨gfInv (i ^^^ j).toUInt8⟩, acc.2 + 1)) (b, k * i) =
        (writeBlock b (k * i) k fun j => ⟨gfInv (i ^^^ j).toUInt8⟩, k * (i + 1)) := by
    intro i b
    rw [List.range_eq_range', show k * i = k * i + 0 from rfl,
      foldl_range'_counter _ (fun b j => Function.update b (k * i + j) ⟨gfInv (i ^^^ j).toUInt8⟩)
        (fun j => k * i + j) 0 k (fun b j _ _ => rfl), writeBlock, List.range_eq_range', Nat.zero_add]
    simp only [Nat.add_zero, Nat.mul_succ]
  -- the outer loop: the pointer is at `k * i` for row `i`
  rw [gfGenCauchy1Matrix, foldl_range'_counter _ (fun b i => writeBlock b (k * i) k
      fun j => ⟨gfInv (i ^^^ j).toUInt8⟩) (fun i => k * i) k (m - k) (fun b i _ _ => row i b)]

/-- Both generators: rows below `k` from `systematicTop`, parity row `i` from `f i`. -/
theorem systematic_apply (f : Nat → Nat → GF) {i j : Nat} (hi : i < m) (hj : j < k) :
    (List.range' k (m - k)).foldl (fun a i => writeBlock a (k * i) k (f i)) (systematicTop a m k) (k * i + j) =
      if i < k then (if i = j then 1 else 0) else f i j := by
  by_cases top : i < k
  · rw [foldl_writeBlock_apply_of_not_mem, systematicTop_apply a m k hi hj, if_pos top]
    -- the parity blocks all start at or past `k * k`
    intro i' member inside
    have later : k ≤ i' := (List.mem_range'_1.mp member).1
    have : k * (i + 1) ≤ k * i' := Nat.mul_le_mul_left _ (by omega)
    rw [Nat.mul_succ] at this
    omega
  · rw [foldl_writeBlock_apply _ _ _ _ List.nodup_range' (List.mem_range'_1.mpr ⟨by omega, by omega⟩) hj,
      if_neg top]

theorem gfGenRsMatrix_apply {i j : Nat} (hi : i < m) (hj : j < k) :
    gfGenRsMatrix a m k (k * i + j) = if i < k then (if i = j then 1 else 0) else (GF.mk 2 ^ (i - k)) ^ j := by
  rw [gfGenRsMatrix_eq, systematic_apply a m k _ hi hj]

theorem gfGenCauchy1Matrix_apply {i j : Nat} (hi : i < m) (hj : j < k) :
    gfGenCauchy1Matrix a m k (k * i + j) = if i < k then (if i = j then 1 else 0) else ⟨gfInv (i ^^^ j).toUInt8⟩ := by
  rw [gfGenCauchy1Matrix_eq, systematic_apply a m k _ hi hj]

end Generators

/-! ## The generators as systematic codes -/

/-- The parity rows of `gf_gen_rs_matrix`: row `r` holds the powers of `2^r`. -/
def rsParity (k p : Nat) : Matrix (Fin p) (Fin k) GF := Matrix.of fun r j => (GF.mk 2 ^ r.val) ^ j.val

/-- The parity rows of `gf_gen_cauchy1_matrix`. -/
def cauchyParity (k p : Nat) : Matrix (Fin p) (Fin k) GF :=
  Matrix.of fun r j => ⟨gfInv ((k + r.val) ^^^ j.val).toUInt8⟩

section Systematic

variable (a : Nat → GF) (k p : Nat)

theorem toMatrix_systematic (f : Nat → Nat → GF) :
    toMatrix ((List.range' k p).foldl (fun a i => writeBlock a (k * i) k (f i)) (systematicTop a (k + p) k))
      (k + p) k = generator (Matrix.of fun (r : Fin p) (j : Fin k) => f (k + r.val) j.val) := by
  ext r j
  have entry := systematic_apply a (k + p) k f r.isLt j.isLt
  rw [Nat.add_sub_cancel_left] at entry
  rw [toMatrix_apply, Nat.mul_comm, entry, generator]
  by_cases top : r.val < k
  · simp [top]
  · simp only [top, if_false, dif_neg, not_false_eq_true, Matrix.of_apply]
    congr
    omega

theorem toMatrix_gfGenRsMatrix : toMatrix (gfGenRsMatrix a (k + p) k) (k + p) k = generator (rsParity k p) := by
  rw [gfGenRsMatrix_eq, Nat.add_sub_cancel_left, toMatrix_systematic]
  congr
  ext r j
  simp

theorem toMatrix_gfGenCauchy1Matrix :
    toMatrix (gfGenCauchy1Matrix a (k + p) k) (k + p) k = generator (cauchyParity k p) := by
  rw [gfGenCauchy1Matrix_eq, Nat.add_sub_cancel_left, toMatrix_systematic]
  rfl

end Systematic

/-! ## Every square submatrix of the parity rows is nonsingular -/

theorem mk_two_pow (n : Nat) : GF.mk 2 ^ n = ⟨pow2 n⟩ := by
  induction n with
  | zero => rfl
  | succ n ih =>
    rw [pow_succ, ih]
    apply GF.ext'
    rw [GF.val_mul, gfMul_comm, show (2 : UInt8) = pow2 1 from rfl, gfMul_pow2_left, pow2_succ, pow2]
    rfl

/-- A property of three numbers that is symmetric holds for all distinct numbers
below `n` once it holds for the decreasing ones. -/
theorem forall_distinct_of_sorted {n : Nat} {P : Nat → Nat → Nat → Prop}
    (swap12 : ∀ i j l, P i j l → P j i l) (swap23 : ∀ i j l, P i j l → P i l j)
    (sorted : ∀ i < n, ∀ j < i, ∀ l < j, P i j l) :
    ∀ i j l, i < n → j < n → l < n → i ≠ j → i ≠ l → j ≠ l → P i j l := by
  intro i j l hi hj hl ij il jl
  rcases Nat.lt_or_gt_of_ne ij with ij | ij <;> rcases Nat.lt_or_gt_of_ne il with il | il <;>
    rcases Nat.lt_or_gt_of_ne jl with jl | jl
  · exact swap12 _ _ _ (swap23 _ _ _ (swap12 _ _ _ (sorted l hl j jl i ij)))
  · exact swap12 _ _ _ (swap23 _ _ _ (sorted j hj l jl i il))
  · omega
  · exact swap12 _ _ _ (sorted j hj i ij l il)
  · exact swap23 _ _ _ (swap12 _ _ _ (sorted l hl i il j ij))
  · omega
  · exact swap23 _ _ _ (sorted i hi l il j jl)
  · exact sorted i hi j ij l jl

/-- Three distinct powers of 2 below `2^20` do not add up to zero. -/
theorem pow2_sum3_ne_zero : ∀ i < 20, ∀ j < i, ∀ l < j, pow2 i ^^^ pow2 j ^^^ pow2 l ≠ 0 := by
  decide +kernel

/-- Nor do their products two at a time. -/
theorem pow2_prod3_ne_zero :
    ∀ i < 20, ∀ j < i, ∀ l < j, pow2 (i + j) ^^^ pow2 (j + l) ^^^ pow2 (i + l) ≠ 0 := by
  decide +kernel

section Powers

variable {k p : Nat}

/-- The parity rows of `gf_gen_rs_matrix` are rows of powers of the nodes `2^j`. -/
theorem rsParity_eq : rsParity k p = Matrix.of fun (r : Fin p) (j : Fin k) => (GF.mk 2 ^ j.val) ^ r.val := by
  ext r j
  simp only [rsParity, Matrix.of_apply, ← pow_mul, Nat.mul_comm]

theorem rsParity_squareNonsingular (size : p ≤ 3 ∧ k ≤ 128 ∨ p = 4 ∧ k ≤ 20) :
    SquareNonsingular (rsParity k p) := by
  have small : k ≤ 128 := by omega
  rw [rsParity_eq]
  apply powers_squareNonsingular (by omega)
  · intro i j same
    dsimp only at same
    rw [mk_two_pow, mk_two_pow, GF.mk.injEq] at same
    exact Fin.ext (pow2_injOn (by omega) (by omega) same)
  · intro j zero
    rw [mk_two_pow] at zero
    exact pow2_ne_zero j.val (congrArg GF.val zero)
  · -- the powers `d < p` of distinct nodes stay below the order 255
    intro d large lt i j ne same
    rw [← pow_mul, ← pow_mul, mk_two_pow, mk_two_pow, GF.mk.injEq, pow2_eq_pow2_iff] at same
    have bound : ∀ x : Fin k, x.val * d < 255 := fun x => by
      rcases size with ⟨_, _⟩ | ⟨_, _⟩ <;> nlinarith [x.isLt]
    rw [Nat.mod_eq_of_lt (bound i), Nat.mod_eq_of_lt (bound j)] at same
    exact ne (Fin.ext (Nat.eq_of_mul_eq_mul_right (by omega) same))
  · intro four i j l ij il jl
    have twenty : k ≤ 20 := by omega
    have sum := forall_distinct_of_sorted (P := fun i j l => pow2 i ^^^ pow2 j ^^^ pow2 l ≠ 0)
      (fun i j l h => by convert h using 1; ac_rfl) (fun i j l h => by convert h using 1; ac_rfl)
      pow2_sum3_ne_zero i.val j.val l.val
      (by omega) (by omega) (by omega) (Fin.val_ne_of_ne ij) (Fin.val_ne_of_ne il) (Fin.val_ne_of_ne jl)
    intro zero
    apply sum
    simpa [mk_two_pow] using congrArg GF.val zero
  · intro four i j l ij il jl
    have twenty : k ≤ 20 := by omega
    have prod := forall_distinct_of_sorted
      (P := fun i j l => pow2 (i + j) ^^^ pow2 (j + l) ^^^ pow2 (i + l) ≠ 0)
      (fun i j l h => by convert h using 1; rw [Nat.add_comm j i]; ac_rfl)
      (fun i j l h => by convert h using 1; rw [Nat.add_comm l j]; ac_rfl)
      pow2_prod3_ne_zero i.val j.val l.val
      (by omega) (by omega) (by omega) (Fin.val_ne_of_ne ij) (Fin.val_ne_of_ne il) (Fin.val_ne_of_ne jl)
    intro zero
    apply prod
    simpa [mk_two_pow, ← pow_add, gfMul_pow2] using congrArg GF.val zero

end Powers

section Cauchy

variable {k p : Nat}

theorem cauchyParity_eq : cauchyParity k p =
    Matrix.of fun (r : Fin p) (j : Fin k) => (GF.mk (k + r.val).toUInt8 + GF.mk j.val.toUInt8)⁻¹ := by
  ext r j
  apply GF.ext'
  simp [cauchyParity]

theorem toUInt8_injOn {x y : Nat} (hx : x < 256) (hy : y < 256) (same : x.toUInt8 = y.toUInt8) : x = y := by
  have := congrArg UInt8.toNat same
  simp at this
  omega

theorem cauchyParity_squareNonsingular (size : k + p ≤ 256) : SquareNonsingular (cauchyParity k p) := by
  rw [cauchyParity_eq]
  apply cauchy_squareNonsingular
  · intro r r' same
    rw [GF.mk.injEq] at same
    exact Fin.ext (by have := toUInt8_injOn (by omega) (by omega) same; omega)
  · intro j j' same
    rw [GF.mk.injEq] at same
    exact Fin.ext (toUInt8_injOn (by omega) (by omega) same)
  · -- a parity row number `k + r` is never a column number `j < k`
    intro r j zero
    have same : (k + r.val).toUInt8 = j.val.toUInt8 := by
      have := congrArg GF.val zero
      simp only [GF.val_add, GF.val_zero] at this
      exact UInt8.xor_eq_zero_iff.mp this
    have := toUInt8_injOn (by omega) (by omega) same
    omega

end Cauchy

end SaunaFS
