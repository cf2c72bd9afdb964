import Mathlib

/-! Gauss–Jordan inversion of a square matrix over a field, as a loop over the
pivot columns. For column `i`: when the diagonal entry is zero, the first later
row with a nonzero entry in the column is swapped up (no such row: the matrix is
singular); the pivot row is scaled by the inverse of the pivot; then every other
row `j` has its column-`i` entry times the pivot row subtracted. Each operation
is applied to the matrix being reduced and to a second matrix that starts as the
identity.

Invariants of the loop: the second matrix times the input is the first; the
first stays nonsingular when the input is; the pivot columns done so far are unit
columns. So a nonsingular input always finds a pivot and ends with the identity
and its inverse, and a singular one fails.
-/

set_option autoImplicit false

namespace GaussJordan

open Matrix

variable {F : Type} [Field F] {n : Nat}

/-- The matrix being reduced and the one accumulating the same row operations. -/
structure State (F : Type) (n : Nat) where
  work : Matrix (Fin n) (Fin n) F
  result : Matrix (Fin n) (Fin n) F

/-- Rows `i` and `j` exchanged. -/
def swapRows (M : Matrix (Fin n) (Fin n) F) (i j : Fin n) : Matrix (Fin n) (Fin n) F :=
  M.submatrix (Equiv.swap i j) id

/-- Row `i` multiplied by `c`. -/
def scaleRow (M : Matrix (Fin n) (Fin n) F) (i : Fin n) (c : F) : Matrix (Fin n) (Fin n) F :=
  M.updateRow i (c • M i)

/-- Row `j` minus `c` times row `i`. -/
def subRow (M : Matrix (Fin n) (Fin n) F) (j i : Fin n) (c : F) : Matrix (Fin n) (Fin n) F :=
  M.updateRow j (M j - c • M i)

/-- The first row below `i` with a nonzero entry in column `i`. -/
def findPivot [DecidableEq F] (M : Matrix (Fin n) (Fin n) F) (i : Fin n) : Option (Fin n) :=
  (List.finRange n).find? fun j => decide (i < j ∧ M j i ≠ 0)

/-- Row `j`'s turn of the elimination for pivot column `i`. -/
def elimRow (i : Fin n) (st : State F n) (j : Fin n) : State F n :=
  if j = i then st
  else
    let c := st.work j i
    ⟨subRow st.work j i c, subRow st.result j i c⟩

/-- Clearing column `i` outside the pivot row, one row after the other. -/
def eliminate (st : State F n) (i : Fin n) : State F n :=
  (List.finRange n).foldl (elimRow i) st

/-- A zero pivot is replaced by swapping up a later row; with no such row the
loop stops, in the state it has reached. -/
def pivotUp [DecidableEq F] (st : State F n) (i : Fin n) : Except (State F n) (State F n) :=
  if st.work i i = 0 then
    match findPivot st.work i with
    | none => .error st
    | some j => .ok ⟨swapRows st.work i j, swapRows st.result i j⟩
  else .ok st

/-- The pivot row scaled to a unit pivot, then the column cleared. -/
def clearColumn (st : State F n) (i : Fin n) : State F n :=
  let temp := (st.work i i)⁻¹
  eliminate ⟨scaleRow st.work i temp, scaleRow st.result i temp⟩ i

/-- One pass of the outer loop, for pivot column `i`. -/
def pivotStep [DecidableEq F] (st : State F n) (i : Fin n) : Except (State F n) (State F n) :=
  (pivotUp st i).map (clearColumn · i)

/-- The outer loop over the columns `i, i + 1, ...`, `k` of them. -/
def loop [DecidableEq F] : Nat → Nat → State F n → Except (State F n) (State F n)
  | 0, _, st => .ok st
  | k + 1, i, st => if h : i < n then (pivotStep st ⟨i, h⟩).bind (loop k (i + 1)) else .ok st

/-- The inverse of `A`; when a column has no pivot, an error with the second
matrix as the loop left it. -/
def invert [DecidableEq F] (A : Matrix (Fin n) (Fin n) F) :
    Except (Matrix (Fin n) (Fin n) F) (Matrix (Fin n) (Fin n) F) :=
  match loop n 0 ⟨A, 1⟩ with
  | .ok st => .ok st.result
  | .error st => .error st.result

/-! ## Row operations -/

section RowOperations

variable (M A : Matrix (Fin n) (Fin n) F)

theorem swapRows_mul (i j : Fin n) : swapRows (M * A) i j = swapRows M i j * A := by
  ext r k
  simp [swapRows, Matrix.mul_apply]

theorem scaleRow_mul (i : Fin n) (c : F) : scaleRow (M * A) i c = scaleRow M i c * A := by
  ext r k
  by_cases same : r = i
  · subst same
    simp [scaleRow, Matrix.mul_apply, Finset.mul_sum, mul_assoc]
  · simp [scaleRow, same, Matrix.mul_apply]

theorem subRow_mul (j i : Fin n) (c : F) : subRow (M * A) j i c = subRow M j i c * A := by
  ext r k
  by_cases same : r = j
  · subst same
    simp [subRow, Matrix.mul_apply, Finset.mul_sum, Finset.sum_sub_distrib, sub_mul, mul_assoc]
  · simp [subRow, same, Matrix.mul_apply]

theorem det_swapRows {i j : Fin n} (ne : i ≠ j) : (swapRows M i j).det = -M.det := by
  rw [swapRows, Matrix.det_permute, Equiv.Perm.sign_swap ne]
  simp

theorem det_scaleRow (i : Fin n) (c : F) : (scaleRow M i c).det = c * M.det := by
  rw [scaleRow, Matrix.det_updateRow_smul, Matrix.updateRow_eq_self]

theorem det_subRow {j i : Fin n} (ne : j ≠ i) (c : F) : (subRow M j i c).det = M.det := by
  rw [subRow, sub_eq_add_neg, ← neg_smul, Matrix.det_updateRow_add_smul_self M ne]

theorem subRow_apply (j i : Fin n) (c : F) (r k : Fin n) :
    subRow M j i c r k = if r = j then M j k - c * M i k else M r k := by
  by_cases same : r = j <;> simp [subRow, same]

end RowOperations

/-! ## Elimination -/

/-- What every row operation of the loop keeps: the accumulated matrix times
the input is the matrix being reduced. -/
def Tracks (A : Matrix (Fin n) (Fin n) F) (st : State F n) : Prop :=
  st.work = st.result * A

theorem elimRow_tracks {A : Matrix (Fin n) (Fin n) F} (i j : Fin n) {st : State F n}
    (tracks : Tracks A st) : Tracks A (elimRow i st j) := by
  unfold elimRow
  split
  · exact tracks
  · show subRow st.work j i _ = subRow st.result j i _ * A
    rw [tracks, subRow_mul]

theorem eliminate_tracks {A : Matrix (Fin n) (Fin n) F} (i : Fin n) {st : State F n}
    (tracks : Tracks A st) : Tracks A (eliminate st i) := by
  unfold eliminate
  induction List.finRange n generalizing st with
  | nil => exact tracks
  | cons j rest ih => exact ih (elimRow_tracks i j tracks)

theorem eliminate_det (i : Fin n) (st : State F n) : (eliminate st i).work.det = st.work.det := by
  unfold eliminate
  induction List.finRange n generalizing st with
  | nil => rfl
  | cons j rest ih =>
    rw [List.foldl_cons, ih]
    unfold elimRow
    split
    · rfl
    · next ne => exact det_subRow st.work ne _

theorem elimRow_work_apply (i j : Fin n) (st : State F n) (r k : Fin n) :
    (elimRow i st j).work r k =
      if r = j ∧ j ≠ i then st.work r k - st.work r i * st.work i k else st.work r k := by
  unfold elimRow
  by_cases pivot : j = i
  · simp [pivot]
  · by_cases same : r = j
    · subst same
      simp [pivot, subRow_apply]
    · simp [pivot, same, subRow_apply]

/-- The elimination clears column `i` outside row `i`: each row loses its own
column-`i` entry times the pivot row, the pivot row stays. -/
theorem foldl_elimRow_apply (i : Fin n) :
    ∀ (l : List (Fin n)) (st : State F n), l.Nodup → ∀ r k,
      (l.foldl (elimRow i) st).work r k =
        if r ∈ l ∧ r ≠ i then st.work r k - st.work r i * st.work i k else st.work r k
  | [], _, _, r, k => by simp
  | j :: rest, st, nodup, r, k => by
    have fresh : j ∉ rest := (List.nodup_cons.mp nodup).1
    rw [List.foldl_cons, foldl_elimRow_apply i rest _ (List.nodup_cons.mp nodup).2]
    -- rows other than `j`, the pivot row among them, are read unchanged after `j`'s turn
    have unchanged : ∀ r' k', r' ≠ j ∨ j = i → (elimRow i st j).work r' k' = st.work r' k' := by
      intro r' k' other
      rw [elimRow_work_apply]
      rcases other with ne | same
      · simp [ne]
      · simp [same]
    by_cases hr : r = j
    · subst hr
      simp only [fresh, false_and, if_false, List.mem_cons, true_or, true_and]
      rw [elimRow_work_apply]
      by_cases pivot : r = i <;> simp [pivot]
    · have rowI : (elimRow i st j).work i k = st.work i k := by
        by_cases pivot : j = i
        · exact unchanged i k (Or.inr pivot)
        · exact unchanged i k (Or.inl (Ne.symm pivot))
      rw [unchanged r k (Or.inl hr), unchanged r i (Or.inl hr), rowI]
      simp [hr]

theorem eliminate_apply (st : State F n) (i r k : Fin n) :
    (eliminate st i).work r k =
      if r = i then st.work r k else st.work r k - st.work r i * st.work i k := by
  rw [eliminate, foldl_elimRow_apply i _ st (List.nodup_finRange n)]
  by_cases same : r = i <;> simp [same]

/-! ## The loop -/

/-- Columns below `i` are unit columns. -/
def UnitBelow (M : Matrix (Fin n) (Fin n) F) (i : Nat) : Prop :=
  ∀ r c : Fin n, c.val < i → M r c = if r = c then 1 else 0

/-- A nonsingular matrix whose first `i` columns are unit columns has a
nonzero entry in column `i` at or below the diagonal. -/
theorem exists_pivot {M : Matrix (Fin n) (Fin n) F} (nonsingular : M.det ≠ 0) {i : Fin n}
    (units : UnitBelow M i) : ∃ j : Fin n, i ≤ j ∧ M j i ≠ 0 := by
  by_contra none
  simp only [not_exists, not_and, not_not] at none
  -- column `i` is the combination of the unit columns before it that it has above the diagonal
  let v : Fin n → F := fun k => if k = i then 1 else if k < i then -M k i else 0
  have kernel : M *ᵥ v = 0 := by
    funext r
    have term : ∀ k, M r k * v k =
        (if k = i then M r i else 0) + (if k = r then (if r < i then -M r i else 0) else 0) := by
      intro k
      by_cases pivot : k = i
      · subst pivot
        by_cases same : k = r
        · subst same; simp [v]
        · simp [v, same]
      · by_cases below : k < i
        · rw [units r k below]
          by_cases same : r = k
          · subst same; simp [v, pivot, below]
          · simp [v, pivot, below, same, Ne.symm same]
        · by_cases same : k = r
          · subst same; simp [v, pivot, below]
          · simp [v, pivot, below, same]
    simp only [Matrix.mulVec, dotProduct, Pi.zero_apply]
    rw [Finset.sum_congr rfl (fun k _ => term k), Finset.sum_add_distrib, Finset.sum_ite_eq',
      Finset.sum_ite_eq']
    by_cases below : r < i
    · simp [below]
    · simp [below, none r (not_lt.mp below)]
  exact nonsingular (Matrix.exists_mulVec_eq_zero_iff.mp ⟨v, fun zero => by
    simpa [v] using congrFun zero i, kernel⟩)

section Columns

variable {A : Matrix (Fin n) (Fin n) F}

theorem unitBelow_swapRows {M : Matrix (Fin n) (Fin n) F} {i j : Fin n} (le : i ≤ j)
    (units : UnitBelow M i) : UnitBelow (swapRows M i j) i := by
  intro r c below
  have ci : c ≠ i := Fin.ne_of_lt below
  have cj : c ≠ j := fun same => by rw [same] at below; exact absurd le (not_le.mpr below)
  show M (Equiv.swap i j r) c = _
  rw [units _ c below]
  -- exchanging two rows below a unit column's one leaves the column
  simp only [Equiv.swap_apply_eq_iff, Equiv.swap_apply_of_ne_of_ne ci cj]

theorem clearColumn_spec {s : State F n} {i : Fin n} (tracks : Tracks A s)
    (units : UnitBelow s.work i) (pivot : s.work i i ≠ 0) :
    Tracks A (clearColumn s i) ∧ UnitBelow (clearColumn s i).work (i + 1) ∧
      (s.work.det ≠ 0 → (clearColumn s i).work.det ≠ 0) := by
  set temp := (s.work i i)⁻¹ with temp_def
  let scaled : State F n := ⟨scaleRow s.work i temp, scaleRow s.result i temp⟩
  have scaledTracks : Tracks A scaled := by
    show scaleRow s.work i temp = scaleRow s.result i temp * A
    rw [tracks, scaleRow_mul]
  -- after scaling, the pivot is one and row `i` is still zero left of it
  have unit : scaled.work i i = 1 := by simp [scaled, scaleRow, temp, inv_mul_cancel₀ pivot]
  have rowLeft : ∀ c : Fin n, c.val < i → scaled.work i c = 0 := by
    intro c below
    simp [scaled, scaleRow, units i c below, Fin.ne_of_gt below]
  have scaledUnits : UnitBelow scaled.work i := by
    intro r c below
    by_cases same : r = i
    · subst same
      rw [rowLeft c below, if_neg (Fin.ne_of_gt below)]
    · simp [scaled, scaleRow, same, units r c below]
  have clear : clearColumn s i = eliminate scaled i := rfl
  refine ⟨clear ▸ eliminate_tracks i scaledTracks, ?_, ?_⟩
  · intro r c below
    rw [clear, eliminate_apply]
    by_cases earlier : c.val < i
    · have zero := rowLeft c earlier
      by_cases same : r = i
      · subst same; simp [scaledUnits r c earlier]
      · simp [same, zero, scaledUnits r c earlier]
    · have ci : c = i := Fin.ext (by omega)
      subst ci
      by_cases same : r = c
      · subst same; simp [unit]
      · simp [same, unit]
  · intro nonsingular
    rw [clear, eliminate_det]
    show (scaleRow s.work i temp).det ≠ 0
    rw [det_scaleRow]
    exact mul_ne_zero (inv_ne_zero pivot) nonsingular

theorem unitBelow_eq_one {M : Matrix (Fin n) (Fin n) F} (units : UnitBelow M n) : M = 1 := by
  ext r c
  rw [units r c c.isLt, Matrix.one_apply]

end Columns

section Loop

variable [DecidableEq F] {A : Matrix (Fin n) (Fin n) F}

theorem findPivot_spec {M : Matrix (Fin n) (Fin n) F} {i j : Fin n} (found : findPivot M i = some j) :
    i < j ∧ M j i ≠ 0 := by
  simpa using List.find?_some found

theorem findPivot_isSome {M : Matrix (Fin n) (Fin n) F} {i j : Fin n} (below : i < j)
    (nonzero : M j i ≠ 0) : (findPivot M i).isSome := by
  rw [findPivot, List.find?_isSome]
  exact ⟨j, List.mem_finRange j, by simpa using ⟨below, nonzero⟩⟩

theorem pivotUp_spec {st s : State F n} {i : Fin n} (up : pivotUp st i = .ok s)
    (tracks : Tracks A st) (units : UnitBelow st.work i) :
    Tracks A s ∧ UnitBelow s.work i ∧ s.work i i ≠ 0 ∧ (st.work.det ≠ 0 → s.work.det ≠ 0) := by
  unfold pivotUp at up
  split at up
  · next zero =>
    split at up
    · cases up
    · next j found =>
      cases up
      obtain ⟨below, nonzero⟩ := findPivot_spec found
      refine ⟨?_, unitBelow_swapRows (le_of_lt below) units, ?_, ?_⟩
      · show swapRows st.work i j = swapRows st.result i j * A
        rw [tracks, swapRows_mul]
      · simpa [swapRows] using nonzero
      · intro nonsingular
        rw [det_swapRows _ (Fin.ne_of_lt below)]
        exact neg_ne_zero.mpr nonsingular
  · next nonzero =>
    cases up
    exact ⟨tracks, units, nonzero, id⟩

theorem pivotUp_ok {st : State F n} {i : Fin n} (nonsingular : st.work.det ≠ 0)
    (units : UnitBelow st.work i) : ∃ s, pivotUp st i = .ok s := by
  unfold pivotUp
  split
  · next zero =>
    obtain ⟨j, le, nonzero⟩ := exists_pivot nonsingular units
    have below : i < j := lt_of_le_of_ne le fun same => nonzero (same ▸ zero)
    obtain ⟨j', found⟩ := Option.isSome_iff_exists.mp (findPivot_isSome below nonzero)
    simp [found]
  · exact ⟨st, rfl⟩

theorem pivotStep_spec {st st' : State F n} {i : Fin n} (step : pivotStep st i = .ok st')
    (tracks : Tracks A st) (units : UnitBelow st.work i) :
    Tracks A st' ∧ UnitBelow st'.work (i + 1) ∧ (st.work.det ≠ 0 → st'.work.det ≠ 0) := by
  cases up : pivotUp st i with
  | error _ => simp [pivotStep, up, Except.map] at step
  | ok s =>
    simp only [pivotStep, up, Except.map, Except.ok.injEq] at step
    subst step
    obtain ⟨upTracks, upUnits, pivot, upDet⟩ := pivotUp_spec up tracks units
    obtain ⟨clearTracks, clearUnits, clearDet⟩ := clearColumn_spec upTracks upUnits pivot
    exact ⟨clearTracks, clearUnits, fun nonsingular => clearDet (upDet nonsingular)⟩

/-- A run of the loop that completes keeps the tracking and leaves the columns
it passed as unit columns. -/
theorem loop_spec : ∀ (k i : Nat) (st st' : State F n), i + k = n → loop k i st = .ok st' →
    Tracks A st → UnitBelow st.work i → Tracks A st' ∧ UnitBelow st'.work n
  | 0, i, st, st', total, run, tracks, units => by
    cases run
    obtain rfl : i = n := by omega
    exact ⟨tracks, units⟩
  | k + 1, i, st, st', total, run, tracks, units => by
    rw [loop, dif_pos (by omega)] at run
    cases step : pivotStep st ⟨i, by omega⟩ with
    | error _ => simp [step, Except.bind] at run
    | ok mid =>
      rw [step] at run
      obtain ⟨midTracks, midUnits, -⟩ := pivotStep_spec step tracks units
      exact loop_spec k (i + 1) mid st' (by omega) run midTracks (by simpa using midUnits)

/-- On a nonsingular matrix the loop always finds its pivots. -/
theorem loop_ok : ∀ (k i : Nat) (st : State F n), i + k = n →
    Tracks A st → UnitBelow st.work i → st.work.det ≠ 0 → ∃ st', loop k i st = .ok st'
  | 0, _, st, _, _, _, _ => ⟨st, rfl⟩
  | k + 1, i, st, total, tracks, units, nonsingular => by
    rw [loop, dif_pos (by omega)]
    obtain ⟨s, up⟩ := pivotUp_ok (i := ⟨i, by omega⟩) nonsingular units
    have step : pivotStep st ⟨i, by omega⟩ = .ok (clearColumn s ⟨i, by omega⟩) := by
      simp [pivotStep, up, Except.map]
    obtain ⟨midTracks, midUnits, midDet⟩ := pivotStep_spec step tracks units
    rw [step]
    exact loop_ok k (i + 1) _ (by omega) midTracks (by simpa using midUnits) (midDet nonsingular)

/-- `invert` computes the inverse of every nonsingular matrix. -/
theorem invert_eq_inv (nonsingular : A.det ≠ 0) : invert A = .ok A⁻¹ := by
  have start : Tracks A ⟨A, 1⟩ := (Matrix.one_mul A).symm
  have noUnits : UnitBelow A 0 := fun _ _ below => absurd below (Nat.not_lt_zero _)
  obtain ⟨st, run⟩ := loop_ok n 0 ⟨A, 1⟩ (Nat.zero_add n) start noUnits nonsingular
  obtain ⟨tracks, units⟩ := loop_spec n 0 ⟨A, 1⟩ st (Nat.zero_add n) run start noUnits
  have leftInverse : st.result * A = 1 := by rw [← tracks, unitBelow_eq_one units]
  rw [invert, run, Matrix.inv_eq_left_inv leftInverse]

/-- `invert` fails on every singular matrix. -/
theorem invert_error (singular : A.det = 0) : ∃ stopped, invert A = .error stopped := by
  have start : Tracks A ⟨A, 1⟩ := (Matrix.one_mul A).symm
  cases run : loop n 0 ⟨A, 1⟩ with
  | error st => exact ⟨st.result, by rw [invert, run]⟩
  | ok st =>
    obtain ⟨tracks, units⟩ := loop_spec n 0 ⟨A, 1⟩ st (Nat.zero_add n) run start
      (fun _ _ below => absurd below (Nat.not_lt_zero _))
    have leftInverse : st.result * A = 1 := by rw [← tracks, unitBelow_eq_one units]
    have := congrArg Matrix.det leftInverse
    rw [Matrix.det_mul, singular, mul_zero, Matrix.det_one] at this
    exact absurd this zero_ne_one

end Loop

end GaussJordan
