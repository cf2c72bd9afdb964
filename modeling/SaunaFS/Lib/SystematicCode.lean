import Mathlib

/-! Systematic linear codes over a field. The generator of such a code has the
identity as its first `k` rows (the data symbols are stored as they are) and a
`p × k` matrix `P` as its other rows (the parity symbols). Any `k` of the
`k + p` symbols determine the data exactly when the generator's rows at those
positions form an invertible matrix; this holds for every choice of `k` rows as
soon as every square submatrix of `P` is nonsingular (`SquareNonsingular`).

Two families of parity matrices have that property here: Cauchy matrices
`1 / (a r + b j)` with distinct `a`s, distinct `b`s and no `a r + b j` zero, and
rows of powers `(x j)^r` of distinct nonzero nodes, over the row sets that can
occur for up to four rows when the nodes avoid a few polynomial conditions.
-/

set_option autoImplicit false

namespace SystematicCode

open Polynomial

variable {F : Type} [Field F] {k p : Nat}

/-- The generator: unit rows for the data, then the rows of `P`. -/
def generator (P : Matrix (Fin p) (Fin k) F) : Matrix (Fin (k + p)) (Fin k) F :=
  fun r j => if h : r.val < k then (if r.val = j.val then 1 else 0) else P ⟨r.val - k, by omega⟩ j

theorem generator_of_lt (P : Matrix (Fin p) (Fin k) F) {r : Fin (k + p)} (data : r.val < k) (j : Fin k) :
    generator P r j = if r.val = j.val then 1 else 0 := by
  simp [generator, data]

theorem generator_parity (P : Matrix (Fin p) (Fin k) F) (l : Fin p) (j : Fin k) :
    generator P ⟨k + l.val, by omega⟩ j = P l j := by
  simp [generator]

/-- Every square submatrix of `P` is nonsingular: a vector supported on `t`
columns that `t` rows of `P` send to zero is zero. -/
def SquareNonsingular (P : Matrix (Fin p) (Fin k) F) : Prop :=
  ∀ (Q : Finset (Fin p)) (E : Finset (Fin k)), Q.card = E.card → ∀ x : Fin k → F,
    (∀ j, j ∉ E → x j = 0) → (∀ r ∈ Q, ∑ j, P r j * x j = 0) → x = 0

/-! ## Selecting `k` rows of the generator -/

section Selection

variable {P : Matrix (Fin p) (Fin k) F} {σ : Fin k → Fin (k + p)}

/-- Rows `σ` of the generator split into the data rows they select and the
parity rows they select; as many data rows are missing as parity rows are there. -/
theorem card_parity_rows (injective : Function.Injective σ) :
    (Finset.univ.filter fun r : Fin p => ∃ a, (σ a).val = k + r.val).card =
      (Finset.univ.filter fun j : Fin k => ∀ a, (σ a).val ≠ j.val).card := by
  let low := Finset.univ.filter fun a : Fin k => (σ a).val < k
  let high := Finset.univ.filter fun a : Fin k => ¬ (σ a).val < k
  have split : low.card + high.card = k := by
    have := Finset.card_filter_add_card_filter_not (s := Finset.univ) (fun a : Fin k => (σ a).val < k)
    rwa [Finset.card_univ, Fintype.card_fin] at this
  have valInj : ∀ a b, (σ a).val = (σ b).val → a = b :=
    fun a b same => injective (Fin.ext same)
  -- the selected parity rows are the high rows of `σ`, shifted down by `k`
  have highCard : (Finset.univ.filter fun r : Fin p => ∃ a, (σ a).val = k + r.val).card =
      high.card := by
    apply Finset.card_bij (fun r member => Classical.choose (Finset.mem_filter.mp member).2)
    · intro r member
      have spec := Classical.choose_spec (Finset.mem_filter.mp member).2
      simp [high, spec]
    · intro r member r' member' same
      have spec := Classical.choose_spec (Finset.mem_filter.mp member).2
      have spec' := Classical.choose_spec (Finset.mem_filter.mp member').2
      rw [same] at spec
      exact Fin.ext (by omega)
    · intro a member
      have high : k ≤ (σ a).val := by simpa [high] using member
      refine ⟨⟨(σ a).val - k, by omega⟩, by simp; exact ⟨a, by omega⟩, ?_⟩
      have spec := Classical.choose_spec (Finset.mem_filter.mp
        (show (⟨(σ a).val - k, by omega⟩ : Fin p) ∈ Finset.univ.filter
          (fun r : Fin p => ∃ a, (σ a).val = k + r.val) by simp; exact ⟨a, by omega⟩)).2
      exact valInj _ _ (by simp at spec; omega)
  -- the selected data rows are the low rows of `σ`
  have lowCard : (Finset.univ.filter fun j : Fin k => ∀ a, (σ a).val ≠ j.val).card + low.card = k := by
    have selected : (Finset.univ.filter fun j : Fin k => ¬ ∀ a, (σ a).val ≠ j.val).card = low.card := by
      apply Finset.card_bij (fun j member => Classical.choose (by simpa using (Finset.mem_filter.mp member).2))
      · intro j member
        have spec := Classical.choose_spec (by simpa using (Finset.mem_filter.mp member).2 :
          ∃ a, (σ a).val = j.val)
        simp [low, spec]
      · intro j member j' member' same
        have spec := Classical.choose_spec (by simpa using (Finset.mem_filter.mp member).2 :
          ∃ a, (σ a).val = j.val)
        have spec' := Classical.choose_spec (by simpa using (Finset.mem_filter.mp member').2 :
          ∃ a, (σ a).val = j'.val)
        rw [same] at spec
        exact Fin.ext (by omega)
      · intro a member
        have low : (σ a).val < k := by simpa [low] using member
        refine ⟨⟨(σ a).val, low⟩, by simp, ?_⟩
        have spec := Classical.choose_spec (⟨a, rfl⟩ :
          ∃ a', (σ a').val = (⟨(σ a).val, low⟩ : Fin k).val)
        exact valInj _ _ spec
    rw [← selected]
    have := Finset.card_filter_add_card_filter_not (s := Finset.univ)
      (fun j : Fin k => ∀ a, (σ a).val ≠ j.val)
    rwa [Finset.card_univ, Fintype.card_fin] at this
  omega

/-- Any `k` distinct rows of the generator form an invertible matrix when every
square submatrix of `P` is nonsingular. -/
theorem generator_rows_det_ne_zero (mds : SquareNonsingular P) (injective : Function.Injective σ) :
    (Matrix.of fun a j => generator P (σ a) j).det ≠ 0 := by
  intro singular
  obtain ⟨x, nonzero, kernel⟩ := Matrix.exists_mulVec_eq_zero_iff.mpr singular
  apply nonzero
  have row : ∀ a, ∑ j, generator P (σ a) j * x j = 0 := fun a => congrFun kernel a
  apply mds _ _ (card_parity_rows injective) x
  · -- a selected data row reads its own symbol
    intro j missing
    simp only [Finset.mem_filter, Finset.mem_univ, true_and, not_forall, not_not] at missing
    obtain ⟨a, same⟩ := missing
    have := row a
    simp only [generator, same, j.isLt, dif_pos] at this
    simpa [Fin.val_inj] using this
  · -- a selected parity row is a row of `P`
    intro r member
    obtain ⟨a, same⟩ := (Finset.mem_filter.mp member).2
    have := row a
    have parity : ¬ (σ a).val < k := by omega
    simp only [generator, parity, dif_neg, not_false_eq_true] at this
    have index : (⟨(σ a).val - k, by omega⟩ : Fin p) = r := Fin.ext (by simp; omega)
    rw [index] at this
    exact this

end Selection

/-! ## Cauchy matrices -/

section Cauchy

variable {a : Fin p → F} {b : Fin k → F}

/-- `∑_{j ∈ E} x_j ∏_{l ∈ E, l ≠ j} (X + b_l)`: at `X = a_r` it is the row-`r`
combination of the Cauchy matrix times the product of all the denominators, and
at `X = -b_j` only the term of `j` is left. -/
noncomputable def cauchyPoly (b : Fin k → F) (E : Finset (Fin k)) (x : Fin k → F) : F[X] :=
  ∑ j ∈ E, C (x j) * ∏ l ∈ E.erase j, (X + C (b l))

theorem cauchyPoly_natDegree_lt (E : Finset (Fin k)) (x : Fin k → F) (nonempty : E.Nonempty) :
    (cauchyPoly b E x).natDegree < E.card := by
  have each : ∀ j ∈ E, (C (x j) * ∏ l ∈ E.erase j, (X + C (b l))).natDegree ≤ E.card - 1 := by
    intro j member
    calc (C (x j) * ∏ l ∈ E.erase j, (X + C (b l))).natDegree
        ≤ (∏ l ∈ E.erase j, (X + C (b l))).natDegree := natDegree_C_mul_le _ _
      _ ≤ ∑ l ∈ E.erase j, (X + C (b l)).natDegree := natDegree_prod_le _ _
      _ = (E.erase j).card := by simp
      _ = E.card - 1 := Finset.card_erase_of_mem member
  have positive := Finset.card_pos.mpr nonempty
  calc (cauchyPoly b E x).natDegree ≤ E.card - 1 := natDegree_sum_le_of_forall_le _ _ each
    _ < E.card := by omega

theorem cauchyPoly_eval_row (E : Finset (Fin k)) (x : Fin k → F) (support : ∀ j, j ∉ E → x j = 0)
    (y : F) (apart : ∀ j, y + b j ≠ 0) :
    (cauchyPoly b E x).eval y = (∏ l ∈ E, (y + b l)) * ∑ j, (y + b j)⁻¹ * x j := by
  rw [cauchyPoly, eval_finsetSum, Finset.mul_sum,
    ← Finset.sum_subset (Finset.subset_univ E) (fun j _ outside => by simp [support j outside])]
  apply Finset.sum_congr rfl
  intro j member
  -- the product without `j` is the whole product divided by `y + b j`
  rw [eval_mul, eval_C, eval_prod, ← Finset.prod_erase_mul E _ member]
  simp only [eval_add, eval_X, eval_C]
  field_simp [apart j]

theorem cauchyPoly_eval_node (E : Finset (Fin k)) (x : Fin k → F) {j : Fin k} (member : j ∈ E) :
    (cauchyPoly b E x).eval (-b j) = x j * ∏ l ∈ E.erase j, (-b j + b l) := by
  rw [cauchyPoly, eval_finsetSum, Finset.sum_eq_single j]
  · simp [eval_prod]
  · intro l other ne
    -- every other term has the factor `X + b_j`, which vanishes at `-b_j`
    simp only [eval_mul, eval_C, eval_prod, eval_add, eval_X]
    rw [Finset.prod_eq_zero (Finset.mem_erase.mpr ⟨Ne.symm ne, member⟩) (by ring), mul_zero]
  · intro outside
    exact absurd member outside

/-- Square submatrices of a Cauchy matrix are nonsingular. -/
theorem cauchy_squareNonsingular (ha : Function.Injective a) (hb : Function.Injective b)
    (apart : ∀ r j, a r + b j ≠ 0) :
    SquareNonsingular (Matrix.of fun r j => (a r + b j)⁻¹ : Matrix (Fin p) (Fin k) F) := by
  classical
  intro Q E card x support rows
  funext j
  by_cases member : j ∈ E
  · -- the polynomial vanishes at the `|E|` distinct nodes `a_r`, so it is zero
    have vanish : ∀ y ∈ Q.image a, (cauchyPoly b E x).eval y = 0 := by
      intro y image
      obtain ⟨r, row, rfl⟩ := Finset.mem_image.mp image
      rw [cauchyPoly_eval_row E x support (a r) (apart r)]
      simpa using Or.inr (rows r row)
    have zero := eq_zero_of_natDegree_lt_card_of_eval_eq_zero' _ (Q.image a) vanish (by
      rw [Finset.card_image_of_injective _ ha, card]
      exact cauchyPoly_natDegree_lt E x ⟨j, member⟩)
    have node := cauchyPoly_eval_node (b := b) E x member
    rw [zero, eval_zero] at node
    have factor : ∏ l ∈ E.erase j, (-b j + b l) ≠ 0 := by
      rw [Finset.prod_ne_zero_iff]
      intro l other
      rw [neg_add_eq_sub, sub_ne_zero]
      exact fun same => (Finset.mem_erase.mp other).1 (hb same)
    exact (mul_eq_zero.mp node.symm).resolve_right factor
  · exact support j member

end Cauchy

/-! ## Rows of powers -/

section Powers

variable {x : Fin k → F} {E : Finset (Fin k)} {c : Fin k → F}

theorem sum_eq_sum_support (support : ∀ j, j ∉ E → c j = 0) (g : Fin k → F) :
    ∑ j, g j * c j = ∑ j ∈ E, g j * c j :=
  (Finset.sum_subset (Finset.subset_univ E) fun j _ outside => by simp [support j outside]).symm

/-- Rows `s, s + 1, ..., s + |E| - 1` of powers of distinct nonzero nodes: the
Lagrange polynomial of each node of `E` isolates its coefficient. -/
theorem consecutive_rows_zero (hx : Function.Injective x) (nonzero : ∀ j, x j ≠ 0)
    (support : ∀ j, j ∉ E → c j = 0) (s : Nat)
    (rows : ∀ r < E.card, ∑ j, x j ^ (s + r) * c j = 0) : c = 0 := by
  funext j
  by_cases member : j ∈ E
  · let L : F[X] := ∏ l ∈ E.erase j, (X - C (x l))
    have degree : L.natDegree < E.card := by
      show (∏ l ∈ E.erase j, (X - C (x l))).natDegree < E.card
      have := natDegree_prod_le (E.erase j) fun l => X - C (x l)
      simp only [natDegree_X_sub_C, Finset.sum_const, smul_eq_mul, mul_one] at this
      rw [Finset.card_erase_of_mem member] at this
      have positive := Finset.card_pos.mpr ⟨j, member⟩
      omega
    -- the combination of the rows with the coefficients of `L` evaluates `L` at every node
    have combined : ∑ l, x l ^ s * L.eval (x l) * c l = 0 := by
      have expand : ∀ l, L.eval (x l) = ∑ r ∈ Finset.range E.card, L.coeff r * x l ^ r :=
        fun l => eval_eq_sum_range' degree _
      calc ∑ l, x l ^ s * L.eval (x l) * c l
          = ∑ r ∈ Finset.range E.card, L.coeff r * ∑ l, x l ^ (s + r) * c l := by
            simp only [expand, Finset.mul_sum, Finset.sum_mul]
            rw [Finset.sum_comm]
            apply Finset.sum_congr rfl
            intro l _
            apply Finset.sum_congr rfl
            intro r _
            ring
        _ = 0 := Finset.sum_eq_zero fun r member => by
            rw [rows r (Finset.mem_range.mp member), mul_zero]
    rw [sum_eq_sum_support support, Finset.sum_eq_single j] at combined
    · have atNode : L.eval (x j) ≠ 0 := by
        rw [eval_prod, Finset.prod_ne_zero_iff]
        intro l other
        simp only [eval_sub, eval_X, eval_C, sub_ne_zero]
        exact fun same => (Finset.mem_erase.mp other).1 (hx same).symm
      exact (mul_eq_zero.mp combined).resolve_left (mul_ne_zero (pow_ne_zero _ (nonzero j)) atNode)
    · intro l other ne
      -- the Lagrange polynomial of `j` vanishes at the other nodes
      have root : L.eval (x l) = 0 := by
        rw [eval_prod]
        exact Finset.prod_eq_zero (Finset.mem_erase.mpr ⟨ne, other⟩) (by simp)
      rw [root, mul_zero, zero_mul]
    · exact fun outside => absurd member outside
  · exact support j member

/-- Two rows `r₁ < r₂` over two nodes whose powers `r₂ - r₁` differ. -/
theorem two_rows_zero (nonzero : ∀ j, x j ≠ 0) (two : E.card = 2)
    (support : ∀ j, j ∉ E → c j = 0) {r₁ r₂ : Nat} (lt : r₁ < r₂)
    (apart : ∀ i ∈ E, ∀ j ∈ E, i ≠ j → x i ^ (r₂ - r₁) ≠ x j ^ (r₂ - r₁))
    (row₁ : ∑ j, x j ^ r₁ * c j = 0) (row₂ : ∑ j, x j ^ r₂ * c j = 0) : c = 0 := by
  obtain ⟨u, v, ne, rfl⟩ := Finset.card_eq_two.mp two
  rw [sum_eq_sum_support support, Finset.sum_pair ne] at row₁ row₂
  have split : ∀ y : F, y ^ r₂ = y ^ r₁ * y ^ (r₂ - r₁) := fun y => by
    rw [← pow_add, Nat.add_sub_cancel' (le_of_lt lt)]
  rw [split, split] at row₂
  -- eliminate `c v`: what is left is `c u` times a nonzero factor
  have cu : c u * (x u ^ r₁ * (x u ^ (r₂ - r₁) - x v ^ (r₂ - r₁))) = 0 := by
    linear_combination row₂ - x v ^ (r₂ - r₁) * row₁
  have factor : x u ^ r₁ * (x u ^ (r₂ - r₁) - x v ^ (r₂ - r₁)) ≠ 0 :=
    mul_ne_zero (pow_ne_zero _ (nonzero u))
      (sub_ne_zero.mpr (apart u (by simp) v (by simp) ne))
  have zu : c u = 0 := (mul_eq_zero.mp cu).resolve_right factor
  have zv : c v = 0 := by
    rw [zu, mul_zero, zero_add] at row₁
    exact (mul_eq_zero.mp row₁).resolve_left (pow_ne_zero _ (nonzero v))
  funext j
  by_cases hu : j = u
  · rw [hu, zu]; rfl
  by_cases hv : j = v
  · rw [hv, zv]; rfl
  exact support j (by simp [hu, hv])

/-- Rows `0, 1, 3` over three distinct nodes whose sum is nonzero: the
determinant is the Vandermonde product times the sum. -/
theorem rows_013_coeff {u v w cu cv cw : F}
    (e₀ : cu + cv + cw = 0) (e₁ : cu * u + cv * v + cw * w = 0)
    (e₃ : cu * u ^ 3 + cv * v ^ 3 + cw * w ^ 3 = 0) :
    cu * ((v - u) * (w - u) * (w - v) * (u + v + w)) = 0 := by
  linear_combination (v * w ^ 3 - w * v ^ 3) * e₀ + (v ^ 3 - w ^ 3) * e₁ + (w - v) * e₃

/-- Rows `0, 2, 3`: the determinant is the Vandermonde product times the second
elementary symmetric function. -/
theorem rows_023_coeff {u v w cu cv cw : F}
    (e₀ : cu + cv + cw = 0) (e₂ : cu * u ^ 2 + cv * v ^ 2 + cw * w ^ 2 = 0)
    (e₃ : cu * u ^ 3 + cv * v ^ 3 + cw * w ^ 3 = 0) :
    cu * ((v - u) * (w - u) * (w - v) * (u * v + v * w + u * w)) = 0 := by
  linear_combination (v ^ 2 * w ^ 3 - w ^ 2 * v ^ 3) * e₀ + (v ^ 3 - w ^ 3) * e₂ + (w ^ 2 - v ^ 2) * e₃

theorem sum_triple {u v w : Fin k} (uv : u ≠ v) (uw : u ≠ w) (vw : v ≠ w) (g : Fin k → F) :
    ∑ j ∈ ({u, v, w} : Finset (Fin k)), g j = g u + g v + g w := by
  rw [Finset.sum_insert (by simp [uv, uw]), Finset.sum_pair vw, add_assoc]

theorem rows_013_zero (hx : Function.Injective x) (three : E.card = 3)
    (support : ∀ j, j ∉ E → c j = 0)
    (sum3 : ∀ i j l, i ≠ j → i ≠ l → j ≠ l → x i + x j + x l ≠ 0)
    (row₀ : ∑ j, x j ^ 0 * c j = 0) (row₁ : ∑ j, x j ^ 1 * c j = 0)
    (row₃ : ∑ j, x j ^ 3 * c j = 0) : c = 0 := by
  obtain ⟨u, v, w, uv, uw, vw, rfl⟩ := Finset.card_eq_three.mp three
  rw [sum_eq_sum_support support, sum_triple uv uw vw] at row₀ row₁ row₃
  simp only [pow_zero, one_mul, pow_one] at row₀ row₁
  -- each coefficient times its nonzero determinant vanishes, in any order of the nodes
  have first : ∀ {a b d : Fin k}, a ≠ b → a ≠ d → b ≠ d →
      c a + c b + c d = 0 → c a * x a + c b * x b + c d * x d = 0 →
      c a * x a ^ 3 + c b * x b ^ 3 + c d * x d ^ 3 = 0 → c a = 0 := by
    intro a b d ab ad bd e₀ e₁ e₃
    have := rows_013_coeff (u := x a) (v := x b) (w := x d) e₀ e₁ e₃
    refine (mul_eq_zero.mp this).resolve_right ?_
    refine mul_ne_zero (mul_ne_zero (mul_ne_zero ?_ ?_) ?_) (sum3 a b d ab ad bd)
    · exact sub_ne_zero.mpr fun same => ab (hx same).symm
    · exact sub_ne_zero.mpr fun same => ad (hx same).symm
    · exact sub_ne_zero.mpr fun same => bd (hx same).symm
  have zu := first uv uw vw (by linear_combination row₀) (by linear_combination row₁)
    (by linear_combination row₃)
  have zv := first (Ne.symm uv) vw uw (by linear_combination row₀) (by linear_combination row₁)
    (by linear_combination row₃)
  have zw := first (Ne.symm uw) (Ne.symm vw) uv (by linear_combination row₀)
    (by linear_combination row₁) (by linear_combination row₃)
  funext j
  by_cases hu : j = u
  · rw [hu, zu]; rfl
  by_cases hv : j = v
  · rw [hv, zv]; rfl
  by_cases hw : j = w
  · rw [hw, zw]; rfl
  exact support j (by simp [hu, hv, hw])

theorem rows_023_zero (hx : Function.Injective x) (three : E.card = 3)
    (support : ∀ j, j ∉ E → c j = 0)
    (prod3 : ∀ i j l, i ≠ j → i ≠ l → j ≠ l → x i * x j + x j * x l + x i * x l ≠ 0)
    (row₀ : ∑ j, x j ^ 0 * c j = 0) (row₂ : ∑ j, x j ^ 2 * c j = 0)
    (row₃ : ∑ j, x j ^ 3 * c j = 0) : c = 0 := by
  obtain ⟨u, v, w, uv, uw, vw, rfl⟩ := Finset.card_eq_three.mp three
  rw [sum_eq_sum_support support, sum_triple uv uw vw] at row₀ row₂ row₃
  simp only [pow_zero, one_mul] at row₀
  have first : ∀ {a b d : Fin k}, a ≠ b → a ≠ d → b ≠ d →
      c a + c b + c d = 0 → c a * x a ^ 2 + c b * x b ^ 2 + c d * x d ^ 2 = 0 →
      c a * x a ^ 3 + c b * x b ^ 3 + c d * x d ^ 3 = 0 → c a = 0 := by
    intro a b d ab ad bd e₀ e₂ e₃
    have := rows_023_coeff (u := x a) (v := x b) (w := x d) e₀ e₂ e₃
    refine (mul_eq_zero.mp this).resolve_right ?_
    refine mul_ne_zero (mul_ne_zero (mul_ne_zero ?_ ?_) ?_) (prod3 a b d ab ad bd)
    · exact sub_ne_zero.mpr fun same => ab (hx same).symm
    · exact sub_ne_zero.mpr fun same => ad (hx same).symm
    · exact sub_ne_zero.mpr fun same => bd (hx same).symm
  have zu := first uv uw vw (by linear_combination row₀) (by linear_combination row₂)
    (by linear_combination row₃)
  have zv := first (Ne.symm uv) vw uw (by linear_combination row₀) (by linear_combination row₂)
    (by linear_combination row₃)
  have zw := first (Ne.symm uw) (Ne.symm vw) uv (by linear_combination row₀)
    (by linear_combination row₂) (by linear_combination row₃)
  funext j
  by_cases hu : j = u
  · rw [hu, zu]; rfl
  by_cases hv : j = v
  · rw [hv, zv]; rfl
  by_cases hw : j = w
  · rw [hw, zw]; rfl
  exact support j (by simp [hu, hv, hw])

/-- The row sets of a matrix with at most four rows. -/
theorem subsets_range_four : ∀ R ∈ (Finset.range 4).powerset, R = ∅ ∨
    R = {0} ∨ R = {1} ∨ R = {2} ∨ R = {3} ∨ R = {0, 1} ∨ R = {1, 2} ∨ R = {2, 3} ∨
    R = {0, 2} ∨ R = {1, 3} ∨ R = {0, 3} ∨ R = {0, 1, 2} ∨ R = {1, 2, 3} ∨ R = {0, 1, 3} ∨
    R = {0, 2, 3} ∨ R = {0, 1, 2, 3} := by
  decide

/-- Up to four rows of powers of distinct nonzero nodes: every square submatrix is
nonsingular when the powers two and three of distinct nodes differ (for the row
pairs `0, 2`, `1, 3` and `0, 3`) and, with four rows, the first two elementary
symmetric functions of three distinct nodes do not vanish (for the row triples
`0, 1, 3` and `0, 2, 3`). -/
theorem powers_squareNonsingular (four : p ≤ 4) (hx : Function.Injective x)
    (nonzero : ∀ j, x j ≠ 0)
    (gap : ∀ d, 2 ≤ d → d < p → ∀ i j, i ≠ j → x i ^ d ≠ x j ^ d)
    (sum3 : 3 < p → ∀ i j l, i ≠ j → i ≠ l → j ≠ l → x i + x j + x l ≠ 0)
    (prod3 : 3 < p → ∀ i j l, i ≠ j → i ≠ l → j ≠ l → x i * x j + x j * x l + x i * x l ≠ 0) :
    SquareNonsingular (Matrix.of fun (r : Fin p) j => x j ^ r.val) := by
  intro Q E card c support rows
  -- work with the row numbers
  let R := Q.image Fin.val
  have row : ∀ r ∈ R, ∑ j, x j ^ r * c j = 0 := by
    intro r member
    obtain ⟨q, inQ, rfl⟩ := Finset.mem_image.mp member
    simpa using rows q inQ
  have cardR : R.card = E.card := by rw [Finset.card_image_of_injective _ Fin.val_injective, card]
  have below : ∀ r ∈ R, r < p := by
    intro r member
    obtain ⟨q, -, rfl⟩ := Finset.mem_image.mp member
    exact q.isLt
  have subset : R ∈ (Finset.range 4).powerset := by
    rw [Finset.mem_powerset]
    intro r member
    exact Finset.mem_range.mpr (lt_of_lt_of_le (below r member) four)
  have apart : ∀ d, 2 ≤ d → d < p → ∀ i ∈ E, ∀ j ∈ E, i ≠ j → x i ^ d ≠ x j ^ d :=
    fun d large lt i _ j _ ne => gap d large lt i j ne
  -- consecutive rows starting at `s`
  have consecutive : ∀ s, (∀ r < E.card, s + r ∈ R) → c = 0 := fun s inR =>
    consecutive_rows_zero hx nonzero support s fun r lt => row _ (inR r lt)
  rcases subsets_range_four R subset with
    h | h | h | h | h | h | h | h | h | h | h | h | h | h | h | h <;> rw [h] at cardR row below
  · -- no rows, no columns
    have empty : E = ∅ := Finset.card_eq_zero.mp (by rw [← cardR]; rfl)
    funext j
    exact support j (by simp [empty])
  -- runs of consecutive rows and the rows with gaps, in the order of `subsets_range_four`
  all_goals try (exact consecutive 0 fun r lt => by rw [h]; simp at cardR ⊢; omega)
  all_goals try (exact consecutive 1 fun r lt => by rw [h]; simp at cardR ⊢; omega)
  all_goals try (exact consecutive 2 fun r lt => by rw [h]; simp at cardR ⊢; omega)
  all_goals try (exact consecutive 3 fun r lt => by rw [h]; simp at cardR ⊢; omega)
  · exact two_rows_zero nonzero (by simpa using cardR.symm) support (by decide : 0 < 2)
      (apart 2 le_rfl (below 2 (by simp))) (row 0 (by simp)) (row 2 (by simp))
  · exact two_rows_zero nonzero (by simpa using cardR.symm) support (by decide : 1 < 3)
      (apart 2 le_rfl (by have := below 3 (by simp); omega)) (row 1 (by simp)) (row 3 (by simp))
  · exact two_rows_zero nonzero (by simpa using cardR.symm) support (by decide : 0 < 3)
      (apart 3 (by decide) (below 3 (by simp))) (row 0 (by simp)) (row 3 (by simp))
  · exact rows_013_zero hx (by simpa using cardR.symm) support (sum3 (below 3 (by simp)))
      (row 0 (by simp)) (row 1 (by simp)) (row 3 (by simp))
  · exact rows_023_zero hx (by simpa using cardR.symm) support (prod3 (below 3 (by simp)))
      (row 0 (by simp)) (row 2 (by simp)) (row 3 (by simp))

end Powers

end SystematicCode
