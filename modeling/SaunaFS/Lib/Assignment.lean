import Mathlib.Algebra.BigOperators.Group.Finset.Basic
import Mathlib.Algebra.BigOperators.Ring.Finset
import Mathlib.Algebra.Order.BigOperators.Group.Finset
import Mathlib.Tactic.Linarith
import Mathlib.Tactic.NormNum

/-! Assignments of persons to objects, as permutations of one finite type, valued by a
matrix `a i k` (the value of object `k` to person `i`).

With prices `p` on the objects, an assignment satisfies ε-complementary slackness when
every person's net value `a i (σ i) - p (σ i)` is within `ε` of the best net value on
offer to it. Such an assignment is within `n ε` of every other one, `n` the number of
persons (`value_le_of_slack`). For values that are multiples of `n + 1` and `ε = 1` it
is optimal (`value_le_of_slack_scaled`): the argument behind the auction algorithm with
ε-scaling.
-/

set_option autoImplicit false

namespace Assignment

open Finset

variable {ι : Type} [Fintype ι]

/-- The total value of an assignment. -/
def value (a : ι → ι → Int) (σ : Equiv.Perm ι) : Int := ∑ i, a i (σ i)

/-- ε-complementary slackness of `σ` for the prices `p`. -/
def Slack (a : ι → ι → Int) (p : ι → Int) (ε : Int) (σ : Equiv.Perm ι) : Prop :=
  ∀ i k, a i k - p k ≤ a i (σ i) - p (σ i) + ε

/-- An assignment in ε-complementary slackness is within `n ε` of every assignment: the
prices paid are the same for every assignment, since each object is taken once. -/
theorem value_le_of_slack {a : ι → ι → Int} {p : ι → Int} {ε : Int} {σ : Equiv.Perm ι}
    (slack : Slack a p ε σ) (τ : Equiv.Perm ι) : value a τ ≤ value a σ + Fintype.card ι * ε := by
  have paid : ∑ i, p (τ i) = ∑ i, p (σ i) := by
    rw [Equiv.sum_comp τ p, Equiv.sum_comp σ p]
  have each : ∑ i, (a i (τ i) - p (τ i)) ≤ ∑ i, (a i (σ i) - p (σ i) + ε) :=
    sum_le_sum fun i _ => slack i (τ i)
  rw [sum_sub_distrib, sum_add_distrib, sum_sub_distrib, sum_const, card_univ, nsmul_eq_mul, paid] at each
  unfold value
  linarith

theorem value_scaled (A : ι → ι → Int) (scale : Int) (σ : Equiv.Perm ι) :
    value (fun i k => A i k * scale) σ = value A σ * scale := by
  simp only [value, sum_mul]

/-- For values scaled by `n + 1`, slackness with `ε = 1` makes an assignment optimal for
the values before scaling. -/
theorem value_le_of_slack_scaled {A : ι → ι → Int} {p : ι → Int} {σ : Equiv.Perm ι}
    (slack : Slack (fun i k => A i k * (Fintype.card ι + 1)) p 1 σ) (τ : Equiv.Perm ι) :
    value A τ ≤ value A σ := by
  have near := value_le_of_slack slack τ
  rw [value_scaled, value_scaled, mul_one] at near
  -- a gain of one or more would be worth `n + 1` or more after scaling
  by_contra better
  have gain : value A σ + 1 ≤ value A τ := by linarith
  have scaledGain : (value A σ + 1) * (Fintype.card ι + 1) ≤ value A τ * (Fintype.card ι + 1) :=
    mul_le_mul_of_nonneg_right gain (by positivity)
  linarith

end Assignment
