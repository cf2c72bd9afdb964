import Mathlib

/-! Round-robin striping: positions are grouped in units of `unit`, and unit `j`
goes to stripe `j % width`. `held` counts the positions below a length that a
stripe holds; it has a closed form in whole periods of `width * unit` positions,
whole units and one cut unit, and the stripes together hold every position.
With `unit = 1` the positions are the units themselves.
-/

set_option autoImplicit false

namespace Striping

/-- Position `x` lies in stripe `index`. -/
def InStripe (unit width index x : Nat) : Prop := x / unit % width = index

instance (unit width index : Nat) : DecidablePred (InStripe unit width index) :=
  fun x => inferInstanceAs (Decidable (x / unit % width = index))

/-- The positions below `length` that stripe `index` holds. -/
def held (unit width index length : Nat) : Nat := Nat.count (InStripe unit width index) length

theorem count_congr {p q : Nat → Prop} [DecidablePred p] [DecidablePred q] {n : Nat}
    (same : ∀ k < n, p k ↔ q k) : Nat.count p n = Nat.count q n :=
  le_antisymm (Nat.count_mono_left fun k below => (same k below).mp)
    (Nat.count_mono_left fun k below => (same k below).mpr)

section

variable {unit width index : Nat} (positive : 0 < unit)
include positive

/-- Inside unit `m` of the first period, a position is in the stripe of `m`. -/
theorem inStripe_unit_add {m k : Nat} (inside : k < unit) (below : m < width) :
    InStripe unit width index (m * unit + k) ↔ m = index := by
  unfold InStripe
  rw [Nat.add_comm, Nat.add_mul_div_right _ _ positive, Nat.div_eq_of_lt inside, Nat.zero_add,
    Nat.mod_eq_of_lt below]

/-- A whole number of periods changes no position's stripe. -/
theorem inStripe_period_add (periods k : Nat) :
    InStripe unit width index (periods * (width * unit) + k) ↔ InStripe unit width index k := by
  unfold InStripe
  rw [Nat.add_comm, ← Nat.mul_assoc, Nat.add_mul_div_right _ _ positive, Nat.add_mul_mod_self_right]

/-- The first `m` units of a period: stripe `index` holds a whole unit if it is one of them. -/
theorem held_units {m : Nat} (le : m ≤ width) : held unit width index (m * unit) = if index < m then unit else 0 := by
  induction m with
  | zero => simp [held]
  | succ m ih =>
    rw [held, Nat.succ_mul, Nat.count_add, ← held, ih (Nat.le_of_succ_le le)]
    by_cases hit : m = index
    · -- unit `m` is the stripe's own
      rw [Nat.count_of_forall fun k inside => (inStripe_unit_add positive inside (Nat.lt_of_succ_le le)).mpr hit]
      rw [if_neg (by omega), if_pos (by omega), Nat.zero_add]
    · rw [Nat.count_of_forall_not fun k inside => mt (inStripe_unit_add positive inside (Nat.lt_of_succ_le le)).mp hit]
      by_cases earlier : index < m
      · rw [if_pos earlier, if_pos (by omega), Nat.add_zero]
      · rw [if_neg earlier, if_neg (by omega)]

/-- Units `0 .. m - 1` of a period and `cut` positions of unit `m`. -/
theorem held_units_add {m cut : Nat} (below : m < width) (short : cut ≤ unit) :
    held unit width index (m * unit + cut) = (if index < m then unit else 0) + (if index = m then cut else 0) := by
  rw [held, Nat.count_add, ← held, held_units positive (Nat.le_of_lt below)]
  congr 1
  by_cases hit : m = index
  · rw [Nat.count_of_forall fun k inside => (inStripe_unit_add positive (by omega) below).mpr hit, if_pos hit.symm]
  · rw [Nat.count_of_forall_not fun k inside => mt (inStripe_unit_add positive (by omega) below).mp hit,
      if_neg (Ne.symm hit)]

/-- After a whole number of periods the count goes on as from the start. -/
theorem held_after_periods (periods rest : Nat) :
    held unit width index (periods * (width * unit) + rest) =
      held unit width index (periods * (width * unit)) + held unit width index rest := by
  rw [held, Nat.count_add, ← held, held]
  congr 1
  exact count_congr fun k _ => inStripe_period_add positive periods k

/-- Every period gives every stripe one unit. -/
theorem held_periods (inStripes : index < width) (periods : Nat) :
    held unit width index (periods * (width * unit)) = periods * unit := by
  have whole : held unit width index (width * unit) = unit := by
    rw [held_units positive (Nat.le_refl _), if_pos inStripes]
  induction periods with
  | zero => simp [held]
  | succ periods ih =>
    rw [Nat.succ_mul, held_after_periods positive, ih, whole, Nat.succ_mul]

/-- The closed form: a unit per whole period, the units of the last period before
the cut one, and the cut unit's positions if it is the stripe's. -/
theorem held_eq (inStripes : index < width) (length : Nat) :
    held unit width index length =
      length / (width * unit) * unit +
        ((if index < length % (width * unit) / unit then unit else 0) +
          (if index = length % (width * unit) / unit then length % (width * unit) % unit else 0)) := by
  have period : 0 < width * unit := Nat.mul_pos (by omega) positive
  have units : length % (width * unit) / unit < width :=
    Nat.div_lt_of_lt_mul (by rw [Nat.mul_comm unit width]; exact Nat.mod_lt _ period)
  have decomposed : length = length / (width * unit) * (width * unit) +
      (length % (width * unit) / unit * unit + length % (width * unit) % unit) := by
    rw [Nat.div_add_mod', Nat.div_add_mod']
  conv_lhs => rw [decomposed]
  rw [held_after_periods positive, held_periods positive inStripes,
    held_units_add positive units (Nat.le_of_lt (Nat.mod_lt _ positive))]

/-- Stripe `0` holds at least as much as any other. -/
theorem held_le_held_zero (inStripes : index < width) (length : Nat) :
    held unit width index length ≤ held unit width 0 length := by
  have cut := Nat.mod_lt (length % (width * unit)) positive
  rw [held_eq positive inStripes, held_eq positive (by omega)]
  split_ifs <;> omega

end

/-- A quotient that is below twice the divisor is `1` or `0`. -/
theorem div_of_lt_double {t width : Nat} (lt : t < 2 * width) : t / width = if width ≤ t then 1 else 0 := by
  split
  · exact Nat.div_eq_of_lt_le (by omega) (by omega)
  · exact Nat.div_eq_of_lt (by omega)

/-- With units of one position, `j` is in stripe `j % width`; the count is a quotient. -/
theorem held_one {width index : Nat} (inStripes : index < width) (length : Nat) :
    held 1 width index length = (length + width - index - 1) / width := by
  have wide : 0 < width := by omega
  have last : length % width < width := Nat.mod_lt _ wide
  have recombine := Nat.div_add_mod' length width
  rw [held_eq Nat.one_pos inStripes]
  simp only [Nat.mul_one, Nat.div_one, Nat.mod_one]
  generalize length / width = periods at recombine ⊢
  generalize length % width = cut at recombine last ⊢
  subst recombine
  -- `length + width - index - 1` is the whole periods and less than two more
  have regroup : periods * width + cut + width - index - 1 = (cut + width - index - 1) + periods * width := by omega
  rw [regroup, Nat.add_mul_div_right _ _ wide, div_of_lt_double (by omega)]
  split_ifs <;> omega

/-- The stripes share out the positions: together they hold each once. -/
theorem sum_held (unit width length : Nat) (wide : 0 < width) :
    ((List.range width).map fun index => held unit width index length).sum = length := by
  calc ((List.range width).map fun index => held unit width index length).sum
      = ∑ index ∈ Finset.range width, held unit width index length := by
        rw [Finset.sum_eq_multiset_sum, Finset.range_val, Multiset.range, Multiset.map_coe, Multiset.sum_coe]
    _ = ∑ index ∈ Finset.range width, ((Finset.range length).filter fun x => x / unit % width = index).card := by
        simp only [held, Nat.count_eq_card_filter_range]
        rfl
    _ = (Finset.range length).card :=
        (Finset.card_eq_sum_card_fiberwise fun x _ => Finset.mem_range.mpr (Nat.mod_lt _ wide)).symm
    _ = length := Finset.card_range length

/-- A quotient rounded up, over a multiple of the divisor and at most one more. -/
theorem ceil_div_add_mul {unit : Nat} (positive : 0 < unit) (whole : Nat) {cut : Nat} (short : cut ≤ unit) :
    (whole * unit + cut + unit - 1) / unit = whole + if cut = 0 then 0 else 1 := by
  have regroup : whole * unit + cut + unit - 1 = (cut + unit - 1) + whole * unit := by omega
  rw [regroup, Nat.add_mul_div_right _ _ positive, div_of_lt_double (by omega)]
  split_ifs <;> omega

/-- A stripe's positions rounded up to whole units are the units it holds of the
length rounded up to whole units. -/
theorem ceil_held {unit width index : Nat} (positive : 0 < unit) (inStripes : index < width) (length : Nat) :
    (held unit width index length + unit - 1) / unit = held 1 width index ((length + unit - 1) / unit) := by
  have period : 0 < width * unit := Nat.mul_pos (by omega) positive
  have units : length % (width * unit) / unit < width :=
    Nat.div_lt_of_lt_mul (by rw [Nat.mul_comm unit width]; exact Nat.mod_lt _ period)
  have cutShort : length % (width * unit) % unit < unit := Nat.mod_lt _ positive
  have decomposed : length =
      (length / (width * unit) * width + length % (width * unit) / unit) * unit + length % (width * unit) % unit := by
    rw [Nat.add_mul, Nat.mul_assoc, Nat.add_assoc, Nat.div_add_mod', Nat.div_add_mod']
  rw [held_eq positive inStripes]
  conv_rhs => rw [decomposed]
  generalize length / (width * unit) = periods
  generalize length % (width * unit) / unit = m at units ⊢
  generalize length % (width * unit) % unit = cut at cutShort ⊢
  -- the stripe's share of the last period is at most one unit
  have share : ((if index < m then unit else 0) + if index = m then cut else 0) ≤ unit := by
    split_ifs <;> omega
  rw [ceil_div_add_mul positive periods share, ceil_div_add_mul positive _ (Nat.le_of_lt cutShort),
    held_one inStripes]
  generalize bumped : (if cut = 0 then 0 else 1) = bump
  have regroup : periods * width + m + bump + width - index - 1 = (m + bump + width - index - 1) + periods * width := by
    split at bumped <;> omega
  rw [regroup, Nat.add_mul_div_right _ _ (by omega), div_of_lt_double (by split at bumped <;> omega)]
  split at bumped <;> split_ifs <;> omega

end Striping
