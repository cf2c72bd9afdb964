import Mathlib.Order.Defs.Unbundled
import Mathlib.Data.List.Pairwise
import Mathlib.Data.List.TakeWhile
import Mathlib.Order.Comparable

/-! Searching a list sorted by a strict weak order `lt`, the order of a C++
comparator. `lowerBound xs first last value` is `std::lower_bound` on the
positions `[first, last)`: on a sorted range, the first position whose element is
not less than `value`. On a sorted list it is one number, `below xs value`, from
whichever range around it the search starts; that number is the only position
with every element before it less than `value` and none from it on.
-/

set_option autoImplicit false

namespace SortedSearch

section Order

variable {α : Type} {lt : α → α → Prop} [IsStrictWeakOrder α lt]

/-- In a strict weak order an element below `b` is below `c` or `c` is below `b`. -/
theorem lt_or_lt_of_lt {a b : α} (less : lt a b) (c : α) : lt a c ∨ lt c b := by
  by_contra neither
  rw [not_or] at neither
  obtain ⟨notAC, notCB⟩ := neither
  -- `a` and `c` are incomparable, and so are `c` and `b`; then so are `a` and `b`
  have notCA : ¬lt c a := fun ca => notCB (IsTrans.trans _ _ _ ca less)
  have notBC : ¬lt b c := fun bc => notAC (IsTrans.trans _ _ _ less bc)
  exact (IsStrictWeakOrder.incomp_trans a c b ⟨notAC, notCA⟩ ⟨notCB, notBC⟩).1 less

/-- Below an element equivalent to `c` is below `c`. -/
theorem lt_of_lt_of_incompRel {a b c : α} (less : lt a b) (same : IncompRel lt b c) : lt a c :=
  (lt_or_lt_of_lt less c).resolve_right same.2

end Order

variable {α : Type} (lt : α → α → Prop) [DecidableRel lt]

/-- How many elements before the first that is not less than `value`. -/
def below (xs : List α) (value : α) : Nat := (xs.takeWhile fun x => decide (lt x value)).length

/-- `std::lower_bound(begin + first, begin + last, value, lt)`, as a position of `xs`. -/
def lowerBound (xs : List α) (first last : Nat) (value : α) : Nat :=
  first + below lt ((xs.drop first).take (last - first)) value

variable {lt}

theorem below_cons (x : α) (xs : List α) (value : α) :
    below lt (x :: xs) value = if lt x value then below lt xs value + 1 else 0 := by
  unfold below
  rw [List.takeWhile_cons]
  by_cases less : lt x value <;> simp [less]

theorem below_le (xs : List α) (value : α) : below lt xs value ≤ xs.length := by
  induction xs with
  | nil => simp [below]
  | cons x xs ih =>
    rw [below_cons, List.length_cons]
    split <;> omega

/-- Before `below` every element is less than `value`. -/
theorem lt_of_lt_below {xs : List α} {value : α} {i : Nat} (h : i < xs.length) (early : i < below lt xs value) :
    lt xs[i] value := by
  induction xs generalizing i with
  | nil => simp at h
  | cons x xs ih =>
    rw [below_cons] at early
    by_cases less : lt x value
    · rw [if_pos less] at early
      cases i with
      | zero => simpa using less
      | succ i => simpa using ih (by simpa using h) (by omega)
    · rw [if_neg less] at early
      omega

/-- On a sorted list no element from `below` on is less than `value`. -/
theorem not_lt_of_below_le [IsStrictWeakOrder α lt] {xs : List α} (sorted : xs.Pairwise lt) {value : α} {i : Nat}
    (h : i < xs.length) (late : below lt xs value ≤ i) : ¬lt xs[i] value := by
  induction xs generalizing i with
  | nil => simp at h
  | cons x xs ih =>
    rw [List.pairwise_cons] at sorted
    rw [below_cons] at late
    by_cases less : lt x value
    · rw [if_pos less] at late
      cases i with
      | zero => omega
      | succ i => simpa using ih sorted.2 (by simpa using h) (by omega)
    · cases i with
      | zero => simpa using less
      | succ i =>
        -- the head is below every later element, so a later one below `value` would put the head there
        intro later
        simp only [List.getElem_cons_succ] at later
        exact less (IsTrans.trans _ _ _ (sorted.1 _ (List.getElem_mem _)) later)

theorem take_below (xs : List α) (value : α) :
    xs.take (below lt xs value) = xs.takeWhile fun x => decide (lt x value) := by
  induction xs with
  | nil => rfl
  | cons x xs ih =>
    rw [below_cons, List.takeWhile_cons]
    by_cases less : lt x value
    · simp [less, ih]
    · simp [less]

theorem lt_of_mem_take_below {xs : List α} {value x : α} (mem : x ∈ xs.take (below lt xs value)) : lt x value := by
  rw [take_below] at mem
  simpa using List.mem_takeWhile_imp mem

/-- A position with every element before it less than `value`, and none from it on,
is `below`. -/
theorem below_eq {xs : List α} {value : α} {q : Nat} (le : q ≤ xs.length)
    (before : ∀ i (h : i < xs.length), i < q → lt xs[i] value)
    (after : ∀ i (h : i < xs.length), q ≤ i → ¬lt xs[i] value) : below lt xs value = q := by
  induction xs generalizing q with
  | nil =>
    have empty : q = 0 := Nat.le_zero.mp le
    simp [below, empty]
  | cons x xs ih =>
    rw [below_cons]
    cases q with
    | zero =>
      have stop : ¬lt x value := after 0 (by simp) (Nat.le_refl 0)
      rw [if_neg stop]
    | succ q =>
      -- the head is less, and the rest has its boundary one earlier
      have less : lt x value := before 0 (by simp) (Nat.succ_pos q)
      rw [if_pos less]
      congr 1
      refine ih (by simpa using le) (fun i h early => ?_) (fun i h late => ?_)
      · exact before (i + 1) (by simpa using h) (by omega)
      · exact after (i + 1) (by simpa using h) (by omega)

/-- The search of a range that holds the boundary finds it. -/
theorem lowerBound_eq {xs : List α} {value : α} {first last q : Nat} (start : first ≤ q) (stop : q ≤ last)
    (inside : last ≤ xs.length) (before : ∀ i (h : i < xs.length), i < q → lt xs[i] value)
    (after : ∀ i (h : i < xs.length), q ≤ i → ¬lt xs[i] value) : lowerBound lt xs first last value = q := by
  unfold lowerBound
  have found : below lt ((xs.drop first).take (last - first)) value = q - first := by
    refine below_eq (by simp; omega) (fun i h early => ?_) (fun i h late => ?_)
    · simp only [List.getElem_take, List.getElem_drop]
      exact before (first + i) (by simp at h; omega) (by omega)
    · simp only [List.getElem_take, List.getElem_drop]
      exact after (first + i) (by simp at h; omega) (by omega)
  omega

section Sorted

variable [IsStrictWeakOrder α lt] {xs : List α} (sorted : xs.Pairwise lt)
include sorted

/-- On a sorted list it is enough to look at the two neighbours of a position. -/
theorem below_eq_of_neighbours {value : α} {q : Nat} (le : q ≤ xs.length)
    (previous : ∀ i (h : i < xs.length), i + 1 = q → lt xs[i] value)
    (next : ∀ (h : q < xs.length), ¬lt xs[q] value) : below lt xs value = q := by
  refine below_eq le (fun i h early => ?_) (fun i h late less => ?_)
  · -- everything before the left neighbour is below it
    have hq : q - 1 < xs.length := by omega
    have atLeft : lt xs[q - 1] value := previous (q - 1) hq (by omega)
    rcases Nat.lt_or_eq_of_le (Nat.le_pred_of_lt early) with earlier | same
    · exact IsTrans.trans _ _ _ (List.pairwise_iff_getElem.mp sorted i (q - 1) h hq earlier) atLeft
    · simpa [same] using atLeft
  · -- and everything after the right neighbour is above it
    have hq : q < xs.length := by omega
    rcases Nat.lt_or_eq_of_le late with later | same
    · exact next hq (IsTrans.trans _ _ _ (List.pairwise_iff_getElem.mp sorted q i hq h later) less)
    · exact next hq (by simpa [same] using less)

/-- An element equivalent to `value` is there iff the one at `below` is. -/
theorem exists_incompRel_iff (value : α) :
    (∃ x ∈ xs, IncompRel lt x value) ↔ ∃ h : below lt xs value < xs.length, ¬lt value xs[below lt xs value] := by
  constructor
  · rintro ⟨x, mem, same⟩
    obtain ⟨j, hj, rfl⟩ := List.getElem_of_mem mem
    -- the equivalent element is not below `value`, so it is at or after `below`
    have late : below lt xs value ≤ j := Nat.le_of_not_lt fun early => same.1 (lt_of_lt_below hj early)
    refine ⟨Nat.lt_of_le_of_lt late hj, fun less => ?_⟩
    rcases Nat.lt_or_eq_of_le late with later | atBelow
    · exact same.2 (IsTrans.trans _ _ _ less (List.pairwise_iff_getElem.mp sorted _ j _ hj later))
    · exact same.2 (by simpa [atBelow] using less)
  · rintro ⟨h, notAbove⟩
    exact ⟨_, List.getElem_mem h, not_lt_of_below_le sorted h (Nat.le_refl _), notAbove⟩

/-- Putting `value` at `below` keeps the list sorted when the element there is above it. -/
theorem sorted_insertIdx_below {value : α} (fresh : ∀ h : below lt xs value < xs.length, lt value xs[below lt xs value]) :
    (xs.insertIdx (below lt xs value) value).Pairwise lt := by
  induction xs with
  | nil => simp [below]
  | cons x xs ih =>
    rw [List.pairwise_cons] at sorted
    by_cases less : lt x value
    · -- `value` goes into the tail, after the head
      have shifted : below lt (x :: xs) value = below lt xs value + 1 := by rw [below_cons, if_pos less]
      rw [shifted] at fresh ⊢
      rw [List.insertIdx_succ_cons, List.pairwise_cons]
      have freshTail : ∀ h : below lt xs value < xs.length, lt value xs[below lt xs value] := fun h => by
        have above := fresh (by simpa using h)
        rwa [List.getElem_cons_succ] at above
      refine ⟨fun a mem => ?_, ih sorted.2 freshTail⟩
      rcases (List.mem_insertIdx (below_le xs value)).mp mem with rfl | old
      · exact less
      · exact sorted.1 a old
    · -- `value` goes first, below the head and so below the rest
      have first : below lt (x :: xs) value = 0 := by rw [below_cons, if_neg less]
      rw [first] at fresh ⊢
      have belowHead : lt value x := fresh (by simp)
      rw [List.insertIdx_zero, List.pairwise_cons, List.pairwise_cons]
      refine ⟨fun a mem => ?_, sorted⟩
      rcases List.mem_cons.mp mem with rfl | later
      · exact belowHead
      · exact IsTrans.trans _ _ _ belowHead (sorted.1 a later)

end Sorted

end SortedSearch
