import SaunaFS.Lib.SortedSearch
import Mathlib.Order.RelClasses

/-! `flat_set` (src/common/flat_set.h): a set kept as a container sorted under the
comparator `Compare`, written `lt` here, with `less_than(a, b)` as `lt a b`.
Iterators are positions of the container and `end()` is its length.

Both overloads of `insert(value)` and of `insert(hint, value)` differ only in
copying or moving `value`, so each pair is one definition. The hinted insert
tries the neighbours of the hint first and falls back to `std::lower_bound` on
the part of the container the comparisons leave open; it ends where the plain
insert ends, at the one position `SortedSearch.below` of a sorted container.
-/

set_option autoImplicit false

namespace SaunaFS

open SortedSearch

/-- A `flat_set`: its container is strictly sorted under the comparator. -/
structure FlatSet (α : Type) (lt : α → α → Prop) where
  container : List α
  sorted : container.Pairwise lt

namespace FlatSet

section Model

variable {α : Type} (lt : α → α → Prop) [DecidableRel lt]

/-- The end of every insert: `if (it == last || less_than(value, *it))` the value
goes in at `it`, else the element at `it` is equivalent to it. The container after
it, the position of the element equivalent to `value`, and whether it was put in. -/
def insertAt (container : List α) (it last : Nat) (value : α) : List α × Nat × Bool :=
  if it = last then (container.insertIdx it value, it, true)
  else
    -- `*it` before `last` is inside the container
    match container[it]? with
    | some element => if lt value element then (container.insertIdx it value, it, true) else (container, it, false)
    | none => (container.insertIdx it value, it, true)

variable {lt}

/-- `lower_bound(key)`. -/
def lowerBound (s : FlatSet α lt) (key : α) : Nat :=
  SortedSearch.lowerBound lt s.container 0 s.container.length key

/-- `insert(value)`. -/
def insert (s : FlatSet α lt) (value : α) : List α × Nat × Bool :=
  insertAt lt s.container (s.lowerBound value) s.container.length value

/-- `insert(hint, value)`, for a hint from `begin()` to `end()`: the container
after it and the position it returns. -/
def insertHint (s : FlatSet α lt) (hint : Fin (s.container.length + 1)) (value : α) : List α × Nat :=
  let container := s.container
  let h := hint.val
  have inRange : h ≤ container.length := Nat.lt_succ_iff.mp hint.isLt
  -- `std::lower_bound(first, last, value)`, then the end of every insert
  let search (first last : Nat) : List α × Nat :=
    let placed := insertAt lt container (SortedSearch.lowerBound lt container first last value) last value
    (placed.1, placed.2.1)
  if atEnd : h = container.length then
    if atBegin : h = 0 then search 0 container.length
    else if lt container[h - 1] value then (container.insertIdx h value, h)
    else search 0 container.length
  else if lt value container[h] then
    if atBegin : h = 0 then (container.insertIdx h value, h)
    else if lt container[h - 1] value then (container.insertIdx h value, h)
    else search 0 h
  else if lt container[h] value then
    if atLast : h = container.length - 1 then (container.insertIdx container.length value, container.length)
    else if lt value container[h + 1] then (container.insertIdx (h + 1) value, h + 1)
    else search (h + 1) container.length
  else
    -- equivalent values
    (container, h)

end Model

section InsertAt

variable {α : Type} {lt : α → α → Prop} [DecidableRel lt] {container : List α} {value : α}

theorem insertAt_last (last : Nat) :
    insertAt lt container last last value = (container.insertIdx last value, last, true) := by
  simp [insertAt]

/-- Before an element above `value` the value goes in, whatever `last` is. -/
theorem insertAt_of_lt {it : Nat} (last : Nat) (h : it < container.length) (above : lt value container[it]) :
    insertAt lt container it last value = (container.insertIdx it value, it, true) := by
  unfold insertAt
  split
  · rfl
  · rw [List.getElem?_eq_getElem h]
    simp only [if_pos above]

/-- Before `last` an element not above `value` stays, and is returned. -/
theorem insertAt_of_not_lt {it last : Nat} (ne : it ≠ last) (h : it < container.length) (notAbove : ¬lt value container[it]) :
    insertAt lt container it last value = (container, it, false) := by
  unfold insertAt
  rw [if_neg ne, List.getElem?_eq_getElem h]
  simp only [if_neg notAbove]

/-- Which `last` the search had does not matter before it. -/
theorem insertAt_congr_last {it last last' : Nat} (ne : it ≠ last) (ne' : it ≠ last') :
    insertAt lt container it last value = insertAt lt container it last' value := by
  simp only [insertAt, if_neg ne, if_neg ne']

end InsertAt

section Sorted

variable {α : Type} {lt : α → α → Prop} [DecidableRel lt] [IsStrictWeakOrder α lt] (s : FlatSet α lt)

omit [IsStrictWeakOrder α lt] in
theorem lowerBound_eq_below (value : α) : s.lowerBound value = below lt s.container value := by
  simp [lowerBound, SortedSearch.lowerBound]

/-- The search of a part of the container around `below` finds it. -/
theorem lowerBound_eq_below_of_range {first last : Nat} (value : α) (start : first ≤ below lt s.container value)
    (stop : below lt s.container value ≤ last) (inside : last ≤ s.container.length) :
    SortedSearch.lowerBound lt s.container first last value = below lt s.container value :=
  lowerBound_eq start stop inside (fun _ h early => lt_of_lt_below h early)
    (fun _ h late => not_lt_of_below_le s.sorted h late)

/-- `insert(value)` puts `value` at `below` unless an equivalent element is there. -/
theorem insert_eq (value : α) :
    s.insert value = if ∃ x ∈ s.container, IncompRel lt x value
      then (s.container, below lt s.container value, false)
      else (s.container.insertIdx (below lt s.container value) value, below lt s.container value, true) := by
  rw [insert, lowerBound_eq_below]
  have le : below lt s.container value ≤ s.container.length := below_le _ _
  split
  next present =>
    obtain ⟨h, notAbove⟩ := (exists_incompRel_iff s.sorted value).mp present
    exact insertAt_of_not_lt (Nat.ne_of_lt h) h notAbove
  next absent =>
    rcases Nat.lt_or_eq_of_le le with h | atEnd
    · -- the element at `below` is not equivalent, so it is above `value`
      have above : lt value s.container[below lt s.container value] :=
        Classical.not_not.mp fun notAbove => absent ((exists_incompRel_iff s.sorted value).mpr ⟨h, notAbove⟩)
      exact insertAt_of_lt _ h above
    · rw [atEnd]
      exact insertAt_last _

/-- `insert(value)` keeps the container sorted. -/
theorem insert_sorted (value : α) : (s.insert value).1.Pairwise lt := by
  rw [insert_eq]
  split
  next => exact s.sorted
  next absent =>
    refine sorted_insertIdx_below s.sorted fun h => ?_
    exact Classical.not_not.mp fun notAbove => absent ((exists_incompRel_iff s.sorted value).mpr ⟨h, notAbove⟩)

/-- `insert(value)` returns the position of an element equivalent to `value`. -/
theorem insert_returns_equivalent (value : α) :
    ∃ h : (s.insert value).2.1 < (s.insert value).1.length, IncompRel lt (s.insert value).1[(s.insert value).2.1] value := by
  rw [insert_eq]
  have le : below lt s.container value ≤ s.container.length := below_le _ _
  split
  next present =>
    obtain ⟨h, notAbove⟩ := (exists_incompRel_iff s.sorted value).mp present
    exact ⟨h, not_lt_of_below_le s.sorted h (Nat.le_refl _), notAbove⟩
  next =>
    have h : below lt s.container value < (s.container.insertIdx (below lt s.container value) value).length := by
      rw [List.length_insertIdx_of_le_length le]
      omega
    -- the returned element is `value` itself
    refine ⟨h, ?_⟩
    rw [List.getElem_insertIdx_self]

omit [IsStrictWeakOrder α lt] in
/-- At `below`, before the end or an element above it, `insert(value)` puts the value. -/
theorem insert_eq_of_below {q : Nat} {value : α} (found : below lt s.container value = q)
    (above : ∀ h : q < s.container.length, lt value s.container[q]) :
    s.insert value = (s.container.insertIdx q value, q, true) := by
  have le : q ≤ s.container.length := found ▸ below_le _ _
  rw [insert, lowerBound_eq_below, found]
  rcases Nat.lt_or_eq_of_le le with h | atEnd
  · exact insertAt_of_lt _ h (above h)
  · rw [atEnd]
    exact insertAt_last _

/-- The fallback search on a part of the container that holds `below` and ends at
the end or before an element above `value` ends where `insert(value)` ends. -/
theorem search_eq_insert {first last : Nat} {value : α} (start : first ≤ below lt s.container value)
    (stop : below lt s.container value ≤ last) (inside : last ≤ s.container.length)
    (bounded : ∀ h : last < s.container.length, lt value s.container[last]) :
    insertAt lt s.container (SortedSearch.lowerBound lt s.container first last value) last value = s.insert value := by
  rw [lowerBound_eq_below_of_range s value start stop inside, insert, lowerBound_eq_below]
  rcases Nat.lt_or_eq_of_le inside with before | atEnd
  · by_cases atLast : below lt s.container value = last
    · -- the search stopped at `last`, before the element above `value`
      rw [atLast, insertAt_last, insertAt_of_lt _ before (bounded before)]
    · exact insertAt_congr_last atLast (by omega)
  · rw [atEnd]

/-- Every branch of `insert(hint, value)` ends where `insert(value)` ends. -/
theorem insertHint_eq (hint : Fin (s.container.length + 1)) (value : α) :
    s.insertHint hint value = ((s.insert value).1, (s.insert value).2.1) := by
  obtain ⟨h, inRange⟩ := hint
  have le : below lt s.container value ≤ s.container.length := below_le _ _
  have wholeSearch : insertAt lt s.container (SortedSearch.lowerBound lt s.container 0 s.container.length value)
      s.container.length value = s.insert value := rfl
  unfold insertHint
  dsimp only
  by_cases atEnd : h = s.container.length
  · rw [dif_pos atEnd]
    by_cases atBegin : h = 0
    · rw [dif_pos atBegin, wholeSearch]
    · rw [dif_neg atBegin]
      split
      next less =>
        -- after the last element, which is below `value`
        have found : below lt s.container value = h :=
          below_eq_of_neighbours s.sorted (by omega) (fun i _ next => by simpa [show i = h - 1 by omega] using less) (by omega)
        rw [insert_eq_of_below s found (by omega)]
      next => rw [wholeSearch]
  · rw [dif_neg atEnd]
    have hint : h < s.container.length := by omega
    split
    next aboveHint =>
      -- `value` goes before the hint
      have notBelow : ¬lt s.container[h] value := asymm aboveHint
      by_cases atBegin : h = 0
      · rw [dif_pos atBegin]
        have found : below lt s.container value = h := below_eq_of_neighbours s.sorted (by omega) (fun i _ next => by omega) fun _ => notBelow
        rw [insert_eq_of_below s found fun _ => aboveHint]
      · rw [dif_neg atBegin]
        have early : below lt s.container value ≤ h :=
          Nat.le_of_not_lt fun late => notBelow (lt_of_lt_below hint late)
        split
        next less =>
          have found : below lt s.container value = h :=
            below_eq_of_neighbours s.sorted (by omega) (fun i _ next => by simpa [show i = h - 1 by omega] using less) fun _ => notBelow
          rw [insert_eq_of_below s found fun _ => aboveHint]
        next => rw [search_eq_insert s (Nat.zero_le _) early (by omega) fun _ => aboveHint]
    next notAboveHint =>
      split
      next belowHint =>
        -- `value` goes after the hint
        have late : h < below lt s.container value :=
          Nat.lt_of_not_le fun early => not_lt_of_below_le s.sorted hint early belowHint
        by_cases atLast : h = s.container.length - 1
        · rw [dif_pos atLast]
          have found : below lt s.container value = s.container.length :=
            below_eq_of_neighbours s.sorted (Nat.le_refl _) (fun i _ next => by simpa [show i = h by omega] using belowHint) (by omega)
          rw [insert_eq_of_below s found (by omega)]
        · rw [dif_neg atLast]
          split
          next aboveNext =>
            have found : below lt s.container value = h + 1 :=
              below_eq_of_neighbours s.sorted (by omega) (fun i _ next => by simpa [show i = h by omega] using belowHint)
                fun _ => asymm aboveNext
            rw [insert_eq_of_below s found fun _ => aboveNext]
          next => rw [search_eq_insert s late le (Nat.le_refl _) (by omega)]
      next notBelowHint =>
        -- the hint is equivalent to `value`: everything before it is below `value`
        have found : below lt s.container value = h :=
          below_eq_of_neighbours s.sorted (by omega)
            (fun i hi next => lt_of_lt_of_incompRel
              (List.pairwise_iff_getElem.mp s.sorted i h hi hint (by omega)) ⟨notBelowHint, notAboveHint⟩)
            fun _ => notBelowHint
        rw [insert, lowerBound_eq_below, found, insertAt_of_not_lt atEnd hint notAboveHint]

example : (FlatSet.insertHint (⟨[1, 3, 5], by decide⟩ : FlatSet Nat (· < ·)) ⟨0, by decide⟩ 4) = ([1, 3, 4, 5], 2) := by
  decide

/-- `insert(hint, value)`, from any hint, leaves the container `insert(value)`
leaves: the value at its place iff no element is equivalent to it, and sorted
again; and it returns the position of the element equivalent to `value`. -/
theorem insertHint_eq_insert (hint : Fin (s.container.length + 1)) (value : α) :
    (s.insertHint hint value).1 = (s.insert value).1 ∧ (s.insertHint hint value).2 = (s.insert value).2.1 ∧
      (s.insert value).1 = (if ∃ x ∈ s.container, IncompRel lt x value then s.container
        else s.container.insertIdx (below lt s.container value) value) ∧
      (s.insert value).1.Pairwise lt ∧
      ∃ h : (s.insertHint hint value).2 < (s.insertHint hint value).1.length,
        IncompRel lt (s.insertHint hint value).1[(s.insertHint hint value).2] value := by
  have same := s.insertHint_eq hint value
  refine ⟨by rw [same], by rw [same], ?_, s.insert_sorted value, ?_⟩
  · rw [insert_eq]
    split <;> rfl
  · rw [same]
    exact s.insert_returns_equivalent value

end Sorted

/-- A hint before the place of the value: from the hint `1` the search finds the
place of `4` after `3`. -/
theorem insertHint_eq_insert_before_place :
    let s : FlatSet Nat (· < ·) := ⟨[1, 3, 5], by decide⟩
    let hint : Fin (s.container.length + 1) := ⟨0, by decide⟩
    IsStrictWeakOrder Nat (· < ·) ∧
      ((s.insertHint hint 4).1 = (s.insert 4).1 ∧ (s.insertHint hint 4).2 = (s.insert 4).2.1 ∧
        (s.insert 4).1 = (if ∃ x ∈ s.container, IncompRel (· < ·) x 4 then s.container
          else s.container.insertIdx (below (· < ·) s.container 4) 4) ∧
        (s.insert 4).1.Pairwise (· < ·) ∧
        ∃ h : (s.insertHint hint 4).2 < (s.insertHint hint 4).1.length,
          IncompRel (· < ·) (s.insertHint hint 4).1[(s.insertHint hint 4).2] 4) :=
  have order : IsStrictWeakOrder Nat (· < ·) := isStrictWeakOrder_of_isOrderConnected
  ⟨order, insertHint_eq_insert _ _ _⟩

end FlatSet

end SaunaFS
