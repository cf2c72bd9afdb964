import Mathlib.Algebra.BigOperators.Group.List.Basic
import Mathlib.Tactic.Abel
import Mathlib.Algebra.Order.BigOperators.Group.List

/-! Lists whose elements carry unique keys, as sorted containers keep them.

`replace` rewrites the element of one key; the lemmas say what `find?` returns
for a key and how a sum over the list changes when one element (by key or by
position) is rewritten. Everything is stated for an arbitrary key function and
an arbitrary additive commutative monoid.
-/

set_option autoImplicit false

namespace KeyedList

variable {α κ : Type} [DecidableEq κ]

/-- Rewrite with `update` every element whose key is `k`. -/
def replace (key : α → κ) (k : κ) (update : α → α) (xs : List α) : List α :=
  xs.map fun x => if key x = k then update x else x

theorem replace_of_forall_ne (key : α → κ) (k : κ) (update : α → α) {xs : List α}
    (absent : ∀ x ∈ xs, key x ≠ k) : replace key k update xs = xs := by
  induction xs with
  | nil => rfl
  | cons x rest ih =>
    have head : key x ≠ k := absent x (by simp)
    simp only [replace, List.map_cons, head, if_false, List.cons.injEq, true_and]
    exact ih fun y member => absent y (by simp [member])

theorem map_key_replace (key : α → κ) (k : κ) (update : α → α)
    (keeps : ∀ x, key (update x) = key x) (xs : List α) :
    (replace key k update xs).map key = xs.map key := by
  simp only [replace, List.map_map]
  apply List.map_congr_left
  intro x _
  by_cases hit : key x = k <;> simp [hit, keeps]

/-- With unique keys, searching by the key of a member finds that member. -/
theorem find?_key_of_mem (key : α → κ) {xs : List α} (unique : (xs.map key).Nodup) {x : α}
    (member : x ∈ xs) : xs.find? (fun y => key y = key x) = some x := by
  induction xs with
  | nil => cases member
  | cons y rest ih =>
    rw [List.map_cons, List.nodup_cons] at unique
    rcases List.mem_cons.mp member with same | later
    · subst same
      simp
    · have differ : key y ≠ key x := fun same =>
        unique.1 (same ▸ List.mem_map_of_mem later)
      simp [differ, ih unique.2 later]

/-- A lookup in the keyed values of a list finds the value of the first element with the key. -/
theorem lookup_map (key : α → κ) {β : Type} (f : α → β) (k : κ) (xs : List α) :
    (xs.map fun x => (key x, f x)).lookup k = (xs.find? fun x => key x = k).map f := by
  induction xs with
  | nil => rfl
  | cons x rest ih =>
    by_cases same : key x = k
    · simp [same]
    · rw [List.map_cons, List.lookup_cons, beq_false_of_ne (Ne.symm same), List.find?_cons_of_neg (by simpa using same)]
      exact ih

section Sum
variable {M : Type} [AddCommMonoid M]

/-- Rewriting the one element of key `key x` changes a sum by that element only. -/
theorem sum_map_replace (key : α → κ) (update : α → α) (g : α → M) {xs : List α}
    (unique : (xs.map key).Nodup) {x : α} (member : x ∈ xs) :
    ((replace key (key x) update xs).map g).sum + g x = (xs.map g).sum + g (update x) := by
  induction xs with
  | nil => cases member
  | cons y rest ih =>
    rw [List.map_cons, List.nodup_cons] at unique
    rcases List.mem_cons.mp member with same | later
    · subst same
      have others : ∀ z ∈ rest, key z ≠ key x := fun z found same =>
        unique.1 (same ▸ List.mem_map_of_mem found)
      have untouched := replace_of_forall_ne key (key x) update others
      simp only [replace] at untouched
      simp only [replace, List.map_cons, if_true, untouched, List.sum_cons]
      abel
    · have differ : key y ≠ key x := fun same =>
        unique.1 (same ▸ List.mem_map_of_mem later)
      have step := ih unique.2 later
      simp only [replace] at step
      simp only [replace, List.map_cons, differ, if_false, List.sum_cons, add_assoc, step]

/-- Rewriting the element at a position changes a sum by that element only. -/
theorem sum_map_modify (f : α → α) (g : α → M) :
    ∀ {xs : List α} {i : Nat} {x : α}, xs[i]? = some x →
      ((xs.modify i f).map g).sum + g x = (xs.map g).sum + g (f x)
  | [], _, _, found => by simp at found
  | y :: rest, 0, x, found => by
    simp only [List.getElem?_cons_zero, Option.some.injEq] at found
    subst found
    simp only [List.modify_zero_cons, List.map_cons, List.sum_cons]
    abel
  | y :: rest, i + 1, x, found => by
    simp only [List.getElem?_cons_succ] at found
    have step := sum_map_modify f g found
    simp only [List.modify_succ_cons, List.map_cons, List.sum_cons, add_assoc, step]

/-- Two rewrites of one position that agree under `g` give lists that agree under `g`. -/
theorem map_modify_congr {β : Type} (f f' : α → α) (g : α → β) :
    ∀ {xs : List α} {i : Nat} {x : α}, xs[i]? = some x → g (f x) = g (f' x) →
      (xs.modify i f).map g = (xs.modify i f').map g
  | [], _, _, found, _ => by simp at found
  | y :: rest, 0, x, found, agree => by
    simp only [List.getElem?_cons_zero, Option.some.injEq] at found
    subst found
    simp [agree]
  | y :: rest, i + 1, x, found, agree => by
    simp only [List.getElem?_cons_succ] at found
    simp [map_modify_congr f f' g found agree]

end Sum

section Fold
variable {M : Type} [AddCommMonoid M]

/-- A left fold that adds `f x` for every element computes the sum of the map. -/
theorem foldl_add_eq_sum (f : α → M) :
    ∀ (xs : List α) (start : M), xs.foldl (fun acc x => acc + f x) start = start + (xs.map f).sum
  | [], start => by simp
  | x :: rest, start => by
    rw [List.foldl_cons, foldl_add_eq_sum f rest, List.map_cons, List.sum_cons, add_assoc]

/-- `countP` is the sum of the indicator of its predicate. -/
theorem countP_eq_sum (p : α → Bool) :
    ∀ xs : List α, ((xs.countP p : Nat) : Int) = (xs.map fun x => if p x then (1 : Int) else 0).sum
  | [] => by simp
  | x :: rest => by
    rw [List.countP_cons, List.map_cons, List.sum_cons, ← countP_eq_sum p rest]
    by_cases hit : p x <;> simp [hit, add_comm]

end Fold

section Weights
variable {α : Type}

/-- Weights that are nonnegative and vanish only where the values vanish: when
all the weight sits on `x`, all the value does too. -/
theorem sum_map_eq_of_weight (w c : α → Int) {xs : List α} {x : α} (member : x ∈ xs)
    (nonneg : ∀ y ∈ xs, 0 ≤ w y) (vanish : ∀ y ∈ xs, w y = 0 → c y = 0)
    (only : (xs.map w).sum = w x) : (xs.map c).sum = c x := by
  have zeroSum : ∀ ys : List α, (∀ y ∈ ys, y ∈ xs) → (ys.map w).sum = 0 → (ys.map c).sum = 0 := by
    intro ys inside
    induction ys with
    | nil => simp
    | cons y rest ih =>
      have restInside : ∀ z ∈ rest, z ∈ xs := fun z found => inside z (by simp [found])
      have restNonneg : 0 ≤ (rest.map w).sum :=
        List.sum_nonneg (by simpa using fun z found => nonneg z (restInside z found))
      have headNonneg := nonneg y (inside y (by simp))
      intro total
      rw [List.map_cons, List.sum_cons] at total
      rw [List.map_cons, List.sum_cons, vanish y (inside y (by simp)) (by omega),
        ih restInside (by omega), add_zero]
  obtain ⟨before, after, split⟩ := List.append_of_mem member
  subst split
  have beforeInside : ∀ y ∈ before, y ∈ before ++ x :: after := fun y found => by simp [found]
  have afterInside : ∀ y ∈ after, y ∈ before ++ x :: after := fun y found => by simp [found]
  have beforeNonneg : 0 ≤ (before.map w).sum :=
    List.sum_nonneg (by simpa using fun z found => nonneg z (beforeInside z found))
  have afterNonneg : 0 ≤ (after.map w).sum :=
    List.sum_nonneg (by simpa using fun z found => nonneg z (afterInside z found))
  simp only [List.map_append, List.map_cons, List.sum_append, List.sum_cons] at only ⊢
  rw [zeroSum before beforeInside (by omega), zeroSum after afterInside (by omega)]
  simp

end Weights

end KeyedList
