import Mathlib.Data.List.Basic
import Mathlib.Tactic.SplitIfs
import Mathlib.Tactic.Tauto

/-! The interval tree the master keeps its network topology in (`src/master/itree.cc`).
Each node maps the addresses of a range `[from, to]` to a rack id; `itree_add` and
`itree_delete` keep the ranges apart by cutting the ones they overlap, `itree_remove`
lifts a successor or predecessor into a deleted node, and `itree_rebalance` flattens the
tree, merges neighbours of one id and rebuilds it balanced.

The in-order list of ranges (`itree_tolist`) is the abstraction: a tree is `Ordered`
when that list is sorted with its ranges apart and not empty, and then `itree_find`
returns the id of the one range holding a value. Over it, `itree_add` and `itree_delete`
are range updates of the map `itree_find` stands for, and rebalancing leaves the map as it
is. The source's values are `uint32_t`; no addition or subtraction of the code leaves the
range of its operands, so they are `Nat` here. -/

set_option autoImplicit false

namespace SaunaFS

/-- The range `[lo, hi]` of an `itnode` (its `from` and `to`) and the id it maps to. -/
structure Span where
  lo : Nat
  hi : Nat
  id : Nat
  deriving DecidableEq, Repr

/-- An `itnode *`: `nil` is `NULL`. -/
inductive ITree where
  | nil
  | node (left : ITree) (span : Span) (right : ITree)
  deriving DecidableEq, Repr

namespace ITree

-- the loops of `itree_remove` that count the spines below the children
def rightSpine : ITree → Nat
  | nil => 0
  | node _ _ right => rightSpine right + 1

def leftSpine : ITree → Nat
  | nil => 0
  | node left _ _ => leftSpine left + 1

-- the walks of `itree_remove` to the leftmost (rightmost) node of a non-empty tree:
-- its span, and the tree without it
def popMin (left : ITree) (span : Span) (right : ITree) : Span × ITree :=
  match left with
  | nil => (span, right)
  | node ll ls lr =>
    let (least, rest) := popMin ll ls lr
    (least, node rest span right)

def popMax (left : ITree) (span : Span) (right : ITree) : Span × ITree :=
  match right with
  | nil => (span, left)
  | node rl rs rr =>
    let (greatest, rest) := popMax rl rs rr
    (greatest, node left span rest)

end ITree

open ITree

/-- `itree_remove`: the node is replaced by its successor or predecessor, whichever
side is longer below its child, the parity of the range breaking a tie. -/
def itreeRemove : ITree → ITree
  | nil => nil
  | node nil _ right => right
  | node left _ nil => left
  | node (node ll ls lr) span (node rl rs rr) =>
    let l := rightSpine lr
    let r := leftSpine rl
    let l := if l = r then l + (span.lo ^^^ span.hi) % 2 else l
    if r > l then
      let (next, right) := popMin rl rs rr
      node (node ll ls lr) next right
    else
      let (prev, left) := popMax ll ls lr
      node left prev (node rl rs rr)

mutual

/-- `itree_delete(p, f, t)`: the values in `[f, t]` are mapped to nothing. -/
def itreeDelete : ITree → Nat → Nat → ITree
  | nil, _, _ => nil
  | node left n right, f, t =>
    if t < n.lo then node (itreeDelete left f t) n right
    else if f > n.hi then node left n (itreeDelete right f t)
    else if f ≤ n.lo ∧ t ≥ n.hi then
      let left := if f < n.lo then itreeDelete left f (n.lo - 1) else left
      let right := if t > n.hi then itreeDelete right (n.hi + 1) t else right
      itreeRemove (node left n right)
    else if f ≥ n.lo ∧ t ≤ n.hi then
      if f = n.lo then node left { n with lo := t + 1 } right
      else if t = n.hi then node left { n with hi := f - 1 } right
      -- the rest of the range goes to a subtree, chosen by parity
      else if (t ^^^ f) % 2 = 1 then node left { n with hi := f - 1 } (itreeAdd right (t + 1) n.hi n.id)
      else node (itreeAdd left n.lo (f - 1) n.id) { n with lo := t + 1 } right
    else if f < n.lo then node (itreeDelete left f t) { n with lo := t + 1 } right
    else if t > n.hi then node left { n with hi := f - 1 } (itreeDelete right f t)
    else node left n right

/-- `itree_add(p, f, t, id)`: the values in `[f, t]` are mapped to `id`. -/
def itreeAdd : ITree → Nat → Nat → Nat → ITree
  | nil, f, t, id => node nil ⟨f, t, id⟩ nil
  | node left n right, f, t, id =>
    if t < n.lo then node (itreeAdd left f t id) n right
    else if f > n.hi then node left n (itreeAdd right f t id)
    else if f ≤ n.lo ∧ t ≥ n.hi then
      let left := if f < n.lo then itreeDelete left f (n.lo - 1) else left
      let right := if t > n.hi then itreeDelete right (n.hi + 1) t else right
      node left ⟨f, t, id⟩ right
    else if f ≥ n.lo ∧ t ≤ n.hi then
      let left := if f > n.lo then itreeAdd left n.lo (f - 1) n.id else left
      let right := if t < n.hi then itreeAdd right (t + 1) n.hi n.id else right
      node left ⟨f, t, id⟩ right
    else if f < n.lo then node (itreeAdd left f t id) { n with lo := t + 1 } right
    else if t > n.hi then node left { n with hi := f - 1 } (itreeAdd right f t id)
    else node left n right

end

/-- `itree_find(o, v)`: the id of the range holding `v`, `0` when there is none. -/
def itreeFind : ITree → Nat → Nat
  | nil, _ => 0
  | node left n right, v =>
    if v ≥ n.lo ∧ v ≤ n.hi then n.id
    else if v < n.lo then itreeFind left v
    else itreeFind right v

/-- `itree_tolist`: the ranges in order, linked through `left` in the source. -/
def itreeTolist : ITree → List Span
  | nil => []
  | node left span right => itreeTolist left ++ span :: itreeTolist right

/-- `itree_simplify`: neighbouring ranges of one id that meet are merged. -/
def itreeSimplify : List Span → List Span
  | a :: b :: rest =>
    if a.id = b.id ∧ a.hi + 1 = b.lo then itreeSimplify ({ a with hi := b.hi } :: rest)
    else a :: itreeSimplify (b :: rest)
  | spans => spans
termination_by spans => spans.length

/-- `itree_totree`: the middle range at the root, the halves below it. -/
def itreeTotree (spans : List Span) : ITree :=
  if h : spans = [] then nil
  else
    node (itreeTotree (spans.take (spans.length / 2)))
      (spans.get ⟨spans.length / 2, Nat.div_lt_self (List.length_pos_iff.mpr h) (by decide)⟩)
      (itreeTotree (spans.drop (spans.length / 2 + 1)))
termination_by spans.length
decreasing_by
  all_goals simp only [List.length_take, List.length_drop]
  all_goals have := List.length_pos_iff.mpr h
  all_goals omega

def itreeRebalance (o : ITree) : ITree := itreeTotree (itreeSimplify (itreeTolist o))

/-- `itree_add_interval(o, f, t, id)`: id `0` deletes; the ends may come in either order. -/
def itreeAddInterval (o : ITree) (f t id : Nat) : ITree :=
  if id = 0 then (if t < f then itreeDelete o t f else itreeDelete o f t)
  else (if t < f then itreeAdd o t f id else itreeAdd o f t id)

namespace ITree

/-! ## The ranges in order -/

@[simp] theorem tolist_nil : itreeTolist nil = [] := rfl

@[simp] theorem tolist_node (left : ITree) (span : Span) (right : ITree) :
    itreeTolist (node left span right) = itreeTolist left ++ span :: itreeTolist right := rfl

theorem tolist_popMin (left : ITree) (span : Span) (right : ITree) :
    (popMin left span right).1 :: itreeTolist (popMin left span right).2 = itreeTolist (node left span right) := by
  induction left generalizing span right with
  | nil => rfl
  | node ll ls lr ih _ =>
    have step := ih ls lr
    simp only [popMin, tolist_node] at step ⊢
    rw [← List.cons_append, step]

theorem tolist_popMax (left : ITree) (span : Span) (right : ITree) :
    itreeTolist (popMax left span right).2 ++ [(popMax left span right).1] = itreeTolist (node left span right) := by
  induction right generalizing left span with
  | nil => rfl
  | node rl rs rr _ ih =>
    have step := ih rl rs
    simp only [popMax, tolist_node] at step ⊢
    rw [List.append_assoc, List.cons_append, step]

theorem tolist_remove (left : ITree) (span : Span) (right : ITree) :
    itreeTolist (itreeRemove (node left span right)) = itreeTolist left ++ itreeTolist right := by
  match left, right with
  | nil, right => simp [itreeRemove]
  | node ll ls lr, nil => simp [itreeRemove]
  | node ll ls lr, node rl rs rr =>
    -- the successor and the predecessor both keep the order
    have next : itreeTolist (node (node ll ls lr) (popMin rl rs rr).1 (popMin rl rs rr).2) =
        itreeTolist (node ll ls lr) ++ itreeTolist (node rl rs rr) := by
      rw [tolist_node, tolist_popMin]
    have prev : itreeTolist (node (popMax ll ls lr).2 (popMax ll ls lr).1 (node rl rs rr)) =
        itreeTolist (node ll ls lr) ++ itreeTolist (node rl rs rr) := by
      rw [tolist_node, ← tolist_popMax ll ls lr, List.append_assoc, List.singleton_append]
    simp only [itreeRemove]
    split <;> split <;> first | exact next | exact prev

/-! ## Which ranges the operations leave -/

-- the subtrees `itree_add` and `itree_delete` cut, or leave, in one case
theorem of_ite {Q : ITree → Prop} {c : Prop} [Decidable c] {a b : ITree} (cut : c → Q a) (kept : ¬ c → Q b) :
    Q (if c then a else b) := by
  split
  · next h => exact cut h
  · next h => exact kept h

/-- Every range of the tree has the property. -/
def All (P : Span → Prop) (o : ITree) : Prop := ∀ x ∈ itreeTolist o, P x

@[simp] theorem all_nil (P : Span → Prop) : All P nil := by
  simp [All]

@[simp] theorem all_node (P : Span → Prop) (left : ITree) (span : Span) (right : ITree) :
    All P (node left span right) ↔ All P left ∧ P span ∧ All P right := by
  simp [All, or_imp, forall_and]

theorem all_remove {P : Span → Prop} {left right : ITree} (span : Span) (hl : All P left) (hr : All P right) :
    All P (itreeRemove (node left span right)) := by
  intro x member
  rw [tolist_remove, List.mem_append] at member
  exact member.elim (hl x) (hr x)

/-- A property of ranges that their sub-ranges keep, whatever their id. -/
def Shrinks (P : Span → Prop) : Prop := ∀ x y : Span, P x → x.lo ≤ y.lo → y.hi ≤ x.hi → P y

/-- Every range `itree_add` or `itree_delete` leaves lies in the range added or
in a range of the tree. -/
theorem hull : ∀ o : ITree,
    (∀ {P : Span → Prop} (f t id : Nat), Shrinks P → All P o → (∀ y : Span, f ≤ y.lo → y.hi ≤ t → P y) →
      All P (itreeAdd o f t id)) ∧
    (∀ {P : Span → Prop} (f t : Nat), Shrinks P → All P o → All P (itreeDelete o f t)) := by
  intro o
  induction o with
  | nil =>
    refine ⟨fun f t id _ _ new => ?_, fun _ _ _ _ => by simp [itreeDelete]⟩
    simpa [itreeAdd] using new ⟨f, t, id⟩ (Nat.le_refl _) (Nat.le_refl _)
  | node left n right ihl ihr =>
    refine ⟨fun f t id shrinks all new => ?_, fun f t shrinks all => ?_⟩
    · rw [all_node] at all
      obtain ⟨hl, hn, hr⟩ := all
      have inside : ∀ y : Span, n.lo ≤ y.lo → y.hi ≤ n.hi → _ := fun y => shrinks n y hn
      rw [itreeAdd]
      split
      · exact (all_node ..).mpr ⟨ihl.1 f t id shrinks hl new, hn, hr⟩
      split
      · exact (all_node ..).mpr ⟨hl, hn, ihr.1 f t id shrinks hr new⟩
      split
      · refine (all_node ..).mpr ⟨?_, new _ (Nat.le_refl _) (Nat.le_refl _), ?_⟩
        · exact of_ite (fun _ => ihl.2 _ _ shrinks hl) fun _ => hl
        · exact of_ite (fun _ => ihr.2 _ _ shrinks hr) fun _ => hr
      split
      · refine (all_node ..).mpr ⟨?_, new _ (Nat.le_refl _) (Nat.le_refl _), ?_⟩
        · exact of_ite (fun _ => ihl.1 _ _ _ shrinks hl fun y low high => inside y low (by omega)) fun _ => hl
        · exact of_ite (fun _ => ihr.1 _ _ _ shrinks hr fun y low high => inside y (by omega) high)
            fun _ => hr
      split
      · exact (all_node ..).mpr ⟨ihl.1 f t id shrinks hl new, inside _ (by simp; omega) (Nat.le_refl _), hr⟩
      split
      · exact (all_node ..).mpr ⟨hl, inside _ (Nat.le_refl _) (by simp; omega), ihr.1 f t id shrinks hr new⟩
      · exact (all_node ..).mpr ⟨hl, hn, hr⟩
    · rw [all_node] at all
      obtain ⟨hl, hn, hr⟩ := all
      have inside : ∀ y : Span, n.lo ≤ y.lo → y.hi ≤ n.hi → _ := fun y => shrinks n y hn
      rw [itreeDelete]
      split
      · exact (all_node ..).mpr ⟨ihl.2 f t shrinks hl, hn, hr⟩
      split
      · exact (all_node ..).mpr ⟨hl, hn, ihr.2 f t shrinks hr⟩
      split
      · refine all_remove n ?_ ?_
        · exact of_ite (fun _ => ihl.2 _ _ shrinks hl) fun _ => hl
        · exact of_ite (fun _ => ihr.2 _ _ shrinks hr) fun _ => hr
      split
      · split
        · exact (all_node ..).mpr ⟨hl, inside _ (by simp; omega) (Nat.le_refl _), hr⟩
        split
        · exact (all_node ..).mpr ⟨hl, inside _ (Nat.le_refl _) (by simp; omega), hr⟩
        split
        · exact (all_node ..).mpr ⟨hl, inside _ (Nat.le_refl _) (by simp; omega),
            ihr.1 _ _ _ shrinks hr fun y low high => inside y (by omega) high⟩
        · exact (all_node ..).mpr ⟨ihl.1 _ _ _ shrinks hl fun y low high => inside y low (by omega),
            inside _ (by simp; omega) (Nat.le_refl _), hr⟩
      split
      · exact (all_node ..).mpr ⟨ihl.2 f t shrinks hl, inside _ (by simp; omega) (Nat.le_refl _), hr⟩
      split
      · exact (all_node ..).mpr ⟨hl, inside _ (Nat.le_refl _) (by simp; omega), ihr.2 f t shrinks hr⟩
      · exact (all_node ..).mpr ⟨hl, hn, hr⟩

theorem nonempty : ∀ o : ITree,
    (∀ f t id : Nat, f ≤ t → All (fun x => x.lo ≤ x.hi) o → All (fun x => x.lo ≤ x.hi) (itreeAdd o f t id)) ∧
    (∀ f t : Nat, All (fun x => x.lo ≤ x.hi) o → All (fun x => x.lo ≤ x.hi) (itreeDelete o f t)) := by
  intro o
  induction o with
  | nil =>
    refine ⟨fun f t id le _ => ?_, fun _ _ _ => by simp [itreeDelete]⟩
    simpa [itreeAdd] using le
  | node left n right ihl ihr =>
    refine ⟨fun f t id le all => ?_, fun f t all => ?_⟩
    · rw [all_node] at all
      obtain ⟨hl, hn, hr⟩ := all
      rw [itreeAdd]
      split
      · exact (all_node ..).mpr ⟨ihl.1 f t id le hl, hn, hr⟩
      split
      · exact (all_node ..).mpr ⟨hl, hn, ihr.1 f t id le hr⟩
      split
      · refine (all_node ..).mpr ⟨?_, le, ?_⟩
        · exact of_ite (fun _ => ihl.2 _ _ hl) fun _ => hl
        · exact of_ite (fun _ => ihr.2 _ _ hr) fun _ => hr
      split
      · refine (all_node ..).mpr ⟨?_, le, ?_⟩
        · exact of_ite (fun _ => ihl.1 _ _ _ (by omega) hl) fun _ => hl
        · exact of_ite (fun _ => ihr.1 _ _ _ (by omega) hr) fun _ => hr
      split
      · exact (all_node ..).mpr ⟨ihl.1 f t id le hl, by simp; omega, hr⟩
      split
      · exact (all_node ..).mpr ⟨hl, by simp; omega, ihr.1 f t id le hr⟩
      · exact (all_node ..).mpr ⟨hl, hn, hr⟩
    · rw [all_node] at all
      obtain ⟨hl, hn, hr⟩ := all
      rw [itreeDelete]
      split
      · exact (all_node ..).mpr ⟨ihl.2 f t hl, hn, hr⟩
      split
      · exact (all_node ..).mpr ⟨hl, hn, ihr.2 f t hr⟩
      split
      · refine all_remove n ?_ ?_
        · exact of_ite (fun _ => ihl.2 _ _ hl) fun _ => hl
        · exact of_ite (fun _ => ihr.2 _ _ hr) fun _ => hr
      split
      · split
        · exact (all_node ..).mpr ⟨hl, by simp; omega, hr⟩
        split
        · exact (all_node ..).mpr ⟨hl, by simp; omega, hr⟩
        split
        · exact (all_node ..).mpr ⟨hl, by simp; omega, ihr.1 _ _ _ (by omega) hr⟩
        · exact (all_node ..).mpr ⟨ihl.1 _ _ _ (by omega) hl, by simp; omega, hr⟩
      split
      · exact (all_node ..).mpr ⟨ihl.2 f t hl, by simp; omega, hr⟩
      split
      · exact (all_node ..).mpr ⟨hl, by simp; omega, ihr.2 f t hr⟩
      · exact (all_node ..).mpr ⟨hl, hn, hr⟩

/-! ## Ordered trees -/

/-- The ranges are not empty and lie in increasing order, apart from each other:
what makes the search of `itree_find` go the right way. -/
def Ordered (o : ITree) : Prop :=
  (itreeTolist o).Pairwise (fun x y => x.hi < y.lo) ∧ All (fun x => x.lo ≤ x.hi) o

@[simp] theorem ordered_nil : Ordered nil := by
  simp [Ordered]

theorem ordered_node_iff {left right : ITree} {span : Span} :
    Ordered (node left span right) ↔ Ordered left ∧ Ordered right ∧ span.lo ≤ span.hi ∧
      All (fun x => x.hi < span.lo) left ∧ All (fun x => span.hi < x.lo) right := by
  simp only [Ordered, tolist_node, List.pairwise_append, List.pairwise_cons, all_node, List.mem_cons]
  constructor
  · rintro ⟨⟨pl, ⟨ps, pr⟩, cross⟩, nl, ns, nr⟩
    exact ⟨⟨pl, nl⟩, ⟨pr, nr⟩, ns, fun x member => cross x member span (.inl rfl), ps⟩
  · rintro ⟨⟨pl, nl⟩, ⟨pr, nr⟩, ns, below, above⟩
    refine ⟨⟨pl, ⟨above, pr⟩, fun x hx y hy => ?_⟩, nl, ns, nr⟩
    rcases hy with rfl | hy
    · exact below x hx
    · have := below x hx
      have := above y hy
      omega

theorem Ordered.remove {left right : ITree} {span : Span} (ordered : Ordered (node left span right)) :
    Ordered (itreeRemove (node left span right)) := by
  obtain ⟨pairwise, nonempty⟩ := ordered
  refine ⟨?_, fun x member => nonempty x ?_⟩
  · rw [tolist_remove]
    exact pairwise.sublist (by simp)
  · rw [tolist_remove, List.mem_append] at member
    simp only [tolist_node, List.mem_append, List.mem_cons]
    tauto

theorem All.mono {P Q : Span → Prop} {o : ITree} (all : All P o) (imp : ∀ x, P x → Q x) : All Q o :=
  fun x member => imp x (all x member)

theorem shrinks_below (b : Nat) : Shrinks (fun x => x.hi < b) := fun _ _ below _ high => by omega

theorem shrinks_above (b : Nat) : Shrinks (fun x => b < x.lo) := fun _ _ above low _ => by omega

theorem add_below {o : ITree} {b : Nat} (f t id : Nat) (below : All (fun x => x.hi < b) o) (lt : t < b) :
    All (fun x => x.hi < b) (itreeAdd o f t id) :=
  (hull o).1 f t id (shrinks_below b) below fun _ _ high => by omega

theorem add_above {o : ITree} {b : Nat} (f t id : Nat) (above : All (fun x => b < x.lo) o) (lt : b < f) :
    All (fun x => b < x.lo) (itreeAdd o f t id) :=
  (hull o).1 f t id (shrinks_above b) above fun _ low _ => by omega

theorem delete_below {o : ITree} {b : Nat} (f t : Nat) (below : All (fun x => x.hi < b) o) :
    All (fun x => x.hi < b) (itreeDelete o f t) :=
  (hull o).2 f t (shrinks_below b) below

theorem delete_above {o : ITree} {b : Nat} (f t : Nat) (above : All (fun x => b < x.lo) o) :
    All (fun x => b < x.lo) (itreeDelete o f t) :=
  (hull o).2 f t (shrinks_above b) above

-- a subtree cut from `f` up to the node above it keeps only what lies below `f`
theorem cut_below {o : ITree} {b f : Nat} (proper : All (fun x => x.lo ≤ x.hi) o) (below : All (fun x => x.hi < b) o)
    (avoids : All (fun x => x.hi < f ∨ b - 1 < x.lo) (itreeDelete o f (b - 1))) :
    All (fun x => x.hi < f) (itreeDelete o f (b - 1)) := by
  have bounded := delete_below f (b - 1) below
  have proper' := (nonempty o).2 f (b - 1) proper
  intro x member
  have := avoids x member
  have := bounded x member
  have := proper' x member
  omega

theorem cut_above {o : ITree} {b t : Nat} (proper : All (fun x => x.lo ≤ x.hi) o) (above : All (fun x => b < x.lo) o)
    (avoids : All (fun x => x.hi < b + 1 ∨ t < x.lo) (itreeDelete o (b + 1) t)) :
    All (fun x => t < x.lo) (itreeDelete o (b + 1) t) := by
  have bounded := delete_above (b + 1) t above
  have proper' := (nonempty o).2 (b + 1) t proper
  intro x member
  have := avoids x member
  have := bounded x member
  have := proper' x member
  omega

/-- No range `itree_delete` leaves meets the range deleted. -/
theorem delete_avoids : ∀ o : ITree, Ordered o → ∀ f t : Nat, f ≤ t →
    All (fun x => x.hi < f ∨ t < x.lo) (itreeDelete o f t) := by
  intro o
  induction o with
  | nil => intros; simp [itreeDelete]
  | node left n right ihl ihr =>
    intro ordered f t le
    obtain ⟨ordL, ordR, nn, below, above⟩ := ordered_node_iff.mp ordered
    have shrinks : Shrinks (fun x : Span => x.hi < f ∨ t < x.lo) := fun _ _ p low high => by omega
    rw [itreeDelete]
    split
    · exact (all_node ..).mpr ⟨ihl ordL f t le, by omega, above.mono fun _ _ => by omega⟩
    split
    · exact (all_node ..).mpr ⟨below.mono fun _ _ => by omega, by omega, ihr ordR f t le⟩
    split
    · -- what is left of the subtrees lies outside the deleted range
      refine all_remove n ?_ ?_
      · exact of_ite (fun _ => (cut_below ordL.2 below (ihl ordL f (n.lo - 1) (by omega))).mono fun _ _ => by omega)
          fun _ => below.mono fun _ _ => by omega
      · exact of_ite (fun _ => (cut_above ordR.2 above (ihr ordR (n.hi + 1) t (by omega))).mono fun _ _ => by omega)
          fun _ => above.mono fun _ _ => by omega
    split
    · split
      · exact (all_node ..).mpr ⟨below.mono fun _ _ => by omega, by simp, above.mono fun _ _ => by omega⟩
      split
      · exact (all_node ..).mpr ⟨below.mono fun _ _ => by omega, by simp; omega, above.mono fun _ _ => by omega⟩
      split
      · exact (all_node ..).mpr ⟨below.mono fun _ _ => by omega, by simp; omega,
          (hull right).1 _ _ _ shrinks (above.mono fun _ _ => by omega) fun _ _ _ => by omega⟩
      · exact (all_node ..).mpr ⟨(hull left).1 _ _ _ shrinks (below.mono fun _ _ => by omega) fun _ _ _ => by omega,
          by simp, above.mono fun _ _ => by omega⟩
    split
    · exact (all_node ..).mpr ⟨ihl ordL f t le, by simp, above.mono fun _ _ => by omega⟩
    split
    · exact (all_node ..).mpr ⟨below.mono fun _ _ => by omega, by simp; omega, ihr ordR f t le⟩
    · omega

-- the node of a covered range, its subtrees cut below and above it
theorem ordered_trimmed {left right : ITree} {n : Span} (ordered : Ordered (node left n right)) {f t : Nat}
    (deleteLeft : ∀ f t : Nat, f ≤ t → Ordered left → Ordered (itreeDelete left f t))
    (deleteRight : ∀ f t : Nat, f ≤ t → Ordered right → Ordered (itreeDelete right f t)) :
    Ordered (node (if f < n.lo then itreeDelete left f (n.lo - 1) else left) n
      (if t > n.hi then itreeDelete right (n.hi + 1) t else right)) := by
  obtain ⟨ordL, ordR, nn, below, above⟩ := ordered_node_iff.mp ordered
  refine ordered_node_iff.mpr ⟨?_, ?_, nn, ?_, ?_⟩
  · exact of_ite (fun _ => deleteLeft _ _ (by omega) ordL) fun _ => ordL
  · exact of_ite (fun _ => deleteRight _ _ (by omega) ordR) fun _ => ordR
  · exact of_ite (fun _ => delete_below _ _ below) fun _ => below
  · exact of_ite (fun _ => delete_above _ _ above) fun _ => above

/-- `itree_add` and `itree_delete` keep the tree ordered. -/
theorem ordered_preserved : ∀ o : ITree,
    (∀ f t id : Nat, f ≤ t → Ordered o → Ordered (itreeAdd o f t id)) ∧
    (∀ f t : Nat, f ≤ t → Ordered o → Ordered (itreeDelete o f t)) := by
  intro o
  induction o with
  | nil =>
    refine ⟨fun f t id le _ => ?_, fun _ _ _ _ => by simp [itreeDelete]⟩
    simpa [itreeAdd, ordered_node_iff] using le
  | node left n right ihl ihr =>
    refine ⟨fun f t id le ordered => ?_, fun f t le ordered => ?_⟩
    · obtain ⟨ordL, ordR, nn, below, above⟩ := ordered_node_iff.mp ordered
      rw [itreeAdd]
      split
      · exact ordered_node_iff.mpr ⟨ihl.1 f t id le ordL, ordR, nn, add_below f t id below (by omega), above⟩
      split
      · exact ordered_node_iff.mpr ⟨ordL, ihr.1 f t id le ordR, nn, below, add_above f t id above (by omega)⟩
      split
      · -- the new range covers the node: the subtrees lose what it covers
        refine ordered_node_iff.mpr ⟨?_, ?_, le, ?_, ?_⟩
        · exact of_ite (fun _ => ihl.2 _ _ (by omega) ordL) fun _ => ordL
        · exact of_ite (fun _ => ihr.2 _ _ (by omega) ordR) fun _ => ordR
        · show All (fun x => x.hi < f) _
          exact of_ite (fun _ => cut_below ordL.2 below (delete_avoids left ordL f (n.lo - 1) (by omega)))
            fun _ => below.mono fun _ _ => by omega
        · show All (fun x => t < x.lo) _
          exact of_ite (fun _ => cut_above ordR.2 above (delete_avoids right ordR (n.hi + 1) t (by omega)))
            fun _ => above.mono fun _ _ => by omega
      split
      · -- the new range lies in the node: its ends go to the subtrees
        refine ordered_node_iff.mpr ⟨?_, ?_, le, ?_, ?_⟩
        · exact of_ite (fun _ => ihl.1 _ _ _ (by omega) ordL) fun _ => ordL
        · exact of_ite (fun _ => ihr.1 _ _ _ (by omega) ordR) fun _ => ordR
        · show All (fun x => x.hi < f) _
          exact of_ite (fun _ => add_below _ _ _ (below.mono fun _ _ => by omega) (by omega))
            fun _ => below.mono fun _ _ => by omega
        · show All (fun x => t < x.lo) _
          exact of_ite (fun _ => add_above _ _ _ (above.mono fun _ _ => by omega) (by omega))
            fun _ => above.mono fun _ _ => by omega
      split
      · exact ordered_node_iff.mpr ⟨ihl.1 f t id le ordL, ordR, by simp; omega,
          add_below f t id (below.mono fun _ _ => by simp; omega) (by simp), above⟩
      split
      · exact ordered_node_iff.mpr ⟨ordL, ihr.1 f t id le ordR, by simp; omega, below,
          add_above f t id (above.mono fun _ _ => by simp; omega) (by simp; omega)⟩
      · exact ordered
    · obtain ⟨ordL, ordR, nn, below, above⟩ := ordered_node_iff.mp ordered
      rw [itreeDelete]
      split
      · exact ordered_node_iff.mpr ⟨ihl.2 f t le ordL, ordR, nn, delete_below f t below, above⟩
      split
      · exact ordered_node_iff.mpr ⟨ordL, ihr.2 f t le ordR, nn, below, delete_above f t above⟩
      split
      · exact Ordered.remove (ordered_trimmed ordered ihl.2 ihr.2)
      split
      · split
        · exact ordered_node_iff.mpr ⟨ordL, ordR, by simp; omega, below.mono fun _ _ => by simp; omega, above⟩
        split
        · exact ordered_node_iff.mpr ⟨ordL, ordR, by simp; omega, below, above.mono fun _ _ => by simp; omega⟩
        split
        · exact ordered_node_iff.mpr ⟨ordL, ihr.1 _ _ _ (by omega) ordR, by simp; omega, below,
            add_above _ _ _ (above.mono fun _ _ => by simp; omega) (by simp; omega)⟩
        · exact ordered_node_iff.mpr ⟨ihl.1 _ _ _ (by omega) ordL, ordR, by simp; omega,
            add_below _ _ _ (below.mono fun _ _ => by simp; omega) (by simp; omega), above⟩
      split
      · exact ordered_node_iff.mpr ⟨ihl.2 f t le ordL, ordR, by simp; omega,
          delete_below f t (below.mono fun _ _ => by simp; omega), above⟩
      split
      · exact ordered_node_iff.mpr ⟨ordL, ihr.2 f t le ordR, by simp; omega, below,
          delete_above f t (above.mono fun _ _ => by simp; omega)⟩
      · exact ordered

/-! ## What `itree_find` returns -/

theorem find_eq_zero {o : ITree} {v : Nat} (none : All (fun x => ¬ (x.lo ≤ v ∧ v ≤ x.hi)) o) :
    itreeFind o v = 0 := by
  induction o with
  | nil => rfl
  | node left n right ihl ihr =>
    obtain ⟨hl, hn, hr⟩ := (all_node ..).mp none
    simp only [itreeFind]
    rw [if_neg (by omega)]
    split
    · exact ihl hl
    · exact ihr hr

/-- In an ordered tree the search finds the range that holds the value. -/
theorem find_of_mem {o : ITree} (ordered : Ordered o) {x : Span} (member : x ∈ itreeTolist o) {v : Nat}
    (low : x.lo ≤ v) (high : v ≤ x.hi) : itreeFind o v = x.id := by
  induction o with
  | nil => simp at member
  | node left n right ihl ihr =>
    obtain ⟨ordL, ordR, _, below, above⟩ := ordered_node_iff.mp ordered
    simp only [tolist_node, List.mem_append, List.mem_cons] at member
    simp only [itreeFind]
    rcases member with member | rfl | member
    · have := below x member
      rw [if_neg (by omega), if_pos (by omega)]
      exact ihl ordL member
    · rw [if_pos ⟨low, high⟩]
    · have := above x member
      rw [if_neg (by omega), if_neg (by omega)]
      exact ihr ordR member

/-- Two ordered trees whose ranges agree on a value, up to their ids, find the same id for it. -/
theorem find_congr {o o' : ITree} (ordered : Ordered o) (ordered' : Ordered o') {v : Nat}
    (forth : ∀ x ∈ itreeTolist o', x.lo ≤ v → v ≤ x.hi → ∃ y ∈ itreeTolist o, y.lo ≤ v ∧ v ≤ y.hi ∧ y.id = x.id)
    (back : ∀ y ∈ itreeTolist o, y.lo ≤ v → v ≤ y.hi → ∃ x ∈ itreeTolist o', x.lo ≤ v ∧ v ≤ x.hi) :
    itreeFind o' v = itreeFind o v := by
  by_cases held : ∃ y ∈ itreeTolist o, y.lo ≤ v ∧ v ≤ y.hi
  · obtain ⟨y, member, low, high⟩ := held
    obtain ⟨x, member', low', high'⟩ := back y member low high
    obtain ⟨z, memberZ, lowZ, highZ, same⟩ := forth x member' low' high'
    calc itreeFind o' v = x.id := find_of_mem ordered' member' low' high'
      _ = z.id := same.symm
      _ = itreeFind o v := (find_of_mem ordered memberZ lowZ highZ).symm
  · have none : All (fun x => ¬ (x.lo ≤ v ∧ v ≤ x.hi)) o := fun y member covers => held ⟨y, member, covers⟩
    have none' : All (fun x => ¬ (x.lo ≤ v ∧ v ≤ x.hi)) o' := fun x member covers => by
      obtain ⟨y, memberY, low, high, _⟩ := forth x member covers.1 covers.2
      exact held ⟨y, memberY, low, high⟩
    rw [find_eq_zero none, find_eq_zero none']

theorem find_remove {left right : ITree} {span : Span} (ordered : Ordered (node left span right)) (v : Nat) :
    itreeFind (itreeRemove (node left span right)) v =
      if span.lo ≤ v ∧ v ≤ span.hi then 0 else itreeFind (node left span right) v := by
  obtain ⟨_, _, _, below, above⟩ := ordered_node_iff.mp ordered
  split
  · -- the other ranges lie below or above the removed one
    refine find_eq_zero (all_remove span (below.mono fun _ _ => by omega) (above.mono fun _ _ => by omega))
  · next outside =>
    refine find_congr ordered ordered.remove (fun x member low high => ⟨x, ?_, low, high, rfl⟩)
      fun y member low high => ⟨y, ?_, low, high⟩
    · rw [tolist_remove, List.mem_append] at member
      simp only [tolist_node, List.mem_append, List.mem_cons]
      tauto
    · simp only [tolist_node, List.mem_append, List.mem_cons] at member
      rw [tolist_remove, List.mem_append]
      rcases member with member | rfl | member
      · exact .inl member
      · exact absurd ⟨low, high⟩ outside
      · exact .inr member

/-- After `itree_add` the values of the range find its id, and after
`itree_delete` nothing; every other value finds what it found before. -/
theorem find_spec : ∀ o : ITree, Ordered o →
    (∀ f t id v : Nat, f ≤ t → itreeFind (itreeAdd o f t id) v = if f ≤ v ∧ v ≤ t then id else itreeFind o v) ∧
    (∀ f t v : Nat, f ≤ t → itreeFind (itreeDelete o f t) v = if f ≤ v ∧ v ≤ t then 0 else itreeFind o v) := by
  intro o
  induction o with
  | nil =>
    intro _
    refine ⟨fun f t id v _ => ?_, fun f t v _ => ?_⟩
    · simp only [itreeAdd, itreeFind]
      split <;> simp_all
    · simp [itreeDelete, itreeFind]
  | node left n right ihl ihr =>
    intro ordered
    obtain ⟨ordL, ordR, nn, below, above⟩ := ordered_node_iff.mp ordered
    have leftZero : ∀ v, n.lo ≤ v → itreeFind left v = 0 := fun v low =>
      find_eq_zero (below.mono fun _ _ => by omega)
    have rightZero : ∀ v, v ≤ n.hi → itreeFind right v = 0 := fun v high =>
      find_eq_zero (above.mono fun _ _ => by omega)
    -- what the subtrees find once cut below or above the node
    have cutLeft : ∀ f v, f ≤ n.lo → itreeFind (if f < n.lo then itreeDelete left f (n.lo - 1) else left) v =
        if f ≤ v ∧ v < n.lo then 0 else itreeFind left v := by
      intro f v le
      split
      · rw [(ihl ordL).2 _ _ v (by omega)]
        split_ifs <;> first | rfl | omega
      · rw [if_neg (show ¬ (f ≤ v ∧ v < n.lo) by omega)]
    have cutRight : ∀ t v, n.hi ≤ t → itreeFind (if t > n.hi then itreeDelete right (n.hi + 1) t else right) v =
        if n.hi + 1 ≤ v ∧ v ≤ t then 0 else itreeFind right v := by
      intro t v le
      split
      · exact (ihr ordR).2 _ _ v (by omega)
      · rw [if_neg (show ¬ (n.hi + 1 ≤ v ∧ v ≤ t) by omega)]
    refine ⟨fun f t id v le => ?_, fun f t v le => ?_⟩
    · rw [itreeAdd]
      split
      · simp only [itreeFind, (ihl ordL).1 f t id v le]
        split_ifs <;> first | rfl | omega
      split
      · simp only [itreeFind, (ihr ordR).1 f t id v le]
        split_ifs <;> first | rfl | omega
      split
      · simp only [itreeFind, cutLeft f v (by omega), cutRight t v (by omega)]
        split_ifs <;> first | rfl | omega
      split
      · -- the ends of the node keep its id
        have endLeft : itreeFind (if f > n.lo then itreeAdd left n.lo (f - 1) n.id else left) v =
            if n.lo ≤ v ∧ v < f then n.id else itreeFind left v := by
          split
          · rw [(ihl ordL).1 _ _ _ v (by omega)]
            split_ifs <;> first | rfl | omega
          · rw [if_neg (show ¬ (n.lo ≤ v ∧ v < f) by omega)]
        have endRight : itreeFind (if t < n.hi then itreeAdd right (t + 1) n.hi n.id else right) v =
            if t + 1 ≤ v ∧ v ≤ n.hi then n.id else itreeFind right v := by
          split
          · exact (ihr ordR).1 _ _ _ v (by omega)
          · rw [if_neg (show ¬ (t + 1 ≤ v ∧ v ≤ n.hi) by omega)]
        simp only [itreeFind, endLeft, endRight]
        split_ifs <;> first | rfl | omega
      split
      · simp only [itreeFind, (ihl ordL).1 f t id v le]
        split_ifs <;> first | rfl | omega
      split
      · simp only [itreeFind, (ihr ordR).1 f t id v le]
        split_ifs <;> first | rfl | omega
      · omega
    · rw [itreeDelete]
      split
      · simp only [itreeFind, (ihl ordL).2 f t v le]
        split_ifs <;> first | rfl | omega
      split
      · simp only [itreeFind, (ihr ordR).2 f t v le]
        split_ifs <;> first | rfl | omega
      split
      · rw [find_remove (ordered_trimmed ordered (ordered_preserved left).2 (ordered_preserved right).2)]
        simp only [itreeFind, cutLeft f v (by omega), cutRight t v (by omega)]
        split_ifs <;> first | rfl | omega
      split
      · -- what the node keeps stays in it or goes to a subtree
        split
        · simp only [itreeFind]
          split_ifs <;> first | rfl | omega | exact leftZero v (by omega)
        split
        · simp only [itreeFind]
          split_ifs <;> first | rfl | omega | exact rightZero v (by omega)
        split
        · simp only [itreeFind, (ihr ordR).1 _ _ n.id v (show t + 1 ≤ n.hi by omega)]
          split_ifs <;> first | rfl | omega | exact rightZero v (by omega)
        · simp only [itreeFind, (ihl ordL).1 _ _ n.id v (show n.lo ≤ f - 1 by omega)]
          split_ifs <;> first | rfl | omega | exact leftZero v (by omega)
      split
      · simp only [itreeFind, (ihl ordL).2 f t v le]
        split_ifs <;> first | rfl | omega
      split
      · simp only [itreeFind, (ihr ordR).2 f t v le]
        split_ifs <;> first | rfl | omega
      · omega

/-! ## Rebalancing -/

theorem tolist_totree (spans : List Span) : itreeTolist (itreeTotree spans) = spans := by
  fun_induction itreeTotree spans with
  | case1 => rfl
  | case2 spans h ihl ihr =>
    rw [tolist_node, ihl, ihr, List.get_eq_getElem, ← List.drop_eq_getElem_cons, List.take_append_drop]

theorem simplify_lo (spans : List Span) : ∀ x ∈ itreeSimplify spans, ∃ y ∈ spans, y.lo = x.lo := by
  fun_induction itreeSimplify spans with
  | case1 a b rest meets ih =>
    intro x member
    obtain ⟨y, memberY, same⟩ := ih x member
    rcases List.mem_cons.mp memberY with rfl | memberY
    · exact ⟨a, by simp, same⟩
    · exact ⟨y, by simp [memberY], same⟩
  | case2 a b rest apart ih =>
    intro x member
    rcases List.mem_cons.mp member with rfl | member
    · exact ⟨x, by simp, rfl⟩
    · obtain ⟨y, memberY, same⟩ := ih x member
      exact ⟨y, List.mem_cons_of_mem a memberY, same⟩
  | case3 spans _ => exact fun x member => ⟨x, member, rfl⟩

-- a merged range is covered by the ranges it was made of
theorem simplify_forth (spans : List Span) : ∀ x ∈ itreeSimplify spans, ∀ v, x.lo ≤ v → v ≤ x.hi →
    ∃ y ∈ spans, y.lo ≤ v ∧ v ≤ y.hi ∧ y.id = x.id := by
  fun_induction itreeSimplify spans with
  | case1 a b rest meets ih =>
    intro x member v low high
    obtain ⟨y, memberY, lowY, highY, same⟩ := ih x member v low high
    rcases List.mem_cons.mp memberY with rfl | memberY
    · -- the merged range: the value lies in the first part or in the second
      by_cases first : v ≤ a.hi
      · exact ⟨a, by simp, lowY, first, same⟩
      · exact ⟨b, by simp, by omega, highY, meets.1 ▸ same⟩
    · exact ⟨y, by simp [memberY], lowY, highY, same⟩
  | case2 a b rest apart ih =>
    intro x member v low high
    rcases List.mem_cons.mp member with rfl | member
    · exact ⟨x, by simp, low, high, rfl⟩
    · obtain ⟨y, memberY, lowY, highY, same⟩ := ih x member v low high
      exact ⟨y, List.mem_cons_of_mem a memberY, lowY, highY, same⟩
  | case3 spans _ => exact fun x member v low high => ⟨x, member, low, high, rfl⟩

theorem simplify_back (spans : List Span) : (∀ x ∈ spans, x.lo ≤ x.hi) →
    ∀ y ∈ spans, ∀ v, y.lo ≤ v → v ≤ y.hi → ∃ x ∈ itreeSimplify spans, x.lo ≤ v ∧ v ≤ x.hi := by
  fun_induction itreeSimplify spans with
  | case1 a b rest meets ih =>
    intro nonempty y member v low high
    have na := nonempty a (by simp)
    have nb := nonempty b (by simp)
    have merged : ∀ x ∈ ({ a with hi := b.hi } :: rest), x.lo ≤ x.hi := by
      intro x memberX
      rcases List.mem_cons.mp memberX with rfl | memberX
      · simp only
        omega
      · exact nonempty x (by simp [memberX])
    -- the first two ranges lie in the merged one
    have inMerged : ∀ v, a.lo ≤ v → v ≤ b.hi → ∃ x ∈ itreeSimplify ({ a with hi := b.hi } :: rest), x.lo ≤ v ∧ v ≤ x.hi :=
      fun v low high => ih merged _ List.mem_cons_self v low high
    rcases List.mem_cons.mp member with rfl | member
    · exact inMerged v low (by omega)
    rcases List.mem_cons.mp member with rfl | member
    · exact inMerged v (by omega) high
    · exact ih merged y (by simp [member]) v low high
  | case2 a b rest apart ih =>
    intro nonempty y member v low high
    rcases List.mem_cons.mp member with rfl | member
    · exact ⟨y, by simp, low, high⟩
    · obtain ⟨x, memberX, lowX, highX⟩ := ih (fun x m => nonempty x (List.mem_cons_of_mem a m)) y member v low high
      exact ⟨x, List.mem_cons_of_mem a memberX, lowX, highX⟩
  | case3 spans _ => exact fun _ y member v low high => ⟨y, member, low, high⟩

theorem simplify_sorted (spans : List Span) : spans.Pairwise (fun x y => x.hi < y.lo) → (∀ x ∈ spans, x.lo ≤ x.hi) →
    (itreeSimplify spans).Pairwise (fun x y => x.hi < y.lo) ∧ ∀ x ∈ itreeSimplify spans, x.lo ≤ x.hi := by
  fun_induction itreeSimplify spans with
  | case1 a b rest meets ih =>
    intro sorted nonempty
    simp only [List.pairwise_cons, List.mem_cons, forall_eq_or_imp] at sorted nonempty
    refine ih (List.pairwise_cons.mpr ⟨fun x member => sorted.2.1 x member, sorted.2.2⟩) ?_
    simp only [List.mem_cons, forall_eq_or_imp]
    exact ⟨by omega, nonempty.2.2⟩
  | case2 a b rest apart ih =>
    intro sorted nonempty
    have sortedTail := List.Pairwise.of_cons sorted
    obtain ⟨sorted', nonempty'⟩ := ih sortedTail fun x m => nonempty x (List.mem_cons_of_mem a m)
    refine ⟨List.pairwise_cons.mpr ⟨fun x member => ?_, sorted'⟩, ?_⟩
    · -- a merged range starts where a range of the list starts
      obtain ⟨y, memberY, same⟩ := simplify_lo _ x member
      exact same ▸ List.rel_of_pairwise_cons sorted memberY
    · simp only [List.mem_cons, forall_eq_or_imp]
      exact ⟨nonempty a (by simp), nonempty'⟩
  | case3 spans _ => exact fun sorted nonempty => ⟨sorted, nonempty⟩

/-- `itree_rebalance` keeps the tree ordered and what it finds for every value. -/
theorem rebalance_spec {o : ITree} (ordered : Ordered o) :
    Ordered (itreeRebalance o) ∧ ∀ v, itreeFind (itreeRebalance o) v = itreeFind o v := by
  have simplified := simplify_sorted (itreeTolist o) ordered.1 ordered.2
  have ordered' : Ordered (itreeRebalance o) := by
    simpa only [Ordered, All, itreeRebalance, tolist_totree] using simplified
  refine ⟨ordered', fun v => find_congr ordered ordered' ?_ ?_⟩
  · rw [itreeRebalance, tolist_totree]
    exact fun x member => simplify_forth _ x member v
  · rw [itreeRebalance, tolist_totree]
    exact fun y member => simplify_back _ ordered.2 y member v

-- `itree_add_interval` puts the ends in order
theorem addInterval_eq (o : ITree) (f t id : Nat) :
    itreeAddInterval o f t id =
      if id = 0 then itreeDelete o (min f t) (max f t) else itreeAdd o (min f t) (max f t) id := by
  rw [itreeAddInterval]
  rcases Nat.lt_or_ge t f with lt | ge
  · rw [Nat.min_eq_right (Nat.le_of_lt lt), Nat.max_eq_left (Nat.le_of_lt lt), if_pos lt, if_pos lt]
  · rw [Nat.min_eq_left ge, Nat.max_eq_right ge, if_neg (Nat.not_lt.mpr ge), if_neg (Nat.not_lt.mpr ge)]

/-- `itree_add_interval` keeps the tree ordered, and maps the values between the two
ends, in either order, to the id: `0`, no rack, when it deletes. -/
theorem addInterval_spec {o : ITree} (ordered : Ordered o) (f t id : Nat) :
    Ordered (itreeAddInterval o f t id) ∧
      ∀ v, itreeFind (itreeAddInterval o f t id) v = if min f t ≤ v ∧ v ≤ max f t then id else itreeFind o v := by
  have le : min f t ≤ max f t := by omega
  rw [addInterval_eq]
  split
  · next none =>
    subst none
    exact ⟨(ordered_preserved o).2 _ _ le ordered, fun v => (find_spec o ordered).2 _ _ v le⟩
  · exact ⟨(ordered_preserved o).1 _ _ _ le ordered, fun v => (find_spec o ordered).1 _ _ _ v le⟩

end ITree

/-! ## The map from addresses to racks -/

/-- What `itree_add_interval` does to the rack of each address. -/
def assignRange (rack : Nat → Nat) (f t id : Nat) : Nat → Nat :=
  fun v => if min f t ≤ v ∧ v ≤ max f t then id else rack v

/-- A tree `itree_find` can search: its ranges in order, apart and not empty. -/
structure RackTree where
  tree : ITree
  ordered : Ordered tree

namespace RackTree

def empty : RackTree := ⟨nil, ordered_nil⟩

def addInterval (r : RackTree) (f t id : Nat) : RackTree :=
  ⟨itreeAddInterval r.tree f t id, (addInterval_spec r.ordered f t id).1⟩

def rebalance (r : RackTree) : RackTree := ⟨itreeRebalance r.tree, (rebalance_spec r.ordered).1⟩

/-- The rack `itree_find` gives each address. -/
def rack (r : RackTree) (v : Nat) : Nat := itreeFind r.tree v

@[simp] theorem rack_empty : empty.rack = fun _ => 0 := rfl

@[simp] theorem rack_addInterval (r : RackTree) (f t id : Nat) :
    (r.addInterval f t id).rack = assignRange r.rack f t id :=
  funext (addInterval_spec r.ordered f t id).2

@[simp] theorem rack_rebalance (r : RackTree) : r.rebalance.rack = r.rack :=
  funext (rebalance_spec r.ordered).2

end RackTree

end SaunaFS
