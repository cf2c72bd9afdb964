import Mathlib.Algebra.BigOperators.Ring.Finset
import Mathlib.Order.BoundedOrder.Basic
import Mathlib.Order.Fin.Basic
import SaunaFS.Common.ChunkCopiesCalculator
import SaunaFS.Lib.MergeJoin

/-! How far the available parts of a chunk are from its goal
(`src/common/chunk_copies_calculator.cc`): `operationCount`, and for one part the
labels to recover (`getLabelsToRecover`) and the labels to remove from
(`getRemovePool`).

Media labels are ordered by their handles, and `MediaLabel::kWildcard`, the largest
handle, is `⊤`. A part's labels are a `flat_map`, sorted by label. The three
functions walk the target part against the available one in the same way, label
by label until the target's wildcard; that walk is `MergeJoin.join`, and each
function is a fold of its own loop body over it. Surplus available copies are
first matched against the copies the target's wildcard asks for (`absorb`).

The result is the closed form of `operationCount`: what the available part lacks
of the explicit labels plus the wildcard copies left unmatched, and the surplus
beyond what the wildcard takes.
-/

set_option autoImplicit false

namespace SaunaFS

open MergeJoin

variable {Label : Type}

/-! ## The loop bodies -/

/-- `result.second += x - min(wcount, x); wcount -= min(wcount, x)` on `(second, wcount)`:
surplus copies are first taken as copies the wildcard asks for. -/
def absorb (acc : Int × Int) (surplus : Int) : Int × Int :=
  (acc.1 + (surplus - min acc.2 surplus), acc.2 - min acc.2 surplus)

/-- The body of `operationCount`'s loops, on `(first, (second, wcount))`. -/
def operationStep (acc : Int × (Int × Int)) : Event Label UInt16 UInt16 → Int × (Int × Int)
  | .right (_, available) => (acc.1, absorb acc.2 available.toNat)
  | .both (_, target) (_, available) =>
    if target < available then (acc.1, absorb acc.2 (available.toNat - target.toNat))
    else if available < target then (acc.1 + (target.toNat - available.toNat), acc.2)
    else acc
  | .left (_, target) => (acc.1 + target.toNat, acc.2)

section Absorb

theorem absorb_eq (x w s : Int) : absorb (x, w) s = (x + max (s - w) 0, max (w - s) 0) := by
  simp only [absorb, Prod.mk.injEq]
  constructor <;> omega

theorem absorb_absorb (acc : Int × Int) (s t : Int) (budget : 0 ≤ acc.2) (second : 0 ≤ t) :
    absorb (absorb acc s) t = absorb acc (s + t) := by
  obtain ⟨x, w⟩ := acc
  simp only at budget
  rw [absorb_eq x w s, absorb_eq, absorb_eq x w (s + t)]
  simp only [Prod.mk.injEq]
  constructor <;> omega

theorem absorb_budget (acc : Int × Int) (s : Int) : 0 ≤ (absorb acc s).2 := by
  simp only [absorb]
  omega

end Absorb

/-- How many copies `entry` has beyond those under its label elsewhere: what the walk
adds to the parts to add, seen from the target, and to the surplus, seen from the
available part. -/
def excess (entry : Label × UInt16) (other : Option UInt16) : Int :=
  max ((entry.2.toNat : Int) - ((other.map UInt16.toNat).getD 0 : Nat)) 0

theorem excess_nonneg (entry : Label × UInt16) (other : Option UInt16) : 0 ≤ excess entry other :=
  le_max_right _ _

/-- One step of the loops adds the target's excess to the parts to add, and absorbs the
available part's excess. -/
theorem operationStep_eq (acc : Int × (Int × Int)) (budget : 0 ≤ acc.2.2) (event : Event Label UInt16 UInt16) :
    operationStep acc event = (acc.1 + leftPart excess event, absorb acc.2 (rightPart excess event)) := by
  obtain ⟨first, second, wcount⟩ := acc
  simp only at budget
  have unchanged : absorb (second, wcount) 0 = (second, wcount) := by
    rw [absorb_eq second wcount 0]
    simp only [Prod.mk.injEq]
    constructor <;> omega
  cases event with
  | right entry =>
    obtain ⟨label, available⟩ := entry
    simp [operationStep, excess]
  | both target available =>
    obtain ⟨label, target⟩ := target
    obtain ⟨label', available⟩ := available
    simp only [operationStep, leftPart_both, rightPart_both, excess, Option.map_some, Option.getD_some]
    by_cases below : target < available
    · rw [if_pos below]
      rw [UInt16.lt_iff_toNat_lt] at below
      have deficit : max ((target.toNat : Int) - available.toNat) 0 = 0 := by omega
      rw [deficit, add_zero]
      congr 2
      omega
    · rw [if_neg below]
      rw [UInt16.lt_iff_toNat_lt, not_lt] at below
      by_cases above : available < target
      · rw [if_pos above]
        rw [UInt16.lt_iff_toNat_lt] at above
        have surplus : max ((available.toNat : Int) - target.toNat) 0 = 0 := by omega
        rw [surplus, unchanged]
        congr 2
        omega
      · rw [if_neg above]
        rw [UInt16.lt_iff_toNat_lt, not_lt] at above
        have same : target.toNat = available.toNat := by omega
        rw [same, sub_self, max_self, add_zero, unchanged]
  | left entry =>
    obtain ⟨label, target⟩ := entry
    simp [operationStep, excess, unchanged]

theorem rightPart_excess_nonneg (event : Event Label UInt16 UInt16) : 0 ≤ rightPart excess event := by
  cases event <;> simp [excess_nonneg]

/-- The loops fold to the sums of the excesses: the parts to add grow by the target's,
and the surplus is absorbed at once. -/
theorem foldl_operationStep (events : List (Event Label UInt16 UInt16)) (first : Int) (acc : Int × Int)
    (budget : 0 ≤ acc.2) :
    events.foldl operationStep (first, acc) =
      (first + (events.map (leftPart excess)).sum, absorb acc (events.map (rightPart excess)).sum) := by
  induction events generalizing first acc with
  | nil =>
    obtain ⟨x, w⟩ := acc
    simp only at budget
    rw [List.foldl_nil, List.map_nil, List.sum_nil, List.map_nil, List.sum_nil, add_zero, absorb_eq x w 0]
    simp only [Prod.mk.injEq, true_and]
    constructor <;> omega
  | cons event events ih =>
    have rest : 0 ≤ (events.map (rightPart excess)).sum :=
      List.sum_nonneg fun x member => by
        obtain ⟨e, -, rfl⟩ := List.mem_map.mp member
        exact rightPart_excess_nonneg e
    rw [List.foldl_cons, operationStep_eq (first, acc) budget event, ih _ _ (absorb_budget acc _),
      absorb_absorb acc _ _ budget rest]
    simp only [List.map_cons, List.sum_cons, Prod.mk.injEq, and_true]
    omega

/-- What `getLabelsToRecover` writes for an entry of the target, given what the
available part holds under its label. -/
def recoverEntry (entry : Label × UInt16) : Option UInt16 → Option (Label × UInt16)
  | none => some entry
  | some available => if available < entry.2 then some (entry.1, entry.2 - available) else none

/-- What `getRemovePool` writes for an entry of the available part, given what the
target asks for under its label. -/
def removeEntry (entry : Label × UInt16) : Option UInt16 → Option (Label × UInt16)
  | none => some (entry.1, 1)
  | some target => if target < entry.2 then some (entry.1, 1) else none

theorem recoverEntry_key {entry p : Label × UInt16} {other : Option UInt16} (written : recoverEntry entry other = some p) :
    p.1 = entry.1 := by
  cases other with
  | none => cases written; rfl
  | some available =>
    simp only [recoverEntry] at written
    split_ifs at written
    cases written
    rfl

theorem removeEntry_key {entry p : Label × UInt16} {other : Option UInt16} (written : removeEntry entry other = some p) :
    p.1 = entry.1 := by
  cases other with
  | none => cases written; rfl
  | some target =>
    simp only [removeEntry] at written
    split_ifs at written
    cases written
    rfl

/-- The copies written for a target entry are its excess over the available ones. -/
theorem excess_eq_recoverEntry (entry : Label × UInt16) (other : Option UInt16) :
    excess entry other = ((recoverEntry entry other).map fun p => (p.2.toNat : Int)).getD 0 := by
  obtain ⟨label, target⟩ := entry
  cases other with
  | none => simp [excess, recoverEntry]
  | some available =>
    simp only [excess, recoverEntry, Option.map_some, Option.getD_some]
    split_ifs with below
    · rw [UInt16.lt_iff_toNat_lt] at below
      rw [Option.map_some, Option.getD_some, UInt16.toNat_sub_of_le _ _ (UInt16.le_iff_toNat_le.mpr (by omega))]
      omega
    · rw [UInt16.lt_iff_toNat_lt, not_lt] at below
      simp only [Option.map_none, Option.getD_none]
      omega

/-- An available entry that `getRemovePool` leaves out has no excess. -/
theorem excess_eq_zero_of_removeEntry {entry : Label × UInt16} {other : Option UInt16}
    (kept : removeEntry entry other = none) : excess entry other = 0 := by
  cases other with
  | none => cases kept
  | some target =>
    simp only [removeEntry, ite_eq_right_iff, reduceCtorEq, imp_false, UInt16.lt_iff_toNat_lt, not_lt] at kept
    simp only [excess, Option.map_some, Option.getD_some]
    omega

theorem Labels.countLabels_perm {labels labels' : Labels Label} (perm : labels.Perm labels') :
    labels.countLabels = labels'.countLabels :=
  (perm.map _).sum_eq

variable [LinearOrder Label]

namespace Labels

/-- The copies `labels` holds under `label`; `0` without an entry. -/
def count (labels : Labels Label) (label : Label) : Int := ((labels.lookup label).map UInt16.toNat).getD 0

/-- `labels[label] = count`. -/
def assign (labels : Labels Label) (label : Label) (count : UInt16) : Labels Label :=
  SortedKeys.assign label count labels

/-- `flat_map::find` is the first entry under the label. -/
theorem find_eq_lookup (labels : Labels Label) (label : Label) : labels.find label = labels.lookup label := by
  induction labels with
  | nil => rfl
  | cons entry labels ih =>
    obtain ⟨name, count⟩ := entry
    by_cases same : name = label
    · subst same
      simp [find]
    · rw [MergeJoin.lookup_cons_of_ne _ _ same, ← ih]
      simp [find, same]

theorem count_nonneg (labels : Labels Label) (label : Label) : 0 ≤ labels.count label := by
  simp only [count]
  omega

theorem assign_perm {labels : Labels Label} {label : Label} (count : UInt16) (fresh : ∀ e ∈ labels, e.1 ≠ label) :
    (labels.assign label count).Perm ((label, count) :: labels) :=
  SortedKeys.assign_perm label count fresh

theorem lookup_assign_self (labels : Labels Label) (label : Label) (count : UInt16) :
    (labels.assign label count).lookup label = some count :=
  SortedKeys.lookup_assign_self label count labels

theorem count_lt (labels : Labels Label) (label : Label) : labels.count label < 65536 := by
  simp only [count]
  cases labels.lookup label with
  | none => decide
  | some c =>
    have bound := c.toNat_lt
    simp only [Option.map_some, Option.getD_some]
    omega

end Labels

/-! ## The loops of `getLabelsToRecover` and `getRemovePool` -/

/-- The body of `getLabelsToRecover`'s loops, on `(result, wcount)`. -/
def recoverStep (acc : Labels Label × Int) : Event Label UInt16 UInt16 → Labels Label × Int
  | .right (_, available) => (acc.1, acc.2 - min acc.2 available.toNat)
  | .both (label, target) (_, available) =>
    let result := if available < target then acc.1.assign label (target - available) else acc.1
    if target < available then (result, acc.2 - min acc.2 (available.toNat - target.toNat)) else (result, acc.2)
  | .left (label, target) => (acc.1.assign label target, acc.2)

/-- The body of `getRemovePool`'s loops, on `(result, wcount)`. -/
def removeStep (acc : Labels Label × Int) : Event Label UInt16 UInt16 → Labels Label × Int
  | .right (label, available) => (acc.1.assign label 1, acc.2 + available.toNat)
  | .both (label, target) (_, available) =>
    if target < available then (acc.1.assign label 1, acc.2 + (available.toNat - target.toNat)) else acc
  | .left _ => acc

/-- One step of `getLabelsToRecover` writes the target entry's `recoverEntry`, and its
`wcount` moves as `operationCount`'s does. -/
theorem recoverStep_eq (acc : Labels Label × Int) (first second : Int) (event : Event Label UInt16 UInt16) :
    recoverStep acc event =
      ((((leftEntry event).bind fun p => recoverEntry p.1 p.2).map fun p => acc.1.assign p.1 p.2).getD acc.1,
        (operationStep (first, second, acc.2) event).2.2) := by
  obtain ⟨result, wcount⟩ := acc
  cases event with
  | right entry => rfl
  | both target available =>
    obtain ⟨label, target⟩ := target
    obtain ⟨label', available⟩ := available
    simp only [recoverStep, operationStep, leftEntry, Option.bind_some, recoverEntry]
    by_cases below : target < available
    · have notAbove : ¬available < target := by
        rw [UInt16.lt_iff_toNat_lt] at below ⊢
        omega
      simp [below, notAbove, absorb]
    · by_cases above : available < target <;> simp [below, above]
  | left entry => rfl

/-- `getLabelsToRecover`'s loops assign the entries `recoverEntry` writes, in order. -/
theorem foldl_recoverStep (events : List (Event Label UInt16 UInt16)) (result : Labels Label)
    (wcount first second : Int) :
    events.foldl recoverStep (result, wcount) =
      ((events.filterMap fun e => (leftEntry e).bind fun p => recoverEntry p.1 p.2).foldl
          (fun acc p => acc.assign p.1 p.2) result,
        (events.foldl operationStep (first, second, wcount)).2.2) := by
  induction events generalizing result wcount first second with
  | nil => rfl
  | cons event events ih =>
    rw [List.foldl_cons, List.foldl_cons, recoverStep_eq _ first second]
    generalize operationStep (first, second, wcount) event = next
    obtain ⟨first', second', wcount'⟩ := next
    rw [ih _ _ first' second', List.filterMap_cons]
    cases (leftEntry event).bind fun p => recoverEntry p.1 p.2 <;> rfl

/-- One step of `getRemovePool` writes the available entry's `removeEntry` and adds its
excess to `wcount`, for an event that pairs entries under one label. -/
theorem removeStep_eq (acc : Labels Label × Int) (event : Event Label UInt16 UInt16)
    (keys : ∀ l r, event = .both l r → l.1 = r.1) :
    removeStep acc event =
      ((((rightEntry event).bind fun p => removeEntry p.1 p.2).map fun p => acc.1.assign p.1 p.2).getD acc.1,
        acc.2 + rightPart excess event) := by
  obtain ⟨result, wcount⟩ := acc
  cases event with
  | right entry =>
    obtain ⟨label, available⟩ := entry
    simp [removeStep, rightEntry, removeEntry, excess]
  | both target available =>
    obtain ⟨label, target⟩ := target
    obtain ⟨label', available⟩ := available
    obtain rfl : label = label' := keys _ _ rfl
    simp only [removeStep, rightEntry, Option.bind_some, removeEntry, rightPart_both, excess, Option.map_some,
      Option.getD_some]
    by_cases below : target < available
    · rw [if_pos below, if_pos below]
      rw [UInt16.lt_iff_toNat_lt] at below
      simp only [Option.map_some, Option.getD_some, Prod.mk.injEq, true_and]
      omega
    · rw [if_neg below, if_neg below]
      rw [UInt16.lt_iff_toNat_lt, not_lt] at below
      simp only [Option.map_none, Option.getD_none, Prod.mk.injEq, true_and]
      omega
  | left entry => simp [removeStep, rightEntry]

/-- `getRemovePool`'s loops assign the entries `removeEntry` writes, in order, and sum
the available excesses. -/
theorem foldl_removeStep (events : List (Event Label UInt16 UInt16)) (result : Labels Label) (wcount : Int)
    (keys : ∀ l r, Event.both l r ∈ events → l.1 = r.1) :
    events.foldl removeStep (result, wcount) =
      ((events.filterMap fun e => (rightEntry e).bind fun p => removeEntry p.1 p.2).foldl
          (fun acc p => acc.assign p.1 p.2) result,
        wcount + (events.map (rightPart excess)).sum) := by
  induction events generalizing result wcount with
  | nil => simp
  | cons event events ih =>
    rw [List.foldl_cons, removeStep_eq _ event fun l r same => keys l r (same ▸ List.mem_cons_self),
      ih _ _ fun l r member => keys l r (List.mem_cons_of_mem _ member), List.filterMap_cons, List.map_cons,
      List.sum_cons, add_assoc]
    cases (rightEntry event).bind fun p => removeEntry p.1 p.2 <;> rfl

variable [OrderTop Label]

namespace Labels

/-- The entries for explicit labels, the wildcard's left out. -/
def explicit (labels : Labels Label) : Labels Label := labels.filter fun entry => entry.1 ≠ ⊤

/-- In a `flat_map` the wildcard comes last, so the walk up to it sees every explicit label. -/
theorem processed_eq_explicit {labels : Labels Label} (sorted : SortedKeys.Strict Prod.fst labels) :
    processed (fun label => decide (label = ⊤)) labels = explicit labels := by
  induction labels with
  | nil => rfl
  | cons entry labels ih =>
    obtain ⟨later, sorted⟩ := (SortedKeys.Strict.cons_iff Prod.fst).mp sorted
    by_cases top : entry.1 = ⊤
    · -- nothing comes after the wildcard
      have empty : labels = [] := by
        refine List.eq_nil_iff_forall_not_mem.mpr fun other member => ?_
        have above := later other member
        rw [top] at above
        exact not_top_lt above
      subst empty
      simp [processed, explicit, top]
    · simp only [processed, explicit] at ih ⊢
      simp [top, ih sorted]

end Labels

/-- The walk of a target part `dst` against an available part `src`, up to the wildcard. -/
def walk (dst src : Labels Label) : List (Event Label UInt16 UInt16) := join (fun label => decide (label = ⊤)) dst src

/-! ## `operationCount` -/

/-- `ChunkCopiesCalculator::operationCount(src, dst)`: the parts to add and the parts to
remove to bring the available part `src` to the target part `dst`. -/
def operationCount (src dst : Labels Label) : Int × Int :=
  let wcount := ((dst.find ⊤).map UInt16.toNat).getD 0
  match (walk dst src).foldl operationStep (0, 0, wcount) with
  | (first, second, wcount) => (first + wcount, second)

/-- What `src` lacks of the explicit labels of `dst`. -/
def missingCopies (src dst : Labels Label) : Int :=
  ((Labels.explicit dst).map fun entry => max ((entry.2.toNat : Int) - src.count entry.1) 0).sum

/-- What `src` holds beyond the explicit labels of `dst`; copies on the wildcard label
count in full. -/
def surplusCopies (src dst : Labels Label) : Int :=
  (src.map fun entry => max ((entry.2.toNat : Int) - (Labels.explicit dst).count entry.1) 0).sum

theorem wildcard_count (dst : Labels Label) : ((((dst.find ⊤).map UInt16.toNat).getD 0 : Nat) : Int) = dst.count ⊤ := by
  rw [Labels.find_eq_lookup]
  rfl

/-- `operationCount` through the sums of the excesses over its walk. -/
theorem operationCount_walk (src dst : Labels Label) :
    operationCount src dst =
      (((walk dst src).map (leftPart excess)).sum + max (dst.count ⊤ - ((walk dst src).map (rightPart excess)).sum) 0,
        max (((walk dst src).map (rightPart excess)).sum - dst.count ⊤) 0) := by
  unfold operationCount
  dsimp only
  rw [foldl_operationStep _ 0 (0, _) (Int.natCast_nonneg _), absorb_eq, ← wildcard_count]
  simp only [zero_add]

section Sorted

variable {src dst : Labels Label} (sortedSrc : SortedKeys.Strict Prod.fst src)
  (sortedDst : SortedKeys.Strict Prod.fst dst)
include sortedSrc sortedDst

theorem sum_walk_leftPart : ((walk dst src).map (leftPart excess)).sum = missingCopies src dst := by
  rw [walk, sum_leftPart _ excess dst src sortedDst sortedSrc, Labels.processed_eq_explicit sortedDst]
  rfl

theorem sum_walk_rightPart : ((walk dst src).map (rightPart excess)).sum = surplusCopies src dst := by
  rw [walk, sum_rightPart _ excess dst src sortedDst sortedSrc, Labels.processed_eq_explicit sortedDst]
  rfl

theorem operationCount_fst_eq :
    (operationCount src dst).1 = missingCopies src dst + max (dst.count ⊤ - surplusCopies src dst) 0 := by
  rw [operationCount_walk, sum_walk_leftPart sortedSrc sortedDst, sum_walk_rightPart sortedSrc sortedDst]

theorem operationCount_snd_eq : (operationCount src dst).2 = max (surplusCopies src dst - dst.count ⊤) 0 := by
  rw [operationCount_walk, sum_walk_rightPart sortedSrc sortedDst]

end Sorted

/-- `operationCount` in closed form, for sorted parts: the parts to add are the copies the
available part lacks of the target's explicit labels, and the wildcard copies that
its surplus does not cover; the parts to remove are the surplus beyond the wildcard
copies. -/
theorem operationCount_eq (src dst : Labels Label) (sortedSrc : SortedKeys.Strict Prod.fst src)
    (sortedDst : SortedKeys.Strict Prod.fst dst) :
    operationCount src dst =
      (missingCopies src dst + max (dst.count ⊤ - surplusCopies src dst) 0,
        max (surplusCopies src dst - dst.count ⊤) 0) :=
  Prod.ext (operationCount_fst_eq sortedSrc sortedDst) (operationCount_snd_eq sortedSrc sortedDst)

/-- Labels `0` to `2` and the wildcard `3`: two copies on `0` and one on the wildcard
label available, one copy on `0`, one on `1` and two wildcard copies asked for. The
surplus copy on `0` and the copy on the wildcard label count as the two wildcard
copies: one copy on `1` is to add, and nothing to remove. -/
theorem operationCount_eq_fourLabels :
    let src : Labels (Fin 4) := [(0, 2), (3, 1)]
    let dst : Labels (Fin 4) := [(0, 1), (1, 1), (3, 2)]
    SortedKeys.Strict Prod.fst src ∧ SortedKeys.Strict Prod.fst dst ∧ operationCount src dst = (1, 0) ∧
      operationCount src dst =
        (missingCopies src dst + max (dst.count ⊤ - surplusCopies src dst) 0,
          max (surplusCopies src dst - dst.count ⊤) 0) :=
  ⟨by decide, by decide, by decide, operationCount_eq _ _ (by decide) (by decide)⟩

/-! ## `getLabelsToRecover` and `getRemovePool` on one part -/

/-- The loops of `getLabelsToRecover` on an available part `src` and a target part `dst`. -/
def labelsToRecover (src dst : Labels Label) : Labels Label :=
  let wcount : Int := ((dst.find ⊤).map UInt16.toNat).getD 0
  match (walk dst src).foldl recoverStep ([], wcount) with
  | (result, wcount) => if 0 < wcount then result.assign ⊤ (UInt16.ofNat wcount.toNat) else result

/-- The loops of `getRemovePool`. The loop over the target breaks at its first entry
under `kWildcard` and keeps that entry's count as `wilcard_target_count`. -/
def removePool (src dst : Labels Label) : Labels Label :=
  let wilcardTargetCount : Int := ((dst.find ⊤).map UInt16.toNat).getD 0
  match (walk dst src).foldl removeStep ([], 0) with
  | (result, wcount) => if wcount ≤ wilcardTargetCount then [] else result

/-- The entries `getLabelsToRecover` writes for the explicit labels of `dst`. -/
def recoverPairs (src dst : Labels Label) : Labels Label :=
  (Labels.explicit dst).filterMap fun entry => recoverEntry entry (src.lookup entry.1)

/-- The entries `getRemovePool` writes for the labels of `src`. -/
def removePairs (src dst : Labels Label) : Labels Label :=
  src.filterMap fun entry => removeEntry entry ((Labels.explicit dst).lookup entry.1)

theorem key_ne_top_of_mem_recoverPairs {src dst : Labels Label} {entry : Label × UInt16}
    (member : entry ∈ recoverPairs src dst) : entry.1 ≠ ⊤ := by
  obtain ⟨target, explicit, written⟩ := List.mem_filterMap.mp member
  rw [recoverEntry_key written]
  simpa [Labels.explicit] using (List.mem_filter.mp explicit).2

theorem countLabels_recoverPairs (src dst : Labels Label) :
    ((recoverPairs src dst).countLabels : Int) = missingCopies src dst := by
  have sums := sum_map_filterMap (fun entry => excess entry (src.lookup entry.1))
    (fun entry => recoverEntry entry (src.lookup entry.1)) (fun p => (p.2.toNat : Int))
    (fun entry => excess_eq_recoverEntry entry _) (Labels.explicit dst)
  simp only [Labels.countLabels, recoverPairs, Nat.cast_list_sum, List.map_map]
  exact sums.symm

/-- With no available entry to remove, nothing is in surplus. -/
theorem removePairs_ne_nil {src dst : Labels Label} (positive : 0 < surplusCopies src dst) :
    removePairs src dst ≠ [] := by
  intro empty
  have zero : surplusCopies src dst = 0 := by
    refine List.sum_eq_zero fun x member => ?_
    obtain ⟨entry, inside, rfl⟩ := List.mem_map.mp member
    exact excess_eq_zero_of_removeEntry (List.filterMap_eq_nil_iff.mp empty entry inside)
  omega

/-- The unmatched wildcard copies fit the `uint16_t` count written for them. -/
theorem toNat_unmatched (src dst : Labels Label) :
    (((UInt16.ofNat (max (dst.count ⊤ - surplusCopies src dst) 0).toNat).toNat : Nat) : Int) =
      max (dst.count ⊤ - surplusCopies src dst) 0 := by
  have small := Labels.count_lt dst ⊤
  have surplus : 0 ≤ surplusCopies src dst := List.sum_nonneg fun x member => by
    obtain ⟨entry, -, rfl⟩ := List.mem_map.mp member
    exact le_max_right _ _
  rw [UInt16.toNat_ofNat']
  omega

section Sorted

variable {src dst : Labels Label} (sortedSrc : SortedKeys.Strict Prod.fst src)
  (sortedDst : SortedKeys.Strict Prod.fst dst)
include sortedSrc sortedDst

theorem foldl_walk_recoverStep (wcount : Int) (budget : 0 ≤ wcount) :
    (walk dst src).foldl recoverStep ([], wcount) =
      ((recoverPairs src dst).foldl (fun (acc : Labels Label) p => acc.assign p.1 p.2) [], max (wcount - surplusCopies src dst) 0) := by
  rw [foldl_recoverStep _ [] wcount 0 0, foldl_operationStep _ 0 (0, wcount) budget, absorb_eq,
    sum_walk_rightPart sortedSrc sortedDst, ← List.filterMap_filterMap, walk,
    filterMap_leftEntry _ dst src sortedDst sortedSrc, Labels.processed_eq_explicit sortedDst, List.filterMap_map]
  rfl

theorem foldl_walk_removeStep :
    (walk dst src).foldl removeStep ([], 0) =
      ((removePairs src dst).foldl (fun (acc : Labels Label) p => acc.assign p.1 p.2) [], surplusCopies src dst) := by
  rw [foldl_removeStep (walk dst src) [] 0 fun l r member => key_eq_of_both_mem _ dst src member, zero_add,
    sum_walk_rightPart sortedSrc sortedDst, ← List.filterMap_filterMap, walk,
    filterMap_rightEntry _ dst src sortedDst sortedSrc, Labels.processed_eq_explicit sortedDst, List.filterMap_map]
  rfl

theorem labelsToRecover_eq :
    labelsToRecover src dst =
      let result := (recoverPairs src dst).foldl (fun (acc : Labels Label) p => acc.assign p.1 p.2) []
      let wcount := max (dst.count ⊤ - surplusCopies src dst) 0
      if 0 < wcount then result.assign ⊤ (UInt16.ofNat wcount.toNat) else result := by
  unfold labelsToRecover
  dsimp only
  rw [foldl_walk_recoverStep sortedSrc sortedDst _ (Int.natCast_nonneg _), ← wildcard_count]

theorem removePool_eq :
    removePool src dst =
      if surplusCopies src dst ≤ dst.count ⊤ then []
      else (removePairs src dst).foldl (fun (acc : Labels Label) p => acc.assign p.1 p.2) [] := by
  unfold removePool
  dsimp only
  rw [foldl_walk_removeStep sortedSrc sortedDst, ← wildcard_count]

omit sortedSrc in
/-- The assignments of `getLabelsToRecover` add each written entry once. -/
theorem recoverPairs_perm (src : Labels Label) :
    ((recoverPairs src dst).foldl (fun (acc : Labels Label) p => acc.assign p.1 p.2) []).Perm (recoverPairs src dst) := by
  have sorted : SortedKeys.Strict Prod.fst (recoverPairs src dst) :=
    SortedKeys.Strict.filterMap (fun _ _ written => recoverEntry_key written) (sortedDst.sublist List.filter_sublist)
  have perm := @SortedKeys.foldl_assign_perm _ _ _ (recoverPairs src dst) [] sorted.nodup (by simp)
  rw [List.append_nil] at perm
  exact perm

omit sortedDst in
theorem removePairs_perm (dst : Labels Label) :
    ((removePairs src dst).foldl (fun (acc : Labels Label) p => acc.assign p.1 p.2) []).Perm (removePairs src dst) := by
  have sorted : SortedKeys.Strict Prod.fst (removePairs src dst) :=
    SortedKeys.Strict.filterMap (fun _ _ written => removeEntry_key written) sortedSrc
  have perm := @SortedKeys.foldl_assign_perm _ _ _ (removePairs src dst) [] sorted.nodup (by simp)
  rw [List.append_nil] at perm
  exact perm

/-- `getLabelsToRecover` asks for as many copies as `operationCount` counts to add. -/
theorem countLabels_labelsToRecover :
    ((labelsToRecover src dst).countLabels : Int) = (operationCount src dst).1 := by
  rw [operationCount_fst_eq sortedSrc sortedDst, labelsToRecover_eq sortedSrc sortedDst]
  dsimp only
  have perm := recoverPairs_perm sortedDst src
  have fresh : ∀ e ∈ (recoverPairs src dst).foldl (fun (acc : Labels Label) p => acc.assign p.1 p.2) [], e.1 ≠ ⊤ :=
    fun e member => key_ne_top_of_mem_recoverPairs (perm.mem_iff.mp member)
  have explicitCopies := countLabels_recoverPairs src dst
  rw [← Labels.countLabels_perm perm] at explicitCopies
  split_ifs with unmatched
  · -- the wildcard entry comes on top of the explicit ones
    rw [Labels.countLabels_perm (Labels.assign_perm _ fresh)]
    simp only [Labels.countLabels, List.map_cons, List.sum_cons, Nat.cast_add] at explicitCopies ⊢
    rw [toNat_unmatched, explicitCopies, add_comm]
  · rw [explicitCopies]
    omega

/-- The wildcard entry of `getLabelsToRecover` is the wildcard demand that the surplus
does not cover. -/
theorem count_labelsToRecover_wildcard :
    (labelsToRecover src dst).count ⊤ = max (dst.count ⊤ - surplusCopies src dst) 0 := by
  rw [labelsToRecover_eq sortedSrc sortedDst]
  dsimp only
  split_ifs with unmatched
  · rw [Labels.count, Labels.lookup_assign_self, Option.map_some, Option.getD_some]
    exact toNat_unmatched src dst
  · have absent : ((recoverPairs src dst).foldl (fun (acc : Labels Label) p => acc.assign p.1 p.2) []).lookup ⊤ = none :=
      lookup_eq_none_of_ne fun e member =>
        key_ne_top_of_mem_recoverPairs ((recoverPairs_perm sortedDst src).mem_iff.mp member)
    rw [Labels.count, absent, Option.map_none, Option.getD_none]
    omega

/-- `getRemovePool` offers copies to remove exactly when `operationCount` counts some. -/
theorem removePool_ne_nil_iff : removePool src dst ≠ [] ↔ 0 < (operationCount src dst).2 := by
  rw [removePool_eq sortedSrc sortedDst, operationCount_snd_eq sortedSrc sortedDst]
  split_ifs with covered
  · simp only [ne_eq, not_true_eq_false, false_iff, not_lt]
    omega
  · have positive : 0 < surplusCopies src dst := by
      have := Labels.count_nonneg dst ⊤
      omega
    refine ⟨fun _ => by omega, fun _ empty => removePairs_ne_nil positive ?_⟩
    have perm := (removePairs_perm sortedSrc dst).symm
    rw [empty] at perm
    exact perm.eq_nil

/-- A label in `getRemovePool` is one the target lacks, or one on which the available
part holds more copies than the target asks for. -/
theorem removePool_labels {entry : Label × UInt16} (member : entry ∈ removePool src dst) :
    (Labels.explicit dst).lookup entry.1 = none ∨ (Labels.explicit dst).count entry.1 < src.count entry.1 := by
  rw [removePool_eq sortedSrc sortedDst] at member
  split_ifs at member
  · cases member
  · obtain ⟨available, inside, written⟩ :=
      List.mem_filterMap.mp ((removePairs_perm sortedSrc dst).mem_iff.mp member)
    rw [removeEntry_key written]
    cases asked : (Labels.explicit dst).lookup available.1 with
    | none => exact Or.inl rfl
    | some target =>
      rw [asked] at written
      simp only [removeEntry] at written
      split_ifs at written with above
      right
      simp only [Labels.count, asked, lookup_of_mem sortedSrc inside, Option.map_some, Option.getD_some]
      rw [UInt16.lt_iff_toNat_lt] at above
      omega

end Sorted

end SaunaFS
