import Mathlib.Algebra.BigOperators.Group.List.Basic
import Mathlib.Data.List.TakeWhile
import SaunaFS.Lib.SortedKeys

/-! A walk of one list sorted by key against another: for each entry of the first
list, the entries of the second with smaller keys, then the entry with the same
key if there is one; after the first list, or after its first entry whose key
satisfies `stop`, the rest of the second list.

This is the loop a merge of two sorted maps makes. The walk is given as the list
of what it meets, so that a loop over the two maps is a fold over that list.
For sorted lists, a sum over the walk of what is said about the entries of one
list is the sum over that list, each entry with what the other list holds under
its key (`sum_rightPart`, `sum_leftPart`).
-/

set_option autoImplicit false

namespace MergeJoin

open SortedKeys

variable {κ α β : Type}

/-- What the walk meets: an entry of the second list whose key the first lacks, two
entries with one key, or an entry of the first list whose key the second lacks. -/
inductive Event (κ α β : Type) where
  | right (entry : κ × β)
  | both (left : κ × α) (right : κ × β)
  | left (entry : κ × α)

/-- The entries of the first list that the walk reaches. -/
def processed (stop : κ → Bool) (ls : List (κ × α)) : List (κ × α) := ls.takeWhile fun l => !stop l.1

section Parts

variable {M : Type} [AddCommMonoid M]

/-- What an event says about the entry of the second list in it, given what the first
list holds under its key. -/
def rightPart (φ : κ × β → Option α → M) : Event κ α β → M
  | .right r => φ r none
  | .both l r => φ r (some l.2)
  | .left _ => 0

/-- What an event says about the entry of the first list in it. -/
def leftPart (ψ : κ × α → Option β → M) : Event κ α β → M
  | .right _ => 0
  | .both l r => ψ l (some r.2)
  | .left l => ψ l none

@[simp] theorem rightPart_right (φ : κ × β → Option α → M) (r : κ × β) :
    rightPart φ (.right r : Event κ α β) = φ r none := rfl

@[simp] theorem rightPart_both (φ : κ × β → Option α → M) (l : κ × α) (r : κ × β) :
    rightPart φ (.both l r) = φ r (some l.2) := rfl

@[simp] theorem rightPart_left (φ : κ × β → Option α → M) (l : κ × α) :
    rightPart φ (.left l : Event κ α β) = 0 := rfl

@[simp] theorem leftPart_right (ψ : κ × α → Option β → M) (r : κ × β) :
    leftPart ψ (.right r : Event κ α β) = 0 := rfl

@[simp] theorem leftPart_both (ψ : κ × α → Option β → M) (l : κ × α) (r : κ × β) :
    leftPart ψ (.both l r) = ψ l (some r.2) := rfl

@[simp] theorem leftPart_left (ψ : κ × α → Option β → M) (l : κ × α) :
    leftPart ψ (.left l : Event κ α β) = ψ l none := rfl

/-- The entry of the second list an event holds, with what the first list holds under
its key. -/
def rightEntry : Event κ α β → Option ((κ × β) × Option α)
  | .right r => some (r, none)
  | .both l r => some (r, some l.2)
  | .left _ => none

/-- The entry of the first list an event holds, with what the second list holds under
its key. -/
def leftEntry : Event κ α β → Option ((κ × α) × Option β)
  | .right _ => none
  | .both l r => some (l, some r.2)
  | .left l => some (l, none)

theorem rightPart_eq (φ : κ × β → Option α → M) (e : Event κ α β) :
    rightPart φ e = ((rightEntry e).map fun p => φ p.1 p.2).getD 0 := by
  cases e <;> rfl

theorem leftPart_eq (ψ : κ × α → Option β → M) (e : Event κ α β) :
    leftPart ψ e = ((leftEntry e).map fun p => ψ p.1 p.2).getD 0 := by
  cases e <;> rfl

/-- A sum over a list of what a partial function gives is a sum over the list of its values. -/
theorem sum_map_filterMap {γ δ : Type} (f : γ → M) (g : γ → Option δ) (h : δ → M)
    (split : ∀ e, f e = ((g e).map h).getD 0) (es : List γ) : (es.map f).sum = ((es.filterMap g).map h).sum := by
  induction es with
  | nil => rfl
  | cons e es ih =>
    rw [List.map_cons, List.sum_cons, ih, split e, List.filterMap_cons]
    cases g e <;> simp

end Parts

theorem filterMap_rightEntry_right (rs : List (κ × β)) :
    (rs.map (Event.right : κ × β → Event κ α β)).filterMap rightEntry = rs.map fun r => (r, none) := by
  simp [List.filterMap_map, rightEntry, Function.comp_def]

theorem filterMap_leftEntry_right (rs : List (κ × β)) :
    (rs.map (Event.right : κ × β → Event κ α β)).filterMap leftEntry = [] := by
  simp [List.filterMap_map, leftEntry, Function.comp_def]

section Processed

variable (stop : κ → Bool)

theorem processed_cons_of_stop {k : κ} {a : α} (ls : List (κ × α)) (stopped : stop k = true) :
    processed stop ((k, a) :: ls) = [] := by
  simp [processed, stopped]

theorem processed_cons {k : κ} {a : α} (ls : List (κ × α)) (going : stop k = false) :
    processed stop ((k, a) :: ls) = (k, a) :: processed stop ls := by
  simp [processed, going]

theorem stop_eq_false_of_mem_processed {l : κ × α} {ls : List (κ × α)} (member : l ∈ processed stop ls) :
    stop l.1 = false := by
  simpa using List.mem_takeWhile_imp member

end Processed

variable [LinearOrder κ]

def join (stop : κ → Bool) : List (κ × α) → List (κ × β) → List (Event κ α β)
  | [], rs => rs.map .right
  | (k, a) :: ls, rs =>
    if stop k then rs.map .right
    else
      let skipped := (rs.takeWhile fun r => r.1 < k).map .right
      match rs.dropWhile fun r => r.1 < k with
      | (k', b) :: rest =>
        if k' = k then skipped ++ .both (k, a) (k', b) :: join stop ls rest
        else skipped ++ .left (k, a) :: join stop ls ((k', b) :: rest)
      | [] => skipped ++ .left (k, a) :: join stop ls []


/-! ## Keys of sorted lists -/

section Keys

variable {γ : Type}

theorem lookup_eq_none_of_ne {es : List (κ × γ)} {k : κ} (absent : ∀ e ∈ es, e.1 ≠ k) : es.lookup k = none :=
  List.lookup_eq_none_iff.mpr fun e member => bne_iff_ne.mpr (absent e member).symm

theorem lookup_append_of_ne {es fs : List (κ × γ)} {k : κ} (absent : ∀ e ∈ es, e.1 ≠ k) :
    (es ++ fs).lookup k = fs.lookup k := by
  rw [List.lookup_append, lookup_eq_none_of_ne absent, Option.none_or]

theorem lookup_cons_self (k : κ) (c : γ) (es : List (κ × γ)) : ((k, c) :: es).lookup k = some c := by
  simp

theorem lookup_cons_of_ne {k k' : κ} (c : γ) (es : List (κ × γ)) (ne : k' ≠ k) :
    ((k', c) :: es).lookup k = es.lookup k := by
  rw [List.lookup_cons, beq_false_of_ne (Ne.symm ne)]

/-- The entries a sorted list keeps past those with keys below `k` have keys `k` or more. -/
theorem le_of_mem_dropWhile {es : List (κ × γ)} (sorted : Strict Prod.fst es) (k : κ) :
    ∀ e ∈ es.dropWhile (fun e => e.1 < k), k ≤ e.1 := by
  induction es with
  | nil => simp
  | cons e es ih =>
    obtain ⟨later, sorted⟩ := (Strict.cons_iff Prod.fst).mp sorted
    rw [List.dropWhile_cons]
    by_cases below : e.1 < k
    · rw [if_pos (decide_eq_true below)]
      exact ih sorted
    · rw [if_neg (by simpa using below)]
      intro f member
      rcases List.mem_cons.mp member with rfl | member
      · exact not_lt.mp below
      · exact le_trans (not_lt.mp below) (le_of_lt (later f member))

theorem strict_dropWhile {es : List (κ × γ)} (sorted : Strict Prod.fst es) (p : κ × γ → Bool) :
    Strict Prod.fst (es.dropWhile p) :=
  sorted.sublist (List.dropWhile_sublist p)

/-- In a list with strictly increasing keys, an entry is what its key looks up. -/
theorem lookup_of_mem {es : List (κ × γ)} (sorted : Strict Prod.fst es) {e : κ × γ} (member : e ∈ es) :
    es.lookup e.1 = some e.2 := by
  induction es with
  | nil => cases member
  | cons f es ih =>
    obtain ⟨later, sorted⟩ := (Strict.cons_iff Prod.fst).mp sorted
    rcases List.mem_cons.mp member with rfl | member
    · exact lookup_cons_self _ _ _
    · rw [← ih sorted member]
      exact lookup_cons_of_ne _ _ (ne_of_lt (later e member))

end Keys

/-! ## What the walk meets of each list -/

section Walk

variable (stop : κ → Bool)

theorem lt_of_mem_processed {k : κ} {a : α} {ls : List (κ × α)} (sorted : Strict Prod.fst ((k, a) :: ls)) :
    ∀ l ∈ processed stop ls, k < l.1 :=
  fun l member => ((Strict.cons_iff Prod.fst).mp sorted).1 l ((List.takeWhile_sublist _).subset member)

/-- An event with entries of both lists pairs entries under one key. -/
theorem key_eq_of_both_mem :
    ∀ (ls : List (κ × α)) (rs : List (κ × β)) {l : κ × α} {r : κ × β}, .both l r ∈ join stop ls rs → l.1 = r.1
  | [], rs, l, r, member => by simp [join] at member
  | (k, a) :: ls, rs, l, r, member => by
    simp only [join] at member
    split_ifs at member
    · simp at member
    · split at member
      · next k' b rest dropped =>
        split_ifs at member with same
        · simp only [List.mem_append, List.mem_map, reduceCtorEq, and_false, exists_false, List.mem_cons,
            Event.both.injEq, false_or] at member
          rcases member with ⟨rfl, rfl⟩ | member
          · exact same.symm
          · exact key_eq_of_both_mem ls rest member
        · simp only [List.mem_append, List.mem_map, reduceCtorEq, and_false, exists_false, List.mem_cons,
            false_or] at member
          exact key_eq_of_both_mem ls _ member
      · simp only [List.mem_append, List.mem_map, reduceCtorEq, and_false, exists_false, List.mem_cons,
          false_or] at member
        exact key_eq_of_both_mem ls [] member

/-- The walk meets every entry of the second list, in order, each with what the first
list holds under its key among the entries the walk reaches. -/
theorem filterMap_rightEntry :
    ∀ (ls : List (κ × α)) (rs : List (κ × β)), Strict Prod.fst ls → Strict Prod.fst rs →
      (join stop ls rs).filterMap rightEntry = rs.map fun r => (r, (processed stop ls).lookup r.1)
  | [], rs, _, _ => by
    simp only [join, filterMap_rightEntry_right]
    rfl
  | (k, a) :: ls, rs, sortedL, sortedR => by
    cases going : stop k
    case true =>
      simp only [join, going, if_true, filterMap_rightEntry_right, processed_cons_of_stop stop ls going]
      rfl
    case false =>
      have later := lt_of_mem_processed stop sortedL
      have tail := ((Strict.cons_iff Prod.fst).mp sortedL).2
      rw [processed_cons stop ls going]
      -- the entries skipped before `k` have smaller keys than every entry the walk reaches
      have skipped : ((rs.takeWhile fun r => r.1 < k).map fun r => (r, ((k, a) :: processed stop ls).lookup r.1)) =
          (rs.takeWhile fun r => r.1 < k).map fun r => (r, none) := by
        refine List.map_congr_left fun r member => ?_
        have below : r.1 < k := by simpa using List.mem_takeWhile_imp member
        rw [lookup_eq_none_of_ne]
        intro l member'
        rcases List.mem_cons.mp member' with rfl | member'
        · exact ne_of_gt below
        · exact ne_of_gt (lt_trans below (later l member'))
      have split := (List.takeWhile_append_dropWhile (p := fun r : κ × β => decide (r.1 < k)) (l := rs)).symm
      have rest := le_of_mem_dropWhile sortedR k
      have sortedRest := strict_dropWhile sortedR (fun r => decide (r.1 < k))
      simp only [join, going, Bool.false_eq_true, if_false]
      conv => rhs; rw [split, List.map_append, skipped]
      generalize rs.dropWhile (fun r => decide (r.1 < k)) = dropped at rest sortedRest
      cases dropped with
      | nil =>
        simp only [List.filterMap_append, filterMap_rightEntry_right, List.filterMap_cons, rightEntry,
          filterMap_rightEntry ls [] tail List.Pairwise.nil, List.map_nil, List.append_nil]
      | cons r rest' =>
        obtain ⟨k', b⟩ := r
        obtain ⟨after, sortedRest'⟩ := (Strict.cons_iff Prod.fst).mp sortedRest
        -- past the entry met with `k`, the walk's lookups go past `k`
        have beyond : ∀ r ∈ rest', ((k, a) :: processed stop ls).lookup r.1 = (processed stop ls).lookup r.1 :=
          fun r member => lookup_cons_of_ne _ _
            (ne_of_lt (lt_of_le_of_lt (rest (k', b) List.mem_cons_self) (after r member)))
        by_cases same : k' = k
        · subst same
          simp only [if_true, List.filterMap_append, filterMap_rightEntry_right, List.filterMap_cons, rightEntry,
            List.map_cons, lookup_cons_self, filterMap_rightEntry ls rest' tail sortedRest']
          rw [List.map_congr_left fun r member => congrArg (Prod.mk r) (beyond r member)]
        · have ahead : k < k' := lt_of_le_of_ne (rest (k', b) List.mem_cons_self) (Ne.symm same)
          simp only [same, if_false, List.filterMap_append, filterMap_rightEntry_right, List.filterMap_cons,
            rightEntry, filterMap_rightEntry ls ((k', b) :: rest') tail sortedRest, List.map_cons,
            lookup_cons_of_ne _ _ (ne_of_lt ahead)]
          rw [List.map_congr_left fun r member => congrArg (Prod.mk r) (beyond r member)]

/-- The walk meets every entry of the first list it reaches, in order, each with what
the second list holds under its key. -/
theorem filterMap_leftEntry :
    ∀ (ls : List (κ × α)) (rs : List (κ × β)), Strict Prod.fst ls → Strict Prod.fst rs →
      (join stop ls rs).filterMap leftEntry = (processed stop ls).map fun l => (l, rs.lookup l.1)
  | [], rs, _, _ => by
    simp only [join, filterMap_leftEntry_right]
    rfl
  | (k, a) :: ls, rs, sortedL, sortedR => by
    cases going : stop k
    case true =>
      simp only [join, going, if_true, filterMap_leftEntry_right, processed_cons_of_stop stop ls going]
      rfl
    case false =>
      have later := lt_of_mem_processed stop sortedL
      have tail := ((Strict.cons_iff Prod.fst).mp sortedL).2
      rw [processed_cons stop ls going]
      have split := (List.takeWhile_append_dropWhile (p := fun r : κ × β => decide (r.1 < k)) (l := rs)).symm
      -- what `rs` holds under `k` and the later keys, it holds past the skipped entries
      have past : ∀ k'', k ≤ k'' → rs.lookup k'' = (rs.dropWhile fun r => decide (r.1 < k)).lookup k'' := by
        intro k'' above
        conv => lhs; rw [split]
        refine lookup_append_of_ne fun r member => ?_
        have below : r.1 < k := by simpa using List.mem_takeWhile_imp member
        exact ne_of_lt (lt_of_lt_of_le below above)
      have rest := le_of_mem_dropWhile sortedR k
      have sortedRest := strict_dropWhile sortedR (fun r => decide (r.1 < k))
      simp only [join, going, Bool.false_eq_true, if_false, List.map_cons]
      rw [past k le_rfl, List.map_congr_left fun l member => congrArg (Prod.mk l) (past l.1 (le_of_lt (later l member)))]
      generalize rs.dropWhile (fun r => decide (r.1 < k)) = dropped at rest sortedRest
      cases dropped with
      | nil =>
        simp only [List.filterMap_append, filterMap_leftEntry_right, List.filterMap_cons, leftEntry,
          List.nil_append, filterMap_leftEntry ls [] tail List.Pairwise.nil, List.lookup_nil]
      | cons r rest' =>
        obtain ⟨k', b⟩ := r
        obtain ⟨after, sortedRest'⟩ := (Strict.cons_iff Prod.fst).mp sortedRest
        by_cases same : k' = k
        · subst same
          simp only [if_true, List.filterMap_append, filterMap_leftEntry_right, List.filterMap_cons, leftEntry,
            List.nil_append, lookup_cons_self, filterMap_leftEntry ls rest' tail sortedRest']
          congr 1
          refine List.map_congr_left fun l member => ?_
          rw [lookup_cons_of_ne _ _ (ne_of_lt (later l member))]
        · have ahead : k < k' := lt_of_le_of_ne (rest (k', b) List.mem_cons_self) (Ne.symm same)
          have absent : ((k', b) :: rest').lookup k = none := by
            refine lookup_eq_none_of_ne fun r member => ?_
            rcases List.mem_cons.mp member with rfl | member
            · exact ne_of_gt ahead
            · exact ne_of_gt (lt_trans ahead (after r member))
          simp only [same, if_false, List.filterMap_append, filterMap_leftEntry_right, List.filterMap_cons,
            leftEntry, List.nil_append, absent, filterMap_leftEntry ls ((k', b) :: rest') tail sortedRest]

variable {M : Type} [AddCommMonoid M]

/-- Each entry of the second list meets, in the walk, what the first list holds under
its key among the entries the walk reaches. -/
theorem sum_rightPart (φ : κ × β → Option α → M) (ls : List (κ × α)) (rs : List (κ × β))
    (sortedL : Strict Prod.fst ls) (sortedR : Strict Prod.fst rs) :
    ((join stop ls rs).map (rightPart φ)).sum = (rs.map fun r => φ r ((processed stop ls).lookup r.1)).sum := by
  rw [sum_map_filterMap _ rightEntry (fun p => φ p.1 p.2) (rightPart_eq φ), filterMap_rightEntry stop ls rs sortedL sortedR,
    List.map_map]
  rfl

/-- Each entry of the first list that the walk reaches meets what the second list
holds under its key. -/
theorem sum_leftPart (ψ : κ × α → Option β → M) (ls : List (κ × α)) (rs : List (κ × β))
    (sortedL : Strict Prod.fst ls) (sortedR : Strict Prod.fst rs) :
    ((join stop ls rs).map (leftPart ψ)).sum = ((processed stop ls).map fun l => ψ l (rs.lookup l.1)).sum := by
  rw [sum_map_filterMap _ leftEntry (fun p => ψ p.1 p.2) (leftPart_eq ψ), filterMap_leftEntry stop ls rs sortedL sortedR,
    List.map_map]
  rfl

end Walk

end MergeJoin
