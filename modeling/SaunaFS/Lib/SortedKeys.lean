import Mathlib

/-! Lists kept sorted by a key, as the algorithms of `<algorithm>` keep them:
`std::merge` (`List.merge` with "not less" as its test), `std::unique` with an
equality test, and erasing at `std::lower_bound` when the element found is
equal to the one sought.

The comparisons are arbitrary tests `lt` and `eq` on the elements; the lemmas
assume they compare keys of a linear order. For lists with strictly increasing
keys, merging and then cutting duplicates gives the union of the keys, erasing
removes one key, and both keep the keys strictly increasing.
-/

set_option autoImplicit false

namespace SortedKeys

variable {α κ : Type} [LinearOrder κ]

/-- Strictly increasing keys. -/
def Strict (key : α → κ) (l : List α) : Prop := l.Pairwise fun a b => key a < key b

instance (key : α → κ) (l : List α) : Decidable (Strict key l) :=
  inferInstanceAs (Decidable (l.Pairwise fun a b => key a < key b))

/-- `std::unique` after `kept`: each following run of elements equal to the last
one kept is cut. -/
def uniqueFrom (eq : α → α → Bool) (kept : α) : List α → List α
  | [] => [kept]
  | a :: l => if eq kept a then uniqueFrom eq kept l else kept :: uniqueFrom eq a l

/-- `std::unique`. -/
def unique (eq : α → α → Bool) : List α → List α
  | [] => []
  | a :: l => uniqueFrom eq a l

/-- `std::merge` with `lt`: the element of the second list goes first only when it is less. -/
def merge (lt : α → α → Bool) (xs ys : List α) : List α := xs.merge ys fun x y => !lt y x

/-- Erase at `std::lower_bound`: the first element that is not less than `candidate`,
when it is equal to it. -/
def eraseAtLowerBound (lt eq : α → α → Bool) (candidate : α) (l : List α) : List α :=
  match l.dropWhile fun a => lt a candidate with
  | a :: rest => if eq a candidate then l.takeWhile (fun a => lt a candidate) ++ rest else l
  | [] => l

section Keys

variable (key : α → κ) (lt eq : α → α → Bool)
  (hlt : ∀ a b, lt a b = decide (key a < key b)) (heq : ∀ a b, eq a b = decide (key a = key b))

theorem Strict.cons_iff {a : α} {l : List α} : Strict key (a :: l) ↔ (∀ b ∈ l, key a < key b) ∧ Strict key l :=
  List.pairwise_cons

include heq in
/-- Cutting runs from a list sorted by key leaves every key once, in order, the first kept. -/
theorem uniqueFrom_spec : ∀ (kept : α) (l : List α), (kept :: l).Pairwise (fun a b => key a ≤ key b) →
    Strict key (uniqueFrom eq kept l) ∧ (∀ k, k ∈ (uniqueFrom eq kept l).map key ↔ k ∈ (kept :: l).map key) ∧
      ∀ b ∈ uniqueFrom eq kept l, key kept ≤ key b
  | kept, [], _ => by simp [uniqueFrom, Strict]
  | kept, a :: l, sorted => by
    obtain ⟨first, rest⟩ := List.pairwise_cons.mp sorted
    by_cases same : key kept = key a
    · -- `a` is cut: the result is that of `kept` followed by `l`
      have skip : (kept :: l).Pairwise (fun a b => key a ≤ key b) :=
        List.pairwise_cons.mpr ⟨fun b member => first b (by simp [member]), (List.pairwise_cons.mp rest).2⟩
      obtain ⟨strict, keys, least⟩ := uniqueFrom_spec kept l skip
      rw [uniqueFrom, if_pos (by rw [heq]; exact decide_eq_true same)]
      refine ⟨strict, fun k => ?_, least⟩
      rw [keys k]
      simp only [List.map_cons, List.mem_cons]
      constructor
      · rintro (h | h) <;> simp [h]
      · rintro (h | h | h) <;> simp [h, same]
    · have later := uniqueFrom_spec a l rest
      obtain ⟨strict, keys, least⟩ := later
      have below : key kept < key a := lt_of_le_of_ne (first a (by simp)) same
      rw [uniqueFrom, if_neg (by rw [heq]; simpa using same)]
      refine ⟨(Strict.cons_iff key).mpr ⟨fun b member => lt_of_lt_of_le below (least b member), strict⟩,
        fun k => ?_, fun b member => ?_⟩
      · simp only [List.map_cons, List.mem_cons, keys k]
      · rcases List.mem_cons.mp member with rfl | member
        · exact le_rfl
        · exact le_of_lt (lt_of_lt_of_le below (least b member))

include heq in
theorem unique_spec (l : List α) (sorted : l.Pairwise fun a b => key a ≤ key b) :
    Strict key (unique eq l) ∧ ∀ k, k ∈ (unique eq l).map key ↔ k ∈ l.map key := by
  cases l with
  | nil => simp [unique, Strict]
  | cons a l =>
    obtain ⟨strict, keys, -⟩ := uniqueFrom_spec key eq heq a l sorted
    exact ⟨strict, keys⟩

include hlt in
theorem merge_sorted {xs ys : List α} (sortedXs : Strict key xs) (sortedYs : Strict key ys) :
    (merge lt xs ys).Pairwise fun a b => key a ≤ key b := by
  have test : ∀ a b, (!lt b a) = decide (key a ≤ key b) := fun a b => by
    rw [hlt, Bool.eq_iff_iff]
    simp
  have sorted := @List.pairwise_merge _ (fun a b => !lt b a)
    (fun a b c hab hbc => by simp only [test, decide_eq_true_eq] at hab hbc ⊢; exact le_trans hab hbc)
    (fun a b => by simp only [test, Bool.or_eq_true, decide_eq_true_eq]; exact le_total _ _) xs ys
    (sortedXs.imp fun h => by simp [test, le_of_lt h]) (sortedYs.imp fun h => by simp [test, le_of_lt h])
  exact sorted.imp fun h => by simpa [test] using h

include hlt heq in
/-- Merging two lists of strictly increasing keys and cutting the duplicates gives
the union of their keys, strictly increasing. -/
theorem unique_merge_spec {xs ys : List α} (sortedXs : Strict key xs) (sortedYs : Strict key ys) :
    Strict key (unique eq (merge lt xs ys)) ∧
      ∀ k, k ∈ (unique eq (merge lt xs ys)).map key ↔ k ∈ xs.map key ∨ k ∈ ys.map key := by
  obtain ⟨strict, keys⟩ := unique_spec key eq heq _ (merge_sorted key lt hlt sortedXs sortedYs)
  refine ⟨strict, fun k => ?_⟩
  rw [keys k]
  simp only [List.mem_map, merge, List.mem_merge]
  constructor
  · rintro ⟨a, (member | member), rfl⟩
    · exact Or.inl ⟨a, member, rfl⟩
    · exact Or.inr ⟨a, member, rfl⟩
  · rintro (⟨a, member, rfl⟩ | ⟨a, member, rfl⟩)
    · exact ⟨a, Or.inl member, rfl⟩
    · exact ⟨a, Or.inr member, rfl⟩

include hlt heq in
/-- Erasing at the lower bound removes the key of `candidate` and keeps the others. -/
theorem eraseAtLowerBound_spec (candidate : α) {l : List α} (sorted : Strict key l) :
    (eraseAtLowerBound lt eq candidate l).Sublist l ∧
      ∀ k, k ∈ (eraseAtLowerBound lt eq candidate l).map key ↔ k ∈ l.map key ∧ k ≠ key candidate := by
  have before : ∀ b ∈ l.takeWhile (fun a => lt a candidate), key b < key candidate := fun b member => by
    simpa [hlt] using List.all_eq_true.mp List.all_takeWhile b member
  have split := List.takeWhile_append_dropWhile (p := fun a => lt a candidate) (l := l)
  unfold eraseAtLowerBound
  split
  · next a rest found =>
    have notBefore : ¬ key a < key candidate := by
      have := List.head?_dropWhile_not (fun a => lt a candidate) l
      rw [found] at this
      simpa [hlt] using this
    rw [found] at split
    -- `l` is the part before the lower bound, then `a`, then the rest
    generalize l.takeWhile (fun a => lt a candidate) = front at split before ⊢
    subst split
    have after : ∀ b ∈ rest, key a < key b := (List.pairwise_cons.mp (List.pairwise_append.mp sorted).2.1).1
    split
    · next same =>
      have hit : key a = key candidate := by simpa [heq] using same
      refine ⟨(List.Sublist.refl front).append (List.sublist_cons_self a rest), fun k => ?_⟩
      simp only [List.map_append, List.mem_append, List.map_cons, List.mem_cons, List.mem_map]
      constructor
      · rintro (⟨b, member, rfl⟩ | ⟨b, member, rfl⟩)
        · exact ⟨Or.inl ⟨b, member, rfl⟩, ne_of_lt (before b member)⟩
        · exact ⟨Or.inr (Or.inr ⟨b, member, rfl⟩), ne_of_gt (hit ▸ after b member)⟩
      · rintro ⟨(found | rfl | found), other⟩
        · exact Or.inl found
        · exact absurd hit other
        · exact Or.inr found
    · next differ =>
      have miss : key a ≠ key candidate := by simpa [heq] using differ
      refine ⟨List.Sublist.refl _, fun k => ⟨fun member => ⟨member, ?_⟩, fun h => h.1⟩⟩
      rintro rfl
      simp only [List.map_append, List.mem_append, List.map_cons, List.mem_cons, List.mem_map] at member
      rcases member with ⟨b, inside, equal⟩ | equal | ⟨b, inside, equal⟩
      · exact lt_irrefl _ (equal ▸ before b inside)
      · exact miss equal.symm
      · have above : key candidate < key b :=
          lt_of_lt_of_le (lt_of_le_of_ne (not_lt.mp notBefore) (Ne.symm miss)) (le_of_lt (after b inside))
        exact lt_irrefl _ (equal ▸ above)
  · next none =>
    -- every element is before the lower bound
    refine ⟨List.Sublist.refl l, fun k => ⟨fun member => ⟨member, ?_⟩, fun h => h.1⟩⟩
    rintro rfl
    rw [none, List.append_nil] at split
    rw [← split] at member
    obtain ⟨b, inside, equal⟩ := List.mem_map.mp member
    exact lt_irrefl _ (equal ▸ before b inside)

end Keys

/-! ## Maps -/

section Maps

variable {β : Type}

/-- `flat_map::operator[]` followed by an assignment: overwrite the value under `k`,
or insert an entry at its place in the key order. -/
def assign (k : κ) (v : β) : List (κ × β) → List (κ × β)
  | [] => [(k, v)]
  | (k', v') :: rest =>
    if k' = k then (k, v) :: rest
    else if k < k' then (k, v) :: (k', v') :: rest
    else (k', v') :: assign k v rest

theorem assign_perm (k : κ) (v : β) :
    ∀ {es : List (κ × β)}, (∀ e ∈ es, e.1 ≠ k) → (assign k v es).Perm ((k, v) :: es)
  | [], _ => List.Perm.refl _
  | (k', v') :: rest, fresh => by
    have differs : k' ≠ k := fresh _ List.mem_cons_self
    have later := assign_perm k v fun e member => fresh e (List.mem_cons_of_mem _ member)
    simp only [assign, differs, if_false]
    split_ifs
    · exact List.Perm.refl _
    · exact (later.cons _).trans (List.Perm.swap _ _ _)

/-- After the assignment, `k` looks up the value assigned: the entries before it have
smaller keys. -/
theorem lookup_assign_self (k : κ) (v : β) : ∀ es : List (κ × β), (assign k v es).lookup k = some v
  | [] => by simp [assign]
  | (k', v') :: rest => by
    simp only [assign]
    split_ifs with same
    · simp
    · simp
    · rw [List.lookup_cons, beq_false_of_ne (Ne.symm same)]
      exact lookup_assign_self k v rest

theorem Strict.nodup {key : α → κ} {l : List α} (sorted : Strict key l) : (l.map key).Nodup :=
  (List.pairwise_map.mpr sorted).imp ne_of_lt

/-- A partial map that keeps keys keeps them strictly increasing. -/
theorem Strict.filterMap {key : α → κ} {key' : β → κ} {f : α → Option β}
    (keeps : ∀ a b, f a = some b → key' b = key a) {l : List α} (sorted : Strict key l) :
    Strict key' (l.filterMap f) :=
  List.Pairwise.filterMap f (fun a a' less b found b' found' => by
    rw [keeps a b found, keeps a' b' found']
    exact less) sorted

/-- Assignments under distinct keys that the map lacks add their entries. -/
theorem foldl_assign_perm :
    ∀ (pairs : List (κ × β)) {es : List (κ × β)}, (pairs.map Prod.fst).Nodup →
      (∀ e ∈ es, ∀ p ∈ pairs, e.1 ≠ p.1) → (pairs.foldl (fun acc p => assign p.1 p.2 acc) es).Perm (pairs ++ es)
  | [], _, _, _ => by simp
  | p :: pairs, es, distinct, fresh => by
    obtain ⟨notLater, distinct⟩ := List.nodup_cons.mp distinct
    have first := assign_perm p.1 p.2 fun e member => fresh e member p List.mem_cons_self
    -- the map after the first assignment still lacks the later keys
    have stillFresh : ∀ e ∈ assign p.1 p.2 es, ∀ q ∈ pairs, e.1 ≠ q.1 := by
      intro e member q later same
      rcases List.mem_cons.mp (first.mem_iff.mp member) with rfl | member
      · exact notLater (List.mem_map.mpr ⟨q, later, same.symm⟩)
      · exact fresh e member q (List.mem_cons_of_mem _ later) same
    rw [List.foldl_cons]
    exact (foldl_assign_perm pairs distinct stillFresh).trans ((first.append_left pairs).trans List.perm_middle)

end Maps

end SortedKeys
