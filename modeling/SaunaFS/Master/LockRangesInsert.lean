import SaunaFS.Master.LockRanges

/-! `LockRanges::insert` is correct: on well-formed ranges, inserting a lock that
`fits` keeps them well formed and changes the table of what each owner holds at
each offset exactly on the inserted range and owner (`view_insert`,
`insert_wellFormed`).

The loop is proved by one invariant (`InsertInv`) over the zipper of
`insertLoop`, kept by each of its six branches, and by the table the zipper
stands for (`loopView`), which no branch changes. The pieces a branch passes are
either marked for removal or valid ranges that end before all that is still to
place; the ranges the loop never sees (before the window and after it) bound
everything the loop makes.
-/

set_option autoImplicit false

namespace SaunaFS

namespace LockRange

/-- A lock of `type` by `o` may meet `other`: it is an unlock, both are shared, or
`other` is held by `o` alone. This is what `fits` guarantees of every range it meets. -/
def Compatible (type : LockType) (o : Owner) (other : LockRange) : Prop :=
  type = .kUnlock ∨ (type = .kShared ∧ other.type = .kShared) ∨ other.owners.map Owner.key = [o.key]

theorem owner_of_owners {range : LockRange} {o : Owner} (owners : range.owners = [o]) : range.owner = o := by
  simp [owner, owners]

@[simp] theorem overwrite_start (other range : LockRange) (sameOwners : Bool) :
    (other.overwrite range sameOwners).start = other.start := by
  unfold overwrite; split_ifs <;> rfl

@[simp] theorem overwrite_stop (other range : LockRange) (sameOwners : Bool) :
    (other.overwrite range sameOwners).stop = other.stop := by
  unfold overwrite; split_ifs <;> rfl

/-- A piece of a valid range with its type and owners is valid when it is not empty. -/
theorem Valid.piece {other piece : LockRange} (valid : other.Valid) (type : piece.type = other.type)
    (owners : piece.owners = other.owners) (nonempty : piece.start < piece.stop) : piece.Valid where
  nonempty := nonempty
  locked := type ▸ valid.locked
  owned := owners ▸ valid.owned
  sorted := owners ▸ valid.sorted
  single := fun exclusive => owners ▸ valid.single (type ▸ exclusive)

theorem eraseOwner_keys (other : LockRange) (candidate : Owner) (sorted : SortedKeys.Strict Owner.key other.owners) :
    (other.eraseOwner candidate).owners.Sublist other.owners ∧
      ∀ k, k ∈ (other.eraseOwner candidate).owners.map Owner.key ↔
        k ∈ other.owners.map Owner.key ∧ k ≠ candidate.key :=
  SortedKeys.eraseAtLowerBound_spec Owner.key Owner.lt Owner.same Owner.lt_eq Owner.same_eq candidate sorted

theorem addOwners_keys (other : LockRange) {owners : List Owner} (sorted : SortedKeys.Strict Owner.key other.owners)
    (sortedOwners : SortedKeys.Strict Owner.key owners) :
    SortedKeys.Strict Owner.key (other.addOwners owners).owners ∧
      ∀ k, k ∈ (other.addOwners owners).owners.map Owner.key ↔
        k ∈ other.owners.map Owner.key ∨ k ∈ owners.map Owner.key :=
  SortedKeys.unique_merge_spec Owner.key Owner.lt Owner.same Owner.lt_eq Owner.same_eq sorted sortedOwners

theorem LockType.locked_of_ne {type : LockType} (locking : type ≠ .kInvalid) (unlock : type ≠ .kUnlock) :
    type = .kShared ∨ type = .kExclusive := by
  cases type <;> simp_all

/-- A valid range given another lock type keeps its validity when its owners fit the type. -/
theorem Valid.retype {other : LockRange} (valid : other.Valid) {type : LockType}
    (locked : type = .kShared ∨ type = .kExclusive) (single : other.owners.length = 1) :
    ({ other with type := type } : LockRange).Valid :=
  ⟨valid.nonempty, locked, valid.owned, valid.sorted, fun _ => single⟩

section Overwrite

/- The lock being inserted: one owner `o`, a type that is a lock or an unlock, and a
range `other` it meets as `fits` allows. -/
variable {range other : LockRange} {o : Owner} (owners : range.owners = [o])
  (locking : range.type ≠ .kInvalid) (valid : other.Valid) (compatible : Compatible range.type o other)

include owners valid compatible in
/-- Overwriting gives `o` the inserted lock and leaves every other owner as it was. -/
theorem overwrite_view {sameOwners : Bool} (same : sameOwners = Owners.equal range.owners other.owners)
    {offset : Nat} (inside : other.start ≤ offset ∧ offset < other.stop) (k : Nat) :
    LockRanges.view [other.overwrite range sameOwners] offset k =
      if k = o.key then lockEntry range.type else LockRanges.view [other] offset k := by
  subst same
  have locked : other.type ≠ .kUnlock := by rcases valid.locked with l | l <;> simp [l]
  have otherHolds := valid.holds_iff k
  simp only [LockRanges.view_singleton, covers, overwrite_start, overwrite_stop, decide_eq_true inside,
    Bool.true_and]
  unfold overwrite
  by_cases same : Owners.equal range.owners other.owners = true
  · -- `other` is held by `o` alone: it takes the new type
    have keys : other.owners.map Owner.key = [o.key] := by
      rw [← (Owners.equal_iff _ _).mp same, owners]; rfl
    have otherMine : other.holds k = true ↔ k = o.key := by rw [otherHolds, keys, List.mem_singleton]
    rw [if_pos same]
    by_cases unlock : range.type = .kUnlock
    · have dead : ({ other with type := range.type } : LockRange).holds k = false :=
        holds_unlocking (by simp [unlocking, unlock]) k
      rw [dead, lockEntry, if_pos unlock]
      by_cases mine : k = o.key
      · rw [if_pos mine]; rfl
      · rw [if_neg mine, if_neg (mt otherMine.mp mine)]; rfl
    · have retyped : ({ other with type := range.type } : LockRange).holds k = true ↔ k = o.key := by
        rw [holds_iff_mem { other with type := range.type } unlock k]
        exact otherHolds.symm.trans otherMine
      by_cases mine : k = o.key
      · rw [if_pos (retyped.mpr mine), if_pos mine, lockEntry, if_neg unlock]
      · rw [if_neg (mt retyped.mp mine), if_neg mine, if_neg (mt otherMine.mp mine)]
  · rw [if_neg same]
    by_cases dead : range.unlocking = true
    · -- an unlock by `o`, who shares `other` or does not hold it: `o` is erased
      have unlock : range.type = .kUnlock := by simpa [unlocking, owners] using dead
      obtain ⟨-, keys⟩ := eraseOwner_keys other o valid.sorted
      have erased := holds_iff_mem (other.eraseOwner o) locked k
      rw [if_pos dead, owner_of_owners owners, lockEntry, if_pos unlock]
      by_cases mine : k = o.key
      · have gone : (other.eraseOwner o).holds k = false := by
          rw [Bool.eq_false_iff, ne_eq, erased, keys k]
          exact fun h => h.2 mine
        rw [gone, if_pos mine]; rfl
      · have kept : (other.eraseOwner o).holds k = other.holds k := by
          rw [Bool.eq_iff_iff, erased, keys k, otherHolds]
          exact and_iff_left mine
        rw [kept, if_neg mine]; rfl
    · -- a shared lock meeting shared locks of others: `o` is added
      have shared : range.type = .kShared ∧ other.type = .kShared := by
        rcases compatible with unlock | shared | keys
        · simp [unlocking, unlock] at dead
        · exact shared
        · exact absurd ((Owners.equal_iff _ _).mpr (by rw [keys, owners]; rfl)) same
      obtain ⟨-, keys⟩ := addOwners_keys other valid.sorted (owners ▸ List.pairwise_singleton _ _)
      have added := holds_iff_mem (other.addOwners range.owners) locked k
      rw [if_neg dead]
      by_cases mine : k = o.key
      · have gained : (other.addOwners range.owners).holds k = true := by
          rw [added, keys k, owners]
          exact Or.inr (by simp [mine])
        rw [gained, if_pos rfl, if_pos mine, lockEntry, if_neg (by rw [shared.1]; decide)]
        show some other.type = some range.type
        rw [shared.1, shared.2]
      · have kept : (other.addOwners range.owners).holds k = other.holds k := by
          rw [Bool.eq_iff_iff, added, keys k, otherHolds, owners]
          simp [mine]
        rw [kept, if_neg mine]; rfl

include owners locking valid compatible in
/-- What overwriting leaves, unless it is to be removed, is a valid range. -/
theorem overwrite_valid {sameOwners : Bool} (same : sameOwners = Owners.equal range.owners other.owners)
    (live : (other.overwrite range sameOwners).unlocking = false) :
    (other.overwrite range sameOwners).Valid := by
  subst same
  revert live
  unfold overwrite
  by_cases same : Owners.equal range.owners other.owners = true
  · -- retyped: the new type is a lock, since the range is kept
    rw [if_pos same]
    intro live
    have keys : other.owners.map Owner.key = [o.key] := by
      rw [← (Owners.equal_iff _ _).mp same, owners]; rfl
    have unlock : range.type ≠ .kUnlock := by
      intro unlock; simp [unlocking, unlock] at live
    exact valid.retype (LockType.locked_of_ne locking unlock) (by rw [← List.length_map Owner.key, keys]; rfl)
  · rw [if_neg same]
    by_cases dead : range.unlocking = true
    · -- erased: fewer owners, still sorted, and not none since the range is kept
      rw [if_pos dead]
      intro live
      obtain ⟨sub, -⟩ := eraseOwner_keys other range.owner valid.sorted
      have owned : (other.eraseOwner range.owner).owners ≠ [] := by
        simp only [unlocking, Bool.or_eq_false_iff, List.isEmpty_eq_false_iff] at live
        exact live.2
      refine ⟨valid.nonempty, valid.locked, owned, valid.sorted.sublist sub, fun exclusive => ?_⟩
      have fewer := sub.length_le
      have one := valid.single exclusive
      have some := List.length_pos_iff.mpr owned
      omega
    · -- added: a shared range with one owner more
      rw [if_neg dead]
      intro _
      have shared : other.type = .kShared := by
        rcases compatible with unlock | shared | keys
        · simp [unlocking, unlock] at dead
        · exact shared.2
        · exact absurd ((Owners.equal_iff _ _).mpr (by rw [keys, owners]; rfl)) same
      obtain ⟨sorted, keys⟩ := addOwners_keys other valid.sorted (owners ▸ List.pairwise_singleton _ _)
      have owned : (other.addOwners range.owners).owners ≠ [] := by
        intro empty
        have := (keys o.key).mpr (Or.inr (by simp [owners]))
        simp [empty] at this
      exact ⟨valid.nonempty, Or.inl shared, owned, sorted, fun exclusive => absurd (shared ▸ exclusive) (by decide)⟩

end Overwrite

end LockRange

namespace LockRanges

open LockRange

theorem LockMap.apply_of_le (m : LockMap) (type : LockType) {start stop : Nat} (empty : stop ≤ start) (k : Nat) :
    m.apply type start stop k = m := by
  funext offset w
  rw [LockMap.apply, if_neg (by omega)]

theorem view_singleton_of_not_mem {r : LockRange} {offset : Nat} (outside : ¬(r.start ≤ offset ∧ offset < r.stop))
    (k : Nat) : view [r] offset k = none := by
  simp [view_singleton, covers, outside]

theorem view_eq_none_of_lt {data : List LockRange} {offset : Nat} (below : ∀ r ∈ data, offset < r.start) (k : Nat) :
    view data offset k = none :=
  view_eq_none fun r member => by
    have := below r member
    simp only [covers, Bool.and_eq_false_iff, decide_eq_false_iff_not]
    exact Or.inl (by omega)

theorem view_eq_none_of_le {data : List LockRange} {offset : Nat} (above : ∀ r ∈ data, r.stop ≤ offset) (k : Nat) :
    view data offset k = none :=
  view_eq_none fun r member => by
    have := above r member
    simp only [covers, Bool.and_eq_false_iff, decide_eq_false_iff_not]
    exact Or.inl (by omega)

/-- A piece with the type and owners of a range, over the same offsets, gives the same. -/
theorem view_piece (r piece : LockRange) (type : piece.type = r.type) (owners : piece.owners = r.owners) (offset : Nat)
    (span : piece.start ≤ offset ∧ offset < piece.stop ↔ r.start ≤ offset ∧ offset < r.stop) (k : Nat) :
    view [piece] offset k = view [r] offset k := by
  have same : piece.covers offset k = r.covers offset k := by
    unfold covers holds unlocking
    rw [type, owners]
    by_cases inside : r.start ≤ offset ∧ offset < r.stop
    · simp [inside, span.mpr inside]
    · simp [inside, mt span.mp inside]
  rw [view_singleton, view_singleton, same, type]

theorem view_cons_or (r : LockRange) (data : List LockRange) (offset k : Nat) :
    view (r :: data) offset k = (view [r] offset k).or (view data offset k) :=
  view_append [r] data offset k

/-- A range held by `o` alone gives `o` its lock entry over its offsets, and no one else anything. -/
theorem view_own (piece : LockRange) {o : Owner} (owners : piece.owners = [o]) (offset k : Nat) :
    view [piece] offset k =
      if piece.start ≤ offset ∧ offset < piece.stop ∧ k = o.key then lockEntry piece.type else none := by
  have holds := holds_of_owners owners k
  rw [view_singleton, covers]
  by_cases inside : piece.start ≤ offset ∧ offset < piece.stop <;> by_cases mine : k = o.key <;>
    by_cases unlock : piece.type = .kUnlock <;> simp_all [lockEntry]

/-- Cutting a range in two at an offset inside it gives the same as the range. -/
theorem view_split (r : LockRange) {cut : Nat} (low : r.start ≤ cut) (high : cut ≤ r.stop) (offset k : Nat) :
    (view [{ r with stop := cut }] offset k).or (view [{ r with start := cut }] offset k) = view [r] offset k := by
  by_cases below : offset < cut
  · rw [view_singleton_of_not_mem (r := { r with start := cut }) (by dsimp only; omega), Option.or_none]
    exact view_piece r { r with stop := cut } rfl rfl offset (by dsimp only; omega) k
  · rw [view_singleton_of_not_mem (r := { r with stop := cut }) (by dsimp only; omega), Option.none_or]
    exact view_piece r { r with start := cut } rfl rfl offset (by dsimp only; omega) k

section Steps

/-! What each branch of the loop does to the table: the inserted range over the
ranges ahead gives the same as the piece the branch passes followed by what is
left of the range over what is left ahead. -/

variable {o : Owner} {range other : LockRange} {rest : List LockRange}
  (owners : range.owners = [o]) (valid : other.Valid) (after : ∀ z ∈ rest, other.stop ≤ z.start)

include after in
/-- Nothing ahead gives anything before the end of the range at the iterator. -/
theorem view_rest_of_lt {offset : Nat} (below : offset < other.stop) (k : Nat) : view rest offset k = none :=
  view_eq_none_of_lt (fun z member => Nat.lt_of_lt_of_le below (after z member)) k

include valid after in
theorem view_ahead_of_lt {offset : Nat} (below : offset < other.start) (k : Nat) :
    view (other :: rest) offset k = none :=
  view_eq_none_of_lt (fun z member => by
    rcases List.mem_cons.mp member with rfl | member
    · exact below
    · have := valid.nonempty; have := after z member; omega) k

include valid in
/-- An adjacent range of the same owner and type is absorbed. -/
theorem view_merge (sticks : range.sticks other = true) (same : other.owners.map Owner.key = [o.key])
    (type : range.type = other.type) (offset k : Nat) :
    (view (other :: rest)).apply range.type range.start range.stop o.key offset k =
      (view [other.markUnlocking] offset k).or
        ((view rest).apply range.type (min range.start other.start) (max range.stop other.stop) o.key offset k) := by
  have dead : view [other.markUnlocking] offset k = none :=
    view_eq_none fun r member => by
      rw [List.mem_singleton.mp member, covers, holds_unlocking (by simp [markUnlocking, unlocking])]
      simp
  have otherCovers : other.covers offset k = true ↔ (other.start ≤ offset ∧ offset < other.stop) ∧ k = o.key := by
    rw [covers, Bool.and_eq_true, decide_eq_true_iff, valid.holds_iff, same, List.mem_singleton]
  have entry : lockEntry range.type = some other.type := by
    rw [lockEntry, if_neg (by rcases valid.locked with l | l <;> simp [type, l]), type]
  have nonempty := valid.nonempty
  -- the merged range is the two ranges side by side
  have hull : (min range.start other.start ≤ offset ∧ offset < max range.stop other.stop) ↔
      (range.start ≤ offset ∧ offset < range.stop) ∨ (other.start ≤ offset ∧ offset < other.stop) := by
    rw [sticks_iff] at sticks
    omega
  rw [dead, Option.none_or]
  unfold LockMap.apply
  rw [view_cons_or, view_singleton]
  by_cases mine : k = o.key
  · by_cases inRange : range.start ≤ offset ∧ offset < range.stop
    · have merged := hull.mpr (Or.inl inRange)
      rw [if_pos ⟨inRange.1, inRange.2, mine⟩, if_pos ⟨merged.1, merged.2, mine⟩]
    · have notRange : ¬(range.start ≤ offset ∧ offset < range.stop ∧ k = o.key) := fun h => inRange ⟨h.1, h.2.1⟩
      by_cases inOther : other.start ≤ offset ∧ offset < other.stop
      · have merged := hull.mpr (Or.inr inOther)
        rw [if_neg notRange, if_pos (otherCovers.mpr ⟨inOther, mine⟩), Option.some_or,
          if_pos ⟨merged.1, merged.2, mine⟩, entry]
      · have outside : ¬(min range.start other.start ≤ offset ∧ offset < max range.stop other.stop ∧ k = o.key) :=
          fun h => (hull.mp ⟨h.1, h.2.1⟩).elim inRange inOther
        rw [if_neg notRange, if_neg (fun h => inOther (otherCovers.mp h).1), Option.none_or, if_neg outside]
  · rw [if_neg (fun h => mine h.2.2), if_neg (fun h => mine (otherCovers.mp h).2), Option.none_or,
      if_neg (fun (h : _ ∧ _ ∧ k = o.key) => mine h.2.2)]

/-- A range the inserted one starts after is passed as it is. -/
theorem view_skip (past : other.stop ≤ range.start) (offset k : Nat) :
    (view (other :: rest)).apply range.type range.start range.stop o.key offset k =
      (view [other] offset k).or ((view rest).apply range.type range.start range.stop o.key offset k) := by
  unfold LockMap.apply
  by_cases mine : range.start ≤ offset ∧ offset < range.stop ∧ k = o.key
  · rw [if_pos mine, if_pos mine, view_singleton_of_not_mem (by omega), Option.none_or]
  · rw [if_neg mine, if_neg mine, view_cons_or]

include owners valid after in
/-- The part of the inserted range before a range it meets is placed on its own. -/
theorem view_splitBefore (early : range.start < other.start) (overlap : other.start < range.stop) (offset k : Nat) :
    (view (other :: rest)).apply range.type range.start range.stop o.key offset k =
      (view [{ range with stop := other.start }] offset k).or
        ((view (other :: rest)).apply range.type other.start range.stop o.key offset k) := by
  rw [view_own { range with stop := other.start } owners]
  unfold LockMap.apply
  dsimp only
  by_cases placed : range.start ≤ offset ∧ offset < other.start ∧ k = o.key
  · have whole : range.start ≤ offset ∧ offset < range.stop ∧ k = o.key := ⟨placed.1, by omega, placed.2.2⟩
    have notLeft : ¬(other.start ≤ offset ∧ offset < range.stop ∧ k = o.key) := fun h => by omega
    rw [if_pos whole, if_pos placed, if_neg notLeft, view_ahead_of_lt valid after placed.2.1, Option.or_none]
  · rw [if_neg placed, Option.none_or]
    by_cases left : other.start ≤ offset ∧ offset < range.stop ∧ k = o.key
    · rw [if_pos left, if_pos ⟨by omega, left.2.1, left.2.2⟩]
    · have notWhole : ¬(range.start ≤ offset ∧ offset < range.stop ∧ k = o.key) := fun h => by
        by_cases low : offset < other.start
        · exact placed ⟨h.1, low, h.2.2⟩
        · exact left ⟨by omega, h.2.1, h.2.2⟩
      rw [if_neg left, if_neg notWhole]

include owners valid after in
/-- A range that starts with the inserted one and reaches past its end is cut at that end,
its first piece overwritten. -/
theorem view_equalShort (nonempty : range.start < range.stop) (start : range.start = other.start)
    (short : range.stop < other.stop) (compatible : Compatible range.type o other) (offset k : Nat) :
    (view (other :: rest)).apply range.type range.start range.stop o.key offset k =
      (view [{ other with stop := range.stop }.overwrite range (Owners.equal range.owners other.owners)] offset k).or
        ((view ({ other with start := range.stop } :: rest)).apply range.type other.stop range.stop o.key offset k) := by
  rw [LockMap.apply_of_le _ _ (Nat.le_of_lt short)]
  unfold LockMap.apply
  rw [view_cons_or { other with start := range.stop }]
  by_cases inside : range.start ≤ offset ∧ offset < range.stop
  · have piece : ({ other with stop := range.stop } : LockRange).Valid := valid.piece rfl rfl (by dsimp only; omega)
    rw [overwrite_view owners piece compatible rfl (by dsimp only; omega),
      view_singleton_of_not_mem (r := { other with start := range.stop }) (by dsimp only; omega),
      view_rest_of_lt after (by omega), Option.none_or, Option.or_none]
    by_cases mine : k = o.key
    · rw [if_pos ⟨inside.1, inside.2, mine⟩, if_pos mine]
    · have below : offset < other.stop := by omega
      rw [if_neg (fun h => mine h.2.2), if_neg mine, view_cons_or, view_rest_of_lt after below, Option.or_none]
      exact (view_piece other { other with stop := range.stop } rfl rfl offset (by dsimp only; omega) k).symm
  · have outside : ¬(other.start ≤ offset ∧ offset < range.stop) := by rw [← start]; exact inside
    have unplaced : view [{ other with stop := range.stop }.overwrite range
        (Owners.equal range.owners other.owners)] offset k = none :=
      view_singleton_of_not_mem (by rw [overwrite_start, overwrite_stop]; exact outside) k
    rw [if_neg (fun h => inside ⟨h.1, h.2.1⟩), unplaced, Option.none_or, view_cons_or, view_piece other { other with start := range.stop } rfl rfl offset
        (by dsimp only; omega)]

include owners valid after in
/-- A range that starts with the inserted one and ends within it is overwritten whole. -/
theorem view_equalLong (start : range.start = other.start) (long : other.stop ≤ range.stop)
    (compatible : Compatible range.type o other) (offset k : Nat) :
    (view (other :: rest)).apply range.type range.start range.stop o.key offset k =
      (view [other.overwrite range (Owners.equal range.owners other.owners)] offset k).or
        ((view rest).apply range.type other.stop range.stop o.key offset k) := by
  have nonempty := valid.nonempty
  unfold LockMap.apply
  by_cases inside : other.start ≤ offset ∧ offset < other.stop
  · rw [overwrite_view owners valid compatible rfl inside]
    by_cases mine : k = o.key
    · have whole : range.start ≤ offset ∧ offset < range.stop ∧ k = o.key := ⟨by omega, by omega, mine⟩
      have notLeft : ¬(other.stop ≤ offset ∧ offset < range.stop ∧ k = o.key) := fun h => by omega
      rw [if_pos whole, if_pos mine, if_neg notLeft, view_rest_of_lt after inside.2, Option.or_none]
    · rw [if_neg (fun h => mine h.2.2), if_neg mine, if_neg (fun (h : _ ∧ _ ∧ k = o.key) => mine h.2.2),
        view_cons_or]
  · rw [view_singleton_of_not_mem (r := other.overwrite range (Owners.equal range.owners other.owners))
      (by simpa using inside), Option.none_or, view_cons_or,
      view_singleton_of_not_mem inside, Option.none_or]
    by_cases mine : range.start ≤ offset ∧ offset < range.stop ∧ k = o.key
    · rw [if_pos mine, if_pos ⟨by omega, mine.2.1, mine.2.2⟩]
    · have notLeft : ¬(other.stop ≤ offset ∧ offset < range.stop ∧ k = o.key) := fun h => mine ⟨by omega, h.2.1, h.2.2⟩
      rw [if_neg mine, if_neg notLeft]

/-- A range the inserted one starts inside is cut at its start. -/
theorem view_splitAfter (late : other.start < range.start) (overlap : range.start < other.stop) (offset k : Nat) :
    (view (other :: rest)).apply range.type range.start range.stop o.key offset k =
      (view [{ other with stop := range.start }] offset k).or
        ((view ({ other with start := range.start } :: rest)).apply range.type range.start range.stop o.key offset k) := by
  unfold LockMap.apply
  by_cases mine : range.start ≤ offset ∧ offset < range.stop ∧ k = o.key
  · rw [if_pos mine, if_pos mine, view_singleton_of_not_mem (by dsimp only; omega), Option.none_or]
  · rw [if_neg mine, if_neg mine, view_cons_or, view_cons_or { other with start := range.start }, ← Option.or_assoc,
      view_split other (Nat.le_of_lt late) (Nat.le_of_lt overlap)]

end Steps

/-! ## The loop's invariant -/

/-- The range lies after every range of `before` and before every range of `after`. -/
def Between (before after : List LockRange) (range : LockRange) : Prop :=
  (∀ p ∈ before, p.stop ≤ range.start) ∧ ∀ a ∈ after, range.stop ≤ a.start

/-- `offset` is at or before all that is still to place: the range, unless it is empty,
and the ranges ahead. -/
def Ahead (range : LockRange) (rest : List LockRange) (offset : Nat) : Prop :=
  (range.start < range.stop → offset ≤ range.start) ∧ ∀ z ∈ rest, offset ≤ z.start

/-- The ranges that `insert` keeps: those not marked for removal. -/
def live (data : List LockRange) : List LockRange := data.filter fun r => !r.unlocking

/-- The loop stops with the range empty or with everything ahead after it. -/
def Stopped (range : LockRange) (rest : List LockRange) : Prop :=
  range.start < range.stop → ∀ z ∈ rest, range.stop ≤ z.start

/-- The ranges the loop has passed and keeps: valid, in order, between the ranges the
loop never sees, and before all that is still to place. -/
structure Done (before after : List LockRange) (range : LockRange) (rest processed : List LockRange) : Prop where
  valid : ∀ q ∈ live processed, q.Valid
  ordered : (live processed).Pairwise fun a b => a.stop ≤ b.start
  between : ∀ q ∈ live processed, Between before after q
  ahead : ∀ q ∈ live processed, Ahead range rest q.stop

/-- The invariant of `insertLoop` inserting a lock of `lockType` by `o` between the ranges
`before` and `after`. -/
structure InsertInv (before after : List LockRange) (o : Owner) (lockType : LockType)
    (processed : List LockRange) (range : LockRange) (rest : List LockRange) : Prop where
  owners : range.owners = [o]
  type : range.type = lockType
  between : Between before after range
  wellFormed : WellFormed rest
  restBetween : ∀ z ∈ rest, Between before after z
  compatible : range.start < range.stop → ∀ z ∈ rest, range.overlaps z = true → Compatible lockType o z
  done : Done before after range rest processed

section Invariant

variable {before after : List LockRange}

theorem Between.mono {r piece : LockRange} (between : Between before after r) (start : r.start ≤ piece.start)
    (stop : piece.stop ≤ r.stop) : Between before after piece :=
  ⟨fun p member => le_trans (between.1 p member) start, fun a member => le_trans stop (between.2 a member)⟩

theorem Between.hull {r s piece : LockRange} (first : Between before after r) (second : Between before after s)
    (start : min r.start s.start ≤ piece.start) (stop : piece.stop ≤ max r.stop s.stop) :
    Between before after piece := by
  constructor
  · intro p member
    have := first.1 p member; have := second.1 p member; omega
  · intro a member
    have := first.2 a member; have := second.2 a member; omega

theorem live_append_singleton (data : List LockRange) (piece : LockRange) :
    live (data ++ [piece]) = live data ++ if piece.unlocking then [] else [piece] := by
  by_cases dead : piece.unlocking = true <;> simp [live, List.filter_append, dead]

theorem WellFormed.cons_iff {r : LockRange} {data : List LockRange} :
    WellFormed (r :: data) ↔ r.Valid ∧ (∀ z ∈ data, r.stop ≤ z.start) ∧ WellFormed data := by
  constructor
  · intro wf
    obtain ⟨ahead, ordered⟩ := List.pairwise_cons.mp wf.ordered
    exact ⟨wf.valid r (List.mem_cons_self ..), ahead, fun z member => wf.valid z (List.mem_cons_of_mem _ member),
      ordered⟩
  · rintro ⟨valid, ahead, wf⟩
    refine ⟨fun z member => ?_, List.pairwise_cons.mpr ⟨ahead, wf.ordered⟩⟩
    rcases List.mem_cons.mp member with rfl | member
    · exact valid
    · exact wf.valid z member

/-- A range held by `o` alone that is kept is valid. -/
theorem valid_of_owners {piece : LockRange} {o : Owner} (owners : piece.owners = [o]) (locking : piece.type ≠ .kInvalid)
    (live : piece.unlocking = false) (nonempty : piece.start < piece.stop) : piece.Valid where
  nonempty := nonempty
  locked := LockType.locked_of_ne locking (fun unlock => by simp [unlocking, unlock] at live)
  owned := by simp [owners]
  sorted := owners ▸ List.pairwise_singleton _ _
  single := fun _ => by simp [owners]

/-- Passing a piece: what was passed stays before what is left to place, and the piece,
when it is kept, is valid, after what was passed, and before what is left. -/
theorem Done.push {range other range' piece : LockRange} {rest rest' processed : List LockRange}
    (done : Done before after range (other :: rest) processed) (nonempty : range.start < range.stop)
    (startBound : range'.start < range'.stop → min range.start other.start ≤ range'.start)
    (restBound : ∀ z ∈ rest', z ∈ rest ∨ min range.start other.start ≤ z.start)
    (placed : piece.unlocking = false → piece.Valid ∧ Between before after piece ∧
      min range.start other.start ≤ piece.start ∧ Ahead range' rest' piece.stop) :
    Done before after range' rest' (processed ++ [piece]) := by
  have passed : ∀ q ∈ live processed, q.stop ≤ min range.start other.start ∧ Ahead range' rest' q.stop := by
    intro q member
    obtain ⟨toRange, toRest⟩ := done.ahead q member
    have bound := le_min (toRange nonempty) (toRest other (List.mem_cons_self ..))
    refine ⟨bound, fun h => le_trans bound (startBound h), fun z member => ?_⟩
    rcases restBound z member with old | later
    · exact toRest z (List.mem_cons_of_mem _ old)
    · exact le_trans bound later
  by_cases dead : piece.unlocking = true
  · have kept : live (processed ++ [piece]) = live processed := by
      rw [live_append_singleton, if_pos dead, List.append_nil]
    constructor <;> rw [kept]
    exacts [done.valid, done.ordered, done.between, fun q member => (passed q member).2]
  · obtain ⟨valid, between, start, ahead⟩ := placed (by simpa using dead)
    have kept : live (processed ++ [piece]) = live processed ++ [piece] := by
      rw [live_append_singleton, if_neg dead]
    constructor <;> rw [kept]
    · rw [List.forall_mem_append, List.forall_mem_singleton]
      exact ⟨done.valid, valid⟩
    · refine List.pairwise_append.mpr ⟨done.ordered, List.pairwise_singleton _ _, fun q member p new => ?_⟩
      rw [List.mem_singleton.mp new]
      exact le_trans (passed q member).1 start
    · rw [List.forall_mem_append, List.forall_mem_singleton]
      exact ⟨done.between, between⟩
    · rw [List.forall_mem_append, List.forall_mem_singleton]
      exact ⟨fun q member => (passed q member).2, ahead⟩

end Invariant

section Branches

/-! Each branch of the loop keeps the invariant. -/

variable {before after : List LockRange} {o : Owner} {lockType : LockType} {processed : List LockRange}
  {range other : LockRange} {rest : List LockRange}
  (inv : InsertInv before after o lockType processed range (other :: rest)) (nonempty : range.start < range.stop)

include inv in
theorem InsertInv.tailBetween : ∀ z ∈ rest, Between before after z :=
  fun z member => inv.restBetween z (List.mem_cons_of_mem _ member)

include inv nonempty in
/-- The range meets the ranges it overlaps as `fits` allows. -/
theorem InsertInv.meets {z : LockRange} (member : z ∈ other :: rest) {piece : LockRange}
    (start : range.start ≤ piece.start) (stop : piece.stop ≤ range.stop) (overlap : piece.overlaps z = true) :
    Compatible lockType o z := by
  apply inv.compatible nonempty z member
  rw [overlaps_iff] at overlap ⊢
  omega

include inv nonempty in
theorem insertInv_merge (sticks : range.sticks other = true) :
    InsertInv before after o lockType (processed ++ [other.markUnlocking])
      { range with start := min range.start other.start, stop := max range.stop other.stop } rest := by
  obtain ⟨valid, ahead, wf⟩ := WellFormed.cons_iff.mp inv.wellFormed
  have otherBetween := inv.restBetween other (List.mem_cons_self ..)
  refine ⟨inv.owners, inv.type, inv.between.hull otherBetween le_rfl le_rfl, wf, inv.tailBetween, ?_, ?_⟩
  · intro _ z member overlap
    apply inv.compatible nonempty z (List.mem_cons_of_mem _ member)
    -- ranges ahead start after `other`, so the merged range meets them only where the range does
    have := valid.nonempty; have := ahead z member; have := (wf.valid z member).nonempty
    rw [overlaps_iff] at overlap ⊢
    rw [sticks_iff] at sticks
    dsimp only at overlap
    omega
  · exact inv.done.push nonempty (fun _ => le_rfl) (fun z member => Or.inl member)
      (fun live => absurd live (by simp [markUnlocking, unlocking]))

include inv nonempty in
theorem insertInv_skip (past : other.stop ≤ range.start) :
    InsertInv before after o lockType (processed ++ [other]) range rest := by
  obtain ⟨valid, ahead, wf⟩ := WellFormed.cons_iff.mp inv.wellFormed
  refine ⟨inv.owners, inv.type, inv.between, wf, inv.tailBetween, fun _ z member =>
    inv.compatible nonempty z (List.mem_cons_of_mem _ member), ?_⟩
  exact inv.done.push nonempty (fun _ => min_le_left _ _) (fun z member => Or.inl member)
    (fun _ => ⟨valid, inv.restBetween other (List.mem_cons_self ..), min_le_right _ _, fun _ => past, ahead⟩)

include inv nonempty in
theorem insertInv_splitBefore (locking : lockType ≠ .kInvalid) (early : range.start < other.start)
    (overlap : other.start < range.stop) :
    InsertInv before after o lockType (processed ++ [{ range with stop := other.start }])
      { range with start := other.start } (other :: rest) := by
  obtain ⟨valid, ahead, -⟩ := WellFormed.cons_iff.mp inv.wellFormed
  refine ⟨inv.owners, inv.type, inv.between.mono (Nat.le_of_lt early) le_rfl, inv.wellFormed, inv.restBetween,
    fun _ z member => inv.meets nonempty member (Nat.le_of_lt early) le_rfl, ?_⟩
  refine inv.done.push nonempty (fun _ => min_le_right _ _) (fun z member => ?_) (fun live => ?_)
  · rcases List.mem_cons.mp member with rfl | member
    · exact Or.inr (min_le_right _ _)
    · exact Or.inl member
  · refine ⟨valid_of_owners inv.owners (inv.type ▸ locking) live early, inv.between.mono le_rfl (Nat.le_of_lt overlap),
      min_le_left _ _, fun _ => le_rfl, fun z member => ?_⟩
    rcases List.mem_cons.mp member with rfl | member
    · exact le_rfl
    · have := valid.nonempty; have := ahead z member
      dsimp only; omega

include inv nonempty in
theorem insertInv_equalShort (locking : lockType ≠ .kInvalid) (start : range.start = other.start)
    (short : range.stop < other.stop) :
    InsertInv before after o lockType
      (processed ++ [{ other with stop := range.stop }.overwrite range (Owners.equal range.owners other.owners)])
      { range with start := other.stop } ({ other with start := range.stop } :: rest) := by
  obtain ⟨valid, ahead, wf⟩ := WellFormed.cons_iff.mp inv.wellFormed
  have otherBetween := inv.restBetween other (List.mem_cons_self ..)
  have compatible : Compatible range.type o other := by
    rw [inv.type]
    exact inv.meets nonempty (List.mem_cons_self ..) le_rfl le_rfl (by
      rw [overlaps_iff]; omega)
  have piece : ({ other with stop := range.stop } : LockRange).Valid := valid.piece rfl rfl (by dsimp only; omega)
  -- what is left of the range is empty: `other` reaches past it
  have empty : ¬(other.stop < range.stop) := by omega
  refine ⟨inv.owners, inv.type, inv.between.hull otherBetween (by dsimp only; omega) (le_max_left _ _),
    WellFormed.cons_iff.mpr ⟨valid.piece rfl rfl short, ahead, wf⟩, fun z member => ?_,
    fun ne => absurd ne empty, ?_⟩
  · rcases List.mem_cons.mp member with rfl | member
    · exact otherBetween.mono (by dsimp only; omega) le_rfl
    · exact inv.tailBetween z member
  refine inv.done.push nonempty (fun ne => absurd ne empty) (fun z member => ?_) (fun live => ?_)
  · rcases List.mem_cons.mp member with rfl | member
    · exact Or.inr (by dsimp only; omega)
    · exact Or.inl member
  · refine ⟨overwrite_valid inv.owners (inv.type ▸ locking) piece compatible rfl live,
      otherBetween.mono (by simp) (by simp; omega), by simp only [overwrite_start]; omega, fun ne => absurd ne empty, fun z member => ?_⟩
    rcases List.mem_cons.mp member with rfl | member
    · simp
    · have := ahead z member
      simp only [overwrite_stop]; omega

include inv nonempty in
theorem insertInv_equalLong (locking : lockType ≠ .kInvalid) (start : range.start = other.start) :
    InsertInv before after o lockType (processed ++ [other.overwrite range (Owners.equal range.owners other.owners)])
      { range with start := other.stop } rest := by
  obtain ⟨valid, ahead, wf⟩ := WellFormed.cons_iff.mp inv.wellFormed
  have otherBetween := inv.restBetween other (List.mem_cons_self ..)
  have inside : range.start ≤ other.stop := by have := valid.nonempty; omega
  have compatible : Compatible range.type o other := by
    rw [inv.type]
    exact inv.meets nonempty (List.mem_cons_self ..) le_rfl le_rfl (by
      have := valid.nonempty
      rw [overlaps_iff]; omega)
  refine ⟨inv.owners, inv.type, inv.between.mono inside le_rfl, wf, inv.tailBetween,
    fun _ z member => inv.meets nonempty (List.mem_cons_of_mem _ member) inside le_rfl, ?_⟩
  refine inv.done.push nonempty (fun _ => le_trans (min_le_left _ _) inside) (fun z member => Or.inl member)
    (fun live => ?_)
  exact ⟨overwrite_valid inv.owners (inv.type ▸ locking) valid compatible rfl live,
    otherBetween.mono (by simp) (by simp), by simp only [overwrite_start]; exact min_le_right _ _, fun _ => by simp,
    fun z member => by simpa using ahead z member⟩

include inv nonempty in
theorem insertInv_splitAfter (late : other.start < range.start) (overlap : range.start < other.stop) :
    InsertInv before after o lockType (processed ++ [{ other with stop := range.start }]) range
      ({ other with start := range.start } :: rest) := by
  obtain ⟨valid, ahead, wf⟩ := WellFormed.cons_iff.mp inv.wellFormed
  have otherBetween := inv.restBetween other (List.mem_cons_self ..)
  refine ⟨inv.owners, inv.type, inv.between, WellFormed.cons_iff.mpr ⟨valid.piece rfl rfl overlap, ahead, wf⟩,
    fun z member => ?_, fun _ z member => ?_, ?_⟩
  · rcases List.mem_cons.mp member with rfl | member
    · exact otherBetween.mono (Nat.le_of_lt late) le_rfl
    · exact inv.tailBetween z member
  · -- the piece ahead has the type and owners of `other`, which the range meets
    rcases List.mem_cons.mp member with rfl | member
    · have meets : Compatible lockType o other := inv.meets nonempty (List.mem_cons_self ..) le_rfl le_rfl (by
        rw [overlaps_iff]; omega)
      exact fun _ => meets
    · exact inv.compatible nonempty z (List.mem_cons_of_mem _ member)
  refine inv.done.push nonempty (fun _ => min_le_left _ _) (fun z member => ?_) (fun _ => ?_)
  · rcases List.mem_cons.mp member with rfl | member
    · exact Or.inr (min_le_left _ _)
    · exact Or.inl member
  · refine ⟨valid.piece rfl rfl late, otherBetween.mono le_rfl (Nat.le_of_lt overlap), min_le_right _ _,
      fun _ => le_rfl, fun z member => ?_⟩
    rcases List.mem_cons.mp member with rfl | member
    · exact le_rfl
    · have := ahead z member
      dsimp only; omega

end Branches

/-! ## The loop -/

/-- The table the zipper stands for: the ranges passed, then the range being placed over
the ranges ahead. -/
def loopView (o : Owner) (processed : List LockRange) (range : LockRange) (rest : List LockRange) : LockMap :=
  fun offset k => (view processed offset k).or ((view rest).apply range.type range.start range.stop o.key offset k)

theorem loopView_push {o : Owner} {processed : List LockRange} {range other range' piece : LockRange}
    {rest rest' : List LockRange}
    (step : ∀ offset k, (view (other :: rest)).apply range.type range.start range.stop o.key offset k =
      (view [piece] offset k).or ((view rest').apply range'.type range'.start range'.stop o.key offset k)) :
    loopView o (processed ++ [piece]) range' rest' = loopView o processed range (other :: rest) := by
  funext offset k
  simp only [loopView, view_append, Option.or_assoc, step]

/-- The loop keeps its invariant and the table, and stops where nothing ahead is reached. -/
theorem insertLoop_spec {before after : List LockRange} {o : Owner} {lockType : LockType}
    (locking : lockType ≠ .kInvalid) (range : LockRange) (processed rest : List LockRange)
    (inv : InsertInv before after o lockType processed range rest) :
    InsertInv before after o lockType (insertLoop range processed rest).1 (insertLoop range processed rest).2.1
        (insertLoop range processed rest).2.2 ∧
      Stopped (insertLoop range processed rest).2.1 (insertLoop range processed rest).2.2 ∧
      loopView o (insertLoop range processed rest).1 (insertLoop range processed rest).2.1
        (insertLoop range processed rest).2.2 = loopView o processed range rest := by
  fun_induction insertLoop range processed rest with
  | case1 range processed => exact ⟨inv, fun _ z member => absurd member (List.not_mem_nil), rfl⟩
  | case2 range processed other rest empty =>
    exact ⟨inv, fun nonempty => absurd nonempty (show ¬range.start < range.stop by omega), rfl⟩
  | case3 range processed other rest empty sameOwners merge ih =>
    have nonempty : range.start < range.stop := by omega
    simp only [Bool.and_eq_true, beq_iff_eq, sameOwners] at merge
    obtain ⟨⟨sticks, same⟩, type⟩ := merge
    obtain ⟨valid, ahead, -⟩ := WellFormed.cons_iff.mp inv.wellFormed
    have keys : other.owners.map Owner.key = [o.key] := by rw [← (Owners.equal_iff _ _).mp same, inv.owners]; rfl
    obtain ⟨inv', stopped, view'⟩ := ih (insertInv_merge inv nonempty sticks)
    exact ⟨inv', stopped, view'.trans (loopView_push (view_merge valid sticks keys type))⟩
  | case4 range processed other rest empty sameOwners merge reached =>
    -- the range ends before `other`, so before everything ahead
    obtain ⟨valid, ahead, -⟩ := WellFormed.cons_iff.mp inv.wellFormed
    refine ⟨inv, fun _ z member => ?_, rfl⟩
    rcases List.mem_cons.mp member with rfl | member
    · exact reached
    · show range.stop ≤ z.start
      have := valid.nonempty; have := ahead z member; omega
  | case5 range processed other rest empty sameOwners merge reached apart ih =>
    have nonempty : range.start < range.stop := by omega
    have past : other.stop ≤ range.start := by
      have : ¬range.overlaps other = true := by simpa using apart
      rw [overlaps_iff] at this
      omega
    obtain ⟨inv', stopped, view'⟩ := ih (insertInv_skip inv nonempty past)
    exact ⟨inv', stopped, view'.trans (loopView_push (view_skip past))⟩
  | case6 range processed other rest empty sameOwners merge reached apart early ih =>
    have nonempty : range.start < range.stop := by omega
    obtain ⟨valid, ahead, -⟩ := WellFormed.cons_iff.mp inv.wellFormed
    have overlap : other.start < range.stop := by omega
    obtain ⟨inv', stopped, view'⟩ := ih (insertInv_splitBefore inv nonempty locking early overlap)
    exact ⟨inv', stopped, view'.trans (loopView_push (view_splitBefore inv.owners valid ahead early overlap))⟩
  | case7 range processed other rest empty sameOwners merge reached apart early start short ih =>
    have nonempty : range.start < range.stop := by omega
    obtain ⟨valid, ahead, -⟩ := WellFormed.cons_iff.mp inv.wellFormed
    have compatible : Compatible range.type o other := by
      rw [inv.type]
      exact inv.meets nonempty (List.mem_cons_self ..) le_rfl le_rfl (by
        rw [overlaps_iff]; omega)
    obtain ⟨inv', stopped, view'⟩ := ih (insertInv_equalShort inv nonempty locking start short)
    exact ⟨inv', stopped,
      view'.trans (loopView_push (view_equalShort inv.owners valid ahead nonempty start short compatible))⟩
  | case8 range processed other rest empty sameOwners merge reached apart early start long ih =>
    have nonempty : range.start < range.stop := by omega
    obtain ⟨valid, ahead, -⟩ := WellFormed.cons_iff.mp inv.wellFormed
    have compatible : Compatible range.type o other := by
      rw [inv.type]
      exact inv.meets nonempty (List.mem_cons_self ..) le_rfl le_rfl (by
        have := valid.nonempty
        rw [overlaps_iff]; omega)
    obtain ⟨inv', stopped, view'⟩ := ih (insertInv_equalLong inv nonempty locking start)
    exact ⟨inv', stopped,
      view'.trans (loopView_push (view_equalLong inv.owners valid ahead start (by omega) compatible))⟩
  | case9 range processed other rest empty sameOwners merge reached apart early start ih =>
    have nonempty : range.start < range.stop := by omega
    have late : other.start < range.start := by omega
    have overlap : range.start < other.stop := by
      have : range.overlaps other = true := by simpa using apart
      rw [overlaps_iff] at this
      omega
    obtain ⟨inv', stopped, view'⟩ := ih (insertInv_splitAfter inv nonempty late overlap)
    exact ⟨inv', stopped, view'.trans (loopView_push (view_splitAfter late overlap))⟩

/-! ## The window -/

theorem lowerBound_cons (r : LockRange) (data : List LockRange) (offset : Nat) :
    lowerBound (r :: data) offset = if r.start < offset then lowerBound data offset + 1 else 0 := by
  by_cases below : r.start < offset <;> simp [lowerBound, below]

theorem upperBound_cons (r : LockRange) (data : List LockRange) (offset : Nat) :
    upperBound (r :: data) offset = if offset < r.start then 0 else upperBound data offset + 1 := by
  by_cases above : offset < r.start <;> simp [upperBound, above]

theorem lowerBound_le_upperBound (data : List LockRange) {start stop : Nat} (le : start ≤ stop) :
    lowerBound data start ≤ upperBound data stop := by
  induction data with
  | nil => simp [lowerBound, upperBound]
  | cons r data ih =>
    rw [lowerBound_cons, upperBound_cons]
    by_cases below : r.start < start
    · rw [if_pos below, if_neg (by omega)]
      omega
    · rw [if_neg below]
      exact Nat.zero_le _

/-- The ranges before the window end at or before `offset`: the window starts one range
before the lower bound of `offset`. -/
theorem stop_le_of_mem_take {data : List LockRange} (wf : WellFormed data) (offset : Nat) :
    ∀ p ∈ data.take (lowerBound data offset - 1), p.stop ≤ offset := by
  induction data with
  | nil => simp
  | cons r data ih =>
    obtain ⟨-, ahead, wf⟩ := WellFormed.cons_iff.mp wf
    rw [lowerBound_cons]
    by_cases below : r.start < offset
    · rw [if_pos below, Nat.add_sub_cancel]
      cases data with
      | nil => simp [lowerBound]
      | cons next data =>
        rw [lowerBound_cons] at ih ⊢
        by_cases next_below : next.start < offset
        · rw [if_pos next_below, List.take_succ_cons]
          intro p member
          rcases List.mem_cons.mp member with rfl | member
          · exact le_trans (ahead next (List.mem_cons_self ..)) (Nat.le_of_lt next_below)
          · rw [if_pos next_below, Nat.add_sub_cancel] at ih
            exact ih wf p member
        · rw [if_neg next_below]
          simp
    · rw [if_neg below]
      simp

/-- The ranges after the window start after `offset`. -/
theorem lt_start_of_mem_drop {data : List LockRange} (wf : WellFormed data) (offset : Nat) :
    ∀ a ∈ data.drop (upperBound data offset), offset < a.start := by
  induction data with
  | nil => simp
  | cons r data ih =>
    obtain ⟨valid, ahead, wf⟩ := WellFormed.cons_iff.mp wf
    rw [upperBound_cons]
    by_cases above : offset < r.start
    · rw [if_pos above, List.drop_zero]
      intro a member
      rcases List.mem_cons.mp member with rfl | member
      · exact above
      · have := valid.nonempty; have := ahead a member; omega
    · rw [if_neg above, List.drop_succ_cons]
      exact ih wf

theorem first_le_upperBound (data : List LockRange) {range : LockRange} (nonempty : range.start < range.stop) :
    first data range ≤ upperBound data range.stop :=
  le_trans (Nat.sub_le _ _) (lowerBound_le_upperBound data (Nat.le_of_lt nonempty))

/-- The ranges before the window, the window, and the ranges after it make up the ranges. -/
theorem take_append_window_append_drop (data : List LockRange) {range : LockRange}
    (le : first data range ≤ upperBound data range.stop) :
    data.take (first data range) ++ window data range ++ data.drop (upperBound data range.stop) = data := by
  have rest : data.drop (first data range) =
      window data range ++ data.drop (upperBound data range.stop) := by
    unfold window
    conv => lhs; rw [← List.take_append_drop (upperBound data range.stop - first data range) (data.drop (first data range))]
    rw [List.drop_drop, Nat.add_sub_cancel' le]
  rw [List.append_assoc, ← rest, List.take_append_drop]

/-- `fits` holds when every range the lock meets is one it may meet. -/
theorem compatible_of_fits {data : List LockRange} {range : LockRange} {o : Owner} (owners : range.owners = [o])
    (fits : fits data range = true) :
    ∀ z ∈ window data range, range.overlaps z = true → Compatible range.type o z := by
  intro z member overlap
  unfold LockRanges.fits findCollision at fits
  by_cases dead : range.unlocking = true
  · exact Or.inl (by simpa [unlocking, owners] using dead)
  · rw [if_neg dead, Option.isNone_iff_eq_none, List.find?_eq_none] at fits
    have collision : (range.overlaps z && (!range.shared || !z.shared) && !Owners.equal z.owners range.owners) = false :=
      by simpa using fits z member
    rw [overlap, Bool.true_and, Bool.and_eq_false_iff] at collision
    rcases collision with both | equal
    · -- both are shared
      simp only [Bool.or_eq_false_iff, Bool.not_eq_false', LockRange.shared, beq_iff_eq] at both
      exact Or.inr (Or.inl both)
    · -- `z` is held by `o` alone
      rw [Bool.not_eq_false'] at equal
      exact Or.inr (Or.inr (((Owners.equal_iff _ _).mp equal).trans (by rw [owners]; rfl)))

/-- A range that meets the lock lies in the window: the ranges before the window end
by the lock's start, and those after it start past its end. -/
theorem mem_window_of_overlaps {data : List LockRange} (wf : WellFormed data) {range r : LockRange}
    (nonempty : range.start < range.stop) (member : r ∈ data) (overlap : range.overlaps r = true) :
    r ∈ window data range := by
  rw [← take_append_window_append_drop data (first_le_upperBound data nonempty)] at member
  rw [overlaps_iff] at overlap
  rcases List.mem_append.mp member with front | after
  · rcases List.mem_append.mp front with before | inside
    · have ends := stop_le_of_mem_take wf range.start r before
      omega
    · exact inside
  · have starts := lt_start_of_mem_drop wf range.stop r after
    omega

theorem mem_of_mem_window {data : List LockRange} {range r : LockRange} (member : r ∈ window data range) :
    r ∈ data :=
  ((List.take_sublist _ _).trans (List.drop_sublist _ _)).subset member

/-- The ranges a lock of the single owner `o` may not meet: those that overlap it, are
not held by `o` alone, and are not shared while the lock is. -/
def Collides (range : LockRange) (o : Owner) (r : LockRange) : Prop :=
  range.overlaps r = true ∧ Owners.equal r.owners [o] = false ∧ ¬(range.shared = true ∧ r.shared = true)

/-- The test `findCollision` makes of each range in the window. -/
theorem collision_test_iff {range : LockRange} {o : Owner} (owners : range.owners = [o]) (r : LockRange) :
    (range.overlaps r && (!range.shared || !r.shared) && !Owners.equal r.owners range.owners) = true ↔
      Collides range o r := by
  rw [owners]
  simp only [Collides, Bool.and_eq_true, Bool.or_eq_true, Bool.not_eq_eq_eq_not, Bool.not_true]
  constructor
  · rintro ⟨⟨overlap, notBoth⟩, other⟩
    refine ⟨overlap, other, fun ⟨shared, shared'⟩ => ?_⟩
    rcases notBoth with notShared | notShared <;> simp_all
  · rintro ⟨overlap, other, notBoth⟩
    refine ⟨⟨overlap, ?_⟩, other⟩
    by_cases shared : range.shared = true
    · exact Or.inr (by simpa using fun shared' => notBoth ⟨shared, shared'⟩)
    · exact Or.inl (by simpa using shared)

/-- A lock of a single owner that collides with none of the ranges fits. -/
theorem fits_of_forall_not_collides {data : List LockRange} {range : LockRange} {o : Owner}
    (owners : range.owners = [o]) (free : ∀ r ∈ data, ¬ Collides range o r) : fits data range = true := by
  unfold fits findCollision
  split_ifs
  · rfl
  · rw [Option.isNone_iff_eq_none, List.find?_eq_none]
    intro r member tested
    exact free r (mem_of_mem_window member) ((collision_test_iff owners r).mp tested)

/-- `findCollision` on well-formed ranges and a lock of one owner: an unlock collides with
nothing; a lock collides exactly when some range may not meet it, and what it returns
is such a range. Stepping back one range from the lower bound misses none, as only the
range before it can reach into the lock. -/
theorem findCollision_spec {data : List LockRange} (wf : WellFormed data) {range : LockRange} {o : Owner}
    (owners : range.owners = [o]) (nonempty : range.start < range.stop) :
    (range.type = .kUnlock → findCollision data range = none) ∧
    (range.type ≠ .kUnlock →
      ((findCollision data range).isSome = true ↔ ∃ r ∈ data, Collides range o r) ∧
      ∀ r, findCollision data range = some r → r ∈ data ∧ Collides range o r) := by
  have unlocking : range.unlocking = true ↔ range.type = .kUnlock := by simp [unlocking, owners]
  refine ⟨fun unlock => by simp [findCollision, unlocking.mpr unlock], fun locking => ?_⟩
  have found : findCollision data range = (window data range).find? fun r =>
      range.overlaps r && (!range.shared || !r.shared) && !Owners.equal r.owners range.owners := by
    rw [findCollision, if_neg (fun dead => locking (unlocking.mp dead))]
  -- what `find?` returns is in the window and passes the test
  have returned : ∀ r, findCollision data range = some r → r ∈ data ∧ Collides range o r := by
    intro r some
    rw [found] at some
    have passes := List.find?_some some
    exact ⟨mem_of_mem_window (List.mem_of_find?_eq_some some), (collision_test_iff owners r).mp passes⟩
  refine ⟨⟨fun isSome => ?_, fun collision => ?_⟩, returned⟩
  · obtain ⟨r, some⟩ := Option.isSome_iff_exists.mp isSome
    exact ⟨r, returned r some⟩
  · obtain ⟨r, member, collides⟩ := collision
    rw [found, List.find?_isSome]
    exact ⟨r, mem_window_of_overlaps wf nonempty member collides.1, (collision_test_iff owners r).mpr collides⟩

/-- An exclusive lock of owner `3` on `[5, 25)` meets the shared range `[0, 10)` of owner
`1`, and the one before the lower bound is the range it collides with. -/
theorem findCollision_spec_twoRanges :
    let data : List LockRange := [⟨.kShared, 0, 10, [⟨1, 1, 0, 0⟩]⟩, ⟨.kExclusive, 20, 30, [⟨2, 1, 0, 0⟩]⟩]
    let lock : LockRange := ⟨.kExclusive, 5, 25, [⟨3, 1, 0, 0⟩]⟩
    WellFormed data ∧ findCollision data lock = some ⟨.kShared, 0, 10, [⟨1, 1, 0, 0⟩]⟩ ∧
      ((lock.type = .kUnlock → findCollision data lock = none) ∧
        (lock.type ≠ .kUnlock →
          ((findCollision data lock).isSome = true ↔ ∃ r ∈ data, Collides lock ⟨3, 1, 0, 0⟩ r) ∧
          ∀ r, findCollision data lock = some r → r ∈ data ∧ Collides lock ⟨3, 1, 0, 0⟩ r)) :=
  ⟨by decide, by decide, findCollision_spec (by decide) rfl (by decide)⟩

/-! ## `insert` -/

/-- What `insert` puts in place of the window: the pieces passed, what is left of the
range unless it is empty, and the ranges ahead. -/
def placed (processed : List LockRange) (range : LockRange) (rest : List LockRange) : List LockRange :=
  if range.stop > range.start then processed ++ range :: rest else processed ++ rest

theorem insert_eq (data : List LockRange) (range : LockRange) :
    insert data range = data.take (first data range) ++
      live (placed (insertLoop range [] (window data range)).1 (insertLoop range [] (window data range)).2.1
        (insertLoop range [] (window data range)).2.2) ++ data.drop (upperBound data range.stop) :=
  rfl

theorem WellFormed.sublist {data data' : List LockRange} (wf : WellFormed data) (sub : data'.Sublist data) :
    WellFormed data' :=
  ⟨fun r member => wf.valid r (sub.subset member), wf.ordered.sublist sub⟩

theorem WellFormed.append {data data' : List LockRange} (wf : WellFormed data) (wf' : WellFormed data')
    (ordered : ∀ a ∈ data, ∀ b ∈ data', a.stop ≤ b.start) : WellFormed (data ++ data') := by
  refine ⟨fun r member => ?_, List.pairwise_append.mpr ⟨wf.ordered, wf'.ordered, ordered⟩⟩
  rcases List.mem_append.mp member with old | new
  · exact wf.valid r old
  · exact wf'.valid r new

theorem live_append (data data' : List LockRange) : live (data ++ data') = live data ++ live data' :=
  List.filter_append _ _

theorem live_cons (r : LockRange) (data : List LockRange) :
    live (r :: data) = if r.unlocking = true then live data else r :: live data := by
  by_cases dead : r.unlocking = true <;> simp [live, dead]

theorem live_of_wellFormed {data : List LockRange} (wf : WellFormed data) : live data = data :=
  List.filter_eq_self.mpr fun r member => by simp [(wf.valid r member).live]

/-- A range held by `o` alone before all the ranges after it gives what placing it over
them gives. -/
theorem view_cons_of_before {range : LockRange} {rest : List LockRange} {o : Owner} (owners : range.owners = [o])
    (before : ∀ z ∈ rest, range.stop ≤ z.start) (offset k : Nat) :
    view (range :: rest) offset k = (view rest).apply range.type range.start range.stop o.key offset k := by
  rw [view_cons_or, view_own range owners]
  unfold LockMap.apply
  by_cases mine : range.start ≤ offset ∧ offset < range.stop ∧ k = o.key
  · rw [if_pos mine, if_pos mine, view_eq_none_of_lt (fun z member => by have := before z member; omega),
      Option.or_none]
  · rw [if_neg mine, if_neg mine, Option.none_or]

section Placed

variable {before after : List LockRange} {o : Owner} {lockType : LockType} {processed : List LockRange}
  {range : LockRange} {rest : List LockRange}
  (inv : InsertInv before after o lockType processed range rest) (stopped : Stopped range rest)

include inv stopped in
/-- The pieces passed, the range and the ranges ahead are in order: each piece ends
before the range and the ranges ahead, the range before the ranges ahead. -/
theorem wellFormed_placed (locking : lockType ≠ .kInvalid) :
    WellFormed (live (placed processed range rest)) ∧
      ∀ m ∈ live (placed processed range rest), Between before after m := by
  have passed := inv.done
  have restLive := live_of_wellFormed inv.wellFormed
  -- what is kept after the pieces passed: the ranges ahead, and the range when it is kept
  obtain ⟨tail, kept, tailWellFormed, tailBetween, ahead⟩ : ∃ tail,
      live (placed processed range rest) = live processed ++ tail ∧ WellFormed tail ∧
        (∀ m ∈ tail, Between before after m) ∧ ∀ q ∈ live processed, ∀ m ∈ tail, q.stop ≤ m.start := by
    unfold placed
    by_cases nonempty : range.start < range.stop
    · rw [if_pos nonempty, live_append, live_cons, restLive]
      by_cases dead : range.unlocking = true
      · rw [if_pos dead]
        exact ⟨rest, rfl, inv.wellFormed, inv.restBetween, fun q member => (passed.ahead q member).2⟩
      · rw [if_neg dead]
        refine ⟨range :: rest, rfl, WellFormed.cons_iff.mpr ⟨valid_of_owners inv.owners (inv.type ▸ locking)
          (by simpa using dead) nonempty, stopped nonempty, inv.wellFormed⟩, fun m member => ?_,
          fun q member m next => ?_⟩
        · rcases List.mem_cons.mp member with rfl | member
          · exact inv.between
          · exact inv.restBetween m member
        · obtain ⟨toRange, toRest⟩ := passed.ahead q member
          rcases List.mem_cons.mp next with rfl | next
          · exact toRange nonempty
          · exact toRest m next
    · rw [if_neg nonempty, live_append, restLive]
      exact ⟨rest, rfl, inv.wellFormed, inv.restBetween, fun q member => (passed.ahead q member).2⟩
  rw [kept]
  refine ⟨WellFormed.append ⟨passed.valid, passed.ordered⟩ tailWellFormed ahead, fun m member => ?_⟩
  rcases List.mem_append.mp member with old | new
  · exact passed.between m old
  · exact tailBetween m new

include inv stopped in
/-- The placed ranges give the table the zipper stands for. -/
theorem view_placed (offset k : Nat) :
    view (placed processed range rest) offset k = loopView o processed range rest offset k := by
  unfold placed loopView
  by_cases nonempty : range.start < range.stop
  · rw [if_pos nonempty, view_append, view_cons_of_before inv.owners (stopped nonempty)]
  · rw [if_neg nonempty, view_append, LockMap.apply_of_le _ _ (Nat.le_of_not_lt nonempty)]

end Placed

section Insert

variable {data : List LockRange} {range : LockRange} {o : Owner}
  (wf : WellFormed data) (owners : range.owners = [o]) (nonempty : range.start < range.stop)

include wf nonempty in
/-- The ranges before the window come before the window and the ranges after it, and
the window before the ranges after it. -/
theorem window_ordered :
    (∀ p ∈ data.take (first data range), ∀ z ∈ window data range ++ data.drop (upperBound data range.stop),
      p.stop ≤ z.start) ∧
    ∀ z ∈ window data range, ∀ a ∈ data.drop (upperBound data range.stop), z.stop ≤ a.start := by
  have ordered := wf.ordered
  rw [← take_append_window_append_drop data (first_le_upperBound data nonempty), List.append_assoc,
    List.pairwise_append, List.pairwise_append] at ordered
  exact ⟨ordered.2.2, ordered.2.1.2.2⟩

include wf owners nonempty in
theorem insertInv_window (fits : fits data range = true) :
    InsertInv (data.take (first data range)) (data.drop (upperBound data range.stop)) o range.type [] range
      (window data range) := by
  obtain ⟨beforeAll, windowBefore⟩ := window_ordered wf nonempty
  refine ⟨owners, rfl, ⟨stop_le_of_mem_take wf range.start, fun a member =>
      Nat.le_of_lt (lt_start_of_mem_drop wf range.stop a member)⟩,
    wf.sublist ((List.take_sublist _ _).trans (List.drop_sublist _ _)),
    fun z member => ⟨fun p early => beforeAll p early z (List.mem_append_left _ member), windowBefore z member⟩,
    fun _ => compatible_of_fits owners fits, ?_⟩
  -- nothing is passed yet
  exact ⟨by simp [live], by simp [live], by simp [live], by simp [live]⟩

include wf owners nonempty in
/-- `insert` keeps the ranges well formed. -/
theorem insert_wellFormed (locking : range.type ≠ .kInvalid) (fits : fits data range = true) :
    WellFormed (insert data range) := by
  obtain ⟨inv, stopped, -⟩ := insertLoop_spec locking range [] (window data range)
    (insertInv_window wf owners nonempty fits)
  obtain ⟨placedWellFormed, between⟩ := wellFormed_placed inv stopped locking
  obtain ⟨beforeAll, -⟩ := window_ordered wf nonempty
  rw [insert_eq]
  refine WellFormed.append (WellFormed.append (wf.sublist (List.take_sublist _ _)) placedWellFormed
    fun p early m member => (between m member).1 p early) (wf.sublist (List.drop_sublist _ _)) ?_
  intro z member a late
  rcases List.mem_append.mp member with early | new
  · exact beforeAll z early a (List.mem_append_right _ late)
  · exact (between z new).2 a late

include wf owners nonempty in
/-- What `insert` does to the table of locks, as the loop's zipper gives it. -/
theorem insert_view (locking : range.type ≠ .kInvalid) (fits : fits data range = true) :
    view (insert data range) = (view data).apply range.type range.start range.stop o.key := by
  obtain ⟨inv, stopped, loop⟩ := insertLoop_spec locking range [] (window data range)
    (insertInv_window wf owners nonempty fits)
  have decomposition := take_append_window_append_drop data (first_le_upperBound data nonempty)
  funext offset k
  rw [insert_eq, view_append, view_append, live, view_filter_live, view_placed inv stopped, loop]
  conv => rhs; rw [← decomposition]
  unfold loopView LockMap.apply
  rw [view_append, view_append, view_nil, Option.none_or]
  by_cases mine : range.start ≤ offset ∧ offset < range.stop ∧ k = o.key
  · -- the ranges before the window end before the range, those after it start after it
    have early : view (data.take (first data range)) offset k = none :=
      view_eq_none_of_le (fun p early => le_trans (stop_le_of_mem_take wf range.start p early) mine.1) k
    have late : view (data.drop (upperBound data range.stop)) offset k = none :=
      view_eq_none_of_lt (fun a late => lt_trans mine.2.1 (lt_start_of_mem_drop wf range.stop a late)) k
    rw [if_pos mine, if_pos mine, early, late, Option.none_or, Option.or_none]
  · rw [if_neg mine, if_neg mine, Option.or_assoc]

include wf owners nonempty in
/-- `insert` changes the table of locks exactly on the inserted range and owner: there `o`
holds the inserted lock (nothing after an unlock), and every other owner and offset
keeps what it had. -/
theorem view_insert (locking : range.type ≠ .kInvalid) (fits : fits data range = true) :
    view (insert data range) = (view data).apply range.type range.start range.stop o.key :=
  insert_view wf owners nonempty locking fits

/-- A shared lock over half of another owner's shared lock. -/
theorem view_insert_shared :
    WellFormed [⟨.kShared, 0, 10, [⟨1, 7, 0, 0⟩]⟩] ∧ (5 : Nat) < 15 ∧ LockType.kShared ≠ .kInvalid ∧
      fits [⟨.kShared, 0, 10, [⟨1, 7, 0, 0⟩]⟩] ⟨.kShared, 5, 15, [⟨2, 7, 0, 0⟩]⟩ = true ∧
      view (insert [⟨.kShared, 0, 10, [⟨1, 7, 0, 0⟩]⟩] ⟨.kShared, 5, 15, [⟨2, 7, 0, 0⟩]⟩) =
        (view [⟨.kShared, 0, 10, [⟨1, 7, 0, 0⟩]⟩]).apply .kShared 5 15 (Owner.key ⟨2, 7, 0, 0⟩) :=
  ⟨by decide, by decide, by decide, by decide,
    view_insert (o := ⟨2, 7, 0, 0⟩) (by decide) rfl (by decide) (by decide) (by decide)⟩

end Insert

end LockRanges

end SaunaFS
