import Mathlib.Data.Nat.Basic
import SaunaFS.Lib.SortedKeys

/-! The lock ranges of one inode (`src/master/locks.h`, `locks.cc`): `LockRange`
and `LockRanges::findCollision`, `fits` and `insert`.

`insert` walks the ranges that can meet the new one (from the one before the
first that starts at or after its start, to the last that starts at or before
its end) with an iterator, splitting them, merging adjacent ranges of the same
owner and type, and inserting pieces before the iterator; the pieces it marks
for removal are erased at the end. The walk is modelled as a zipper: the ranges
already passed, the new range as far as it is still to be placed, and the
ranges still ahead. Inserting a piece at the iterator and stepping on is
appending it to the ranges passed, so the range at the iterator is visited
again.

Offsets are the `uint64_t` bounds; `insert` only compares them, so they are
`Nat` here. `std::lower_bound` and `std::upper_bound` are called on ranges
sorted by start, where they return the partition point: the length of the
prefix that satisfies the test.

What the ranges mean is a table of the lock type each owner (its owner and
session, the request ids aside) holds at each offset (`LockMap`). The results
are that `insert` keeps the ranges well formed and changes this table exactly
as the inserted range says.
-/

set_option autoImplicit false

namespace SaunaFS

/-- `LockRange::Type`. -/
inductive LockType where
  | kInvalid
  | kUnlock
  | kShared
  | kExclusive
  deriving DecidableEq, Repr

/-- `LockRange::Owner`. -/
structure Owner where
  owner : UInt64
  sessionid : UInt32
  reqid : UInt32
  msgid : UInt32
  deriving DecidableEq, Repr

namespace Owner

/-- `operator==`: the owner and the session, not the request ids. -/
def same (a b : Owner) : Bool := a.owner == b.owner && a.sessionid == b.sessionid

/-- `operator<`: by owner, then by session. -/
def lt (a b : Owner) : Bool := a.owner < b.owner || (a.owner == b.owner && a.sessionid < b.sessionid)

/-- The owner and the session as one number, ordered as `lt` orders them. -/
def key (a : Owner) : Nat := a.owner.toNat * 2 ^ 32 + a.sessionid.toNat

theorem lt_eq (a b : Owner) : a.lt b = decide (a.key < b.key) := by
  have small := a.sessionid.toNat_lt
  have small' := b.sessionid.toNat_lt
  have ordered : a.lt b = true ↔ a.key < b.key := by
    simp only [lt, key, Bool.or_eq_true, Bool.and_eq_true, decide_eq_true_eq, beq_iff_eq,
      UInt64.lt_iff_toNat_lt, UInt32.lt_iff_toNat_lt, ← UInt64.toNat_inj, Nat.reducePow]
    omega
  rw [Bool.eq_iff_iff, ordered, decide_eq_true_iff]

theorem same_eq (a b : Owner) : a.same b = decide (a.key = b.key) := by
  have small := a.sessionid.toNat_lt
  have small' := b.sessionid.toNat_lt
  have equal : a.same b = true ↔ a.key = b.key := by
    simp only [same, key, Bool.and_eq_true, beq_iff_eq, Nat.reducePow]
    rw [← UInt64.toNat_inj, ← UInt32.toNat_inj]
    omega
  rw [Bool.eq_iff_iff, equal, decide_eq_true_iff]

end Owner

/-- `compact_vector<Owner>::operator==`: the same length and equal owners in order. -/
def Owners.equal : List Owner → List Owner → Bool
  | [], [] => true
  | a :: as, b :: bs => a.same b && equal as bs
  | _, _ => false

theorem Owners.equal_iff : ∀ (as bs : List Owner), equal as bs = true ↔ as.map Owner.key = bs.map Owner.key
  | [], [] => by simp [equal]
  | [], _ :: _ => by simp [equal]
  | _ :: _, [] => by simp [equal]
  | a :: as, b :: bs => by simp [equal, Owner.same_eq, equal_iff as bs]

/-- `LockRange`: `[start, stop)` held by `owners` with a lock of `type`; `stop` is the
source's `end`. -/
structure LockRange where
  type : LockType
  start : Nat
  stop : Nat
  owners : List Owner
  deriving DecidableEq, Repr

namespace LockRange

def overlaps (range other : LockRange) : Bool := range.start < other.stop && other.start < range.stop

def sticks (range other : LockRange) : Bool := range.start == other.stop || other.start == range.stop

theorem overlaps_iff {range other : LockRange} :
    range.overlaps other = true ↔ range.start < other.stop ∧ other.start < range.stop := by
  simp [overlaps]

theorem sticks_iff {range other : LockRange} :
    range.sticks other = true ↔ range.start = other.stop ∨ other.start = range.stop := by
  simp [sticks]

def shared (range : LockRange) : Bool := range.type == .kShared

/-- Whether the range is to be removed: an unlock, or no owner left. -/
def unlocking (range : LockRange) : Bool := range.type == .kUnlock || range.owners.isEmpty

def markUnlocking (range : LockRange) : LockRange := { range with type := .kUnlock }

/-- `LockRange::owner`, called on ranges of one owner. -/
def owner (range : LockRange) : Owner := range.owners.headD ⟨0, 0, 0, 0⟩

def eraseOwner (range : LockRange) (candidate : Owner) : LockRange :=
  { range with owners := SortedKeys.eraseAtLowerBound Owner.lt Owner.same candidate range.owners }

def addOwners (range : LockRange) (other : List Owner) : LockRange :=
  { range with owners := SortedKeys.unique Owner.same (SortedKeys.merge Owner.lt range.owners other) }

/-- What `insert` does to the part of a range `other` that `range` covers from its
start: the same owners take the new type, an unlock removes its owner, and a
shared lock adds its owner. The source writes this twice, for the piece it
splits off and for a range covered to its end. -/
def overwrite (other range : LockRange) (sameOwners : Bool) : LockRange :=
  if sameOwners then { other with type := range.type }
  else if range.unlocking then other.eraseOwner range.owner
  else other.addOwners range.owners

end LockRange

namespace LockRanges

/-- `std::lower_bound` by start: the number of ranges starting before `offset`. -/
def lowerBound (data : List LockRange) (offset : Nat) : Nat := (data.takeWhile fun r => r.start < offset).length

/-- `std::upper_bound` by start: the number of ranges starting at or before `offset`. -/
def upperBound (data : List LockRange) (offset : Nat) : Nat := (data.takeWhile fun r => !(offset < r.start)).length

/-- The first range the loops look at: the one before the lower bound, if any. -/
def first (data : List LockRange) (range : LockRange) : Nat := lowerBound data range.start - 1

/-- The ranges from `first` up to the upper bound of the range's end. -/
def window (data : List LockRange) (range : LockRange) : List LockRange :=
  (data.drop (first data range)).take (upperBound data range.stop - first data range)

/-- `LockRanges::findCollision`. -/
def findCollision (data : List LockRange) (range : LockRange) : Option LockRange :=
  if range.unlocking then none
  else (window data range).find? fun other =>
    range.overlaps other && (!range.shared || !other.shared) && !Owners.equal other.owners range.owners

/-- `LockRanges::fits`. -/
def fits (data : List LockRange) (range : LockRange) : Bool := (findCollision data range).isNone

/-- A bound on the steps left in `insert`'s loop: each step passes the range at the
iterator or, splitting it, makes the next step start where the new range starts. -/
def insertMeasure (range : LockRange) : List LockRange → Nat
  | [] => 0
  | other :: rest =>
    if range.start < range.stop then 2 * rest.length + 3 + (if other.start = range.start then 0 else 1) else 0

theorem insertMeasure_le (range : LockRange) (rest : List LockRange) :
    insertMeasure range rest ≤ 2 * rest.length + 2 := by
  cases rest with
  | nil => simp [insertMeasure]
  | cons other rest =>
    simp only [insertMeasure, List.length_cons]
    split_ifs <;> omega

theorem insertMeasure_cons_of_lt {range : LockRange} (nonempty : range.start < range.stop)
    (other : LockRange) (rest : List LockRange) :
    insertMeasure range (other :: rest) = 2 * rest.length + 3 + (if other.start = range.start then 0 else 1) := by
  rw [insertMeasure, if_pos nonempty]

theorem insertMeasure_of_le {range : LockRange} (empty : range.stop ≤ range.start) (rest : List LockRange) :
    insertMeasure range rest = 0 := by
  cases rest with
  | nil => rfl
  | cons other rest => rw [insertMeasure, if_neg (by omega)]

/-- The loop of `LockRanges::insert` from the iterator on: the ranges passed, the
new range as far as it is left, the ranges still ahead up to the end iterator. -/
def insertLoop (range : LockRange) (processed : List LockRange) :
    List LockRange → List LockRange × LockRange × List LockRange
  | [] => (processed, range, [])
  | other :: rest =>
    if empty : range.stop ≤ range.start then (processed, range, other :: rest)
    else
      let sameOwners := Owners.equal range.owners other.owners
      -- adjacent ranges of the same owners and type are merged
      if range.sticks other && sameOwners && range.type == other.type then
        insertLoop { range with start := min range.start other.start, stop := max range.stop other.stop }
          (processed ++ [other.markUnlocking]) rest
      else if range.stop ≤ other.start then (processed, range, other :: rest)
      else if !range.overlaps other then insertLoop range (processed ++ [other]) rest
      else if before : range.start < other.start then
        insertLoop { range with start := other.start } (processed ++ [{ range with stop := other.start }])
          (other :: rest)
      else if range.start = other.start then
        if range.stop < other.stop then
          insertLoop { range with start := other.stop }
            (processed ++ [{ other with stop := range.stop }.overwrite range sameOwners])
            ({ other with start := range.stop } :: rest)
        else
          insertLoop { range with start := other.stop } (processed ++ [other.overwrite range sameOwners]) rest
      else
        insertLoop range (processed ++ [{ other with stop := range.start }])
          ({ other with start := range.start } :: rest)
termination_by rest => insertMeasure range rest
decreasing_by
  all_goals simp only [insertMeasure_cons_of_lt (Nat.lt_of_not_le empty)]
  · have := insertMeasure_le { range with start := min range.start other.start, stop := max range.stop other.stop } rest
    omega
  · have := insertMeasure_le range rest
    omega
  · rw [insertMeasure_cons_of_lt (show other.start < range.stop by omega)]
    dsimp only
    split_ifs <;> omega
  · rw [insertMeasure_of_le (show range.stop ≤ other.stop by omega)]
    omega
  · have := insertMeasure_le { range with start := other.stop } rest
    omega
  · split_ifs <;> omega

/-- `LockRanges::insert`; the range is what `fits` accepted. -/
def insert (data : List LockRange) (range : LockRange) : List LockRange :=
  match insertLoop range [] (window data range) with
  | (processed, range', rest) =>
    let placed := if range'.stop > range'.start then processed ++ range' :: rest else processed ++ rest
    data.take (first data range) ++ placed.filter (fun r => !r.unlocking) ++
      data.drop (upperBound data range.stop)

end LockRanges

/-! ## What the ranges mean -/

/-- The lock type each owner (by key) holds at each offset. -/
abbrev LockMap := Nat → Nat → Option LockType

/-- The entry a lock of `type` leaves: nothing for an unlock. -/
def lockEntry (type : LockType) : Option LockType := if type = .kUnlock then none else some type

/-- The table after owner `k` locks or unlocks `[start, stop)`. -/
def LockMap.apply (m : LockMap) (type : LockType) (start stop k : Nat) : LockMap :=
  fun offset w => if start ≤ offset ∧ offset < stop ∧ w = k then lockEntry type else m offset w

namespace LockRange

/-- Whether the range gives owner `k` a lock; a range to be removed gives none. -/
def holds (range : LockRange) (k : Nat) : Bool := !range.unlocking && decide (k ∈ range.owners.map Owner.key)

/-- Whether the range gives owner `k` a lock at `offset`. -/
def covers (range : LockRange) (offset k : Nat) : Bool :=
  decide (range.start ≤ offset ∧ offset < range.stop) && range.holds k

/-- A range as the set keeps it: not empty, a lock, and at least one owner, strictly
sorted, only one when exclusive. -/
structure Valid (range : LockRange) : Prop where
  nonempty : range.start < range.stop
  locked : range.type = .kShared ∨ range.type = .kExclusive
  owned : range.owners ≠ []
  sorted : SortedKeys.Strict Owner.key range.owners
  single : range.type = .kExclusive → range.owners.length = 1

instance (range : LockRange) : Decidable range.Valid :=
  decidable_of_iff (range.start < range.stop ∧ (range.type = .kShared ∨ range.type = .kExclusive) ∧
      range.owners ≠ [] ∧ range.owners.Pairwise (fun a b => Owner.key a < Owner.key b) ∧
      (range.type = .kExclusive → range.owners.length = 1))
    ⟨fun ⟨nonempty, locked, owned, sorted, single⟩ => ⟨nonempty, locked, owned, sorted, single⟩,
      fun ⟨nonempty, locked, owned, sorted, single⟩ => ⟨nonempty, locked, owned, sorted, single⟩⟩

theorem Valid.live {range : LockRange} (valid : range.Valid) : range.unlocking = false := by
  have owned := valid.owned
  rcases valid.locked with locked | locked <;>
    simp [unlocking, locked, owned]

/-- A lock (not an unlock) holds for exactly its owners: an owner makes the list nonempty. -/
theorem holds_iff_mem (range : LockRange) (locked : range.type ≠ .kUnlock) (k : Nat) :
    range.holds k = true ↔ k ∈ range.owners.map Owner.key := by
  simp only [holds, unlocking, Bool.and_eq_true, Bool.not_eq_true', Bool.or_eq_false_iff, beq_eq_false_iff_ne,
    decide_eq_true_eq, List.isEmpty_eq_false_iff, and_iff_right_iff_imp]
  intro member
  refine ⟨locked, ?_⟩
  rintro empty
  simp [empty] at member

theorem Valid.holds_iff {range : LockRange} (valid : range.Valid) (k : Nat) :
    range.holds k = true ↔ k ∈ range.owners.map Owner.key :=
  holds_iff_mem range (by rcases valid.locked with locked | locked <;> simp [locked]) k

theorem holds_of_owners {range : LockRange} {o : Owner} (owners : range.owners = [o]) (k : Nat) :
    range.holds k = true ↔ range.type ≠ .kUnlock ∧ k = o.key := by
  simp [holds, unlocking, owners]

theorem holds_unlocking {range : LockRange} (dead : range.unlocking = true) (k : Nat) : range.holds k = false := by
  simp [holds, dead]

end LockRange

namespace LockRanges

/-- What the ranges give owner `k` at `offset`: the type of the first range that covers both. -/
def view (data : List LockRange) : LockMap :=
  fun offset k => (data.find? fun r => r.covers offset k).map (·.type)

/-- `LockRanges`' invariant: valid ranges, each ending before the next starts. -/
structure WellFormed (data : List LockRange) : Prop where
  valid : ∀ r ∈ data, r.Valid
  ordered : data.Pairwise fun a b => a.stop ≤ b.start

instance (data : List LockRange) : Decidable (WellFormed data) :=
  decidable_of_iff ((∀ r ∈ data, r.Valid) ∧ data.Pairwise fun a b => a.stop ≤ b.start)
    ⟨fun ⟨valid, ordered⟩ => ⟨valid, ordered⟩, fun ⟨valid, ordered⟩ => ⟨valid, ordered⟩⟩

@[simp] theorem view_nil (offset k : Nat) : view [] offset k = none := rfl

theorem view_cons (r : LockRange) (data : List LockRange) (offset k : Nat) :
    view (r :: data) offset k = if r.covers offset k then some r.type else view data offset k := by
  unfold view
  rw [List.find?_cons]
  split <;> simp_all

theorem view_singleton (r : LockRange) (offset k : Nat) :
    view [r] offset k = if r.covers offset k then some r.type else none := by
  rw [view_cons, view_nil]

theorem view_append (data data' : List LockRange) (offset k : Nat) :
    view (data ++ data') offset k = (view data offset k).or (view data' offset k) := by
  simp only [view, List.find?_append]
  cases data.find? fun r => r.covers offset k <;> simp

theorem view_eq_none {data : List LockRange} {offset k : Nat} (uncovered : ∀ r ∈ data, r.covers offset k = false) :
    view data offset k = none := by
  simp only [view, Option.map_eq_none_iff, List.find?_eq_none]
  intro r member
  simp [uncovered r member]

/-- Ranges to be removed give nothing, so erasing them changes nothing. -/
theorem view_filter_live (data : List LockRange) (offset k : Nat) :
    view (data.filter fun r => !r.unlocking) offset k = view data offset k := by
  induction data with
  | nil => rfl
  | cons r data ih =>
    rw [List.filter_cons]
    by_cases dead : r.unlocking = true
    · have : r.covers offset k = false := by simp [LockRange.covers, LockRange.holds_unlocking dead]
      simp only [dead, Bool.not_true, Bool.false_eq_true, if_false, ih, view_cons, this]
    · simp only [dead, Bool.not_false, if_true, view_cons, ih]

/-- In ordered ranges, two ranges over one offset are the same range. -/
theorem eq_of_inside {data : List LockRange} (ordered : data.Pairwise fun a b => a.stop ≤ b.start)
    {r r' : LockRange} (member : r ∈ data) (member' : r' ∈ data) {offset : Nat}
    (inside : r.start ≤ offset ∧ offset < r.stop) (inside' : r'.start ≤ offset ∧ offset < r'.stop) : r = r' := by
  induction data with
  | nil => cases member
  | cons a data ih =>
    obtain ⟨ahead, ordered⟩ := List.pairwise_cons.mp ordered
    rcases List.mem_cons.mp member with rfl | later <;> rcases List.mem_cons.mp member' with rfl | later'
    · rfl
    · have := ahead r' later'; omega
    · have := ahead r later; omega
    · exact ih ordered later later'

theorem covers_of_view {data : List LockRange} {offset k : Nat} {type : LockType} (found : view data offset k = some type) :
    ∃ r ∈ data, r.covers offset k = true ∧ r.type = type := by
  obtain ⟨r, hit, rfl⟩ := Option.map_eq_some_iff.mp found
  have covers : r.covers offset k = true := by simpa using List.find?_some hit
  exact ⟨r, List.mem_of_find?_eq_some hit, covers, rfl⟩

/-- In well-formed ranges, a range that covers an offset for an owner is what the table
gives there. -/
theorem view_of_mem {data : List LockRange} (wf : WellFormed data) {r : LockRange} (member : r ∈ data)
    {offset k : Nat} (covers : r.covers offset k = true) : view data offset k = some r.type := by
  have found : (data.find? fun r => r.covers offset k).isSome = true := List.find?_isSome.mpr ⟨r, member, covers⟩
  obtain ⟨r', hit⟩ := Option.isSome_iff_exists.mp found
  have covers' : r'.covers offset k = true := by simpa using List.find?_some hit
  simp only [LockRange.covers, Bool.and_eq_true, decide_eq_true_eq] at covers covers'
  have same := eq_of_inside wf.ordered (List.mem_of_find?_eq_some hit) member covers'.1 covers.1
  simp [view, hit, same]

/-- Where an owner holds an exclusive lock, no other owner holds any. -/
theorem WellFormed.exclusive_alone {data : List LockRange} (wf : WellFormed data) {offset k k' : Nat}
    (exclusive : view data offset k = some .kExclusive) (held : view data offset k' ≠ none) : k = k' := by
  obtain ⟨r, member, covers, type⟩ := covers_of_view exclusive
  obtain ⟨type', found⟩ := Option.ne_none_iff_exists'.mp held
  obtain ⟨r', member', covers', -⟩ := covers_of_view found
  have valid := wf.valid r member
  have valid' := wf.valid r' member'
  simp only [LockRange.covers, Bool.and_eq_true, decide_eq_true_eq, valid.holds_iff, valid'.holds_iff] at covers covers'
  -- one range over the offset, and it has one owner
  obtain rfl := eq_of_inside wf.ordered member member' covers.1 covers'.1
  obtain ⟨owner, single⟩ := List.length_eq_one_iff.mp (valid.single type)
  rw [single] at covers covers'
  simp only [List.map_cons, List.map_nil, List.mem_singleton] at covers covers'
  rw [covers.2, covers'.2]

end LockRanges

end SaunaFS
