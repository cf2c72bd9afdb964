import Mathlib.Logic.Function.Basic
import SaunaFS.Master.LockRangesInsert

/-! The lock tables (`FileLocks` in `src/master/locks.h`, `locks.cc`): for each
inode the active ranges and the queue of pending locks. The two hash maps of the
source are functions of the inode; an inode without an entry has no ranges and
no pending locks, so erasing an entry that became empty is writing the empty list.

Every run of the operations from the empty tables keeps the active ranges of
every inode well formed, so that where an owner holds an exclusive lock no other
owner holds any (`Reachable.activeLocks_wellFormed`).
-/

set_option autoImplicit false

namespace SaunaFS

/-- `operator<` on ranges: by start, then by end. -/
def LockRange.lt (range other : LockRange) : Bool :=
  range.start < other.start || (range.start == other.start && range.stop < other.stop)

/-- `FileLocks`. -/
structure FileLocks where
  activeLocks : UInt32 → List LockRange
  pendingLocks : UInt32 → List LockRange

namespace FileLocks

def empty : FileLocks := ⟨fun _ => [], fun _ => []⟩

def setActive (locks : FileLocks) (inode : UInt32) (ranges : List LockRange) : FileLocks :=
  { locks with activeLocks := Function.update locks.activeLocks inode ranges }

def setPending (locks : FileLocks) (inode : UInt32) (queue : List LockRange) : FileLocks :=
  { locks with pendingLocks := Function.update locks.pendingLocks inode queue }

/-- `FileLocks::enqueue`: the lock goes to its place by `operator<` in the inode's queue. -/
def enqueue (locks : FileLocks) (inode : UInt32) (lock : LockRange) : FileLocks :=
  let queue := locks.pendingLocks inode
  let place := (queue.takeWhile fun other => other.lt lock).length
  locks.setPending inode (queue.take place ++ lock :: queue.drop place)

/-- `FileLocks::apply`: a lock that fits is inserted; one that does not is queued,
unless the request is nonblocking or an unlock. -/
def apply (locks : FileLocks) (inode : UInt32) (lock : LockRange) (nonblocking : Bool) : FileLocks × Bool :=
  let ranges := locks.activeLocks inode
  if LockRanges.fits ranges lock then (locks.setActive inode (LockRanges.insert ranges lock), true)
  else if !nonblocking && !lock.unlocking then (locks.enqueue inode lock, false)
  else (locks, false)

def sharedLock (locks : FileLocks) (inode : UInt32) (start stop : Nat) (owner : Owner) (nonblocking : Bool) :
    FileLocks × Bool :=
  locks.apply inode ⟨.kShared, start, stop, [owner]⟩ nonblocking

def exclusiveLock (locks : FileLocks) (inode : UInt32) (start stop : Nat) (owner : Owner) (nonblocking : Bool) :
    FileLocks × Bool :=
  locks.apply inode ⟨.kExclusive, start, stop, [owner]⟩ nonblocking

def unlock (locks : FileLocks) (inode : UInt32) (start stop : Nat) (owner : Owner) : FileLocks × Bool :=
  locks.apply inode ⟨.kUnlock, start, stop, [owner]⟩ false

/-- `unlock(inode)`. -/
def unlockInode (locks : FileLocks) (inode : UInt32) : FileLocks := locks.setActive inode []

/-- What `unlock(inode, pred)` leaves of a range: the owners that do not satisfy `pred`,
and nothing when there are none. -/
def eraseOwnersWhere (pred : Owner → Bool) (lock : LockRange) : Option LockRange :=
  let owners := lock.owners.filter fun owner => !pred owner
  if owners.isEmpty then none else some { lock with owners := owners }

/-- One range of `unlock(inode, pred)`'s `remove_if`: the range keeps its other owners,
and widens the span of ranges an owner left. -/
def unlockStep (pred : Owner → Bool) (acc : List LockRange × Nat × Nat) (lock : LockRange) :
    List LockRange × Nat × Nat :=
  let erased := (lock.owners.filter fun owner => !pred owner).length < lock.owners.length
  ((eraseOwnersWhere pred lock).elim acc.1 fun kept => acc.1 ++ [kept],
    if erased then min acc.2.1 lock.start else acc.2.1, if erased then max acc.2.2 lock.stop else acc.2.2)

/-- `unlock(inode, pred)`: the owners that satisfy `pred` leave every range of the inode;
returns the span of the ranges an owner left, `(2^64 - 1, 0)` when there is none. -/
def unlockWhere (locks : FileLocks) (inode : UInt32) (pred : Owner → Bool) : FileLocks × Nat × Nat :=
  match (locks.activeLocks inode).foldl (unlockStep pred) ([], 2 ^ 64 - 1, 0) with
  | (kept, start, stop) => (locks.setActive inode kept, start, stop)

/-- `FileLocks::gatherCandidates`: the pending locks from the one before the first that
starts at or after `start` to the last that starts at or before `stop` leave the queue. -/
def gatherCandidates (locks : FileLocks) (inode : UInt32) (start stop : Nat) : FileLocks × List LockRange :=
  let queue := locks.pendingLocks inode
  let first := LockRanges.lowerBound queue start - 1
  let last := LockRanges.upperBound queue stop
  (locks.setPending inode (queue.take first ++ queue.drop last), (queue.drop first).take (last - first))

/-- `FileLocks::removePending`. -/
def removePending (locks : FileLocks) (inode : UInt32) (pred : LockRange → Bool) : FileLocks :=
  locks.setPending inode ((locks.pendingLocks inode).filter fun lock => !pred lock)

/-- `FileLocks::clear`: the active ranges only. -/
def clear (locks : FileLocks) : FileLocks := { locks with activeLocks := fun _ => [] }

/-- Applying one candidate taken from the queue, collecting its owners when it is applied. -/
def applyCandidate (inode : UInt32) (acc : FileLocks × List Owner) (candidate : LockRange) : FileLocks × List Owner :=
  match acc.1.apply inode candidate false with
  | (locks, true) => (locks, acc.2 ++ candidate.owners)
  | (locks, false) => (locks, acc.2)

/-- `fs_manage_lock_try_lock_pending`, the loop `fs_lock_op` also runs: the candidates
near `[start, stop)` are taken from the queue and applied again. -/
def fsManageLockTryLockPending (locks : FileLocks) (inode : UInt32) (start stop : Nat) : FileLocks × List Owner :=
  match locks.gatherCandidates inode start stop with
  | (locks, queue) => queue.foldl (applyCandidate inode) (locks, [])

/-! ## Runs -/

/-- A lock as the operations build it: one owner, a range that is not empty, and a
lock or an unlock. -/
structure Request (lock : LockRange) : Prop where
  single : ∃ owner, lock.owners = [owner]
  nonempty : lock.start < lock.stop
  locking : lock.type ≠ .kInvalid

/-- The operations on the tables; `gatherCandidates` alone drops the candidates, as
`fs_locks_clear_session` does. -/
inductive Step : FileLocks → FileLocks → Prop
  | apply (locks : FileLocks) (inode : UInt32) (lock : LockRange) (nonblocking : Bool) (request : Request lock) :
      Step locks (locks.apply inode lock nonblocking).1
  | unlockInode (locks : FileLocks) (inode : UInt32) : Step locks (locks.unlockInode inode)
  | unlockWhere (locks : FileLocks) (inode : UInt32) (pred : Owner → Bool) : Step locks (locks.unlockWhere inode pred).1
  | removePending (locks : FileLocks) (inode : UInt32) (pred : LockRange → Bool) :
      Step locks (locks.removePending inode pred)
  | gatherCandidates (locks : FileLocks) (inode : UInt32) (start stop : Nat) :
      Step locks (locks.gatherCandidates inode start stop).1
  | tryLockPending (locks : FileLocks) (inode : UInt32) (start stop : Nat) :
      Step locks (locks.fsManageLockTryLockPending inode start stop).1
  | clear (locks : FileLocks) : Step locks locks.clear

/-- The tables some run of the operations reaches from the empty ones. -/
inductive Reachable : FileLocks → Prop
  | empty : Reachable empty
  | step {locks next : FileLocks} : Reachable locks → Step locks next → Reachable next

/-- What every run keeps: well-formed active ranges, and requests in the queues. -/
structure Invariant (locks : FileLocks) : Prop where
  active : ∀ inode, LockRanges.WellFormed (locks.activeLocks inode)
  pending : ∀ inode, ∀ lock ∈ locks.pendingLocks inode, Request lock

section Invariant

variable {locks : FileLocks} (inv : Invariant locks)

theorem empty_invariant : Invariant empty :=
  ⟨fun _ => ⟨fun _ member => absurd member List.not_mem_nil, List.Pairwise.nil⟩,
    fun _ _ member => absurd member List.not_mem_nil⟩

include inv in
theorem setActive_invariant (inode : UInt32) {ranges : List LockRange} (wf : LockRanges.WellFormed ranges) :
    Invariant (locks.setActive inode ranges) := by
  refine ⟨fun other => ?_, inv.pending⟩
  simp only [setActive, Function.update_apply]
  split
  · exact wf
  · exact inv.active other

include inv in
theorem setPending_invariant (inode : UInt32) {queue : List LockRange} (requests : ∀ lock ∈ queue, Request lock) :
    Invariant (locks.setPending inode queue) := by
  refine ⟨inv.active, fun other => ?_⟩
  simp only [setPending, Function.update_apply]
  split
  · exact requests
  · exact inv.pending other

include inv in
theorem enqueue_invariant (inode : UInt32) {lock : LockRange} (request : Request lock) :
    Invariant (locks.enqueue inode lock) := by
  refine setPending_invariant inv inode fun other member => ?_
  rcases List.mem_append.mp member with early | late
  · exact inv.pending inode other (List.mem_of_mem_take early)
  · rcases List.mem_cons.mp late with rfl | late
    · exact request
    · exact inv.pending inode other (List.mem_of_mem_drop late)

include inv in
/-- Applying a request keeps the invariant: what fits is inserted into well-formed ranges. -/
theorem apply_invariant (inode : UInt32) {lock : LockRange} (nonblocking : Bool) (request : Request lock) :
    Invariant (locks.apply inode lock nonblocking).1 := by
  obtain ⟨⟨owner, owners⟩, nonempty, locking⟩ := request
  unfold apply
  dsimp only
  split_ifs with fits
  · exact setActive_invariant inv inode (LockRanges.insert_wellFormed (inv.active inode) owners nonempty locking fits)
  · exact enqueue_invariant inv inode ⟨⟨owner, owners⟩, nonempty, locking⟩
  · exact inv

/-- A lock request changes only the tables of its own inode. -/
theorem apply_of_ne (locks : FileLocks) {inode other : UInt32} (distinct : other ≠ inode) (lock : LockRange)
    (nonblocking : Bool) :
    (locks.apply inode lock nonblocking).1.activeLocks other = locks.activeLocks other ∧
      (locks.apply inode lock nonblocking).1.pendingLocks other = locks.pendingLocks other := by
  unfold apply
  dsimp only
  split_ifs <;> simp [setActive, enqueue, setPending, Function.update_of_ne distinct]

theorem foldl_unlockStep (pred : Owner → Bool) (data : List LockRange) (acc : List LockRange × Nat × Nat) :
    (data.foldl (unlockStep pred) acc).1 = acc.1 ++ data.filterMap (eraseOwnersWhere pred) := by
  induction data generalizing acc with
  | nil => simp
  | cons lock data ih =>
    rw [List.foldl_cons, ih, List.filterMap_cons]
    cases erased : eraseOwnersWhere pred lock <;> simp [unlockStep, erased]

theorem unlockWhere_fst (locks : FileLocks) (inode : UInt32) (pred : Owner → Bool) :
    (locks.unlockWhere inode pred).1 =
      locks.setActive inode ((locks.activeLocks inode).filterMap (eraseOwnersWhere pred)) := by
  rw [← List.nil_append ((locks.activeLocks inode).filterMap (eraseOwnersWhere pred)),
    ← foldl_unlockStep pred _ ([], 2 ^ 64 - 1, 0)]
  rfl

theorem eraseOwnersWhere_span {pred : Owner → Bool} {lock kept : LockRange}
    (erased : eraseOwnersWhere pred lock = some kept) : kept.start = lock.start ∧ kept.stop = lock.stop := by
  unfold eraseOwnersWhere at erased
  dsimp only at erased
  split at erased
  · cases erased
  · cases erased
    exact ⟨rfl, rfl⟩

/-- What is left of a valid range after some owners leave is valid. -/
theorem eraseOwnersWhere_valid {pred : Owner → Bool} {lock kept : LockRange} (valid : lock.Valid)
    (erased : eraseOwnersWhere pred lock = some kept) : kept.Valid := by
  unfold eraseOwnersWhere at erased
  dsimp only at erased
  split at erased
  · cases erased
  · next owned =>
    cases erased
    have sub : (lock.owners.filter fun owner => !pred owner).Sublist lock.owners := List.filter_sublist
    have owned : (lock.owners.filter fun owner => !pred owner) ≠ [] := by simpa using owned
    refine ⟨valid.nonempty, valid.locked, owned, valid.sorted.sublist sub, fun exclusive => ?_⟩
    have fewer := sub.length_le
    have one := valid.single exclusive
    have some := List.length_pos_iff.mpr owned
    dsimp only at fewer some ⊢
    omega

theorem wellFormed_filterMap_eraseOwnersWhere {data : List LockRange} (wf : LockRanges.WellFormed data)
    (pred : Owner → Bool) : LockRanges.WellFormed (data.filterMap (eraseOwnersWhere pred)) := by
  refine ⟨fun kept member => ?_, wf.ordered.filterMap _ fun a a' ordered b found b' found' => ?_⟩
  · obtain ⟨lock, member, erased⟩ := List.mem_filterMap.mp member
    exact eraseOwnersWhere_valid (wf.valid lock member) erased
  · -- the pieces keep the offsets of their ranges
    rw [(eraseOwnersWhere_span found).2, (eraseOwnersWhere_span found').1]
    exact ordered

include inv in
theorem unlockWhere_invariant (inode : UInt32) (pred : Owner → Bool) : Invariant (locks.unlockWhere inode pred).1 := by
  rw [unlockWhere_fst]
  exact setActive_invariant inv inode (wellFormed_filterMap_eraseOwnersWhere (inv.active inode) pred)

include inv in
/-- Gathering keeps the invariant, and the candidates are requests: both come from the queue. -/
theorem gatherCandidates_invariant (inode : UInt32) (start stop : Nat) :
    Invariant (locks.gatherCandidates inode start stop).1 ∧
      ∀ lock ∈ (locks.gatherCandidates inode start stop).2, Request lock := by
  refine ⟨setPending_invariant inv inode fun lock member => ?_, fun lock member => ?_⟩
  · rcases List.mem_append.mp member with early | late
    · exact inv.pending inode lock (List.mem_of_mem_take early)
    · exact inv.pending inode lock (List.mem_of_mem_drop late)
  · exact inv.pending inode lock (List.mem_of_mem_drop (List.mem_of_mem_take member))

/-- A pending lock followed in the queue by another that, like every lock up to it,
starts before `start` stays in the queue, wherever it ends: the candidates begin
only one lock before the lower bound of `start`. -/
theorem gatherCandidates_keeps_earlier (locks : FileLocks) (inode : UInt32) (start stop : Nat)
    {front between back : List LockRange} {lock later : LockRange}
    (queue : locks.pendingLocks inode = front ++ lock :: between ++ later :: back)
    (early : ∀ r ∈ front ++ lock :: between ++ [later], r.start < start) :
    lock ∈ (locks.gatherCandidates inode start stop).1.pendingLocks inode := by
  -- every lock up to `later` is below the lower bound
  have below : (front ++ lock :: between ++ [later]).length ≤
      LockRanges.lowerBound (locks.pendingLocks inode) start := by
    have split : locks.pendingLocks inode = (front ++ lock :: between ++ [later]) ++ back := by simp [queue]
    rw [LockRanges.lowerBound, split, List.takeWhile_append_of_pos (by simpa using early)]
    simp
  have past : front.length + 1 ≤ LockRanges.lowerBound (locks.pendingLocks inode) start - 1 := by
    simp only [List.length_append, List.length_cons] at below
    omega
  simp only [gatherCandidates, setPending, Function.update_self]
  refine List.mem_append_left _ ?_
  generalize LockRanges.lowerBound (locks.pendingLocks inode) start - 1 = first at past ⊢
  have split : locks.pendingLocks inode = (front ++ [lock]) ++ (between ++ later :: back) := by simp [queue]
  rw [split, List.take_append, List.take_of_length_le (by simpa using past)]
  simp

/-- Owner `5` holds `[10, 20)` shared and owner `1` holds `[50, 60)` exclusive; owner `2`
waits for `[0, 100)` shared, and owner `3` for `[10, 20)` exclusive. When owner `1`
lets go of `[50, 60)`, `fs_lock_op` tries owner `3`'s lock again but not owner `2`'s,
which meets the released range and now fits: it stays in the queue. -/
theorem gatherCandidates_keeps_earlier_sharedWaiter :
    let released := (((((FileLocks.empty.sharedLock 1 10 20 ⟨5, 1, 0, 0⟩ false).1.exclusiveLock 1 50 60
      ⟨1, 1, 0, 0⟩ false).1.sharedLock 1 0 100 ⟨2, 1, 0, 0⟩ false).1.exclusiveLock 1 10 20 ⟨3, 1, 0, 0⟩
      false).1.unlock 1 50 60 ⟨1, 1, 0, 0⟩).1
    let waiter : LockRange := ⟨.kShared, 0, 100, [⟨2, 1, 0, 0⟩]⟩
    Reachable released ∧
      released.pendingLocks 1 = [waiter, ⟨.kExclusive, 10, 20, [⟨3, 1, 0, 0⟩]⟩] ∧
      waiter.overlaps ⟨.kUnlock, 50, 60, [⟨1, 1, 0, 0⟩]⟩ = true ∧
      waiter ∈ (released.gatherCandidates 1 50 60).1.pendingLocks 1 ∧
      waiter ∉ (released.gatherCandidates 1 50 60).2 ∧
      LockRanges.fits ((released.fsManageLockTryLockPending 1 50 60).1.activeLocks 1) waiter = true ∧
      waiter ∈ (released.fsManageLockTryLockPending 1 50 60).1.pendingLocks 1 := by
  have reachable : Reachable (((((FileLocks.empty.sharedLock 1 10 20 ⟨5, 1, 0, 0⟩ false).1.exclusiveLock 1 50 60
      ⟨1, 1, 0, 0⟩ false).1.sharedLock 1 0 100 ⟨2, 1, 0, 0⟩ false).1.exclusiveLock 1 10 20 ⟨3, 1, 0, 0⟩
      false).1.unlock 1 50 60 ⟨1, 1, 0, 0⟩).1 :=
    .step (.step (.step (.step (.step .empty
      (.apply _ 1 ⟨.kShared, 10, 20, [⟨5, 1, 0, 0⟩]⟩ false ⟨⟨_, rfl⟩, by decide, by decide⟩))
      (.apply _ 1 ⟨.kExclusive, 50, 60, [⟨1, 1, 0, 0⟩]⟩ false ⟨⟨_, rfl⟩, by decide, by decide⟩))
      (.apply _ 1 ⟨.kShared, 0, 100, [⟨2, 1, 0, 0⟩]⟩ false ⟨⟨_, rfl⟩, by decide, by decide⟩))
      (.apply _ 1 ⟨.kExclusive, 10, 20, [⟨3, 1, 0, 0⟩]⟩ false ⟨⟨_, rfl⟩, by decide, by decide⟩))
      (.apply _ 1 ⟨.kUnlock, 50, 60, [⟨1, 1, 0, 0⟩]⟩ false ⟨⟨_, rfl⟩, by decide, by decide⟩)
  -- the tables after a run of `insert` are evaluated by the kernel
  exact ⟨reachable, by decide +kernel, by decide,
    @gatherCandidates_keeps_earlier _ 1 50 60 [] [] [] ⟨.kShared, 0, 100, [⟨2, 1, 0, 0⟩]⟩
      ⟨.kExclusive, 10, 20, [⟨3, 1, 0, 0⟩]⟩ (by decide +kernel) (by decide),
    by decide +kernel, by decide +kernel, by decide +kernel⟩

theorem applyCandidate_fst (inode : UInt32) (acc : FileLocks × List Owner) (candidate : LockRange) :
    (applyCandidate inode acc candidate).1 = (acc.1.apply inode candidate false).1 := by
  unfold applyCandidate
  split <;> next _ _ applied => rw [applied]

/-- Applying candidates in turn keeps the invariant, by induction on the candidates. -/
theorem foldl_applyCandidate_invariant (inode : UInt32) :
    ∀ (queue : List LockRange) (acc : FileLocks × List Owner), Invariant acc.1 →
      (∀ lock ∈ queue, Request lock) → Invariant (queue.foldl (applyCandidate inode) acc).1
  | [], _, inv, _ => inv
  | candidate :: queue, acc, inv, requests => by
    rw [List.foldl_cons]
    refine foldl_applyCandidate_invariant inode queue _ ?_ fun lock member =>
      requests lock (List.mem_cons_of_mem _ member)
    rw [applyCandidate_fst]
    exact apply_invariant inv inode false (requests candidate (List.mem_cons_self ..))

include inv in
theorem fsManageLockTryLockPending_invariant (inode : UInt32) (start stop : Nat) :
    Invariant (locks.fsManageLockTryLockPending inode start stop).1 := by
  obtain ⟨gathered, requests⟩ := gatherCandidates_invariant inv inode start stop
  exact foldl_applyCandidate_invariant inode _ _ gathered requests

end Invariant

theorem Step.invariant {locks next : FileLocks} (step : Step locks next) (inv : Invariant locks) : Invariant next := by
  cases step with
  | apply inode lock nonblocking request => exact apply_invariant inv inode nonblocking request
  | unlockInode inode => exact setActive_invariant inv inode ⟨fun _ member => absurd member List.not_mem_nil,
      List.Pairwise.nil⟩
  | unlockWhere inode pred => exact unlockWhere_invariant inv inode pred
  | removePending inode pred =>
    exact setPending_invariant inv inode fun lock member => inv.pending inode lock (List.mem_filter.mp member).1
  | gatherCandidates inode start stop => exact (gatherCandidates_invariant inv inode start stop).1
  | tryLockPending inode start stop => exact fsManageLockTryLockPending_invariant inv inode start stop
  | clear => exact ⟨fun _ => ⟨fun _ member => absurd member List.not_mem_nil, List.Pairwise.nil⟩, inv.pending⟩

theorem Reachable.invariant {locks : FileLocks} (reachable : Reachable locks) : Invariant locks := by
  induction reachable with
  | empty => exact empty_invariant
  | step _ step ih => exact step.invariant ih

/-- Along every run the active ranges of every inode stay well formed: sorted and
disjoint, each a lock with strictly sorted owners, an exclusive one with one owner.
So where an owner holds an exclusive lock, no other owner holds any. -/
theorem Reachable.activeLocks_wellFormed {locks : FileLocks} (reachable : Reachable locks) (inode : UInt32) :
    LockRanges.WellFormed (locks.activeLocks inode) ∧
      ∀ offset k k', LockRanges.view (locks.activeLocks inode) offset k = some .kExclusive →
        LockRanges.view (locks.activeLocks inode) offset k' ≠ none → k = k' := by
  have wf := reachable.invariant.active inode
  exact ⟨wf, fun _ _ _ exclusive held => wf.exclusive_alone exclusive held⟩

/-- An exclusive lock of inode 5 by one owner, then a blocked shared one by another. -/
theorem Reachable.activeLocks_wellFormed_queued :
    Reachable ((FileLocks.empty.exclusiveLock 5 0 1 ⟨1, 1, 0, 0⟩ false).1.sharedLock 5 0 1 ⟨2, 2, 0, 0⟩ false).1 ∧
      LockRanges.WellFormed
        (((FileLocks.empty.exclusiveLock 5 0 1 ⟨1, 1, 0, 0⟩ false).1.sharedLock 5 0 1 ⟨2, 2, 0, 0⟩ false).1.activeLocks 5) ∧
      ∀ offset k k',
        LockRanges.view (((FileLocks.empty.exclusiveLock 5 0 1 ⟨1, 1, 0, 0⟩ false).1.sharedLock 5 0 1 ⟨2, 2, 0, 0⟩
            false).1.activeLocks 5) offset k = some .kExclusive →
          LockRanges.view (((FileLocks.empty.exclusiveLock 5 0 1 ⟨1, 1, 0, 0⟩ false).1.sharedLock 5 0 1
              ⟨2, 2, 0, 0⟩ false).1.activeLocks 5) offset k' ≠ none → k = k' := by
  have reachable :
      Reachable ((FileLocks.empty.exclusiveLock 5 0 1 ⟨1, 1, 0, 0⟩ false).1.sharedLock 5 0 1 ⟨2, 2, 0, 0⟩ false).1 :=
    .step (.step .empty (.apply _ 5 ⟨.kExclusive, 0, 1, [⟨1, 1, 0, 0⟩]⟩ false ⟨⟨_, rfl⟩, by decide, by decide⟩))
      (.apply _ 5 ⟨.kShared, 0, 1, [⟨2, 2, 0, 0⟩]⟩ false ⟨⟨_, rfl⟩, by decide, by decide⟩)
  exact ⟨reachable, Reachable.activeLocks_wellFormed reachable 5⟩

end FileLocks

end SaunaFS
