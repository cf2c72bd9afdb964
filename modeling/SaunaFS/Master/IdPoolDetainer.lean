import SaunaFS.Common.IdPool

/-! The master's inode allocator (`IdPoolDetainer` in `src/master/id_pool_detainer.h`,
the `inode_pool` of `filesystem_metadata.h`). An id given back is not free at once: it
is detained in time buckets and stays taken in the underlying `IdPool` until it is let
go, by time (`releaseDetained`), to make room (`forceReleaseDetained`), or when the pool
has no free id left (`acquire`). The buckets are the `std::deque` form of
`detail::SparseBitset`, ids in the order they were set.

`release` asks the pool whether the id is free, and the pool answers no for an id past
`max_size`; such an id is then detained (`release_detains_foreign_id`) and counted,
although it was never acquired.
-/

set_option autoImplicit false

namespace SaunaFS

/-- `detail::SparseBitset` over `std::deque<uint32_t>`. -/
structure SparseBitset where
  data : List Nat
  deriving Repr, DecidableEq

namespace SparseBitset

def test (bits : SparseBitset) (pos : Nat) : Bool := pos ∈ bits.data

/-- `set` appends, also an id that is there already. -/
def set (bits : SparseBitset) (pos : Nat) : Bool × SparseBitset := (true, ⟨bits.data ++ [pos]⟩)

/-- `reset` (and `unset`): the first copy of `pos` goes. -/
def unset (bits : SparseBitset) (pos : Nat) : Bool × SparseBitset :=
  if pos ∈ bits.data then (true, ⟨bits.data.erase pos⟩) else (false, bits)

def empty (bits : SparseBitset) : Bool := bits.data.isEmpty

/-- `*begin()`; the source takes it only of a bitset that is not empty. -/
def begin (bits : SparseBitset) : Nat := bits.data.headD 0

end SparseBitset

/-- `BucketType`: the ids detained since `ts`. -/
structure Bucket where
  ts : UInt32
  data : SparseBitset
  deriving Repr, DecidableEq

/-- `IdPoolDetainer<IDT, uint32_t>` with ids as numbers; the time stamps are the
source's `uint32_t`, and their sums wrap as there. -/
structure IdPoolDetainer where
  base : IdPool
  detention : List Bucket
  detainTime : UInt32
  bucketTime : UInt32
  maxDetentionSize : Nat
  detainedCount : UInt64
  releaseCount : Nat
  deriving Repr, DecidableEq

namespace IdPoolDetainer

/-- The constructor `IdPoolDetainer(detain_time, bucket_count, max_size, max_detention_size,
block_size, cache_size, release_count)`. -/
def init (detainTime bucketCount : UInt32) (maxSize maxDetentionSize blockSize cacheSize releaseCount : Nat) :
    IdPoolDetainer :=
  ⟨IdPool.init maxSize blockSize cacheSize, [], detainTime, detainTime / bucketCount, maxDetentionSize, 0,
    releaseCount⟩

/-- The first id of the front bucket, unset; the bucket goes when it is left empty.
Returns the id, whether `unset` found it, and the buckets. -/
def takeFront (bucket : Bucket) (rest : List Bucket) : Nat × Bool × List Bucket :=
  let nid := bucket.data.begin
  let (found, data) := bucket.data.unset nid
  (nid, found, if data.empty then rest else { bucket with data } :: rest)

/-- `acquire()`: an id of the pool, or, when the pool has none, the first detained id. -/
def acquire (d : IdPoolDetainer) : Except String (Nat × IdPoolDetainer) := do
  let (id, base) ← d.base.acquire
  let d := { d with base }
  if id = 0 then
    match d.detention with
    | [] => pure (id, d)
    | bucket :: rest =>
      let (nid, found, detention) := takeFront bucket rest
      pure (nid, { d with detention, detainedCount := if found then d.detainedCount - 1 else d.detainedCount })
  else pure (id, d)

/-- `releaseDetained(ts, max_count)`: up to `max_count` ids of the buckets older than
`ts` by more than `bucket_time_ + detain_time_` go back to the pool; returns how many. -/
def releaseDetained (d : IdPoolDetainer) (ts : UInt32) : Nat → Nat × IdPoolDetainer
  | 0 => (0, d)
  | maxCount + 1 =>
    match d.detention with
    | [] => (0, d)
    | bucket :: rest =>
      if bucket.ts + d.bucketTime + d.detainTime ≥ ts then (0, d)
      else
        let (nid, _, detention) := takeFront bucket rest
        let d' := { d with detention, detainedCount := d.detainedCount - 1, base := (d.base.release nid).2 }
        let (count, d'') := d'.releaseDetained ts maxCount
        (count + 1, d'')

/-- `acquire(ts)`. -/
def acquireAt (d : IdPoolDetainer) (ts : UInt32) : Except String (Nat × IdPoolDetainer) :=
  (d.releaseDetained ts d.releaseCount).2.acquire

/-- `forceReleaseDetained(count)`: the first `count` detained ids go back to the pool,
however young. -/
def forceReleaseDetained (d : IdPoolDetainer) : Nat → IdPoolDetainer
  | 0 => d
  | count + 1 =>
    match d.detention with
    | [] => d
    | bucket :: rest =>
      let (nid, _, detention) := takeFront bucket rest
      { d with detention, detainedCount := d.detainedCount - 1, base := (d.base.release nid).2 }.forceReleaseDetained count

/-- `insert(id, ts)`: into the last bucket, or a new one when the last is older than
`bucket_time_`. -/
def insert (d : IdPoolDetainer) (id : Nat) (ts : UInt32) : IdPoolDetainer :=
  let (front, last) : List Bucket × Bucket := match d.detention.getLast? with
    | some last => if last.ts + d.bucketTime < ts then (d.detention, ⟨ts, ⟨[]⟩⟩) else (d.detention.dropLast, last)
    | none => ([], ⟨ts, ⟨[]⟩⟩)
  let (added, data) := last.data.set id
  { d with
    detention := front ++ [{ last with data }]
    detainedCount := if added then d.detainedCount + 1 else d.detainedCount }

def detainedCountNat (d : IdPoolDetainer) : Nat := d.detainedCount.toNat

/-- Whether some bucket holds `id`: the loop of `release` and `detain` without `skip_check`. -/
def isDetained (d : IdPoolDetainer) (id : Nat) : Bool := d.detention.any fun bucket => bucket.data.test id

/-- `release(id, ts, skip_check)`: an id the pool does not report free, and that no bucket
holds, is detained. -/
def release (d : IdPoolDetainer) (id : Nat) (ts : UInt32) (skipCheck : Bool) : Bool × IdPoolDetainer :=
  let d := (d.releaseDetained ts d.releaseCount).2
  if id = 0 ∨ d.base.checkIfAvailable id then (false, d)
  else if !skipCheck && d.isDetained id then (false, d)
  else
    let d := if d.detainedCountNat ≥ d.maxDetentionSize then
      d.forceReleaseDetained (d.detainedCountNat - d.maxDetentionSize + 1) else d
    (true, d.insert id ts)

/-- The loop of `markAsAcquired(id)` over the buckets: the first one that unsets `id`. -/
def unsetIn (id : Nat) : List Bucket → Option (List Bucket)
  | [] => none
  | bucket :: rest =>
    let (found, data) := bucket.data.unset id
    if found then some (if data.empty then rest else { bucket with data } :: rest)
    else (unsetIn id rest).map (bucket :: ·)

/-- `markAsAcquired(id)`: from the pool, or else out of detention. -/
def markAsAcquired (d : IdPoolDetainer) (id : Nat) : Bool × IdPoolDetainer :=
  let (ok, base) := d.base.markAsAcquired id
  let d := { d with base }
  if ok then (true, d)
  else
    match unsetIn id d.detention with
    | some detention => (true, { d with detention, detainedCount := d.detainedCount - 1 })
    | none => (false, d)

/-- `markAsAcquired(id, ts)`. -/
def markAsAcquiredAt (d : IdPoolDetainer) (id : Nat) (ts : UInt32) : Bool × IdPoolDetainer :=
  (d.releaseDetained ts d.releaseCount).2.markAsAcquired id

/-- `detain(id, ts, overcrowd, skip_check)`: a free id of the pool is taken and detained. -/
def detain (d : IdPoolDetainer) (id : Nat) (ts : UInt32) (overcrowd skipCheck : Bool) : Bool × IdPoolDetainer :=
  let d := (d.releaseDetained ts d.releaseCount).2
  if !skipCheck && d.isDetained id then (false, d)
  else
    let (ok, base) := d.base.markAsAcquired id
    let d := { d with base }
    if !ok then (false, d)
    else
      let d := if !overcrowd && d.detainedCountNat ≥ d.maxDetentionSize then
        d.forceReleaseDetained (d.detainedCountNat - d.maxDetentionSize + 1) else d
      (true, d.insert id ts)

/-- `size()`: the pool's count less the detained ones, in `std::size_t`. -/
def size (d : IdPoolDetainer) : UInt64 := d.base.size - d.detainedCount


/-! ### Detained ids -/

/-- Some bucket holds `id`. -/
def Detained (detention : List Bucket) (id : Nat) : Prop := ∃ bucket ∈ detention, id ∈ bucket.data.data

theorem isDetained_iff (d : IdPoolDetainer) (id : Nat) : d.isDetained id = true ↔ Detained d.detention id := by
  simp [isDetained, SparseBitset.test, Detained]

/-- Taking the front id leaves no id that was not detained before. -/
theorem takeFront_detained {bucket : Bucket} {rest : List Bucket} {id : Nat}
    (held : Detained (takeFront bucket rest).2.2 id) : Detained (bucket :: rest) id := by
  obtain ⟨kept, mem, inKept⟩ := held
  unfold takeFront SparseBitset.unset at mem
  dsimp only at mem
  split at mem
  · split at mem
    · exact ⟨kept, List.mem_cons_of_mem _ mem, inKept⟩
    · rcases List.mem_cons.mp mem with rfl | mem
      · exact ⟨bucket, List.mem_cons_self, List.mem_of_mem_erase inKept⟩
      · exact ⟨kept, List.mem_cons_of_mem _ mem, inKept⟩
  · split at mem
    · exact ⟨kept, List.mem_cons_of_mem _ mem, inKept⟩
    · rcases List.mem_cons.mp mem with rfl | mem
      · exact ⟨_, List.mem_cons_self, inKept⟩
      · exact ⟨kept, List.mem_cons_of_mem _ mem, inKept⟩

/-- What letting ids go keeps: the pool's range, and no id joins the buckets. -/
def Lets (d d' : IdPoolDetainer) : Prop :=
  d'.base.maxId = d.base.maxId ∧ ∀ id, Detained d'.detention id → Detained d.detention id

theorem Lets.refl (d : IdPoolDetainer) : Lets d d := ⟨rfl, fun _ held => held⟩

theorem Lets.trans {d d' d'' : IdPoolDetainer} (first : Lets d d') (second : Lets d' d'') : Lets d d'' :=
  ⟨second.1.trans first.1, fun id held => first.2 id (second.2 id held)⟩

/-- One round of either loop: the front id goes back to the pool. -/
theorem lets_takeFront (d : IdPoolDetainer) {bucket : Bucket} {rest : List Bucket} (front : d.detention = bucket :: rest) :
    Lets d { d with
      detention := (takeFront bucket rest).2.2, detainedCount := d.detainedCount - 1,
      base := (d.base.release (takeFront bucket rest).1).2 } :=
  ⟨IdPool.release_maxId _ _, fun _ held => front ▸ takeFront_detained held⟩

theorem lets_releaseDetained (d : IdPoolDetainer) (ts : UInt32) (maxCount : Nat) :
    Lets d (d.releaseDetained ts maxCount).2 := by
  induction maxCount generalizing d with
  | zero => exact Lets.refl d
  | succ maxCount ih =>
    unfold releaseDetained
    split
    · exact Lets.refl d
    · next bucket rest front =>
      dsimp only
      split
      · exact Lets.refl d
      · exact (lets_takeFront d front).trans (ih _)

theorem lets_forceReleaseDetained (d : IdPoolDetainer) (count : Nat) : Lets d (d.forceReleaseDetained count) := by
  induction count generalizing d with
  | zero => exact Lets.refl d
  | succ count ih =>
    unfold forceReleaseDetained
    split
    · exact Lets.refl d
    · next bucket rest front =>
      exact (lets_takeFront d front).trans (ih _)

theorem insert_detained (d : IdPoolDetainer) (id : Nat) (ts : UInt32) : Detained (d.insert id ts).detention id := by
  unfold insert
  exact ⟨_, List.mem_append_right _ List.mem_cons_self, by simp [SparseBitset.set]⟩

/-- `release` detains an id past `max_size` that no bucket holds: the pool does not
report it free, so it passes as acquired. -/
theorem release_detains_foreign_id (d : IdPoolDetainer) (id : Nat) (ts : UInt32)
    (beyond : d.base.maxId < id) (notDetained : ¬Detained d.detention id) :
    (d.release id ts false).1 = true ∧ Detained (d.release id ts false).2.detention id := by
  obtain ⟨sameMax, fewer⟩ := lets_releaseDetained d ts d.releaseCount
  have notFree : (d.releaseDetained ts d.releaseCount).2.base.checkIfAvailable id = false :=
    IdPool.checkIfAvailable_of_lt (sameMax ▸ beyond)
  have notHeld : (d.releaseDetained ts d.releaseCount).2.isDetained id = false := by
    rw [Bool.eq_false_iff, ne_eq, isDetained_iff]
    exact fun held => notDetained (fewer id held)
  have nonzero : id ≠ 0 := by omega
  unfold release
  simp only [notFree, notHeld, nonzero, Bool.false_eq_true, or_self, if_false, Bool.not_false, Bool.true_and]
  exact ⟨trivial, insert_detained _ id ts⟩


theorem release_detains_foreign_id_fresh :
    (IdPoolDetainer.init 1000 10 100 100 64 10 10).base.maxId < 101 ∧
      ¬Detained (IdPoolDetainer.init 1000 10 100 100 64 10 10).detention 101 ∧
      (((IdPoolDetainer.init 1000 10 100 100 64 10 10).release 101 10 false).1 = true ∧
        Detained ((IdPoolDetainer.init 1000 10 100 100 64 10 10).release 101 10 false).2.detention 101) := by
  have beyond : (IdPoolDetainer.init 1000 10 100 100 64 10 10).base.maxId < 101 := by decide
  have fresh : ¬Detained (IdPoolDetainer.init 1000 10 100 100 64 10 10).detention 101 := by
    simp [Detained, IdPoolDetainer.init]
  exact ⟨beyond, fresh, release_detains_foreign_id _ 101 10 beyond fresh⟩

/-- The run behind it: on a fresh detainer with `max_size = 100`, `release(101, 10)` is
accepted, one id is counted as detained, and `size()` wraps below zero. -/
example : (((IdPoolDetainer.init 1000 10 100 100 64 10 10).release 101 10 false).2.detainedCount,
      ((IdPoolDetainer.init 1000 10 100 100 64 10 10).release 101 10 false).2.size) =
    (1, 18446744073709551615) := rfl

end IdPoolDetainer

end SaunaFS
