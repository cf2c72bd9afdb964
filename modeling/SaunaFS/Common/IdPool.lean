import Mathlib

/-! The id pool (`IdPool` in `src/common/id_pool.h`). The ids `1 .. max_size` are
bits of blocks (`detail::IdPoolBlock`): a set bit is a free id, and a block that is
all free or all taken drops its words and keeps only its count. Blocks that may
still have free ids are on a free list, and ids given back are first kept in a
cache (`std::unordered_set`) and only set in their block once the cache is full.

Every pool built by the constructor and the operations keeps the shape the
operations rely on (`Reachable.wf`). That shape does not keep the cache and the
bits apart: once the cache is full, an id that sits in it is accepted a second
time by `release` and becomes free in its block as well
(`release_accepts_cached_id`), so that two later `acquire`s can both return it.
-/

set_option autoImplicit false

namespace SaunaFS

/-- `8 * sizeof(ValueType)`: the bits of a word of a block (`std::size_t`). -/
def packBits : Nat := 64

theorem packBits_eq : packBits = 64 := rfl

/-- `detail::IdPoolBlock<std::size_t, uint32_t>`. -/
structure IdPoolBlock where
  data : List Nat
  maxSize : Nat
  freeCount : Nat
  nextPack : Nat
  deriving Repr, DecidableEq

namespace IdPoolBlock

/-- The constructor: `size` free ids and no words. -/
def create (size : Nat) : IdPoolBlock := ⟨[], size, size, 0⟩

/-- `rsize` of `allocBlock`: the words that hold `maxSize` bits. -/
def rsize (block : IdPoolBlock) : Nat := (block.maxSize + packBits - 1) / packBits

/-- `allocBlock`, which the source only calls on a block without words, so that
`resize` writes every word: all ids free (`full`) or all taken. -/
def allocBlock (block : IdPoolBlock) (full : Bool) : IdPoolBlock :=
  let lastBits := block.maxSize % packBits
  if full then
    let data := List.replicate block.rsize (2 ^ packBits - 1)
    { block with
      data := if lastBits > 0 then data.set (block.rsize - 1) ((1 <<< lastBits) - 1) else data
      nextPack := 0 }
  else { block with data := List.replicate block.rsize 0 }

/-- `data_[pack] & mask` for the pack and the bit of `id`. -/
def bitSet (data : List Nat) (id : Nat) : Bool :=
  data.getD (id / packBits) 0 &&& 1 <<< (id % packBits) != 0

def checkIfAvailable (block : IdPoolBlock) (id : Nat) : Bool :=
  if block.data.isEmpty then block.freeCount > 0 else bitSet block.data id

def count (block : IdPoolBlock) : Nat := block.freeCount

def markAsAcquired (block : IdPoolBlock) (id : Nat) : Bool × IdPoolBlock :=
  if block.data.isEmpty && block.freeCount == 0 then (false, block) else
  let block := if block.data.isEmpty then block.allocBlock true else block
  if !bitSet block.data id then (false, block) else
  let pack := id / packBits
  let freeCount := block.freeCount - 1
  (true, { block with
    data := if freeCount = 0 then [] else block.data.set pack (block.data.getD pack 0 ^^^ 1 <<< (id % packBits))
    freeCount })

def release (block : IdPoolBlock) (id : Nat) : Bool × IdPoolBlock :=
  if block.data.isEmpty && block.freeCount > 0 then (false, block) else
  let block := if block.data.isEmpty then block.allocBlock false else block
  if bitSet block.data id then (false, block) else
  let pack := id / packBits
  let freeCount := block.freeCount + 1
  (true, { block with
    data := if freeCount = block.maxSize then [] else block.data.set pack (block.data.getD pack 0 ||| 1 <<< (id % packBits))
    freeCount
    nextPack := if block.freeCount = 0 then pack else block.nextPack })

/-- The search loop of `acquire`: from `pack` on, around the words, for one that is
not zero; `none` when it comes back to `start` (the source throws). Each round uses
one unit of `fuel`, and the words' count is enough. -/
def scan (data : List Nat) (start : Nat) : Nat → Nat → Option Nat
  | 0, _ => none
  | fuel + 1, pack =>
    if data.getD pack 0 ≠ 0 then some pack
    else
      let next := if pack + 1 ≥ data.length then 0 else pack + 1
      if next = start then none else scan data start fuel next

/-- `t` of `ffs`: the position, counted from 1, of the lowest set bit of a nibble. -/
def ffsTable : List Int := [-(packBits - 4 : Int), 1, 2, 1, 3, 1, 2, 1, 4, 1, 2, 1, 3, 1, 2, 1]

/-- One round of `ffs`' loop: skip the low `bitTest` bits of `r` when they are all clear. -/
def ffsStep (acc : Int × Nat) (bitTest : Nat) : Int × Nat :=
  if acc.2 &&& (1 <<< bitTest) - 1 = 0 then (acc.1 + bitTest, acc.2 >>> bitTest) else acc

/-- `ffs`: the position, counted from 1, of the lowest set bit, `0` for no bit. The
loop runs `bit_test` over `32, 16, 8, 4`. -/
def ffs (r : Nat) : Int :=
  let (bit, r) := [32, 16, 8, 4].foldl ffsStep (0, r)
  bit + ffsTable.getD (r &&& 0xF) 0

def acquire (block : IdPoolBlock) : Except String (Nat × IdPoolBlock) :=
  let block := if block.freeCount > 0 && block.data.isEmpty then block.allocBlock true else block
  match scan block.data block.nextPack block.data.length block.nextPack with
  | none => .error "IdPool: memory corruption detected"
  | some pack =>
    let p := (ffs (block.data.getD pack 0) - 1).toNat
    let freeCount := block.freeCount - 1
    .ok (pack * packBits + p, { block with
      data := if freeCount = 0 then [] else block.data.set pack (block.data.getD pack 0 ^^^ 1 <<< p)
      freeCount
      nextPack := pack })


/-! ### The words of a block -/

/-- Testing a word against the one-bit mask of `bit` reads that bit. -/
theorem and_one_shiftLeft_ne_zero (word bit : Nat) : (word &&& 1 <<< bit != 0) = word.testBit bit := by
  rw [Nat.one_shiftLeft]
  cases set : word.testBit bit
  · have zero : word &&& 2 ^ bit = 0 := Nat.eq_of_testBit_eq fun i => by
      by_cases same : bit = i
      · subst same
        simp [set]
      · simp [Nat.testBit_two_pow_of_ne same]
    simp [zero]
  · have readBack : (word &&& 2 ^ bit).testBit bit = true := by simp [set]
    have ne : word &&& 2 ^ bit ≠ 0 := fun zero => by simp [zero] at readBack
    simp [ne]

theorem bitSet_eq (data : List Nat) (id : Nat) :
    bitSet data id = (data.getD (id / packBits) 0).testBit (id % packBits) :=
  and_one_shiftLeft_ne_zero _ _

theorem getD_set_self {data : List Nat} {pack word : Nat} (lt : pack < data.length) :
    (data.set pack word).getD pack 0 = word := by
  simp [List.getD_eq_getElem?_getD, lt]

/-- Setting the bit of `id` in its word makes it read as set. -/
theorem bitSet_set_or {data : List Nat} {id : Nat} (lt : id / packBits < data.length) :
    bitSet (data.set (id / packBits) (data.getD (id / packBits) 0 ||| 1 <<< (id % packBits))) id = true := by
  rw [bitSet_eq, getD_set_self lt, Nat.one_shiftLeft]
  simp [Nat.testBit_two_pow_self]

theorem bitSet_replicate_zero (n id : Nat) : bitSet (List.replicate n 0) id = false := by
  rw [bitSet_eq, List.getD_eq_getElem?_getD, List.getElem?_replicate]
  split <;> simp

/-- A block either has no words or the words of all its bits. -/
def Wf (block : IdPoolBlock) : Prop := block.data = [] ∨ block.data.length = block.rsize

instance (block : IdPoolBlock) : Decidable block.Wf := inferInstanceAs (Decidable (_ ∨ _))

theorem pack_lt_rsize {block : IdPoolBlock} {id : Nat} (lt : id < block.maxSize) :
    id / packBits < block.rsize := by
  unfold rsize
  rw [packBits_eq] at *
  omega

@[simp] theorem allocBlock_maxSize (block : IdPoolBlock) (full : Bool) :
    (block.allocBlock full).maxSize = block.maxSize := by
  unfold allocBlock
  split <;> rfl

@[simp] theorem allocBlock_freeCount (block : IdPoolBlock) (full : Bool) :
    (block.allocBlock full).freeCount = block.freeCount := by
  unfold allocBlock
  split <;> rfl

theorem allocBlock_length (block : IdPoolBlock) (full : Bool) :
    (block.allocBlock full).data.length = block.rsize := by
  unfold allocBlock
  split
  · dsimp only
    split <;> simp
  · simp

theorem Wf.allocBlock (block : IdPoolBlock) (full : Bool) : (block.allocBlock full).Wf := by
  right
  rw [allocBlock_length]
  simp [rsize]

/-- Writing a word or dropping all of them keeps a block's shape. -/
theorem Wf.update {block : IdPoolBlock} (wf : block.Wf) (empty : Prop) [Decidable empty]
    (pack word freeCount nextPack : Nat) :
    ({ block with data := if empty then [] else block.data.set pack word, freeCount, nextPack } : IdPoolBlock).Wf := by
  split
  · exact Or.inl rfl
  · rcases wf with nil | full
    · exact Or.inl (by simp [nil])
    · exact Or.inr (by simpa [rsize] using full)

@[simp] theorem markAsAcquired_maxSize (block : IdPoolBlock) (id : Nat) :
    (block.markAsAcquired id).2.maxSize = block.maxSize := by
  unfold markAsAcquired
  split
  · rfl
  · dsimp only
    split <;> split <;> simp

@[simp] theorem release_maxSize (block : IdPoolBlock) (id : Nat) :
    (block.release id).2.maxSize = block.maxSize := by
  unfold release
  split
  · rfl
  · dsimp only
    split <;> split <;> simp

/-- The block an operation works on keeps the shape: the old one, or its words allocated. -/
theorem Wf.prepare {block : IdPoolBlock} (wf : block.Wf) (allocate full : Bool) :
    (if allocate then block.allocBlock full else block).Wf := by
  split
  · exact Wf.allocBlock _ _
  · exact wf

theorem Wf.markAsAcquired {block : IdPoolBlock} (wf : block.Wf) (id : Nat) :
    (block.markAsAcquired id).2.Wf := by
  have prepared := wf.prepare block.data.isEmpty true
  unfold IdPoolBlock.markAsAcquired
  generalize (if block.data.isEmpty then block.allocBlock true else block) = prep at prepared ⊢
  split
  · exact wf
  · dsimp only
    split
    · exact prepared
    · exact prepared.update _ _ _ _ _

theorem Wf.release {block : IdPoolBlock} (wf : block.Wf) (id : Nat) : (block.release id).2.Wf := by
  have prepared := wf.prepare block.data.isEmpty false
  unfold IdPoolBlock.release
  generalize (if block.data.isEmpty then block.allocBlock false else block) = prep at prepared ⊢
  split
  · exact wf
  · dsimp only
    split
    · exact prepared
    · exact prepared.update _ _ _ _ _

theorem acquire_spec {block block' : IdPoolBlock} {id : Nat} (wf : block.Wf)
    (acquired : block.acquire = .ok (id, block')) : block'.Wf ∧ block'.maxSize = block.maxSize := by
  have prepared : (if block.freeCount > 0 && block.data.isEmpty then block.allocBlock true else block).Wf ∧
      (if block.freeCount > 0 && block.data.isEmpty then block.allocBlock true else block).maxSize = block.maxSize := by
    split
    · exact ⟨Wf.allocBlock _ _, allocBlock_maxSize _ _⟩
    · exact ⟨wf, rfl⟩
  unfold IdPoolBlock.acquire at acquired
  generalize (if block.freeCount > 0 && block.data.isEmpty then block.allocBlock true else block) = prep
    at prepared acquired
  dsimp only at acquired
  split at acquired
  · cases acquired
  · cases acquired
    exact ⟨prepared.1.update _ _ _ _ _, prepared.2⟩

/-- The update `release` makes to a block whose bit for `id` is clear leaves `id` free. -/
theorem checkIfAvailable_released {block : IdPoolBlock} {id : Nat} (long : id / packBits < block.data.length)
    (nextPack : Nat) :
    ({ block with
      data := if block.freeCount + 1 = block.maxSize then []
        else block.data.set (id / packBits) (block.data.getD (id / packBits) 0 ||| 1 <<< (id % packBits))
      freeCount := block.freeCount + 1, nextPack } : IdPoolBlock).checkIfAvailable id = true := by
  by_cases dropped : block.freeCount + 1 = block.maxSize
  · simp [checkIfAvailable, dropped]
    omega
  · have kept : (block.data.set (id / packBits) (block.data.getD (id / packBits) 0 ||| 1 <<< (id % packBits))).isEmpty = false := by
      simp only [List.isEmpty_eq_false_iff, ne_eq, List.set_eq_nil_iff]
      exact List.ne_nil_of_length_pos (Nat.lt_of_le_of_lt (Nat.zero_le _) long)
    simp only [checkIfAvailable, dropped, if_false, kept, Bool.false_eq_true, bitSet_set_or long]

/-- Giving back a taken id of a block is accepted, and the id then reads as free. -/
theorem release_of_taken {block : IdPoolBlock} {id : Nat} (wf : block.Wf) (lt : id < block.maxSize)
    (taken : block.checkIfAvailable id = false) :
    (block.release id).1 = true ∧ (block.release id).2.checkIfAvailable id = true := by
  unfold checkIfAvailable at taken
  unfold IdPoolBlock.release
  cases empty : block.data.isEmpty
  · -- the block has words, all of them
    have full : block.data.length = block.rsize := wf.resolve_left (by simpa using empty)
    simp only [empty, Bool.false_eq_true, if_false] at taken
    simp only [Bool.false_and, Bool.false_eq_true, if_false, taken]
    exact ⟨trivial, checkIfAvailable_released (full ▸ pack_lt_rsize lt) _⟩
  · -- no words and no free id: the words are allocated all taken
    simp only [empty, if_true, decide_eq_false_iff_not, Nat.not_lt, Nat.le_zero] at taken
    have clear : bitSet (block.allocBlock false).data id = false := by simp [allocBlock, bitSet_replicate_zero]
    simp only [taken, Bool.true_and, Nat.lt_irrefl, decide_false, Bool.false_eq_true, if_false, if_true, clear]
    exact ⟨trivial, checkIfAvailable_released (by rw [allocBlock_length]; exact pack_lt_rsize lt) _⟩

end IdPoolBlock

/-- `IdPool<IDT>` with ids as numbers; `nullId` is `0`. The cache is a list whose
head is `cache_.begin()`; the order of an `std::unordered_set` is the library's,
and the model takes the id released last. -/
structure IdPool where
  cache : List Nat
  block : List IdPoolBlock
  freeList : List Nat
  usedCount : UInt64
  maxId : Nat
  maxCacheSize : Nat
  maxBlockCount : Nat
  blockSize : Nat
  deriving Repr, DecidableEq

namespace IdPool

/-- `block_[k]`; the source reads only blocks below `block_.size()`. -/
def blockAt (pool : IdPool) (k : Nat) : IdPoolBlock := pool.block.getD k (IdPoolBlock.create 0)

def setBlock (pool : IdPool) (k : Nat) (block : IdPoolBlock) : IdPool :=
  { pool with block := pool.block.set k block }

/-- The size `addFreeBlocks` gives block `k`: `block_size_`, or the ids left up to `max_id_`. -/
def blockCapacity (pool : IdPool) (k : Nat) : Nat :=
  let left := pool.maxId - pool.blockSize * k
  if left < pool.blockSize then left + 1 else pool.blockSize

/-- One round of `addFreeBlocks`' loop: a new block at the end, pushed to the back of
the free list. -/
def pushBlock (pool : IdPool) : IdPool :=
  { pool with
    block := pool.block ++ [IdPoolBlock.create (pool.blockCapacity pool.block.length)]
    freeList := pool.freeList ++ [pool.block.length] }

def addFreeBlocks (pool : IdPool) (count : Nat) : Option IdPool :=
  if count = 0 ∨ pool.block.length + count > pool.maxBlockCount then none
  else some (Nat.repeat pushBlock count pool)

/-- The loop that pops the blocks without free ids from the front of the free list. -/
def dropExhausted (pool : IdPool) : List Nat → List Nat
  | [] => []
  | k :: rest => if (pool.blockAt k).count > 0 then k :: rest else pool.dropExhausted rest

def markAsAcquired (pool : IdPool) (id : Nat) : Bool × IdPool :=
  if id ∈ pool.cache then (true, { pool with cache := pool.cache.erase id, usedCount := pool.usedCount + 1 })
  else
    let k := id / pool.blockSize
    let grown := if k ≥ pool.block.length then pool.addFreeBlocks (k + 1 - pool.block.length) else some pool
    match grown with
    | none => (false, pool)
    | some pool =>
      match (pool.blockAt k).markAsAcquired (id % pool.blockSize) with
      | (true, block) =>
        let pool := pool.setBlock k block
        (true, { pool with usedCount := pool.usedCount + 1, freeList := pool.dropExhausted pool.freeList })
      | (false, block) => (false, pool.setBlock k block)

/-- `acquire`: `0` when every id is taken. -/
def acquire (pool : IdPool) : Except String (Nat × IdPool) :=
  match pool.cache with
  | id :: rest => .ok (id, { pool with cache := rest, usedCount := pool.usedCount + 1 })
  | [] =>
    let pool := { pool with freeList := pool.dropExhausted pool.freeList }
    let grown := if pool.freeList.isEmpty then pool.addFreeBlocks 1 else some pool
    match grown with
    | none => .ok (0, pool)
    | some pool => do
      let k := pool.freeList.headD 0
      let (bid, block) ← (pool.blockAt k).acquire
      let pool := pool.setBlock k block
      let pool := if block.count = 0 then { pool with freeList := pool.freeList.tail } else pool
      pure (bid + k * pool.blockSize, { pool with usedCount := pool.usedCount + 1 })

def release (pool : IdPool) (id : Nat) : Bool × IdPool :=
  if id = 0 ∨ id > pool.maxId then (false, pool) else
  let k := id / pool.blockSize
  let bid := id % pool.blockSize
  if k ≥ pool.block.length then (false, pool)
  else if pool.cache.length < pool.maxCacheSize then
    if id ∈ pool.cache ∨ (pool.blockAt k).checkIfAvailable bid then (false, pool)
    else (true, { pool with cache := id :: pool.cache, usedCount := pool.usedCount - 1 })
  else
    match (pool.blockAt k).release bid with
    | (false, block) => (false, pool.setBlock k block)
    | (true, block) =>
      let pool := pool.setBlock k block
      let pool := if block.count = 1 then { pool with freeList := k :: pool.freeList } else pool
      (true, { pool with usedCount := pool.usedCount - 1 })


def checkIfAvailable (pool : IdPool) (id : Nat) : Bool :=
  if id = 0 ∨ id > pool.maxId then false
  else if id ∈ pool.cache then true
  else if id / pool.blockSize ≥ pool.block.length then true
  else (pool.blockAt (id / pool.blockSize)).checkIfAvailable (id % pool.blockSize)

def size (pool : IdPool) : UInt64 := pool.usedCount

/-- The constructor `IdPool(max_size, block_size, cache_size)`: id `0` is taken at once
and not counted. -/
def init (maxSize blockSize cacheSize : Nat) : IdPool :=
  let rsize := packBits
  let blockSize := if maxSize < blockSize then maxSize + 1 else blockSize
  let cacheSize := if maxSize < cacheSize then maxSize + 1 else cacheSize
  let blockSize := rsize * ((blockSize + rsize - 1) / rsize)
  let pool : IdPool := ⟨[], [], [], 0, maxSize, cacheSize, maxSize / blockSize + 1, blockSize⟩
  { (pool.markAsAcquired 0).2 with usedCount := 0 }

/-- The calls a client makes. -/
inductive Call where
  | acquire
  | release (id : Nat)
  | markAsAcquired (id : Nat)
  | checkIfAvailable (id : Nat)
  deriving Repr, DecidableEq

/-- What a call returns: an id, or whether it succeeded. -/
inductive Reply where
  | id (id : Nat)
  | flag (ok : Bool)
  deriving Repr, DecidableEq

def call (pool : IdPool) : Call → Except String (Reply × IdPool)
  | .acquire => pool.acquire.map fun (id, pool) => (.id id, pool)
  | .release id => .ok (.flag (pool.release id).1, (pool.release id).2)
  | .markAsAcquired id => .ok (.flag (pool.markAsAcquired id).1, (pool.markAsAcquired id).2)
  | .checkIfAvailable id => .ok (.flag (pool.checkIfAvailable id), pool)

def calls (pool : IdPool) : List Call → Except String (List Reply × IdPool)
  | [] => .ok ([], pool)
  | c :: rest => do
    let (reply, pool) ← pool.call c
    let (replies, pool) ← pool.calls rest
    pure (reply :: replies, pool)

/-! ### The shape of a pool -/

/-- The shape every reachable pool keeps: each block has its words or none, and the
size `addFreeBlocks` gave it; every cached id is an id of the pool in an allocated block. -/
structure Wf (pool : IdPool) : Prop where
  blockSize_pos : 0 < pool.blockSize
  blocks : ∀ k < pool.block.length, (pool.blockAt k).Wf ∧ (pool.blockAt k).maxSize = pool.blockCapacity k
  cached : ∀ id ∈ pool.cache, 0 < id ∧ id ≤ pool.maxId ∧ id / pool.blockSize < pool.block.length

instance (pool : IdPool) : Decidable pool.Wf :=
  decidable_of_iff (0 < pool.blockSize ∧
      (∀ k < pool.block.length, (pool.blockAt k).Wf ∧ (pool.blockAt k).maxSize = pool.blockCapacity k) ∧
      ∀ id ∈ pool.cache, 0 < id ∧ id ≤ pool.maxId ∧ id / pool.blockSize < pool.block.length)
    ⟨fun ⟨pos, blocks, cached⟩ => ⟨pos, blocks, cached⟩, fun ⟨pos, blocks, cached⟩ => ⟨pos, blocks, cached⟩⟩

/-- A pool with the same blocks and bounds and fewer cached ids keeps the shape; this
covers every change of the free list, the count and the cache by removal. -/
theorem Wf.of_shape {pool pool' : IdPool} (wf : pool.Wf) (block : pool'.block = pool.block)
    (cache : pool'.cache ⊆ pool.cache) (maxId : pool'.maxId = pool.maxId)
    (blockSize : pool'.blockSize = pool.blockSize) : pool'.Wf where
  blockSize_pos := blockSize ▸ wf.blockSize_pos
  blocks k lt := by
    simpa only [blockAt, blockCapacity, block, maxId, blockSize] using wf.blocks k (block ▸ lt)
  cached id mem := by
    simpa only [block, maxId, blockSize] using wf.cached id (cache mem)

theorem Wf.blockAt_wf {pool : IdPool} (wf : pool.Wf) (k : Nat) : (pool.blockAt k).Wf := by
  by_cases lt : k < pool.block.length
  · exact (wf.blocks k lt).1
  · simp [blockAt, List.getD_eq_getElem?_getD, Nat.not_lt.mp lt, IdPoolBlock.create, IdPoolBlock.Wf]

theorem blockAt_setBlock (pool : IdPool) (k : Nat) (block : IdPoolBlock) (j : Nat) :
    (pool.setBlock k block).blockAt j = if j = k ∧ k < pool.block.length then block else pool.blockAt j := by
  unfold blockAt setBlock
  by_cases same : j = k
  · subst same
    by_cases lt : j < pool.block.length
    · simp [List.getD_eq_getElem?_getD, lt]
    · simp [List.getD_eq_getElem?_getD, lt]
  · simp [List.getD_eq_getElem?_getD, same, List.getElem?_set_ne (Ne.symm same)]

theorem Wf.setBlock {pool : IdPool} (wf : pool.Wf) {k : Nat} {block : IdPoolBlock} (bwf : block.Wf)
    (size : block.maxSize = (pool.blockAt k).maxSize) : (pool.setBlock k block).Wf where
  blockSize_pos := wf.blockSize_pos
  blocks j lt := by
    have old : j < pool.block.length := by simpa [IdPool.setBlock] using lt
    rw [blockAt_setBlock]
    split
    · next same =>
      obtain ⟨rfl, -⟩ := same
      exact ⟨bwf, size.trans (wf.blocks j old).2⟩
    · exact wf.blocks j old
  cached id mem := by simpa [IdPool.setBlock] using wf.cached id mem

theorem pushBlock_blockAt_of_lt {pool : IdPool} {j : Nat} (lt : j < pool.block.length) :
    pool.pushBlock.blockAt j = pool.blockAt j := by
  simp [blockAt, IdPool.pushBlock, List.getD_eq_getElem?_getD, List.getElem?_append_left lt]

theorem pushBlock_blockAt_length (pool : IdPool) :
    pool.pushBlock.blockAt pool.block.length = IdPoolBlock.create (pool.blockCapacity pool.block.length) := by
  simp [blockAt, IdPool.pushBlock, List.getD_eq_getElem?_getD]

theorem Wf.pushBlock {pool : IdPool} (wf : pool.Wf) : pool.pushBlock.Wf where
  blockSize_pos := wf.blockSize_pos
  blocks j lt := by
    have capacity : pool.pushBlock.blockCapacity j = pool.blockCapacity j := rfl
    simp only [IdPool.pushBlock, List.length_append, List.length_singleton] at lt
    rw [capacity]
    by_cases old : j < pool.block.length
    · rw [pushBlock_blockAt_of_lt old]
      exact wf.blocks j old
    · obtain rfl : j = pool.block.length := by omega
      rw [pushBlock_blockAt_length]
      exact ⟨Or.inl rfl, rfl⟩
  cached id mem := by
    obtain ⟨pos, le, lt⟩ := wf.cached id mem
    exact ⟨pos, le, by simp [IdPool.pushBlock]; omega⟩

theorem Wf.repeat_pushBlock {pool : IdPool} (wf : pool.Wf) (count : Nat) :
    (Nat.repeat IdPool.pushBlock count pool).Wf := by
  induction count with
  | zero => exact wf
  | succ count ih => exact ih.pushBlock

theorem repeat_pushBlock_length (pool : IdPool) (count : Nat) :
    (Nat.repeat pushBlock count pool).block.length = pool.block.length + count := by
  induction count with
  | zero => rfl
  | succ count ih => simp [Nat.repeat, IdPool.pushBlock, ih, Nat.add_assoc]

theorem repeat_pushBlock_bounds (pool : IdPool) (count : Nat) :
    (Nat.repeat pushBlock count pool).maxId = pool.maxId ∧
      (Nat.repeat pushBlock count pool).blockSize = pool.blockSize := by
  induction count with
  | zero => exact ⟨rfl, rfl⟩
  | succ count ih => exact ih

theorem Wf.addFreeBlocks {pool pool' : IdPool} (wf : pool.Wf) {count : Nat}
    (added : pool.addFreeBlocks count = some pool') :
    pool'.Wf ∧ pool'.block.length = pool.block.length + count ∧ pool'.maxId = pool.maxId ∧
      pool'.blockSize = pool.blockSize := by
  unfold IdPool.addFreeBlocks at added
  split at added
  · cases added
  · cases added
    exact ⟨wf.repeat_pushBlock count, repeat_pushBlock_length pool count, repeat_pushBlock_bounds pool count⟩

theorem Wf.markAsAcquired {pool : IdPool} (wf : pool.Wf) (id : Nat) : (pool.markAsAcquired id).2.Wf := by
  unfold IdPool.markAsAcquired
  split
  · exact wf.of_shape rfl (fun _ mem => List.mem_of_mem_erase mem) rfl rfl
  · dsimp only
    split
    · exact wf
    · next grownPool grown =>
      -- the pool with block `id / blockSize` allocated
      have grownWf : grownPool.Wf := by
        split at grown
        · exact (wf.addFreeBlocks grown).1
        · cases grown
          exact wf
      have bwf := (grownWf.blockAt_wf (id / pool.blockSize)).markAsAcquired (id % grownPool.blockSize)
      have size := IdPoolBlock.markAsAcquired_maxSize (grownPool.blockAt (id / pool.blockSize)) (id % grownPool.blockSize)
      generalize (grownPool.blockAt (id / pool.blockSize)).markAsAcquired (id % grownPool.blockSize) = result
        at bwf size ⊢
      obtain ⟨_ | _, block⟩ := result
      · exact grownWf.setBlock bwf size
      · exact (grownWf.setBlock bwf size).of_shape rfl (fun _ mem => mem) rfl rfl

theorem Wf.release {pool : IdPool} (wf : pool.Wf) (id : Nat) : (pool.release id).2.Wf := by
  unfold IdPool.release
  split
  · exact wf
  · next range =>
    dsimp only
    split
    · exact wf
    · next allocated =>
      split
      · split
        · exact wf
        · -- the id joins the cache
          dsimp only
          refine ⟨wf.blockSize_pos, wf.blocks, fun x mem => ?_⟩
          rcases List.mem_cons.mp mem with rfl | mem
          · dsimp only
            exact ⟨by omega, by omega, by omega⟩
          · exact wf.cached x mem
      · have bwf := (wf.blockAt_wf (id / pool.blockSize)).release (id % pool.blockSize)
        have size := IdPoolBlock.release_maxSize (pool.blockAt (id / pool.blockSize)) (id % pool.blockSize)
        generalize (pool.blockAt (id / pool.blockSize)).release (id % pool.blockSize) = result at bwf size ⊢
        obtain ⟨_ | _, block⟩ := result
        · exact wf.setBlock bwf size
        · dsimp only
          split <;> exact (wf.setBlock bwf size).of_shape rfl (fun _ mem => mem) rfl rfl


theorem Wf.acquire {pool pool' : IdPool} {id : Nat} (wf : pool.Wf) (acquired : pool.acquire = .ok (id, pool')) :
    pool'.Wf := by
  unfold IdPool.acquire at acquired
  cases cache : pool.cache with
  | cons head rest =>
    -- an id of the cache
    rw [cache] at acquired
    cases acquired
    exact wf.of_shape rfl (fun _ mem => cache ▸ List.mem_cons_of_mem _ mem) rfl rfl
  | nil =>
    rw [cache] at acquired
    dsimp only at acquired
    have cleaned : ({ pool with cache := [], freeList := pool.dropExhausted pool.freeList } : IdPool).Wf :=
      wf.of_shape rfl (fun _ mem => absurd mem List.not_mem_nil) rfl rfl
    split at acquired
    · cases acquired
      exact cleaned
    · next grownPool grown =>
      have grownWf : grownPool.Wf := by
        split at grown
        · exact (cleaned.addFreeBlocks grown).1
        · cases grown
          exact cleaned
      simp only [bind, Except.bind] at acquired
      split at acquired
      · cases acquired
      · next result blockAcquired =>
        obtain ⟨bwf, size⟩ := IdPoolBlock.acquire_spec (grownWf.blockAt_wf _) blockAcquired
        simp only [pure, Except.pure, Except.ok.injEq, Prod.mk.injEq] at acquired
        obtain ⟨-, rfl⟩ := acquired
        split <;> exact (grownWf.setBlock bwf size).of_shape rfl (fun _ mem => mem) rfl rfl

theorem init_wf (maxSize : Nat) {blockSize : Nat} (cacheSize : Nat) (pos : 0 < blockSize) :
    (init maxSize blockSize cacheSize).Wf := by
  unfold init
  dsimp only
  have rounded : 0 < packBits * (((if maxSize < blockSize then maxSize + 1 else blockSize) + packBits - 1) / packBits) := by
    rw [packBits_eq]
    split <;> omega
  have empty : IdPool.Wf ⟨[], [], [], 0, maxSize, if maxSize < cacheSize then maxSize + 1 else cacheSize,
      maxSize / (packBits * (((if maxSize < blockSize then maxSize + 1 else blockSize) + packBits - 1) / packBits)) + 1,
      packBits * (((if maxSize < blockSize then maxSize + 1 else blockSize) + packBits - 1) / packBits)⟩ :=
    ⟨rounded, fun k lt => absurd lt (Nat.not_lt_zero k), fun _ mem => absurd mem List.not_mem_nil⟩
  exact (empty.markAsAcquired 0).of_shape rfl (fun _ mem => mem) rfl rfl

/-- One call of a client that changes the pool. -/
inductive Step : IdPool → IdPool → Prop
  | acquire {pool pool' : IdPool} {id : Nat} : pool.acquire = .ok (id, pool') → Step pool pool'
  | release (pool : IdPool) (id : Nat) : Step pool (pool.release id).2
  | markAsAcquired (pool : IdPool) (id : Nat) : Step pool (pool.markAsAcquired id).2

/-- The pools that the constructor, with a block size that is not zero, and the calls build. -/
inductive Reachable : IdPool → Prop
  | init (maxSize blockSize cacheSize : Nat) : 0 < blockSize → Reachable (IdPool.init maxSize blockSize cacheSize)
  | step {pool pool' : IdPool} : Reachable pool → Step pool pool' → Reachable pool'

theorem Step.wf {pool pool' : IdPool} (step : Step pool pool') (wf : pool.Wf) : pool'.Wf := by
  cases step with
  | acquire acquired => exact wf.acquire acquired
  | release => exact wf.release _
  | markAsAcquired => exact wf.markAsAcquired _

theorem Reachable.wf {pool : IdPool} (reachable : Reachable pool) : pool.Wf := by
  induction reachable with
  | init maxSize blockSize cacheSize pos => exact init_wf maxSize cacheSize pos
  | step _ step ih => exact step.wf ih

/-- A call leaves the pool as it is or takes one step. -/
theorem call_step {pool pool' : IdPool} {c : Call} {reply : Reply} (called : pool.call c = .ok (reply, pool')) :
    pool' = pool ∨ Step pool pool' := by
  cases c with
  | acquire =>
    cases acquired : pool.acquire with
    | error message => simp [call, acquired, Except.map] at called
    | ok result =>
      simp only [call, acquired, Except.map, Except.ok.injEq, Prod.mk.injEq] at called
      obtain ⟨-, rfl⟩ := called
      exact Or.inr (.acquire acquired)
  | release id =>
    simp only [call, Except.ok.injEq, Prod.mk.injEq] at called
    obtain ⟨-, rfl⟩ := called
    exact Or.inr (.release pool id)
  | markAsAcquired id =>
    simp only [call, Except.ok.injEq, Prod.mk.injEq] at called
    obtain ⟨-, rfl⟩ := called
    exact Or.inr (.markAsAcquired pool id)
  | checkIfAvailable id =>
    simp only [call, Except.ok.injEq, Prod.mk.injEq] at called
    exact Or.inl called.2.symm

theorem Reachable.calls {pool pool' : IdPool} {cs : List Call} {replies : List Reply} (reachable : Reachable pool)
    (ran : pool.calls cs = .ok (replies, pool')) : Reachable pool' := by
  induction cs generalizing pool replies with
  | nil =>
    simp only [IdPool.calls, Except.ok.injEq, Prod.mk.injEq] at ran
    exact ran.2 ▸ reachable
  | cons c rest ih =>
    cases called : pool.call c with
    | error message => simp [IdPool.calls, called, bind, Except.bind] at ran
    | ok result =>
      obtain ⟨reply, next⟩ := result
      have nextReachable : Reachable next := by
        rcases call_step called with same | step
        · exact same ▸ reachable
        · exact reachable.step step
      cases ranRest : next.calls rest with
      | error message => simp [IdPool.calls, called, ranRest, bind, Except.bind] at ran
      | ok results =>
        simp only [IdPool.calls, called, ranRest, bind, Except.bind, pure, Except.pure, Except.ok.injEq,
          Prod.mk.injEq] at ran
        obtain ⟨-, rfl⟩ := ran
        exact ih nextReachable ranRest

/-! ### What the pool reports past its ids -/

theorem checkIfAvailable_of_lt {pool : IdPool} {id : Nat} (beyond : pool.maxId < id) :
    pool.checkIfAvailable id = false := by
  simp [checkIfAvailable, beyond]

theorem release_maxId (pool : IdPool) (id : Nat) : (pool.release id).2.maxId = pool.maxId := by
  unfold IdPool.release
  split
  · rfl
  · dsimp only
    split
    · rfl
    · split
      · split <;> rfl
      · generalize (pool.blockAt (id / pool.blockSize)).release (id % pool.blockSize) = result
        obtain ⟨_ | _, block⟩ := result
        · rfl
        · dsimp only
          split <;> rfl

/-! ### The cache and the bits -/

theorem mod_lt_blockCapacity {pool : IdPool} (wf : pool.Wf) {id : Nat} (le : id ≤ pool.maxId) :
    id % pool.blockSize < pool.blockCapacity (id / pool.blockSize) := by
  have split := Nat.div_add_mod id pool.blockSize
  have below := Nat.mod_lt id wf.blockSize_pos
  unfold blockCapacity
  dsimp only
  split <;> omega

/-- In a pool whose cache is full, an id that the cache holds, and that the pool therefore
reports free, is accepted by `release` when its block has it taken, as every pool that
keeps the cache and the bits apart has it; afterwards the id is free twice, in the cache
and in its block. -/
theorem release_accepts_cached_id (pool : IdPool) (id : Nat) (wf : pool.Wf)
    (full : pool.maxCacheSize ≤ pool.cache.length) (cached : id ∈ pool.cache)
    (taken : (pool.blockAt (id / pool.blockSize)).checkIfAvailable (id % pool.blockSize) = false) :
    pool.checkIfAvailable id = true ∧ (pool.release id).1 = true ∧ id ∈ (pool.release id).2.cache ∧
      ((pool.release id).2.blockAt (id / pool.blockSize)).checkIfAvailable (id % pool.blockSize) = true := by
  obtain ⟨pos, le, allocated⟩ := wf.cached id cached
  have inRange : ¬(id = 0 ∨ id > pool.maxId) := by omega
  have available : pool.checkIfAvailable id = true := by
    simp [checkIfAvailable, inRange, cached]
  have bid_lt : id % pool.blockSize < (pool.blockAt (id / pool.blockSize)).maxSize := by
    rw [(wf.blocks _ allocated).2]
    exact mod_lt_blockCapacity wf le
  obtain ⟨accepted, freed⟩ := IdPoolBlock.release_of_taken (wf.blocks _ allocated).1 bid_lt taken
  obtain ⟨block, blockReleased⟩ : ∃ block,
      (pool.blockAt (id / pool.blockSize)).release (id % pool.blockSize) = (true, block) :=
    ⟨_, Prod.ext accepted rfl⟩
  rw [blockReleased] at freed
  dsimp only at freed
  have notBeyond : ¬id / pool.blockSize ≥ pool.block.length := by omega
  have noRoom : ¬pool.cache.length < pool.maxCacheSize := by omega
  refine ⟨available, ?_⟩
  unfold IdPool.release
  simp only [inRange, notBeyond, noRoom, if_false, blockReleased]
  -- the block path: the id stays cached and its bit is set
  split <;> simp [IdPool.setBlock, blockAt, List.getD_eq_getElem?_getD, allocated, cached, freed]


theorem release_accepts_cached_id_cacheOfOne :
    ∃ pool, (IdPool.init 2 8192 1).calls [.acquire, .acquire, .release 1] = .ok ([.id 1, .id 2, .flag true], pool) ∧
      pool.Wf ∧ pool.maxCacheSize ≤ pool.cache.length ∧ 1 ∈ pool.cache ∧
      (pool.blockAt (1 / pool.blockSize)).checkIfAvailable (1 % pool.blockSize) = false ∧
      (pool.checkIfAvailable 1 = true ∧ (pool.release 1).1 = true ∧ 1 ∈ (pool.release 1).2.cache ∧
        ((pool.release 1).2.blockAt (1 / pool.blockSize)).checkIfAvailable (1 % pool.blockSize) = true) := by
  let pool : IdPool := ⟨[1], [⟨[], 3, 0, 0⟩], [], 1, 2, 1, 1, 64⟩
  have ran : (IdPool.init 2 8192 1).calls [.acquire, .acquire, .release 1] = .ok ([.id 1, .id 2, .flag true], pool) :=
    rfl
  have wf : pool.Wf := (Reachable.calls (.init 2 8192 1 (by decide)) ran).wf
  exact ⟨pool, ran, wf, by decide, by decide, by decide,
    release_accepts_cached_id pool 1 wf (by decide) (by decide) (by decide)⟩

/-- The run behind it: the second `release(1)` is accepted, and the two `acquire`s
after it both return `1`. -/
example : ((IdPool.init 2 8192 1).calls
      [.acquire, .acquire, .release 1, .release 1, .acquire, .acquire]).map Prod.fst =
    .ok [.id 1, .id 2, .flag true, .flag true, .id 1, .id 1] := rfl

end IdPool

end SaunaFS
