import SaunaFS.Common.Serialization
import SaunaFS.Master.FileLocks

/-! The lock tables in the metadata file (`FileLocks::store` and `FileLocks::load`,
`src/master/locks.cc`).

`store` writes each table as a count and then one `safs_locks::Info` record per
owner of every range or pending lock, inode by inode in the order of the hash map.
`load` reads the records back into empty tables: each active record is inserted
into its inode's ranges by `LockRanges::insert`, each pending one appended to its
inode's queue. A record keeps the owner and the session of its owner but not the
request ids, which come back as zero.

A shared range of several owners comes back as several single-owner ranges
inserted one after another, which `insert` splits and merges again. The replay
gives back the table of locks exactly (`replay_pieces`): every piece fits the
ranges rebuilt so far, since what they hold is part of what the stored ranges
hold, and where two owners meet in it both locks are shared.

Offsets and the counts are `uint64_t` in the file; the model's offsets are `Nat`,
so the tables are taken with what fits the file (`Storable`).
-/

set_option autoImplicit false

namespace SaunaFS

namespace LockRanges

/-- The lock of owner `o` alone over the range `r`, as its record gives it back. -/
def piece (r : LockRange) (o : Owner) : LockRange := ⟨r.type, r.start, r.stop, [⟨o.owner, o.sessionid, 0, 0⟩]⟩

/-- The pieces of the ranges, in the order `store` writes them. -/
def pieces (data : List LockRange) : List LockRange := data.flatMap fun r => r.owners.map (piece r)

@[simp] theorem piece_owner (r : LockRange) (o : Owner) : (piece r o).owner.key = o.key := rfl

/-- The owners of a valid range that are all `key` are `key` alone. -/
theorem keys_eq_of_forall {r : LockRange} (valid : r.Valid) {key : Nat} (all : ∀ k ∈ r.owners.map Owner.key, k = key) :
    r.owners.map Owner.key = [key] := by
  have sorted := valid.sorted
  match owners : r.owners, valid.owned with
  | [a], _ => simp [all a.key (by simp [owners])]
  | a :: b :: rest, _ =>
    -- two owners are strictly ordered, so they cannot both be `key`
    rw [owners] at sorted
    have less : a.key < b.key := List.rel_of_pairwise_cons sorted List.mem_cons_self
    have first := all a.key (by simp [owners])
    have second := all b.key (by simp [owners])
    omega

/-- The ranges `data` rebuilt from the pieces `done` of the ranges `stored`: well formed,
holding only what `stored` holds, and each piece replayed holding its range. -/
structure Replayed (stored data done : List LockRange) : Prop where
  wf : WellFormed data
  below : ∀ offset k type, view data offset k = some type → view stored offset k = some type
  covered : ∀ p ∈ done, ∀ offset, p.start ≤ offset → offset < p.stop → view data offset p.owner.key = some p.type

section Replay

variable {stored : List LockRange} (storedWf : WellFormed stored)

include storedWf

/-- Owner `o` of a stored range holds its lock all over it. -/
theorem view_stored {r : LockRange} (member : r ∈ stored) {o : Owner} (owner : o ∈ r.owners) {offset : Nat}
    (inside : r.start ≤ offset ∧ offset < r.stop) : view stored offset o.key = some r.type := by
  have valid := storedWf.valid r member
  apply view_of_mem storedWf member
  simp only [LockRange.covers, Bool.and_eq_true, decide_eq_true_eq, valid.holds_iff]
  exact ⟨inside, List.mem_map_of_mem owner⟩

/-- A piece of a stored range fits the ranges rebuilt so far: a range it collides with
would hold, where they meet, a lock that the stored ranges hold too, and there one of
the two locks is exclusive, so every owner of that range is the piece's own. -/
theorem fits_piece {data done : List LockRange} (replayed : Replayed stored data done) {r : LockRange}
    (member : r ∈ stored) {o : Owner} (owner : o ∈ r.owners) : fits data (piece r o) = true := by
  apply fits_of_forall_not_collides rfl
  rintro r' member' ⟨overlap, notEqual, notBoth⟩
  have valid := storedWf.valid r member
  have valid' := replayed.wf.valid r' member'
  simp only [piece, LockRange.overlaps_iff] at overlap
  -- the offset where the two meet
  have inside : r.start ≤ max r.start r'.start ∧ max r.start r'.start < r.stop :=
    ⟨le_max_left _ _, max_lt valid.nonempty overlap.2⟩
  have inside' : r'.start ≤ max r.start r'.start ∧ max r.start r'.start < r'.stop :=
    ⟨le_max_right _ _, max_lt overlap.1 valid'.nonempty⟩
  have mine := view_stored storedWf member owner inside
  have theirs : ∀ k ∈ r'.owners.map Owner.key, k = o.key := by
    intro k held
    have rebuilt : view data (max r.start r'.start) k = some r'.type := by
      apply view_of_mem replayed.wf member'
      simp only [LockRange.covers, Bool.and_eq_true, decide_eq_true_eq, valid'.holds_iff]
      exact ⟨inside', held⟩
    have there := replayed.below _ _ _ rebuilt
    by_cases shared : r.type = .kShared
    · have exclusive : r'.type = .kExclusive := by
        rcases valid'.locked with locked | locked
        · exact absurd ⟨by simp [LockRange.shared, piece, shared], by simp [LockRange.shared, locked]⟩ notBoth
        · exact locked
      rw [exclusive] at there
      exact storedWf.exclusive_alone there (by rw [mine]; exact Option.some_ne_none _)
    · have exclusive : r.type = .kExclusive := valid.locked.resolve_left shared
      rw [exclusive] at mine
      exact (storedWf.exclusive_alone mine (by rw [there]; exact Option.some_ne_none _)).symm
  have keys := keys_eq_of_forall valid' theirs
  have equal : Owners.equal r'.owners [⟨o.owner, o.sessionid, 0, 0⟩] = true :=
    (Owners.equal_iff _ _).mpr (by simp [keys, Owner.key])
  rw [equal] at notEqual
  exact Bool.noConfusion notEqual

/-- Replaying one more piece keeps the ranges rebuilt from the pieces replayed. -/
theorem Replayed.insert {data done : List LockRange} (replayed : Replayed stored data done) {r : LockRange}
    (member : r ∈ stored) {o : Owner} (owner : o ∈ r.owners) :
    Replayed stored (LockRanges.insert data (piece r o)) (done ++ [piece r o]) := by
  have valid := storedWf.valid r member
  have locking : (piece r o).type ≠ .kInvalid := by rcases valid.locked with locked | locked <;> simp [piece, locked]
  have nonempty : (piece r o).start < (piece r o).stop := valid.nonempty
  have single : (piece r o).owners = [⟨o.owner, o.sessionid, 0, 0⟩] := rfl
  have fits := fits_piece storedWf replayed member owner
  have inserted := insert_view replayed.wf single nonempty locking fits
  have view' : view (LockRanges.insert data (piece r o)) = (view data).apply r.type r.start r.stop o.key := inserted
  have entry : lockEntry r.type = some r.type := by
    rcases valid.locked with locked | locked <;> simp [lockEntry, locked]
  have wf' := insert_wellFormed replayed.wf single nonempty locking fits
  refine ⟨wf', fun offset k type found => ?_, fun p done' offset start stop => ?_⟩
  · -- the piece adds what the stored range holds, the rest was there before
    rw [view', LockMap.apply] at found
    split_ifs at found with here
    · obtain ⟨lower, upper, rfl⟩ := here
      rw [view_stored storedWf member owner ⟨lower, upper⟩, ← found, entry]
    · exact replayed.below offset k type found
  · rw [view', LockMap.apply]
    split_ifs with here
    · -- the piece and an earlier one over the same offset and owner come from one stored range
      obtain ⟨lower, upper, same⟩ := here
      rw [entry]
      rcases List.mem_append.mp done' with earlier | last
      · have before := replayed.covered p earlier offset start stop
        have stored' := replayed.below _ _ _ before
        rw [same, view_stored storedWf member owner ⟨lower, upper⟩] at stored'
        rw [stored']
      · rw [List.mem_singleton.mp last]
        rfl
    · rcases List.mem_append.mp done' with earlier | last
      · exact replayed.covered p earlier offset start stop
      · -- the last piece covers its own range and owner
        obtain rfl := List.mem_singleton.mp last
        exact absurd ⟨start, stop, piece_owner r o⟩ here

/-- Replaying the pieces of a part of the stored ranges, one after another. -/
theorem Replayed.foldl {data done : List LockRange} (replayed : Replayed stored data done) :
    ∀ part : List LockRange, (∀ r ∈ part, r ∈ stored) →
      Replayed stored ((pieces part).foldl LockRanges.insert data) (done ++ pieces part)
  | [], _ => by simpa [pieces] using replayed
  | r :: rest, within => by
    have member := within r List.mem_cons_self
    -- the owners of `r` one by one
    have owners : ∀ (os : List Owner) (data done : List LockRange), (∀ o ∈ os, o ∈ r.owners) →
        Replayed stored data done →
          Replayed stored ((os.map (piece r)).foldl LockRanges.insert data) (done ++ os.map (piece r)) := by
      intro os
      induction os with
      | nil => intro data done _ replayed; simpa using replayed
      | cons o os ih =>
        intro data done mine replayed
        have next := replayed.insert storedWf member (mine o List.mem_cons_self)
        have rest := ih _ _ (fun o' member' => mine o' (List.mem_cons_of_mem o member')) next
        simpa [List.append_assoc] using rest
    have first := owners r.owners data done (fun _ held => held) replayed
    have later := first.foldl rest fun r' member' => within r' (List.mem_cons_of_mem r member')
    simpa [pieces, List.foldl_append, List.append_assoc] using later

/-- Inserting the pieces of well-formed ranges into no ranges gives back ranges that
are well formed and hold exactly what the stored ones hold. -/
theorem replay_pieces : WellFormed ((pieces stored).foldl LockRanges.insert []) ∧
    view ((pieces stored).foldl LockRanges.insert []) = view stored := by
  have start : Replayed stored [] [] :=
    ⟨⟨fun _ member => absurd member List.not_mem_nil, List.Pairwise.nil⟩, fun _ _ _ found => by simp at found,
      fun _ member => absurd member List.not_mem_nil⟩
  have replayed := start.foldl storedWf stored fun _ held => held
  refine ⟨replayed.wf, funext fun offset => funext fun k => ?_⟩
  cases held : view stored offset k with
  | none =>
    -- nothing comes back that was not stored
    cases rebuilt : view ((pieces stored).foldl LockRanges.insert []) offset k with
    | none => rfl
    | some type => simpa [held] using replayed.below offset k type rebuilt
  | some type =>
    obtain ⟨r, member, covers, rfl⟩ := covers_of_view held
    have valid := storedWf.valid r member
    simp only [LockRange.covers, Bool.and_eq_true, decide_eq_true_eq, valid.holds_iff] at covers
    obtain ⟨o, owner, rfl⟩ := List.mem_map.mp covers.2
    have piece_mem : piece r o ∈ [] ++ pieces stored := by
      simp only [List.nil_append, pieces, List.mem_flatMap, List.mem_map]
      exact ⟨r, member, o, owner, rfl⟩
    exact replayed.covered (piece r o) piece_mem offset covers.1.1 covers.1.2

end Replay

end LockRanges

/-- A lock whose owners keep their owner and session but no request ids. -/
def LockRange.withoutRequestIds (lock : LockRange) : LockRange :=
  { lock with owners := lock.owners.map fun o => ⟨o.owner, o.sessionid, 0, 0⟩ }

namespace FileLocks

open Serialization

/-- The code of a lock type in the file, `static_cast<uint16_t>(lock.type)`. -/
def typeCode : LockType → UInt16
  | .kInvalid => 0
  | .kUnlock => 1
  | .kShared => 2
  | .kExclusive => 4

/-- `static_cast<LockRange::Type>(info.type)`: the low byte of the code. A byte that
is none of the four types is read as `kInvalid`. -/
def typeOfCode (code : UInt16) : LockType :=
  let byte := code.toUInt8
  if byte = 1 then .kUnlock else if byte = 2 then .kShared else if byte = 4 then .kExclusive else .kInvalid

theorem typeOfCode_typeCode (type : LockType) : typeOfCode (typeCode type) = type := by
  cases type <;> decide

/-- `safs_locks::Info`, one record of the file; `stop` is the field `end`. -/
structure Info where
  version : UInt32
  inode : UInt32
  owner : UInt64
  sessionid : UInt32
  type : UInt16
  start : UInt64
  stop : UInt64
  deriving DecidableEq, Repr

/-- The fields of a record in the order `SAUNAFS_DEFINE_SERIALIZABLE_CLASS` writes them. -/
def infoTy : Ty :=
  .pair (.word .b4 false) (.pair (.word .b4 false) (.pair (.word .b8 false) (.pair (.word .b4 false)
    (.pair (.word .b2 false) (.pair (.word .b8 false) (.word .b8 false))))))

def Info.fields (info : Info) : infoTy.denote :=
  (info.version, info.inode, info.owner, info.sessionid, info.type, info.start, info.stop)

def Info.ofFields (fields : infoTy.denote) : Info :=
  ⟨fields.1, fields.2.1, fields.2.2.1, fields.2.2.2.1, fields.2.2.2.2.1, fields.2.2.2.2.2.1, fields.2.2.2.2.2.2⟩

def serializeInfo (info : Info) : List UInt8 := infoTy.serialize info.fields

def deserializeInfo (bytes : List UInt8) : Except String (Info × List UInt8) :=
  (infoTy.deserialize bytes).map fun read => (Info.ofFields read.1, read.2)

theorem deserializeInfo_serializeInfo (info : Info) (rest : List UInt8) :
    deserializeInfo (serializeInfo info ++ rest) = .ok (info, rest) := by
  unfold deserializeInfo serializeInfo
  rw [Ty.deserialize_serialize infoTy rfl info.fields rfl rest]
  rfl

/-- The record `store` writes for owner `o` of a lock of `inode`. -/
def record (inode : UInt32) (lock : LockRange) (o : Owner) : Info :=
  ⟨0, inode, o.owner, o.sessionid, typeCode lock.type, UInt64.ofNat lock.start, UInt64.ofNat lock.stop⟩

/-- The records of a table: inode by inode in the order of the map, then lock by lock
and owner by owner. -/
def records (table : UInt32 → List LockRange) (inodes : List UInt32) : List Info :=
  inodes.flatMap fun inode => (table inode).flatMap fun lock => lock.owners.map (record inode lock)

/-- `store(file, data)`: the count of records, then the records. -/
def storeTable (table : UInt32 → List LockRange) (inodes : List UInt32) : List UInt8 :=
  Width.b8.put (records table inodes).length ++ (records table inodes).flatMap serializeInfo

/-- `FileLocks::store`: the active ranges, then the pending locks. `activeInodes` and
`pendingInodes` are the keys of the two hash maps, in the order the maps list them. -/
def store (locks : FileLocks) (activeInodes pendingInodes : List UInt32) : List UInt8 :=
  storeTable locks.activeLocks activeInodes ++ storeTable locks.pendingLocks pendingInodes

/-- The lock a record stands for: `Lock{type, start, end, Owner{owner, sessionid, 0, 0}}`. -/
def Info.lock (info : Info) : LockRange :=
  ⟨typeOfCode info.type, info.start.toNat, info.stop.toNat, [⟨info.owner, info.sessionid, 0, 0⟩]⟩

/-- `load(metadataFile, offsetBegin, insert)`: the count, then as many records, each
handed to `insert`. -/
def loadTable (insert : FileLocks → UInt32 → LockRange → FileLocks) (locks : FileLocks) (bytes : List UInt8) :
    Except String (FileLocks × List UInt8) := do
  let (count, bytes) ← Width.b8.get bytes
  ByteReader.readFold deserializeInfo (fun locks info => insert locks info.inode info.lock) count locks bytes

/-- `active_locks_[inode].insert(lock)`. -/
def insertActive (locks : FileLocks) (inode : UInt32) (lock : LockRange) : FileLocks :=
  locks.setActive inode (LockRanges.insert (locks.activeLocks inode) lock)

/-- `pending_locks_[inode].push_back(lock)`. -/
def pushPending (locks : FileLocks) (inode : UInt32) (lock : LockRange) : FileLocks :=
  locks.setPending inode (locks.pendingLocks inode ++ [lock])

/-- `FileLocks::load`: the active ranges, then the pending locks. -/
def load (locks : FileLocks) (bytes : List UInt8) : Except String (FileLocks × List UInt8) := do
  let (locks, bytes) ← loadTable insertActive locks bytes
  loadTable pushPending locks bytes

/-! ## Reading the records back -/

theorem loadTable_storeTable (insert : FileLocks → UInt32 → LockRange → FileLocks) (locks : FileLocks)
    (table : UInt32 → List LockRange) (inodes : List UInt32) (counted : (records table inodes).length < 2 ^ 64)
    (rest : List UInt8) :
    loadTable insert locks (storeTable table inodes ++ rest) =
      .ok ((records table inodes).foldl (fun locks info => insert locks info.inode info.lock) locks, rest) := by
  unfold loadTable storeTable
  rw [List.append_assoc, Width.get_put, Nat.mod_eq_of_lt (by simpa [Width.bytes] using counted)]
  exact ByteReader.readFold_flatMap _ (records table inodes)
    (fun info _ rest => deserializeInfo_serializeInfo info rest) locks rest

theorem foldl_insertActive (infos : List Info) (locks : FileLocks) (inode : UInt32) :
    (infos.foldl (fun locks info => insertActive locks info.inode info.lock) locks).activeLocks inode =
      ((infos.filter fun info => info.inode == inode).map Info.lock).foldl LockRanges.insert (locks.activeLocks inode) ∧
    (infos.foldl (fun locks info => insertActive locks info.inode info.lock) locks).pendingLocks = locks.pendingLocks := by
  induction infos generalizing locks with
  | nil => exact ⟨rfl, rfl⟩
  | cons info rest ih =>
    obtain ⟨active, pending⟩ := ih (insertActive locks info.inode info.lock)
    refine ⟨?_, pending⟩
    rw [List.foldl_cons, active, List.filter_cons]
    by_cases here : info.inode = inode
    · subst here
      simp [insertActive, setActive]
    · have other : (insertActive locks info.inode info.lock).activeLocks inode = locks.activeLocks inode := by
        simp [insertActive, setActive, Function.update_of_ne (Ne.symm here)]
      simp [here, other]

theorem foldl_pushPending (infos : List Info) (locks : FileLocks) (inode : UInt32) :
    (infos.foldl (fun locks info => pushPending locks info.inode info.lock) locks).pendingLocks inode =
      locks.pendingLocks inode ++ (infos.filter fun info => info.inode == inode).map Info.lock ∧
    (infos.foldl (fun locks info => pushPending locks info.inode info.lock) locks).activeLocks = locks.activeLocks := by
  induction infos generalizing locks with
  | nil => exact ⟨by simp, rfl⟩
  | cons info rest ih =>
    obtain ⟨pending, active⟩ := ih (pushPending locks info.inode info.lock)
    refine ⟨?_, active⟩
    rw [List.foldl_cons, pending, List.filter_cons]
    by_cases here : info.inode = inode
    · subst here
      simp [pushPending, setPending]
    · have other : (pushPending locks info.inode info.lock).pendingLocks inode = locks.pendingLocks inode := by
        simp [pushPending, setPending, Function.update_of_ne (Ne.symm here)]
      simp [here, other]

/-- `inodes` lists the keys of a table as its hash map holds them: each once, and
every inode that has locks. -/
structure Keys (table : UInt32 → List LockRange) (inodes : List UInt32) : Prop where
  nodup : inodes.Nodup
  complete : ∀ inode, table inode ≠ [] → inode ∈ inodes

/-- A table with locks on one inode alone is keyed by that inode. -/
theorem Keys.singleton {table : UInt32 → List LockRange} {inode : UInt32}
    (blank : ∀ other, other ≠ inode → table other = []) : Keys table [inode] :=
  ⟨List.nodup_cons.mpr ⟨List.not_mem_nil, List.nodup_nil⟩, fun other held => by
    by_contra missing
    exact held (blank other (by simpa using missing))⟩

/-- The records of one inode are the records that the table's locks of that inode give. -/
theorem filter_records (table : UInt32 → List LockRange) {inodes : List UInt32} (keys : Keys table inodes)
    (inode : UInt32) :
    (records table inodes).filter (fun info => info.inode == inode) =
      (table inode).flatMap fun lock => lock.owners.map (record inode lock) := by
  have own : ∀ i, ((table i).flatMap fun lock => lock.owners.map (record i lock)).filter (fun info => info.inode == inode) =
      if i = inode then (table i).flatMap fun lock => lock.owners.map (record i lock) else [] := by
    intro i
    split_ifs with same
    · rw [List.filter_eq_self]
      intro info member
      obtain ⟨lock, _, held⟩ := List.mem_flatMap.mp member
      obtain ⟨o, _, rfl⟩ := List.mem_map.mp held
      simp [record, same]
    · rw [List.filter_eq_nil_iff]
      intro info member
      obtain ⟨lock, _, held⟩ := List.mem_flatMap.mp member
      obtain ⟨o, _, rfl⟩ := List.mem_map.mp held
      simp [record, same]
  by_cases listed : inode ∈ inodes
  · -- the inode is listed once: its own records, and none from the others
    obtain ⟨before, after, split⟩ := List.mem_iff_append.mp listed
    have nodup := keys.nodup
    rw [split, List.nodup_append, List.nodup_cons] at nodup
    have notBefore : inode ∉ before := fun early => nodup.2.2 inode early inode List.mem_cons_self rfl
    have none : ∀ others : List UInt32, inode ∉ others →
        (records table others).filter (fun info => info.inode == inode) = [] := by
      intro others missing
      unfold records
      rw [List.filter_flatMap, List.flatMap_eq_nil_iff]
      intro i member
      have other : i ≠ inode := by
        rintro rfl
        exact missing member
      rw [own i, if_neg other]
    have splitRecords : records table inodes = records table before ++
        ((table inode).flatMap fun lock => lock.owners.map (record inode lock)) ++ records table after := by
      simp [records, split, List.flatMap_append]
    rw [splitRecords, List.filter_append, List.filter_append, none before notBefore, none after nodup.2.1.1, own,
      if_pos rfl, List.nil_append, List.append_nil]
  · -- an inode the map does not list has no locks
    have empty : table inode = [] := by
      by_contra held
      exact listed (keys.complete inode held)
    rw [empty, List.flatMap_nil, List.filter_eq_nil_iff]
    intro info member
    obtain ⟨i, member', held⟩ := List.mem_flatMap.mp member
    obtain ⟨lock, _, held⟩ := List.mem_flatMap.mp held
    obtain ⟨o, _, rfl⟩ := List.mem_map.mp held
    simp only [record, beq_iff_eq]
    rintro rfl
    exact listed member'

/-- A record of a lock whose offsets fit in `uint64_t` gives back the lock's piece of its owner. -/
theorem record_lock (inode : UInt32) {lock : LockRange} (fitsStart : lock.start < 2 ^ 64) (fitsStop : lock.stop < 2 ^ 64)
    (o : Owner) : (record inode lock o).lock = LockRanges.piece lock o := by
  simp [record, Info.lock, LockRanges.piece, typeOfCode_typeCode, UInt64.toNat_ofNat_of_lt' fitsStart,
    UInt64.toNat_ofNat_of_lt' fitsStop]

theorem records_lock (inode : UInt32) {locks : List LockRange} (fits : ∀ lock ∈ locks, lock.start < 2 ^ 64 ∧ lock.stop < 2 ^ 64) :
    (locks.flatMap fun lock => lock.owners.map (record inode lock)).map Info.lock = LockRanges.pieces locks := by
  induction locks with
  | nil => rfl
  | cons lock rest ih =>
    have first := fits lock List.mem_cons_self
    have later := ih fun other member => fits other (List.mem_cons_of_mem lock member)
    simp only [LockRanges.pieces] at later ⊢
    rw [List.flatMap_cons, List.map_append, later, List.flatMap_cons, List.map_map]
    congr 1
    exact List.map_congr_left fun o _ => record_lock inode first.1 first.2 o

/-- A queue of single-owner locks gives one piece per lock: the lock without its
request ids. -/
theorem pieces_of_single {queue : List LockRange} (single : ∀ lock ∈ queue, ∃ o, lock.owners = [o]) :
    LockRanges.pieces queue = queue.map LockRange.withoutRequestIds := by
  induction queue with
  | nil => rfl
  | cons lock rest ih =>
    obtain ⟨o, owners⟩ := single lock List.mem_cons_self
    have later := ih fun other member => single other (List.mem_cons_of_mem lock member)
    simp only [LockRanges.pieces] at later ⊢
    rw [List.flatMap_cons, later, List.map_cons, owners]
    simp [LockRanges.piece, LockRange.withoutRequestIds, owners]

/-- What the `uint64_t` fields of the file hold: every offset, and the record count of
each table. -/
structure Storable (locks : FileLocks) (activeInodes pendingInodes : List UInt32) : Prop where
  activeOffsets : ∀ inode, ∀ lock ∈ locks.activeLocks inode, lock.stop < 2 ^ 64
  pendingOffsets : ∀ inode, ∀ lock ∈ locks.pendingLocks inode, lock.stop < 2 ^ 64
  activeCount : (records locks.activeLocks activeInodes).length < 2 ^ 64
  pendingCount : (records locks.pendingLocks pendingInodes).length < 2 ^ 64

/-- `load` into empty tables reads every record `store` wrote, and stops where they end. -/
theorem load_store (locks : FileLocks) (activeInodes pendingInodes : List UInt32)
    (activeCount : (records locks.activeLocks activeInodes).length < 2 ^ 64)
    (pendingCount : (records locks.pendingLocks pendingInodes).length < 2 ^ 64) (rest : List UInt8) :
    empty.load (locks.store activeInodes pendingInodes ++ rest) =
      .ok ((records locks.pendingLocks pendingInodes).foldl (fun locks info => pushPending locks info.inode info.lock)
        ((records locks.activeLocks activeInodes).foldl (fun locks info => insertActive locks info.inode info.lock) empty),
        rest) := by
  unfold load store
  rw [List.append_assoc, loadTable_storeTable _ _ _ _ activeCount]
  simp only [bind, Except.bind]
  rw [loadTable_storeTable _ _ _ _ pendingCount]

/-- The lock tables survive a metadata dump and load: for tables that a run of the lock
operations reaches, `store` followed by `load` into empty tables gives, for every inode,
well-formed active ranges holding the same locks for every owner and offset, and the
same pending queue lock by lock, the request ids zeroed. -/
theorem load_store_round_trip {locks : FileLocks} (reachable : Reachable locks) {activeInodes pendingInodes : List UInt32}
    (activeKeys : Keys locks.activeLocks activeInodes) (pendingKeys : Keys locks.pendingLocks pendingInodes)
    (storable : Storable locks activeInodes pendingInodes) (rest : List UInt8) :
    ∃ reloaded : FileLocks, empty.load (locks.store activeInodes pendingInodes ++ rest) = .ok (reloaded, rest) ∧
      ∀ inode, LockRanges.WellFormed (reloaded.activeLocks inode) ∧
        LockRanges.view (reloaded.activeLocks inode) = LockRanges.view (locks.activeLocks inode) ∧
        reloaded.pendingLocks inode = (locks.pendingLocks inode).map LockRange.withoutRequestIds := by
  have inv := reachable.invariant
  refine ⟨_, load_store locks activeInodes pendingInodes storable.activeCount storable.pendingCount rest, fun inode => ?_⟩
  obtain ⟨pending, active⟩ := foldl_pushPending (records locks.pendingLocks pendingInodes)
    ((records locks.activeLocks activeInodes).foldl (fun locks info => insertActive locks info.inode info.lock) empty) inode
  obtain ⟨rebuilt, untouched⟩ := foldl_insertActive (records locks.activeLocks activeInodes) empty inode
  -- every offset fits its field, the start being below the end
  have activeFits : ∀ lock ∈ locks.activeLocks inode, lock.start < 2 ^ 64 ∧ lock.stop < 2 ^ 64 := fun lock member =>
    ⟨lt_trans ((inv.active inode).valid lock member).nonempty (storable.activeOffsets inode lock member),
      storable.activeOffsets inode lock member⟩
  have pendingFits : ∀ lock ∈ locks.pendingLocks inode, lock.start < 2 ^ 64 ∧ lock.stop < 2 ^ 64 := fun lock member =>
    ⟨lt_trans (inv.pending inode lock member).nonempty (storable.pendingOffsets inode lock member),
      storable.pendingOffsets inode lock member⟩
  have replay := LockRanges.replay_pieces (inv.active inode)
  rw [active, rebuilt, filter_records _ activeKeys, records_lock inode activeFits, pending, untouched,
    filter_records _ pendingKeys, records_lock inode pendingFits]
  exact ⟨replay.1, replay.2, pieces_of_single fun lock member => (inv.pending inode lock member).single⟩

/-- Inode 3 with an exclusive lock of owner 1 and a shared lock of owner 2 on
other offsets, and owner 3's exclusive request over both waiting in the queue. -/
theorem load_store_round_trip_queued :
    let locks := (((empty.exclusiveLock 3 0 10 ⟨1, 1, 0, 0⟩ false).1.sharedLock 3 20 30 ⟨2, 1, 0, 0⟩ false).1.exclusiveLock
      3 5 25 ⟨3, 1, 0, 0⟩ false).1
    Reachable locks ∧ Keys locks.activeLocks [3] ∧ Keys locks.pendingLocks [3] ∧ Storable locks [3] [3] ∧
      ∃ reloaded : FileLocks, empty.load (locks.store [3] [3] ++ []) = .ok (reloaded, []) ∧
        ∀ inode, LockRanges.WellFormed (reloaded.activeLocks inode) ∧
          LockRanges.view (reloaded.activeLocks inode) = LockRanges.view (locks.activeLocks inode) ∧
          reloaded.pendingLocks inode = (locks.pendingLocks inode).map LockRange.withoutRequestIds := by
  intro locks
  have reachable : Reachable locks :=
    .step (.step (.step .empty
      (.apply _ 3 ⟨.kExclusive, 0, 10, [⟨1, 1, 0, 0⟩]⟩ false ⟨⟨_, rfl⟩, by decide, by decide⟩))
      (.apply _ 3 ⟨.kShared, 20, 30, [⟨2, 1, 0, 0⟩]⟩ false ⟨⟨_, rfl⟩, by decide, by decide⟩))
      (.apply _ 3 ⟨.kExclusive, 5, 25, [⟨3, 1, 0, 0⟩]⟩ false ⟨⟨_, rfl⟩, by decide, by decide⟩)
  -- the three requests touch inode 3 alone
  have others : ∀ inode, inode ≠ 3 → locks.activeLocks inode = [] ∧ locks.pendingLocks inode = [] := by
    intro inode other
    obtain ⟨active₃, pending₃⟩ := apply_of_ne _ other ⟨.kExclusive, 5, 25, [⟨3, 1, 0, 0⟩]⟩ false
    obtain ⟨active₂, pending₂⟩ := apply_of_ne _ other ⟨.kShared, 20, 30, [⟨2, 1, 0, 0⟩]⟩ false
    obtain ⟨active₁, pending₁⟩ := apply_of_ne empty other ⟨.kExclusive, 0, 10, [⟨1, 1, 0, 0⟩]⟩ false
    exact ⟨active₃.trans (active₂.trans active₁), pending₃.trans (pending₂.trans pending₁)⟩
  have offsets : ∀ table : UInt32 → List LockRange, (∀ inode, inode ≠ 3 → table inode = []) →
      (∀ lock ∈ table 3, lock.stop < 2 ^ 64) → ∀ inode, ∀ lock ∈ table inode, lock.stop < 2 ^ 64 := by
    intro table blank three inode lock member
    by_cases here : inode = 3
    · subst here
      exact three lock member
    · rw [blank inode here] at member
      exact absurd member List.not_mem_nil
  have activeKeys : Keys locks.activeLocks [3] := .singleton fun inode other => (others inode other).1
  have pendingKeys : Keys locks.pendingLocks [3] := .singleton fun inode other => (others inode other).2
  have storable : Storable locks [3] [3] :=
    ⟨offsets _ (fun inode other => (others inode other).1) (by decide +kernel),
      offsets _ (fun inode other => (others inode other).2) (by decide +kernel), by decide +kernel, by decide +kernel⟩
  exact ⟨reachable, activeKeys, pendingKeys, storable,
    load_store_round_trip reachable activeKeys pendingKeys storable []⟩

end FileLocks

end SaunaFS
