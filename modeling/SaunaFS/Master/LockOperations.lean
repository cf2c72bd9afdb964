import SaunaFS.Master.FileLocks
import SaunaFS.Master.Operations

/-! The lock operations of the master and their replay on a shadow
(`fs_lock_op`, `fs_flock_op`, `fs_posixlock_op`, `fs_locks_*` in
`src/master/filesystem_operations.cc`, `do_lock_op` and the others in
`src/master/restore.cc`).

The master runs an operation in the session of a client and logs a changelog
line; the shadow replays the line in a context without session data
(`FsContext::getForRestore`), which checks only that the inode exists. The
`FLCK` line carries neither the nonblocking flag nor the request ids:
`do_lock_op` replays every lock as a blocking one of request `0`.
-/

set_option autoImplicit false

namespace SaunaFS

/-! ## The operations -/

/-- `safs_locks` operation codes. -/
def safs_kUnlock : UInt16 := 1
def safs_kShared : UInt16 := 2
def safs_kExclusive : UInt16 := 4
def safs_kRelease : UInt16 := 32

/-- `safs_locks::Type`: which table a line is about. -/
def safs_kFlock : UInt8 := 0
def safs_kPosix : UInt8 := 1

def MODE_MASK_EMPTY : UInt8 := 0

/-- The master's two tables, `gMetadata->flock_locks` and `posix_locks`. -/
structure LockTables where
  flockLocks : FileLocks
  posixLocks : FileLocks

/-- The changelog lines of the lock operations. -/
inductive LockLine where
  /-- `FLCK(type,inode,start,end,owner,sessionid,op)` -/
  | flck (type : UInt8) (inode : UInt32) (start stop : Nat) (owner : UInt64) (sessionid : UInt32) (op : UInt16)
  /-- `RMPLOCK(type,ownerid,sessionid,inode,reqid)` -/
  | rmplock (type : UInt8) (ownerid : UInt64) (sessionid inode : UInt32) (reqid : UInt64)
  /-- `CLRLCK(type,inode,sessionid)` -/
  | clrlck (type : UInt8) (inode sessionid : UInt32)
  /-- `FLCKINODE(type,inode)` -/
  | flckinode (type : UInt8) (inode : UInt32)
  deriving DecidableEq, Repr

/-- `fsnodes_check_lock_permissions`: an exclusive lock needs write access, a shared one
read access. Without session data (a replay) the inode only has to exist. -/
def fsnodesCheckLockPermissions (md : Metadata) (fuel : Nat) (context : Option FsContext) (inode : UInt32)
    (op : UInt16) : FsOp Unit :=
  let modemask := if op = safs_kExclusive then MODE_MASK_W else if op = safs_kShared then MODE_MASK_R
    else MODE_MASK_EMPTY
  match context with
  | none => if (md.nodes inode).isSome then pure () else throw .eNoEnt
  | some context => do
    let _ ← fsnodesGetNodeForOperation md fuel context .kAny modemask inode

/-- The lock request of `fs_lock_op` on a table: whether it was applied, the table, and
the range whose pending locks are tried again afterwards. -/
def lockRequest (locks : FileLocks) (inode : UInt32) (start stop : Nat) (lockOwner : Owner) (op : UInt16)
    (nonblocking : Bool) : Except Status (Bool × FileLocks × Nat × Nat) :=
  if op = safs_kShared then
    let (locks, success) := locks.sharedLock inode start stop lockOwner nonblocking
    .ok (success, locks, start, stop)
  else if op = safs_kExclusive then
    let (locks, success) := locks.exclusiveLock inode start stop lockOwner nonblocking
    .ok (success, locks, start, stop)
  else if op = safs_kRelease then
    -- the owner's pending locks go, then everything it holds is unlocked
    let locks := locks.removePending inode fun lock =>
      lock.owner.sessionid == lockOwner.sessionid && lock.owner.owner == lockOwner.owner
    let (locks, success) := locks.unlock inode 0 (2 ^ 64 - 1) lockOwner
    .ok (success, locks, 0, 2 ^ 64 - 1)
  else if op = safs_kUnlock then
    let (locks, success) := locks.unlock inode start stop lockOwner
    .ok (success, locks, start, stop)
  else .error .eInval

/-- `fs_lock_op`: the table after the request and, unless it was an exclusive lock, after
the pending locks near it are tried again; whether the request was applied (`OK`) or
not (`SAUNAFS_ERROR_WAITING`), and the owners of the pending locks applied. -/
def fsLockOp (md : Metadata) (fuel : Nat) (context : Option FsContext) (locks : FileLocks) (inode : UInt32)
    (start stop : Nat) (owner : UInt64) (sessionid reqid msgid : UInt32) (op : UInt16) (nonblocking : Bool) :
    FsOp (Bool × FileLocks × List Owner) := do
  fsnodesCheckLockPermissions md fuel context inode op
  let (success, locks, start, stop) ←
    (lockRequest locks inode start stop ⟨owner, sessionid, reqid, msgid⟩ op nonblocking : Except Status _)
  if op = safs_kExclusive then return (success, locks, [])
  let (locks, applied) := locks.fsManageLockTryLockPending inode start stop
  return (success, locks, applied)

/-- The line an operation logs when the master runs it: nothing on a replay. -/
def logLine (context : Option FsContext) (line : LockLine) : List LockLine :=
  if context.isSome then [line] else []

/-- `fs_flock_op`: a lock of the whole file, `[0, 1)` of the flock table; the master
logs it whatever `fs_lock_op` returned. -/
def fsFlockOp (md : Metadata) (fuel : Nat) (context : Option FsContext) (tables : LockTables) (inode : UInt32)
    (owner : UInt64) (sessionid reqid msgid : UInt32) (op : UInt16) (nonblocking : Bool) :
    Option (Except Status (Bool × List Owner) × LockTables) × List LockLine :=
  let result := (fsLockOp md fuel context tables.flockLocks inode 0 1 owner sessionid reqid msgid op nonblocking).run
  (result.map fun result => match result with
      | .ok (success, locks, applied) => (.ok (success, applied), { tables with flockLocks := locks })
      | .error status => (.error status, tables),
    logLine context (.flck safs_kFlock inode 0 1 owner sessionid op))

/-- `fs_posixlock_op`: a lock of `[start, stop)` of the posix table. -/
def fsPosixlockOp (md : Metadata) (fuel : Nat) (context : Option FsContext) (tables : LockTables) (inode : UInt32)
    (start stop : Nat) (owner : UInt64) (sessionid reqid msgid : UInt32) (op : UInt16) (nonblocking : Bool) :
    Option (Except Status (Bool × List Owner) × LockTables) × List LockLine :=
  let result :=
    (fsLockOp md fuel context tables.posixLocks inode start stop owner sessionid reqid msgid op nonblocking).run
  (result.map fun result => match result with
      | .ok (success, locks, applied) => (.ok (success, applied), { tables with posixLocks := locks })
      | .error status => (.error status, tables),
    logLine context (.flck safs_kPosix inode start stop owner sessionid op))

/-- The table of a `safs_locks::Type`, and the tables with it replaced. -/
def LockTables.get (tables : LockTables) (type : UInt8) : Option FileLocks :=
  if type = safs_kFlock then some tables.flockLocks else if type = safs_kPosix then some tables.posixLocks else none

def LockTables.set (tables : LockTables) (type : UInt8) (locks : FileLocks) : LockTables :=
  if type = safs_kFlock then { tables with flockLocks := locks } else { tables with posixLocks := locks }

/-- `fs_locks_remove_pending`: the pending locks of one request leave the queue. -/
def fsLocksRemovePending (context : Option FsContext) (tables : LockTables) (type : UInt8) (ownerid : UInt64)
    (sessionid inode : UInt32) (reqid : UInt64) : Except Status LockTables × List LockLine :=
  match tables.get type with
  | none => (.error .eInval, [])
  | some locks =>
    (.ok (tables.set type (locks.removePending inode fun range =>
        range.owner.owner == ownerid && range.owner.sessionid == sessionid && range.owner.reqid.toUInt64 == reqid)),
      logLine context (.rmplock type ownerid sessionid inode reqid))

/-- `fs_locks_clear_session`: the session's pending locks go, its owners leave the
active ranges, and the pending locks near what they held are taken from the queue
(and reported as applied, without being applied). -/
def fsLocksClearSession (context : Option FsContext) (tables : LockTables) (type : UInt8)
    (inode sessionid : UInt32) : Except Status (LockTables × List Owner) × List LockLine :=
  match tables.get type with
  | none => (.error .eInval, [])
  | some locks =>
    let locks := locks.removePending inode fun lock => lock.owner.sessionid == sessionid
    let (locks, start, stop) := locks.unlockWhere inode fun owner => owner.sessionid == sessionid
    let (locks, queue) := if start < stop then locks.gatherCandidates inode start stop else (locks, [])
    (.ok (tables.set type locks, queue.flatMap (·.owners)), logLine context (.clrlck type inode sessionid))

/-- `fs_locks_unlock_inode`: all active locks of the inode go, and its pending locks of
the whole file (flock) or of every offset (posix) are tried again. -/
def fsLocksUnlockInode (context : Option FsContext) (tables : LockTables) (type : UInt8) (inode : UInt32) :
    Except Status (LockTables × List Owner) × List LockLine :=
  if type = safs_kFlock then
    let (locks, applied) := (tables.flockLocks.unlockInode inode).fsManageLockTryLockPending inode 0 1
    (.ok ({ tables with flockLocks := locks }, applied), logLine context (.flckinode type inode))
  else if type = safs_kPosix then
    let (locks, applied) := (tables.posixLocks.unlockInode inode).fsManageLockTryLockPending inode 0 (2 ^ 64 - 1)
    (.ok ({ tables with posixLocks := locks }, applied), logLine context (.flckinode type inode))
  else (.error .eInval, [])

/-! ## The replay -/

/-- `do_lock_op`: the line is replayed as a blocking request of request and message
`0`; a request left waiting is no error. -/
def doLockOp (md : Metadata) (tables : LockTables) : LockLine → Option (Except Status LockTables)
  | .flck type inode start stop owner sessionid op =>
    if type = safs_kFlock then
      (fsFlockOp md 0 none tables inode owner sessionid 0 0 op false).1.map fun (result, tables) =>
        result.map fun _ => tables
    else if type = safs_kPosix then
      (fsPosixlockOp md 0 none tables inode start stop owner sessionid 0 0 op false).1.map fun (result, tables) =>
        result.map fun _ => tables
    else some (.error .eInval)
  | .rmplock type ownerid sessionid inode reqid => some (fsLocksRemovePending none tables type ownerid sessionid inode reqid).1
  | .clrlck type inode sessionid => some ((fsLocksClearSession none tables type inode sessionid).1.map (·.1))
  | .flckinode type inode => some ((fsLocksUnlockInode none tables type inode).1.map (·.1))

/-! ## A nonblocking lock replayed -/

/-- Whether a lock fits depends on its owner only through the owner and the session. -/
theorem fits_congr_owner (data : List LockRange) (type : LockType) (start stop : Nat) {o o' : Owner}
    (same : o.key = o'.key) :
    LockRanges.fits data ⟨type, start, stop, [o]⟩ = LockRanges.fits data ⟨type, start, stop, [o']⟩ := by
  have equal : ∀ owners, Owners.equal owners [o] = Owners.equal owners [o'] := fun owners => by
    rw [Bool.eq_iff_iff, Owners.equal_iff, Owners.equal_iff]
    simp [same]
  simp only [LockRanges.fits, LockRanges.findCollision, LockRange.unlocking, LockRange.shared, LockRange.overlaps,
    equal]
  rfl

theorem fsLockOp_exclusive (md : Metadata) (fuel : Nat) (context : Option FsContext) (locks : FileLocks)
    (inode : UInt32) (start stop : Nat) (owner : UInt64) (sessionid reqid msgid : UInt32) (nonblocking : Bool)
    (permitted : (fsnodesCheckLockPermissions md fuel context inode safs_kExclusive).run = some (.ok ())) :
    (fsLockOp md fuel context locks inode start stop owner sessionid reqid msgid safs_kExclusive nonblocking).run =
      some (.ok ((locks.exclusiveLock inode start stop ⟨owner, sessionid, reqid, msgid⟩ nonblocking).2,
        (locks.exclusiveLock inode start stop ⟨owner, sessionid, reqid, msgid⟩ nonblocking).1, [])) := by
  unfold fsLockOp
  simp only [ExceptT.run_bind, permitted]
  simp [lockRequest, safs_kShared, safs_kExclusive]
  rfl

/-- An exclusive lock that does not fit: a nonblocking request changes nothing, a
blocking one is queued. -/
theorem exclusiveLock_of_not_fits (locks : FileLocks) (inode : UInt32) (start stop : Nat) (lockOwner : Owner)
    (nonblocking : Bool)
    (collides : LockRanges.fits (locks.activeLocks inode) ⟨.kExclusive, start, stop, [lockOwner]⟩ = false) :
    locks.exclusiveLock inode start stop lockOwner nonblocking =
      (if nonblocking then locks else locks.enqueue inode ⟨.kExclusive, start, stop, [lockOwner]⟩, false) := by
  cases nonblocking <;> simp [FileLocks.exclusiveLock, FileLocks.apply, collides, LockRange.unlocking]

theorem enqueue_length (locks : FileLocks) (inode : UInt32) (lock : LockRange) :
    ((locks.enqueue inode lock).pendingLocks inode).length = (locks.pendingLocks inode).length + 1 := by
  simp only [FileLocks.enqueue, FileLocks.setPending, Function.update_self, List.length_append, List.length_cons]
  rw [← Nat.add_assoc, ← List.length_append, List.take_append_drop]

/-- A nonblocking exclusive flock that collides leaves the master's queue as it was, but
the `FLCK` line it logs is replayed as a blocking request, which the shadow queues:
the shadow's queue of the inode has one lock more than the master's. -/
theorem fsFlockOp_nonblocking_replay_queues (md : Metadata) (fuel : Nat) (context : FsContext)
    (tables : LockTables) (inode : UInt32) (owner : UInt64) (sessionid reqid msgid : UInt32)
    (permitted : (fsnodesCheckLockPermissions md fuel (some context) inode safs_kExclusive).run = some (.ok ()))
    (exists_ : (md.nodes inode).isSome = true)
    (collides : LockRanges.fits (tables.flockLocks.activeLocks inode)
      ⟨.kExclusive, 0, 1, [⟨owner, sessionid, reqid, msgid⟩]⟩ = false) :
    ∃ master shadow,
      fsFlockOp md fuel (some context) tables inode owner sessionid reqid msgid safs_kExclusive true =
          (some (.ok (false, []), master), [.flck safs_kFlock inode 0 1 owner sessionid safs_kExclusive]) ∧
        doLockOp md tables (.flck safs_kFlock inode 0 1 owner sessionid safs_kExclusive) = some (.ok shadow) ∧
        (shadow.flockLocks.pendingLocks inode).length = (master.flockLocks.pendingLocks inode).length + 1 := by
  -- the replayed request has request ids 0, which `fits` does not look at
  have replayCollides : LockRanges.fits (tables.flockLocks.activeLocks inode)
      ⟨.kExclusive, 0, 1, [⟨owner, sessionid, 0, 0⟩]⟩ = false := by
    rw [← collides]
    exact fits_congr_owner _ _ _ _ rfl
  have replayPermitted : (fsnodesCheckLockPermissions md 0 none inode safs_kExclusive).run = some (.ok ()) := by
    simp [fsnodesCheckLockPermissions, exists_]
  refine ⟨tables, { tables with
    flockLocks := (tables.flockLocks.enqueue inode ⟨.kExclusive, 0, 1, [⟨owner, sessionid, 0, 0⟩]⟩) },
    ?_, ?_, enqueue_length _ _ _⟩
  · simp only [fsFlockOp, fsLockOp_exclusive md fuel _ _ inode 0 1 owner sessionid reqid msgid true permitted,
      exclusiveLock_of_not_fits _ _ _ _ _ true collides, logLine]
    rfl
  · simp only [doLockOp, fsFlockOp,
      fsLockOp_exclusive md 0 none _ inode 0 1 owner sessionid 0 0 false replayPermitted,
      exclusiveLock_of_not_fits _ _ _ _ _ false replayCollides]
    rfl

/-- The tables where owner `1` of session `1` holds the flock of file `2` of `oneFile`. -/
def fileFlocked : LockTables :=
  ⟨⟨fun inode => if inode = 2 then [⟨.kExclusive, 0, 1, [⟨1, 1, 0, 0⟩]⟩] else [], fun _ => []⟩, FileLocks.empty⟩

/-- Owner `2` of session `2`, as root, asks for the same flock without blocking. -/
theorem fsFlockOp_nonblocking_replay_queues_fileFlocked :
    (fsnodesCheckLockPermissions oneFile 1 (some ⟨1, 0, 0, [0]⟩) 2 safs_kExclusive).run = some (.ok ()) ∧
      (oneFile.nodes 2).isSome = true ∧
      LockRanges.fits (fileFlocked.flockLocks.activeLocks 2) ⟨.kExclusive, 0, 1, [⟨2, 2, 7, 7⟩]⟩ = false ∧
      ∃ master shadow,
        fsFlockOp oneFile 1 (some ⟨1, 0, 0, [0]⟩) fileFlocked 2 2 2 7 7 safs_kExclusive true =
            (some (.ok (false, []), master), [.flck safs_kFlock 2 0 1 2 2 safs_kExclusive]) ∧
          doLockOp oneFile fileFlocked (.flck safs_kFlock 2 0 1 2 2 safs_kExclusive) = some (.ok shadow) ∧
          (shadow.flockLocks.pendingLocks 2).length = (master.flockLocks.pendingLocks 2).length + 1 :=
  ⟨rfl, rfl, by decide,
    fsFlockOp_nonblocking_replay_queues oneFile 1 ⟨1, 0, 0, [0]⟩ fileFlocked 2 2 2 7 7 rfl rfl (by decide)⟩

end SaunaFS
