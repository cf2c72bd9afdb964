import Mathlib.Logic.Function.Basic
import SaunaFS.Master.FSNode

/-! Quotas of the master (`src/protocol/quota.h`, `src/master/quota_database.h`,
`quota_database.cc`, `filesystem_quota.cc`, `restore.cc`) and their replication
through the changelog.

`fs_quota_set` applies a client's entries one by one and writes a `SETQUOTA`
line for each; a shadow master replays every line through `do_setquota`, which
decodes the three enumerations back with `decodeChar` and stops the replay at
the first line it refuses. The two sides name the enumerations by tables of
their own: the master writes a rigor from `rigor_name` = `S`, `H`, `U`, the
replay decodes it over `"SH"`. A line is kept as the five fields that its text
prints and `do_setquota` parses back.
-/

set_option autoImplicit false

namespace SaunaFS

inductive QuotaRigor where
  | kSoft
  | kHard
  | kUsed
  deriving DecidableEq, Repr

inductive QuotaResource where
  | kInodes
  | kSize
  deriving DecidableEq, Repr

inductive QuotaOwnerType where
  | kUser
  | kGroup
  | kInode
  deriving DecidableEq, Repr

/-- The `(int)` and `static_cast<uint8_t>` of each enumeration: its position. -/
def QuotaRigor.toNat : QuotaRigor → Nat
  | kSoft => 0
  | kHard => 1
  | kUsed => 2

def QuotaResource.toNat : QuotaResource → Nat
  | kInodes => 0
  | kSize => 1

def QuotaOwnerType.toNat : QuotaOwnerType → Nat
  | kUser => 0
  | kGroup => 1
  | kInode => 2

structure QuotaOwner where
  ownerType : QuotaOwnerType
  ownerId : UInt32
  deriving DecidableEq, Repr

structure QuotaEntryKey where
  owner : QuotaOwner
  rigor : QuotaRigor
  resource : QuotaResource
  deriving DecidableEq, Repr

structure QuotaEntry where
  entryKey : QuotaEntryKey
  limit : UInt64
  deriving DecidableEq, Repr

/-! ## The database -/

/-- `QuotaDatabase::Limits`, a limit for each rigor and resource. -/
abbrev Limits := QuotaRigor → QuotaResource → UInt64

namespace Limits

/-- `Limits{{{{0}}}}`. -/
def zero : Limits := fun _ _ => 0

/-- The assignment to `[(int)rigor][(int)resource]`. -/
def set (limits : Limits) (rigor : QuotaRigor) (resource : QuotaResource) (value : UInt64) : Limits :=
  fun r s => if r = rigor ∧ s = resource then value else limits r s

/-- The comparison with `Limits{{{{0}}}}`. -/
def isZero (limits : Limits) : Bool :=
  [QuotaRigor.kSoft, .kHard, .kUsed].all fun r => [QuotaResource.kInodes, .kSize].all fun s => limits r s == 0

end Limits

/-- `QuotaDatabase::DataTable`, an `unordered_map` from owner ids to limits. -/
abbrev DataTable := List (UInt32 × Limits)

namespace DataTable

def find (table : DataTable) (id : UInt32) : Option Limits := (table.find? fun entry => entry.1 == id).map (·.2)

/-- `table[id][(int)rigor][(int)resource] = value`: the entry of `id`, created as
zeros when missing, with one limit set. -/
def set (table : DataTable) (id : UInt32) (rigor : QuotaRigor) (resource : QuotaResource) (value : UInt64) :
    DataTable :=
  match table.find id with
  | some _ => table.map fun entry => if entry.1 == id then (entry.1, entry.2.set rigor resource value) else entry
  | none => table ++ [(id, Limits.zero.set rigor resource value)]

def erase (table : DataTable) (id : UInt32) : DataTable := table.filter fun entry => entry.1 != id

end DataTable

/-- `QuotaDatabase`: `quota_data_`, one table per owner type. -/
structure QuotaDatabase where
  quotaData : QuotaOwnerType → DataTable

namespace QuotaDatabase

def empty : QuotaDatabase := ⟨fun _ => []⟩

def set (db : QuotaDatabase) (ownerType : QuotaOwnerType) (ownerId : UInt32) (rigor : QuotaRigor)
    (resource : QuotaResource) (value : UInt64) : QuotaDatabase :=
  ⟨Function.update db.quotaData ownerType ((db.quotaData ownerType).set ownerId rigor resource value)⟩

def removeEmpty (db : QuotaDatabase) (ownerType : QuotaOwnerType) (ownerId : UInt32) : QuotaDatabase :=
  match (db.quotaData ownerType).find ownerId with
  | some limits =>
    if limits.isZero then ⟨Function.update db.quotaData ownerType ((db.quotaData ownerType).erase ownerId)⟩
    else db
  | none => db

/-! The checksum (`QuotaDatabase::checksum` with the hashes of `src/common/hashfn.h`). -/

def hash32mult (key : UInt32) : UInt32 :=
  let key := (key ^^^ (61 : UInt32)) ^^^ (key >>> (16 : UInt32))
  let key := key + (key <<< (3 : UInt32))
  let key := key ^^^ (key >>> (4 : UInt32))
  let key := key * (0x27d4eb2d : UInt32)
  key ^^^ (key >>> (15 : UInt32))

def hash64 (key : UInt64) : UInt64 :=
  let key := (~~~key) + (key <<< (21 : UInt64))
  let key := key ^^^ (key >>> (24 : UInt64))
  let key := (key + (key <<< (3 : UInt64))) + (key <<< (8 : UInt64))
  let key := key ^^^ (key >>> (14 : UInt64))
  let key := (key + (key <<< (2 : UInt64))) + (key <<< (4 : UInt64))
  let key := key ^^^ (key >>> (28 : UInt64))
  key + (key <<< (31 : UInt64))

def hashCombineRaw (seed hash : UInt64) : UInt64 :=
  seed ^^^ (hash + (11400714819323198485 : UInt64) + (seed <<< (6 : UInt64)) + (seed >>> (2 : UInt64)))

/-- `hash<uint8_t>`: the byte hashed as a 32-bit word. -/
def hashByte (value : Nat) : UInt64 := (hash32mult value.toUInt8.toUInt32).toUInt64

/-- `QuotaDatabase::hash`; the owner id is cut to its low byte as the source casts it. -/
def hash (entry : QuotaEntry) : UInt64 :=
  let seed : UInt64 := 0x2a9ae768d80f202f
  let seed := hashCombineRaw seed (hashByte entry.entryKey.owner.ownerType.toNat)
  let seed := hashCombineRaw seed (hashByte entry.entryKey.owner.ownerId.toNat)
  let seed := hashCombineRaw seed (hashByte entry.entryKey.rigor.toNat)
  let seed := hashCombineRaw seed (hashByte entry.entryKey.resource.toNat)
  hashCombineRaw seed (hash64 entry.limit)

/-- `QuotaDatabase::checksum`: the soft and hard limits that are set, usage left out. -/
def checksum (db : QuotaDatabase) : UInt64 :=
  [QuotaOwnerType.kUser, .kGroup, .kInode].foldl (fun checksum ownerType =>
    (db.quotaData ownerType).foldl (fun checksum dataEntry =>
      [QuotaRigor.kSoft, .kHard].foldl (fun checksum rigor =>
        [QuotaResource.kInodes, .kSize].foldl (fun checksum resource =>
          let limit := dataEntry.2 rigor resource
          if limit > 0 then checksum ^^^ hash ⟨⟨⟨ownerType, dataEntry.1⟩, rigor, resource⟩, limit⟩
          else checksum) checksum) checksum) checksum) 0xcd13ca11bcb1beb5

end QuotaDatabase

/-- The quota part of `gMetadata`. -/
structure QuotaState where
  quotaDatabase : QuotaDatabase
  quotaChecksum : UInt64

/-! ## The master and the replay -/

/-- A `SETQUOTA(%c,%c,%c,%u,%lu)` changelog line. -/
structure SetQuotaLine where
  rigor : Char
  resource : Char
  ownerType : Char
  ownerId : UInt32
  limit : UInt64
  deriving DecidableEq, Repr

def rigor_name : List Char := ['S', 'H', 'U']
def resource_name : List Char := ['I', 'S']
def owner_name : List Char := ['U', 'G', 'I']

/-- The `SETQUOTA` line `fs_changelog` prints for an entry. -/
def setQuotaLine (entry : QuotaEntry) : SetQuotaLine :=
  ⟨rigor_name.getD entry.entryKey.rigor.toNat ' ', resource_name.getD entry.entryKey.resource.toNat ' ',
    owner_name.getD entry.entryKey.owner.ownerType.toNat ' ', entry.entryKey.owner.ownerId, entry.limit⟩

/-- The loop body of `fs_quota_set`: apply one entry, refresh the checksum, log the line. -/
def fsQuotaSetEntry (acc : QuotaState × List SetQuotaLine) (entry : QuotaEntry) :
    QuotaState × List SetQuotaLine :=
  let owner := entry.entryKey.owner
  let db := (acc.1.quotaDatabase.set owner.ownerType owner.ownerId entry.entryKey.rigor entry.entryKey.resource
    entry.limit).removeEmpty owner.ownerType owner.ownerId
  (⟨db, db.checksum⟩, acc.2 ++ [setQuotaLine entry])

/-- `fs_quota_set`; `nodes` is `fsnodes_id_to_node`. It returns the new state and the lines it logged. -/
def fsQuotaSet (nodes : UInt32 → Option FSNode) (context : FsContext) (entries : List QuotaEntry)
    (state : QuotaState) : Except Status (QuotaState × List SetQuotaLine) :=
  if context.sesflags &&& SESFLAG_READONLY != 0 then .error .eRofs
  else if context.uid != 0 && context.sesflags &&& SESFLAG_ALLCANCHANGEQUOTA == 0 then .error .ePerm
  else if entries.any (fun entry => entry.entryKey.owner.ownerType == .kInode &&
      (nodes entry.entryKey.owner.ownerId).isNone) then .error .eInval
  else .ok (entries.foldl fsQuotaSetEntry (state, []))

/-- `decodeChar`: the value at the position of the first key equal to `key`. -/
def decodeChar {α : Type} (keys : List Char) (values : List α) (key : Char) : Option α :=
  (keys.zip values).lookup key

/-- `fs_apply_setquota`. -/
def fsApplySetquota (rigor resource ownerType : Char) (ownerId : UInt32) (limit : UInt64) (state : QuotaState) :
    Except Status QuotaState :=
  match decodeChar "SH".toList [QuotaRigor.kSoft, .kHard] rigor,
      decodeChar "SI".toList [QuotaResource.kSize, .kInodes] resource,
      decodeChar "UGI".toList [QuotaOwnerType.kUser, .kGroup, .kInode] ownerType with
  | some quotaRigor, some quotaResource, some quotaOwnerType =>
    let db := (state.quotaDatabase.set quotaOwnerType ownerId quotaRigor quotaResource limit).removeEmpty
      quotaOwnerType ownerId
    .ok ⟨db, db.checksum⟩
  | _, _, _ => .error .eInval

/-- `do_setquota`: the fields of the line, parsed, passed on. -/
def doSetquota (line : SetQuotaLine) (state : QuotaState) : Except Status QuotaState :=
  fsApplySetquota line.rigor line.resource line.ownerType line.ownerId line.limit state

/-- `restore` over consecutive lines: each line is applied, and the first status
that is not OK stops the replay. -/
def restore (lines : List SetQuotaLine) (state : QuotaState) : Except Status QuotaState :=
  lines.foldlM (fun state line => doSetquota line state) state

/-! ## Encoding against decoding -/

theorem decode_resource_name (resource : QuotaResource) :
    decodeChar "SI".toList [QuotaResource.kSize, .kInodes] (resource_name.getD resource.toNat ' ') = some resource := by
  cases resource <;> rfl

theorem decode_owner_name (ownerType : QuotaOwnerType) :
    decodeChar "UGI".toList [QuotaOwnerType.kUser, .kGroup, .kInode] (owner_name.getD ownerType.toNat ' ') =
      some ownerType := by
  cases ownerType <;> rfl

/-- The replay decodes a soft or a hard rigor back, and refuses usage. -/
theorem decode_rigor_name (rigor : QuotaRigor) :
    decodeChar "SH".toList [QuotaRigor.kSoft, .kHard] (rigor_name.getD rigor.toNat ' ') =
      if rigor = .kUsed then none else some rigor := by
  cases rigor <;> rfl

/-- Replaying the line of an entry with a soft or hard rigor does what the master did. -/
theorem doSetquota_setQuotaLine (entry : QuotaEntry) (notUsed : entry.entryKey.rigor ≠ .kUsed)
    (state : QuotaState) :
    doSetquota (setQuotaLine entry) state = .ok (fsQuotaSetEntry (state, []) entry).1 := by
  simp only [doSetquota, fsApplySetquota, setQuotaLine, decode_rigor_name, if_neg notUsed,
    decode_resource_name, decode_owner_name, fsQuotaSetEntry]

/-- The line of an entry on usage stops the replay. -/
theorem doSetquota_setQuotaLine_used (entry : QuotaEntry) (used : entry.entryKey.rigor = .kUsed)
    (state : QuotaState) :
    doSetquota (setQuotaLine entry) state = .error .eInval := by
  simp only [doSetquota, fsApplySetquota, setQuotaLine, decode_rigor_name, if_pos used]

/-! ## Over the lines of one request -/

/-- The state and lines of the loop of `fs_quota_set`, from any state and lines. -/
theorem foldl_fsQuotaSetEntry (entries : List QuotaEntry) (state : QuotaState) (lines : List SetQuotaLine) :
    (entries.foldl fsQuotaSetEntry (state, lines)).2 = lines ++ entries.map setQuotaLine := by
  induction entries generalizing state lines with
  | nil => simp
  | cons entry rest ih => simp [fsQuotaSetEntry, ih]

theorem foldl_fsQuotaSetEntry_fst (entries : List QuotaEntry) (state : QuotaState) (lines : List SetQuotaLine) :
    (entries.foldl fsQuotaSetEntry (state, lines)).1 = (entries.foldl fsQuotaSetEntry (state, [])).1 := by
  induction entries generalizing state lines with
  | nil => rfl
  | cons entry rest ih =>
    rw [List.foldl_cons, List.foldl_cons, ih, ih (fsQuotaSetEntry (state, []) entry).1]
    rfl

/-- Without usage entries, the replay of the logged lines ends in the master's state. -/
theorem restore_fsQuotaSet_lines (entries : List QuotaEntry) (notUsed : ∀ entry ∈ entries, entry.entryKey.rigor ≠ .kUsed)
    (state : QuotaState) :
    restore (entries.map setQuotaLine) state = .ok (entries.foldl fsQuotaSetEntry (state, [])).1 := by
  induction entries generalizing state with
  | nil => rfl
  | cons entry rest ih =>
    have first := doSetquota_setQuotaLine entry (notUsed entry (by simp)) state
    have later := ih (fun e member => notUsed e (by simp [member])) (fsQuotaSetEntry (state, []) entry).1
    simp only [restore, List.map_cons, List.foldlM_cons, first] at later ⊢
    rw [List.foldl_cons, foldl_fsQuotaSetEntry_fst]
    exact later

/-- The replay stops at the first usage line, whatever came before it. -/
theorem restore_fsQuotaSet_lines_used (entries : List QuotaEntry) (used : ∃ entry ∈ entries, entry.entryKey.rigor = .kUsed)
    (state : QuotaState) :
    restore (entries.map setQuotaLine) state = .error .eInval := by
  induction entries generalizing state with
  | nil => simp at used
  | cons entry rest ih =>
    simp only [restore, List.map_cons, List.foldlM_cons]
    by_cases first : entry.entryKey.rigor = .kUsed
    · rw [doSetquota_setQuotaLine_used entry first]
      rfl
    · have later : ∃ e ∈ rest, e.entryKey.rigor = .kUsed := by
        obtain ⟨e, member, rigor⟩ := used
        rcases List.mem_cons.mp member with rfl | member
        · exact absurd rigor first
        · exact ⟨e, member, rigor⟩
      rw [doSetquota_setQuotaLine entry first]
      exact ih later _

theorem fsQuotaSet_ok {nodes : UInt32 → Option FSNode} {context : FsContext} {entries : List QuotaEntry}
    {state master : QuotaState} {lines : List SetQuotaLine}
    (accepted : fsQuotaSet nodes context entries state = .ok (master, lines)) :
    master = (entries.foldl fsQuotaSetEntry (state, [])).1 ∧ lines = entries.map setQuotaLine := by
  unfold fsQuotaSet at accepted
  split at accepted
  · cases accepted
  split at accepted
  · cases accepted
  split at accepted
  · cases accepted
  have pair := Except.ok.inj accepted
  have logged := congrArg Prod.snd pair
  rw [foldl_fsQuotaSetEntry, List.nil_append] at logged
  exact ⟨by rw [pair], logged.symm⟩

/-- A request with soft and hard limits only is replicated: the shadow replaying
its lines from the same state reaches the master's state. -/
theorem fsQuotaSet_restore (nodes : UInt32 → Option FSNode) (context : FsContext) (entries : List QuotaEntry)
    (state : QuotaState) {master : QuotaState} {lines : List SetQuotaLine}
    (accepted : fsQuotaSet nodes context entries state = .ok (master, lines))
    (notUsed : ∀ entry ∈ entries, entry.entryKey.rigor ≠ .kUsed) :
    restore lines state = .ok master := by
  obtain ⟨rfl, rfl⟩ := fsQuotaSet_ok accepted
  exact restore_fsQuotaSet_lines entries notUsed state

theorem fsQuotaSet_used_rigor_stops_replay (nodes : UInt32 → Option FSNode) (context : FsContext)
    (entries : List QuotaEntry) (state : QuotaState) {master : QuotaState} {lines : List SetQuotaLine}
    (accepted : fsQuotaSet nodes context entries state = .ok (master, lines))
    (used : ∃ entry ∈ entries, entry.entryKey.rigor = .kUsed) :
    restore lines state = .error .eInval := by
  obtain ⟨-, rfl⟩ := fsQuotaSet_ok accepted
  exact restore_fsQuotaSet_lines_used entries used state

/-- Root sets a usage limit of user 1000 on an empty database: the master applies
it and logs `SETQUOTA(U,S,U,1000,5)`, which the shadow refuses. -/
theorem fsQuotaSet_used_rigor_stops_replay_root :
    ∃ master lines,
      fsQuotaSet (fun _ => none) ⟨1, 0, 0, [0]⟩ [⟨⟨⟨.kUser, 1000⟩, .kUsed, .kSize⟩, 5⟩] ⟨.empty, 0⟩ =
          .ok (master, lines) ∧
        master.quotaDatabase.quotaData .kUser = [(1000, Limits.zero.set .kUsed .kSize 5)] ∧
        restore lines ⟨.empty, 0⟩ = .error .eInval :=
  ⟨_, _, rfl, rfl,
    fsQuotaSet_used_rigor_stops_replay (fun _ => none) ⟨1, 0, 0, [0]⟩ _ _ rfl
      ⟨⟨⟨⟨.kUser, 1000⟩, .kUsed, .kSize⟩, 5⟩, List.mem_singleton_self _, rfl⟩⟩

end SaunaFS
