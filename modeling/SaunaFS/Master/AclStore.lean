import Mathlib.Logic.Function.Basic
import SaunaFS.Master.Acl

/-! The loaders of the two legacy acl sections of the metadata file
(`src/master/filesystem_store_acl.cc`): `ACLS 1.0` (`fs_load_legacy_acls`) and
`ACLS 1.1` (`fs_load_posix_acls`).

Both sections are records of a size word followed by an inode and its acls, up
to a record of size `0`; `ACLS 1.1` holds the access acls up to one such marker,
then the default acls up to another. A record is kept here with its size word
and what its bytes decode to; the decoding is not modelled, and the legacy acls
of `ACLS 1.0` are given already converted to `AccessControlList`. The records
are read from the section alone: a section that ends before its marker fails.

The metadata being loaded starts with an empty acl storage. `ACLS 1.0` builds
each inode's acl from scratch; `ACLS 1.1` merges each record into the acl the
inode already has, and only if it has one, so from the empty storage it loads
nothing (`fsLoadPosixAcls_drops`).
-/

set_option autoImplicit false

namespace SaunaFS

def SAUNAFS_STATUS_OK : UInt8 := 0
def SAUNAFS_ERROR_ERANGE : UInt8 := 40
def SAUNAFS_ERROR_UNKNOWN : UInt8 := 51

/-- An `Exception` the loaders throw: its status, which the constructor of the
source asserts is not `SAUNAFS_STATUS_OK` (`SAUNAFS_ERROR_UNKNOWN` when none is
given). The message goes to the log only and is not modelled. -/
structure LoadException where
  status : UInt8
  status_ne_ok : status ≠ SAUNAFS_STATUS_OK

namespace LoadException

def unknown : LoadException := ⟨SAUNAFS_ERROR_UNKNOWN, by decide⟩

def erange : LoadException := ⟨SAUNAFS_ERROR_ERANGE, by decide⟩

end LoadException

/-- What the loader of one record returns: `-1`, `0` or `1` in the source. -/
inductive LoadResult where
  | kError
  | kSuccess
  | kEndReached
  deriving DecidableEq, Repr

/-- What the acl loaders change: the nodes by id (`fsnodes_id_to_node`) and the acl storage. -/
structure AclLoadState where
  nodes : UInt32 → Option FSNode
  aclStorage : AclStorage

/-- A record of an acl section: the size word, and the inode and acls its bytes hold. -/
structure AclRecord (α : Type) where
  size : UInt32
  inode : UInt32
  acls : α

namespace AclStore

/-- The `catch` of the loaders: an error, unless errors are ignored and the
exception's status is `SAUNAFS_STATUS_OK`. -/
def catchException (ignoreFlag : Bool) (ex : LoadException) : LoadResult :=
  if !ignoreFlag || ex.status != SAUNAFS_STATUS_OK then .kError else .kSuccess

/-- No exception has the status `SAUNAFS_STATUS_OK`, so ignoring errors never
turns one into a success. -/
theorem catchException_eq_kError (ignoreFlag : Bool) (ex : LoadException) : catchException ignoreFlag ex = .kError := by
  have notOk := ex.status_ne_ok
  simp [catchException, notOk]

/-- What the loaders of one record share: the end marker, the size check and the
node lookup, then the record's own `body`, and the `catch`. A record that
throws changes nothing. -/
def loadRecord {α : Type} (body : AclLoadState → UInt32 → FSNode → α → Except LoadException AclLoadState)
    (state : AclLoadState) (ignoreFlag : Bool) (record : AclRecord α) : LoadResult × AclLoadState :=
  -- this is end marker
  if record.size = 0 then (.kEndReached, state)
  else
    let attempt : Except LoadException AclLoadState :=
      if record.size > 10000000 then .error .erange
      else
        match state.nodes record.inode with
        | none => .error .unknown
        | some p => body state record.inode p record.acls
    match attempt with
    | .ok loaded => (.kSuccess, loaded)
    | .error ex => (catchException ignoreFlag ex, state)

/-- The body of `fs_load_posix_acl`: the record's acl is merged into the acl the
inode has, if it has one; an access acl also sets the node's permission bits. -/
def posixAclBody (defaultAcl : Bool) (state : AclLoadState) (inode : UInt32) (p : FSNode)
    (posixAcl : AccessControlList) : Except LoadException AclLoadState :=
  match state.aclStorage.get p.id with
  | some nodeAcl =>
    if defaultAcl then
      if p.type ≠ .kDirectory then .error .unknown
      else .ok { state with aclStorage := state.aclStorage.set p.id (nodeAcl.appendDefaultPosixACL posixAcl) }
    else
      let newAcl := nodeAcl.appendPosixACL posixAcl (p.type == NodeType.kDirectory)
      .ok ⟨Function.update state.nodes inode (some { p with mode := withPermissions p.mode newAcl.getMode }),
        state.aclStorage.set p.id newAcl⟩
  | none => .ok state

/-- `fs_load_posix_acl`. -/
def fsLoadPosixAcl (state : AclLoadState) (ignoreFlag defaultAcl : Bool) (record : AclRecord AccessControlList) :
    LoadResult × AclLoadState :=
  loadRecord (posixAclBody defaultAcl) state ignoreFlag record

/-- The body of `fs_load_legacy_acl`: a new acl from the record's access acl,
which also sets the node's permission bits, and its default acl on a directory;
the acl is stored only if it has entries. -/
def legacyAclBody (state : AclLoadState) (inode : UInt32) (p : FSNode)
    (acls : Option AccessControlList × Option AccessControlList) : Except LoadException AclLoadState :=
  let isDir := p.type == NodeType.kDirectory
  let (newAcl, nodes) :=
    match acls.1 with
    | some posixAcl =>
      let newAcl := RichACL.empty.appendPosixACL posixAcl isDir
      (newAcl, Function.update state.nodes inode (some { p with mode := withPermissions p.mode newAcl.getMode }))
    | none => (RichACL.empty, state.nodes)
  let newAcl :=
    match acls.2 with
    | some posixAcl => if p.type = NodeType.kDirectory then newAcl.appendDefaultPosixACL posixAcl else newAcl
    | none => newAcl
  .ok ⟨nodes, if newAcl.aceList.length > 0 then state.aclStorage.set p.id newAcl else state.aclStorage⟩

/-- `fs_load_legacy_acl`. -/
def fsLoadLegacyAcl (state : AclLoadState) (ignoreFlag : Bool)
    (record : AclRecord (Option AccessControlList × Option AccessControlList)) : LoadResult × AclLoadState :=
  loadRecord legacyAclBody state ignoreFlag record

/-- The `do ... while (status == 0)` of the section loaders: the records up to the
end marker, and what follows it; `none` on an error, or when the section ends
before its marker. -/
def loadRecords {α : Type} (step : AclLoadState → AclRecord α → LoadResult × AclLoadState) (state : AclLoadState) :
    List (AclRecord α) → Option (AclLoadState × List (AclRecord α))
  | [] => none
  | record :: rest =>
    match step state record with
    | (.kError, _) => none
    | (.kEndReached, state) => some (state, rest)
    | (.kSuccess, state) => loadRecords step state rest

/-- `fs_load_posix_acls`: the access acls, then the default ones. -/
def fsLoadPosixAcls (state : AclLoadState) (ignoreFlag : Bool) (records : List (AclRecord AccessControlList)) :
    Option AclLoadState := do
  let (state, rest) ← loadRecords (fun state => fsLoadPosixAcl state ignoreFlag false) state records
  let (state, _) ← loadRecords (fun state => fsLoadPosixAcl state ignoreFlag true) state rest
  pure state

/-- `fs_load_legacy_acls`. -/
def fsLoadLegacyAcls (state : AclLoadState) (ignoreFlag : Bool)
    (records : List (AclRecord (Option AccessControlList × Option AccessControlList))) : Option AclLoadState :=
  (loadRecords (fun state => fsLoadLegacyAcl state ignoreFlag) state records).map Prod.fst

/-! ## One record -/

section Record

variable {α : Type} {body : AclLoadState → UInt32 → FSNode → α → Except LoadException AclLoadState}
  {state : AclLoadState} {ignoreFlag : Bool}

theorem loadRecord_marker {record : AclRecord α} (marker : record.size = 0) :
    loadRecord body state ignoreFlag record = (.kEndReached, state) := by
  simp [loadRecord, marker]

/-- A record of a sensible size for a node is what the body makes of it. -/
theorem loadRecord_body {record : AclRecord α} (nonzero : record.size ≠ 0) (small : record.size ≤ 10000000)
    {p : FSNode} (node : state.nodes record.inode = some p) {loaded : AclLoadState}
    (ok : body state record.inode p record.acls = .ok loaded) :
    loadRecord body state ignoreFlag record = (.kSuccess, loaded) := by
  have notLarge : ¬ record.size > 10000000 := UInt32.not_lt.mpr small
  simp [loadRecord, nonzero, notLarge, node, ok]

/-- After a record the state is the one before, or what the body made of the record's node. -/
theorem loadRecord_state (record : AclRecord α) :
    (loadRecord body state ignoreFlag record).2 = state ∨
      ∃ p, state.nodes record.inode = some p ∧ body state record.inode p record.acls = .ok (loadRecord body state ignoreFlag record).2 := by
  unfold loadRecord
  split
  · exact .inl rfl
  · dsimp only
    split
    next loaded attempt =>
      split at attempt
      · cases attempt
      · split at attempt
        · cases attempt
        · next p node => exact .inr ⟨p, node, attempt⟩
    · exact .inl rfl

end Record

/-! ## A section -/

section Section

variable {α : Type} {step : AclLoadState → AclRecord α → LoadResult × AclLoadState}

/-- What the loader of every record keeps, the loader of a section keeps. -/
theorem loadRecords_invariant (P : AclLoadState → Prop) (keeps : ∀ state record, P state → P (step state record).2) :
    ∀ (records : List (AclRecord α)) {state loaded : AclLoadState} {rest : List (AclRecord α)},
      P state → loadRecords step state records = some (loaded, rest) → P loaded
  | [], _, _, _, _, loadedHere => by cases loadedHere
  | record :: more, state, _, _, holds, loadedHere => by
    have next := keeps state record holds
    unfold loadRecords at loadedHere
    split at loadedHere
    · cases loadedHere
    · next after stepped =>
      rw [stepped] at next
      cases loadedHere
      exact next
    · next after stepped =>
      rw [stepped] at next
      exact loadRecords_invariant P keeps more next loadedHere

/-- A state that every record of a section leaves as it is, and its marker too,
is where the section's loader ends, after the marker. -/
theorem loadRecords_fixed (step : AclLoadState → AclRecord α → LoadResult × AclLoadState) {state : AclLoadState}
    (records : List (AclRecord α)) (marker : AclRecord α)
    (rest : List (AclRecord α)) (succeeds : ∀ record ∈ records, step state record = (.kSuccess, state))
    (ends : step state marker = (.kEndReached, state)) :
    loadRecords step state (records ++ marker :: rest) = some (state, rest) := by
  induction records with
  | nil => simp [loadRecords, ends]
  | cons record more ih =>
    have first := succeeds record List.mem_cons_self
    rw [List.cons_append, loadRecords, first]
    exact ih fun other member => succeeds other (List.mem_cons_of_mem record member)

end Section

/-! ## `ACLS 1.1` -/

/-- A record for a node without an acl changes nothing. -/
theorem posixAclBody_of_bare (defaultAcl : Bool) {state : AclLoadState} (inode : UInt32) {p : FSNode}
    (bare : state.aclStorage.get p.id = none) (posixAcl : AccessControlList) :
    posixAclBody defaultAcl state inode p posixAcl = .ok state := by
  simp [posixAclBody, bare]

/-- A record gives no acl to an inode that has none: it only merges into an acl
the node already has. -/
theorem posixAclBody_keeps_bare {defaultAcl : Bool} {state loaded : AclLoadState} {inode : UInt32} {p : FSNode}
    {posixAcl : AccessControlList} (ok : posixAclBody defaultAcl state inode p posixAcl = .ok loaded) {id : UInt32}
    (bare : state.aclStorage.get id = none) : loaded.aclStorage.get id = none := by
  unfold posixAclBody at ok
  split at ok
  · next nodeAcl held =>
    -- the node's own id has an acl, so it is not `id`
    have other : id ≠ p.id := by
      rintro rfl
      rw [bare] at held
      cases held
    split at ok
    · split at ok
      · cases ok
      · cases ok
        simpa [AclStorage.get, AclStorage.set, other] using bare
    · cases ok
      simpa [AclStorage.get, AclStorage.set, other] using bare
  · cases ok
    exact bare

theorem fsLoadPosixAcl_keeps_bare (state : AclLoadState) (ignoreFlag defaultAcl : Bool)
    (record : AclRecord AccessControlList) {id : UInt32} (bare : state.aclStorage.get id = none) :
    (fsLoadPosixAcl state ignoreFlag defaultAcl record).2.aclStorage.get id = none := by
  have after : (fsLoadPosixAcl state ignoreFlag defaultAcl record).2 = state ∨
      ∃ p, state.nodes record.inode = some p ∧
        posixAclBody defaultAcl state record.inode p record.acls = .ok (fsLoadPosixAcl state ignoreFlag defaultAcl record).2 :=
    loadRecord_state record
  rcases after with same | ⟨p, _, ok⟩
  · rw [same]
    exact bare
  · exact posixAclBody_keeps_bare ok bare

/-- `fs_load_posix_acls` gives no acl to an inode that has none before it. -/
theorem fsLoadPosixAcls_keeps_bare {state loaded : AclLoadState} {ignoreFlag : Bool}
    {records : List (AclRecord AccessControlList)} (load : fsLoadPosixAcls state ignoreFlag records = some loaded)
    {id : UInt32} (bare : state.aclStorage.get id = none) : loaded.aclStorage.get id = none := by
  unfold fsLoadPosixAcls at load
  obtain ⟨⟨accessLoaded, rest⟩, accessPass, load⟩ := Option.bind_eq_some_iff.mp load
  obtain ⟨⟨defaultLoaded, _⟩, defaultPass, load⟩ := Option.bind_eq_some_iff.mp load
  cases load
  have afterAccess := loadRecords_invariant (fun s => s.aclStorage.get id = none)
    (fun s record => fsLoadPosixAcl_keeps_bare s ignoreFlag false record) records bare accessPass
  exact loadRecords_invariant (fun s => s.aclStorage.get id = none)
    (fun s record => fsLoadPosixAcl_keeps_bare s ignoreFlag true record) rest afterAccess defaultPass

/-- The `ACLS 1.1` section of a metadata file, its records of a sensible size
each for a node, is loaded into the empty acl storage without an error and
without a change: no node gets an acl, and no node's mode changes. -/
theorem fsLoadPosixAcls_drops (nodes : UInt32 → Option FSNode) (ignoreFlag : Bool)
    (accessRecords defaultRecords : List (AclRecord AccessControlList)) (accessEnd defaultEnd : AclRecord AccessControlList)
    (rest : List (AclRecord AccessControlList))
    (sensible : ∀ record ∈ accessRecords ++ defaultRecords,
      record.size ≠ 0 ∧ record.size ≤ 10000000 ∧ (nodes record.inode).isSome)
    (accessMarker : accessEnd.size = 0) (defaultMarker : defaultEnd.size = 0) :
    fsLoadPosixAcls ⟨nodes, AclStorage.empty⟩ ignoreFlag (accessRecords ++ accessEnd :: defaultRecords ++ defaultEnd :: rest) =
      some ⟨nodes, AclStorage.empty⟩ := by
  -- every record of either pass is a success that changes nothing
  have succeeds : ∀ defaultAcl, ∀ record ∈ accessRecords ++ defaultRecords,
      fsLoadPosixAcl ⟨nodes, AclStorage.empty⟩ ignoreFlag defaultAcl record = (.kSuccess, ⟨nodes, AclStorage.empty⟩) := by
    intro defaultAcl record member
    obtain ⟨nonzero, small, found⟩ := sensible record member
    obtain ⟨p, node⟩ := Option.isSome_iff_exists.mp found
    exact loadRecord_body nonzero small node (posixAclBody_of_bare defaultAcl record.inode (AclStorage.get_empty p.id) _)
  have accessPass := loadRecords_fixed (fun state => fsLoadPosixAcl state ignoreFlag false) accessRecords
    accessEnd (defaultRecords ++ defaultEnd :: rest)
    (fun record member => succeeds false record (List.mem_append_left _ member)) (loadRecord_marker accessMarker)
  have defaultPass := loadRecords_fixed (fun state => fsLoadPosixAcl state ignoreFlag true) defaultRecords
    defaultEnd rest (fun record member => succeeds true record (List.mem_append_right _ member))
    (loadRecord_marker defaultMarker)
  rw [List.append_assoc, List.cons_append]
  simp [fsLoadPosixAcls, accessPass, defaultPass]

/-! ## `ACLS 1.0` -/

/-- An `ACLS 1.0` record with an access acl alone, for a node without an acl, does
what `fsnodes_setacl` of that acl does, when the acl has entries. -/
theorem legacyAclBody_access {state : AclLoadState} (inode : UInt32) {p : FSNode}
    (bare : state.aclStorage.get p.id = none) (posixAcl : AccessControlList)
    (entries : (RichACL.empty.appendPosixACL posixAcl (p.type == NodeType.kDirectory)).aceList.length > 0) :
    ∃ storage q, fsnodesSetaclPosix state.aclStorage p .kAccess posixAcl = .ok (storage, q) ∧
      legacyAclBody state inode p (some posixAcl, none) = .ok ⟨Function.update state.nodes inode (some q), storage⟩ := by
  refine ⟨_, _, rfl, ?_⟩
  simp [legacyAclBody, bare, entries]

/-- A file of mode `0640`, owned by user 1 and group 10. -/
def aclFile : FSNode := { id := 5, type := .kFile, mode := 0o640, uid := 1, gid := 10 }

/-- `user::rw-,user:2:r--,group::---,mask::r--,other::---`, whose mode is `0640`. -/
def namedReaderAcl : AccessControlList := ⟨[AccessControlList.Entry.make 0 2 4], 0x4600⟩

/-- An `ACLS 1.1` section with this access acl for the file loads without an error
and drops it: user 2 may not read the loaded file, while `fsnodes_setacl` of the
same acl on the file, which keeps its mode, lets user 2 read it. -/
theorem fsLoadPosixAcls_drops_named_reader :
    fsLoadPosixAcls ⟨fun inode => if inode = 5 then some aclFile else none, AclStorage.empty⟩ false
        [⟨16, 5, namedReaderAcl⟩, ⟨0, 0, AccessControlList.empty⟩, ⟨0, 0, AccessControlList.empty⟩] =
      some ⟨fun inode => if inode = 5 then some aclFile else none, AclStorage.empty⟩ ∧
    fsnodesAccess AclStorage.empty ⟨SPECIAL_INODE_ROOT, 0, 2, [20]⟩ aclFile MODE_MASK_R = false ∧
    ∃ storage p, fsnodesSetaclPosix AclStorage.empty aclFile .kAccess namedReaderAcl = .ok (storage, p) ∧
      p.mode = aclFile.mode ∧ storage.get aclFile.id ≠ none ∧
      fsnodesAccess storage ⟨SPECIAL_INODE_ROOT, 0, 2, [20]⟩ p MODE_MASK_R = true := by
  have loaded := fsLoadPosixAcls_drops (fun inode => if inode = 5 then some aclFile else none) false
    [⟨16, 5, namedReaderAcl⟩] [] ⟨0, 0, AccessControlList.empty⟩ ⟨0, 0, AccessControlList.empty⟩ [] (by decide) rfl rfl
  exact ⟨loaded, by decide, _, _, rfl, by decide, by decide, by decide⟩

end AclStore

end SaunaFS
