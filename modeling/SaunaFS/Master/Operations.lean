import Mathlib
import SaunaFS.Master.Metadata

/-! Client operations on the namespace (`src/master/filesystem_operations.cc`,
`filesystem_node.cc`, `filesystem.cc`).

Each operation is a request of a master session: the context has session and
user data and permissions are checked. An operation returns `none` when one of
its recursions runs out of fuel, and otherwise the status it fails with or what
it leaves. Quotas are never exceeded in the model; trash and reserved nodes are
nodes of those types, without the trash and reserved path maps.
-/

set_option autoImplicit false

namespace SaunaFS

inductive OperationMode where
  | kReadWrite
  | kReadOnly
  deriving DecidableEq, Repr

inductive SessionType where
  | kNotMeta
  | kOnlyMeta
  | kAny
  deriving DecidableEq, Repr

inductive ExpectedNodeType where
  | kFile
  | kDirectory
  | kNotDirectory
  | kFileOrDirectory
  | kAny
  deriving DecidableEq, Repr

def MAXFNAMELENG : Nat := 255

/-- An operation that ends with a status or a result, or runs out of fuel. -/
abbrev FsOp := ExceptT Status Option

/-- `verify_session` for a context with session data. -/
def verifySession (context : FsContext) (operationMode : OperationMode) (sessionType : SessionType) :
    FsOp Unit :=
  if context.sesflags &&& SESFLAG_READONLY ≠ 0 ∧ operationMode = .kReadWrite then throw .eRofs
  else if context.rootinode = 0 ∧ sessionType = .kNotMeta then throw .eNoEnt
  else if context.rootinode ≠ 0 ∧ sessionType = .kOnlyMeta then throw .ePerm
  else pure ()

/-- `fsnodes_namecheck`: a name of 1 to 255 bytes, not `.` or `..`, with no NUL or `/`. -/
def fsnodesNamecheck (name : String) : Bool :=
  0 < name.utf8ByteSize ∧ name.utf8ByteSize ≤ MAXFNAMELENG ∧ name ≠ "." ∧ name ≠ ".." ∧
    name.toList.all fun c => c ≠ '\x00' ∧ c ≠ '/'

/-- `fsnodes_sticky_access`: in a sticky directory only the owner of the
directory or of the entry may remove or replace it. -/
def fsnodesStickyAccess (parent node : FSNode) (uid : UInt32) : Bool :=
  uid = 0 ∨ parent.mode &&& 0o1000 = 0 ∨ uid = parent.uid ∨ parent.mode &&& (EATTR_NOOWNER <<< 12) ≠ 0 ∨
    uid = node.uid ∨ node.mode &&& (EATTR_NOOWNER <<< 12) ≠ 0

/-- `fsnodes_isancestor_or_node_reserved_or_trash`. -/
def fsnodesIsancestorOrNodeReservedOrTrash (md : Metadata) (fuel : Nat) (ancestor : UInt32)
    (node : FSNode) : Option Bool :=
  if node.type = .kReserved ∨ node.type = .kTrash then some true
  else fsnodesIsancestor md fuel ancestor node

/-- `fsnodes_get_node_for_operation`: resolve `inode` against the session root,
check the node's type and the requester's access. -/
def fsnodesGetNodeForOperation (md : Metadata) (fuel : Nat) (context : FsContext)
    (expectedNodeType : ExpectedNodeType) (modemask : UInt8) (inode : UInt32) : FsOp FSNode := do
  let p ←
    if context.rootinode = SPECIAL_INODE_ROOT ∨ context.rootinode = 0 then
      match md.nodes inode with
      | none => throw .eNoEnt
      | some p =>
        if context.rootinode = 0 ∧ p.type ≠ .kTrash ∧ p.type ≠ .kReserved then throw .ePerm
        else pure p
    else
      match md.nodes context.rootinode with
      | none => throw .eNoEnt
      | some rn =>
        if rn.type ≠ .kDirectory then throw .eNoEnt
        -- the client names its own root `SPECIAL_INODE_ROOT`
        else if inode = SPECIAL_INODE_ROOT then pure rn
        else
          match md.nodes inode with
          | none => throw .eNoEnt
          | some p => do
            let visible ← (fsnodesIsancestorOrNodeReservedOrTrash md fuel rn.id p : Option Bool)
            if !visible then throw .ePerm else pure p
  if expectedNodeType = .kDirectory ∧ p.type ≠ .kDirectory then throw .eNotDir
  if expectedNodeType = .kNotDirectory ∧ p.type = .kDirectory then throw .ePerm
  if expectedNodeType = .kFile ∧ p.type ≠ .kFile ∧ p.type ≠ .kReserved ∧ p.type ≠ .kTrash then
    throw .ePerm
  if expectedNodeType = .kFileOrDirectory ∧ p.type ≠ .kDirectory ∧ p.type ≠ .kFile ∧
      p.type ≠ .kReserved ∧ p.type ≠ .kTrash then
    throw .ePerm
  if !fsnodesAccess md.aclStorage context p modemask then throw .eAcces
  pure p

/-- `fsnodes_remove_node`: a node with no parent left is forgotten, with its acl. -/
def fsnodesRemoveNode (md : Metadata) (id : UInt32) : Metadata :=
  match md.nodes id with
  | some node =>
    if node.parent.isEmpty then
      { md with
        nodes := Function.update md.nodes id none
        directories := Function.update md.directories id none
        files := Function.update md.files id none
        symlinkLengths := Function.update md.symlinkLengths id none
        aclStorage := md.aclStorage.erase id }
    else md
  | none => md

/-- `fsnodes_unlink`: remove the entry; a file losing its last link goes to the
trash or to the reserved files, any other node without links is removed. -/
def fsnodesUnlink (fuel : Nat) (md : Metadata) (parent : UInt32) (name : String) (child : UInt32) :
    Option Metadata := do
  let md ← fsnodesRemoveEdge fuel md parent name child
  let node ← md.nodes child
  if !node.parent.isEmpty then pure md
  else if node.type = .kFile then
    if node.trashtime > 0 then pure (md.setNode child { node with type := .kTrash })
    else if !((md.files child).map (·.sessionid.isEmpty)).getD true then
      pure (md.setNode child { node with type := .kReserved })
    else pure (fsnodesRemoveNode md child)
  else pure (fsnodesRemoveNode md child)

/-- `fs_rename`: move the entry `nameSrc` of `parentSrc` to `nameDst` of
`parentDst`, replacing what is there; the id of the moved node. -/
def fsRename (md : Metadata) (fuel : Nat) (context : FsContext) (parentSrc : UInt32)
    (nameSrc : String) (parentDst : UInt32) (nameDst : String) : FsOp (Metadata × UInt32) := do
  verifySession context .kReadWrite .kAny
  let dwd ← fsnodesGetNodeForOperation md fuel context .kDirectory MODE_MASK_W parentDst
  let swd ← fsnodesGetNodeForOperation md fuel context .kDirectory MODE_MASK_W parentSrc
  if !fsnodesNamecheck nameSrc then throw .eInval
  let some seChildId := fsnodesLookup md swd.id nameSrc | throw .eNoEnt
  let some seChild := md.nodes seChildId | throw .eNoEnt
  if !fsnodesStickyAccess swd seChild context.uid then throw .ePerm
  if seChild.type = .kDirectory then
    -- a strict ancestor test: `seChild = dwd` passes
    let cycle ← (fsnodesIsancestor md fuel seChild.id dwd : Option Bool)
    if cycle then throw .eInval
  if !fsnodesNamecheck nameDst then throw .eInval
  let deChild := fsnodesLookup md dwd.id nameDst
  if deChild = some seChild.id then return (md, seChild.id)
  if let some deChildId := deChild then
    let some de := md.nodes deChildId | throw .eNoEnt
    if de.type = .kDirectory ∧ !(((md.directories deChildId).map (·.entries.isEmpty)).getD true) then
      throw .eNotEmpty
    if !fsnodesStickyAccess dwd de context.uid then throw .ePerm
  let md ← match deChild with
    | some deChildId => (fsnodesUnlink fuel md dwd.id nameDst deChildId : Option Metadata)
    | none => pure md
  let md ← (fsnodesRemoveEdge fuel md swd.id nameSrc seChild.id : Option Metadata)
  let md ← (fsnodesLink fuel md dwd.id seChild.id nameDst : Option Metadata)
  return (md, seChild.id)

/-- A root holding one directory, `2`, as its entry `a`; the directory belongs to
user `1000`. -/
def oneDirectory : Metadata where
  nodes id :=
    if id = 1 then some { id := 1, type := .kDirectory, mode := 0o777, uid := 0, gid := 0 }
    else if id = 2 then
      some { id := 2, type := .kDirectory, mode := 0o755, uid := 1000, gid := 1000, parent := [(1, "a")] }
    else none
  directories id :=
    if id = 1 then some ⟨[("a", 2)], ⟨1, 1, 0, 0, 0, 0, 0, 0⟩, 1⟩
    else if id = 2 then some ⟨[], StatsRecord.zero, 0⟩ else none
  files _ := none
  symlinkLengths _ := none
  root := 1
  aclStorage := AclStorage.empty
  goalDefinitions _ := ⟨[], by decide⟩

/-- Moving directory `2` to the entry `b` of `2` itself passes every check of
`fs_rename`, since `fsnodes_isancestor` only looks above the destination. The
link then makes `2` its own parent, and the statistics update never returns. -/
theorem fsRename_into_itself_never_returns (fuel : Nat) :
    (fsRename oneDirectory fuel ⟨SPECIAL_INODE_ROOT, 0, 1000, [1000]⟩ 1 "a" 2 "b").run = none := by
  cases fuel with
  | zero => rfl
  | succ fuel =>
    let removed := (fsnodesRemoveEdge 1 oneDirectory 1 "a" 2).getD oneDirectory
    -- with fuel left every check passes, and the rename comes to the link
    have reaches :
        (fsRename oneDirectory (fuel + 1) ⟨SPECIAL_INODE_ROOT, 0, 1000, [1000]⟩ 1 "a" 2 "b").run =
          (do
            let linked ← (fsnodesLink (fuel + 1) removed 2 2 "b" : Option Metadata)
            return (linked, (2 : UInt32)) : FsOp (Metadata × UInt32)).run := rfl
    rw [reaches, fsnodesLink_into_itself (fuel + 1) removed "b"
      (rfl : removed.nodes 2 = some { id := 2, type := .kDirectory, mode := 0o755, uid := 1000, gid := 1000 })
      rfl (rfl : removed.directories 2 = some ⟨[], StatsRecord.zero, 0⟩) (by decide)]
    rfl

/-- How the loop of `fs_full_path_by_inode` ends. -/
inductive FullPathEnd where
  | found (path : String)
  | error (status : Status)
  /-- `current_node->parent[0]` read on a node with no parent, past the vector's end. -/
  | noParent (inode : UInt32)
  deriving DecidableEq, Repr

/-- The loop of `fs_full_path_by_inode`: prepend entry names along first parents
until the session root. -/
def fullPathLoop (md : Metadata) (context : FsContext) (initialInode : UInt32) :
    Nat → UInt32 → Option FSNode → String → Option FullPathEnd
  | fuel, currentInode, currentNode, fullPath =>
    if currentInode = context.rootinode then some (.found fullPath)
    else
      match fuel, currentNode with
      | 0, _ => none
      | _ + 1, none => some (.error .eNoEnt)
      | fuel + 1, some node =>
        match node.parent with
        | [] => some (.noParent currentInode)
        | (parentId, name) :: _ =>
          let fullPath := if currentInode = initialInode then name else name ++ "/" ++ fullPath
          fullPathLoop md context initialInode fuel parentId (md.nodes parentId) fullPath

/-- `fs_full_path_by_inode`: the path of `inode` from the session root. -/
def fsFullPathByInode (md : Metadata) (fuel : Nat) (context : FsContext) (inode : UInt32) :
    Option FullPathEnd :=
  fullPathLoop md context inode fuel inode (md.nodes inode) ""

/-- `inode` climbs first parents for `steps` steps to the node `top`, which has no
parent, never passing the session root `rootinode`. -/
inductive ClimbsTo (md : Metadata) (rootinode top : UInt32) : Nat → UInt32 → Prop
  | stop {node : FSNode} : md.nodes top = some node → node.parent = [] → top ≠ rootinode →
      ClimbsTo md rootinode top 0 top
  | climb {steps : Nat} {inode parentId : UInt32} {name : String} {node : FSNode}
      {rest : List (UInt32 × String)} : md.nodes inode = some node → node.parent = (parentId, name) :: rest →
      inode ≠ rootinode → ClimbsTo md rootinode top steps parentId → ClimbsTo md rootinode top (steps + 1) inode

/-- The loop climbs to `top` and reads the first parent of a node that has none. -/
theorem fullPathLoop_climbs {md : Metadata} {context : FsContext} {top initialInode : UInt32} :
    ∀ {steps : Nat} {inode : UInt32}, ClimbsTo md context.rootinode top steps inode →
      ∀ (fuel : Nat) (path : String), steps < fuel →
        fullPathLoop md context initialInode fuel inode (md.nodes inode) path = some (.noParent top)
  | _, _, .stop found noParent notRoot, fuel + 1, path, _ => by
    unfold fullPathLoop
    rw [if_neg notRoot, found]
    simp only [noParent]
  | _, _, .climb found parentFirst notRoot rest, fuel + 1, path, enough => by
    unfold fullPathLoop
    rw [if_neg notRoot, found]
    simp only [parentFirst]
    exact fullPathLoop_climbs rest fuel _ (by omega)

/-- `fs_full_path_by_inode` for an inode outside the session's subtree: it does not
stop with an error, but climbs to a node without parents (the root of the whole
filesystem, or a trash or reserved node) and reads past the end of its parent list. -/
theorem fsFullPathByInode_reads_missing_parent {md : Metadata} {context : FsContext}
    {top inode : UInt32} {steps : Nat} (climbs : ClimbsTo md context.rootinode top steps inode)
    (fuel : Nat) (enough : steps < fuel) :
    fsFullPathByInode md fuel context inode = some (.noParent top) :=
  fullPathLoop_climbs climbs fuel "" enough

/-- A session rooted at directory `2` asking for the path of its own root,
`SPECIAL_INODE_ROOT`: the loop reads the parent of the filesystem root. -/
theorem fsFullPathByInode_reads_missing_parent_of_root :
    ClimbsTo oneDirectory 2 SPECIAL_INODE_ROOT 0 SPECIAL_INODE_ROOT ∧
      fsFullPathByInode oneDirectory 1 ⟨2, 0, 1000, [1000]⟩ SPECIAL_INODE_ROOT =
        some (.noParent SPECIAL_INODE_ROOT) :=
  have climbs : ClimbsTo oneDirectory 2 SPECIAL_INODE_ROOT 0 SPECIAL_INODE_ROOT :=
    .stop rfl rfl (by decide)
  ⟨climbs, fsFullPathByInode_reads_missing_parent climbs 1 (by decide)⟩

/-- `fs_read_goals_from_stream`: the goal definitions are replaced, nothing else. -/
def fsReadGoalsFromStream (md : Metadata) (goals : UInt8 → Goal String) : Metadata :=
  { md with goalDefinitions := goals }

/-- The goal of one standard slice with `copies` copies on one label. -/
def standardGoal (copies : UInt16) : Goal String :=
  ⟨[⟨⟨SliceType.kStandard, Nat.zero_lt_succ _⟩, [[("_", copies)]], rfl⟩], List.nodup_singleton _⟩

/-- A root holding one file, `2`, as its entry `f`: one chunk with one block of
data, goal `1` of one copy; the root's statistics count it. -/
def oneFile : Metadata where
  nodes id :=
    if id = 1 then some { id := 1, type := .kDirectory, mode := 0o777, uid := 0, gid := 0 }
    else if id = 2 then
      some { id := 2, type := .kFile, mode := 0o644, uid := 0, gid := 0, parent := [(1, "f")] }
    else none
  directories id :=
    if id = 1 then some ⟨[("f", 2)], ⟨1, 0, 1, 0, 1, 65536, 70656, 70656⟩, 0⟩ else none
  files id := if id = 2 then some ⟨65536, [7], []⟩ else none
  symlinkLengths _ := none
  root := 1
  aclStorage := AclStorage.empty
  goalDefinitions _ := standardGoal 1

/-- Reloading the goal definitions with two copies for goal `1` changes the real
size of the file but not the root's statistics, which stop matching the tree;
unlinking the file then takes the new real size from the old one, and the root's
real size wraps below zero. -/
theorem fsReadGoalsFromStream_breaks_stats :
    StatsConsistent oneFile ∧ ¬ StatsConsistent (fsReadGoalsFromStream oneFile fun _ => standardGoal 2) ∧
      ∃ unlinked, fsnodesUnlink 2 (fsReadGoalsFromStream oneFile fun _ => standardGoal 2) 1 "f" 2 =
        some unlinked ∧ (unlinked.directories 1).map (·.stats.realsize) = some (70656 - 141312) := by
  refine ⟨?_, ?_, _, rfl, rfl⟩
  · intro id dir found
    by_cases root : id = 1
    · subst root
      cases found
      decide
    · simp [oneFile, root] at found
  · intro consistent
    have rootStats := consistent 1 _ rfl
    revert rootStats
    decide

end SaunaFS
