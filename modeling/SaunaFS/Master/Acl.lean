import SaunaFS.Common.RichACLPosixConvert
import SaunaFS.Master.FSNode

/-! Access control in the master (`src/master/filesystem_node.cc`,
`acl_storage.cc`, `filesystem_operations.cc`).

Every node's acl, if it has one, is a RichACL in the acl storage; POSIX acls are
converted on the way in. `fsnodesAccess` is the permission check every
operation makes. The storage shares equal acls between nodes with reference
counts; that sharing is invisible to every lookup and is not modelled. The
operations return the storage and node they leave, or the status of their
failure, in which case nothing changed. Change times and checksums are left out.
-/

set_option autoImplicit false

namespace SaunaFS

open RichACL RichACL.Ace

/-- `AclType`. -/
inductive AclType where
  | kAccess
  | kDefault
  | kRichACL
  deriving DecidableEq, Repr

/-- `AclInheritance`. -/
inductive AclInheritance where
  | kInheritAcl
  | kDontInheritAcl
  deriving DecidableEq, Repr

/-- `AclStorage`: the acl of each node that has one. -/
def AclStorage := UInt32 → Option RichACL

namespace AclStorage

def empty : AclStorage := fun _ => none

def get (storage : AclStorage) (id : UInt32) : Option RichACL := storage id

def set (storage : AclStorage) (id : UInt32) (acl : RichACL) : AclStorage :=
  fun other => if other = id then some acl else storage other

def erase (storage : AclStorage) (id : UInt32) : AclStorage :=
  fun other => if other = id then none else storage other

/-- `AclStorage::setMode`: a node's acl takes its masks from a new mode. -/
def setMode (storage : AclStorage) (id : UInt32) (mode : UInt16) (isDir : Bool) : AclStorage :=
  match storage id with
  | some acl => storage.set id (acl.setMode mode isDir)
  | none => storage

@[simp] theorem get_set_self (storage : AclStorage) (id : UInt32) (acl : RichACL) :
    (storage.set id acl).get id = some acl := by
  simp [get, set]

@[simp] theorem get_erase_self (storage : AclStorage) (id : UInt32) : (storage.erase id).get id = none := by
  simp [get, erase]

@[simp] theorem get_empty (id : UInt32) : empty.get id = none := rfl

end AclStorage

/-- The permission bits of a mode, replaced by those of `bits`. -/
def withPermissions (mode bits : UInt16) : UInt16 := (mode &&& ~~~(0o777 : UInt16)) ||| (bits &&& 0o777)

/-- `fsnodes_access`: whether the requester holds every right of `modemask` on `node`. -/
def fsnodesAccess (storage : AclStorage) (context : FsContext) (node : FSNode) (modemask : UInt8) :
    Bool :=
  if context.sesflags &&& SESFLAG_NOMASTERPERMCHECK ≠ 0 ∨ context.uid = 0 then true
  else
    match storage.get node.id with
    | some nodeAcl =>
      let mask := convertMode2Mask modemask.toUInt16
      let mask := if node.type ≠ .kDirectory then mask &&& ~~~kDeleteChild else mask
      nodeAcl.checkPermission mask node.uid node.gid context.uid context.groups
    | none =>
      let nodemode : UInt16 :=
        if context.uid = node.uid ∨ node.mode &&& (EATTR_NOOWNER <<< 12) ≠ 0 then (node.mode >>> 6) &&& 7
        else if context.sesflags &&& SESFLAG_IGNOREGID ≠ 0 then ((node.mode >>> 3) ||| node.mode) &&& 7
        else if context.hasGroup node.gid then (node.mode >>> 3) &&& 7
        else node.mode &&& 7
      decide (nodemode.toUInt8 &&& modemask = modemask)

/-- `fsnodes_setacl` for a RichACL: an acl that mode bits can say is dropped and
said by the mode bits. -/
def fsnodesSetacl (storage : AclStorage) (p : FSNode) (acl : RichACL) :
    Except Status (AclStorage × FSNode) :=
  let isDir := p.type == NodeType.kDirectory
  if !acl.checkInheritFlags isDir then .error .eNotSup
  else
    match equivMode acl p.mode isDir with
    | some mode => .ok (storage.erase p.id, { p with mode := withPermissions p.mode mode })
    | none =>
      let p := if acl.isAutoSetMode then p else { p with mode := withPermissions p.mode acl.getMode }
      let newAcl :=
        if acl.isAutoSetMode then
          ({ acl with flags := acl.flags &&& ~~~kAutoSetMode } : RichACL).setMode p.mode isDir
        else acl
      .ok (storage.set p.id newAcl, p)

/-- `fsnodes_setacl` changes the node it is given, under its id. -/
theorem fsnodesSetacl_id {storage storage' : AclStorage} {p q : FSNode} {acl : RichACL}
    (set : fsnodesSetacl storage p acl = .ok (storage', q)) : q.id = p.id := by
  unfold fsnodesSetacl at set
  dsimp only at set
  split at set
  · cases set
  · split at set
    · cases set; rfl
    · cases set; split <;> rfl

/-- An entry whose two-bit type is `2`, neither allow nor deny: `equivMode` counts it
as a deny and drops the acl for mode bits `000`, while `checkPermission` lets it
grant what it names. -/
theorem fsnodesSetacl_untyped_entry_changes_access :
    let acl : RichACL := ⟨0, 0, 0, 0, [Ace.make 2 kSpecialWho kReadData kEveryoneSpecialId]⟩
    let node : FSNode := { id := 5, type := .kFile, mode := 0o644, uid := 1, gid := 10 }
    let context : FsContext :=
      { rootinode := SPECIAL_INODE_ROOT, sesflags := 0, uid := 2, groups := [20] }
    ∃ storage changed, fsnodesSetacl AclStorage.empty node acl = .ok (storage, changed) ∧
      fsnodesAccess storage context changed MODE_MASK_R = false ∧
      acl.checkPermission (convertMode2Mask MODE_MASK_R.toUInt16 &&& ~~~kDeleteChild) node.uid node.gid
        context.uid context.groups = true := by
  exact ⟨_, _, rfl, by decide, by decide⟩

/-- `fsnodes_setacl` for a POSIX acl: an access acl replaces the effective
entries, a default acl the inherit-only ones. -/
def fsnodesSetaclPosix (storage : AclStorage) (p : FSNode) (type : AclType)
    (acl : AccessControlList) : Except Status (AclStorage × FSNode) :=
  if type = .kRichACL then .error .eInval
  else if type = .kDefault ∧ p.type ≠ .kDirectory then .error .eNotSup
  else
    let newAcl :=
      match storage.get p.id with
      | some nodeAcl => nodeAcl.createExplicitInheritance.removeInheritOnly (type == AclType.kDefault)
      | none => RichACL.empty
    if type = .kDefault then
      .ok (storage.set p.id ((newAcl.appendDefaultPosixACL acl).setMode p.mode true), p)
    else
      let newAcl := newAcl.appendPosixACL acl (p.type == NodeType.kDirectory)
      .ok (storage.set p.id newAcl, { p with mode := withPermissions p.mode newAcl.getMode })

/-- A minimal POSIX access acl is stored as masks alone, and with no entry to
match, `checkPermission` denies a member of the owning group every right. -/
theorem fsnodesSetaclPosix_minimal_denies_owning_group :
    let posixAcl : AccessControlList := ⟨[], 0xF755⟩
    let node : FSNode := { id := 5, type := .kFile, mode := 0o644, uid := 1, gid := 10 }
    let context : FsContext :=
      { rootinode := SPECIAL_INODE_ROOT, sesflags := 0, uid := 2, groups := [10] }
    ∃ storage changed, fsnodesSetaclPosix AclStorage.empty node .kAccess posixAcl = .ok (storage, changed) ∧
      fsnodesAccess storage context changed MODE_MASK_R = false ∧
      posixAcl.getEffectiveRights node.uid node.gid context.uid context.groups &&& MODE_MASK_R =
        MODE_MASK_R := by
  exact ⟨_, _, rfl, by decide, by decide⟩

-- A named user in the owning group matches the owning group's allow entry first:
-- `user::rwx,user:2:r--,group::rw-,mask::rwx,other::---` lets user 2 write.
example :
    let posixAcl : AccessControlList := ⟨[AccessControlList.Entry.make 0 2 4], 0x7760⟩
    let node : FSNode := { id := 5, type := .kFile, mode := 0o644, uid := 1, gid := 10 }
    let context : FsContext :=
      { rootinode := SPECIAL_INODE_ROOT, sesflags := 0, uid := 2, groups := [10] }
    (match fsnodesSetaclPosix AclStorage.empty node .kAccess posixAcl with
      | .ok (storage, changed) => fsnodesAccess storage context changed MODE_MASK_W
      | .error _ => false) = true ∧
      posixAcl.getEffectiveRights node.uid node.gid context.uid context.groups &&& MODE_MASK_W = 0 := by
  decide

/-- `fsnodes_deleteacl`: what is left of a POSIX acl of the other kind stays. -/
def fsnodesDeleteacl (storage : AclStorage) (p : FSNode) (type : AclType) : Except Status AclStorage :=
  let keepOnly (removeWithFlagSet : Bool) : AclStorage :=
    match storage.get p.id with
    | some nodeAcl =>
      let newAcl := nodeAcl.createExplicitInheritance.removeInheritOnly removeWithFlagSet
      if newAcl.aceList.length = 0 then storage.erase p.id else storage.set p.id newAcl
    | none => storage
  match type with
  | .kRichACL => .ok (storage.erase p.id)
  | .kDefault => if p.type ≠ .kDirectory then .error .eNotSup else .ok (keepOnly true)
  | .kAccess => .ok (keepOnly false)

/-- `fs_setattr` with `SET_MODE_FLAG`: the new mode, and the acl's masks with it. -/
def fsSetattrMode (storage : AclStorage) (p : FSNode) (attrmode : UInt16) : AclStorage × FSNode :=
  let p := { p with mode := (attrmode &&& 0o7777) ||| (p.mode &&& 0xF000) }
  (storage.setMode p.id p.mode (p.type == NodeType.kDirectory), p)

/-- The node `fsnodes_create_node` builds before linking it: its mode from the
requested one, the parent's extra attributes and the parent's acl or the
umask, its owner, and the acl it inherits. -/
def fsnodesCreateNodeAttributes (storage : AclStorage) (parent : FSNode) (id : UInt32)
    (type : NodeType) (mode umask : UInt16) (uid gid : UInt32) (copysgid : Bool)
    (inheritacl : AclInheritance) : AclStorage × FSNode :=
  let nodeMode :=
    if type = .kDirectory then (mode &&& 0o7777) ||| (parent.mode &&& 0xF000)
    else (mode &&& (0o7777 : UInt16)) ||| (parent.mode &&& ((0xF000 : UInt16) &&& ~~~(EATTR_NOECACHE <<< 12)))
  let parentAcl := if inheritacl = .kInheritAcl then storage.get parent.id else none
  let (storage, nodeMode) :=
    match parentAcl with
    | some dirAcl =>
      let inherited := inheritInode dirAcl nodeMode umask (type == NodeType.kDirectory)
      let storage := if inherited.keep then storage.set id inherited.acl else storage
      -- the effective permissions are those of both the mode and the acl
      (storage, nodeMode &&& (inherited.mode ||| ~~~(0o777 : UInt16)))
    | none => (storage, nodeMode &&& ~~~(umask &&& 0o777))
  let sgid : Bool := parent.mode &&& 0o2000 == 0o2000
  let nodeMode := if sgid ∧ copysgid ∧ type = .kDirectory then nodeMode ||| 0o2000 else nodeMode
  -- directories and files take the goal and trash time of their parent
  let inherits := type = .kDirectory ∨ type = .kFile
  (storage,
    { id, type, mode := nodeMode, uid
      gid := if sgid then parent.gid else gid
      goal := if inherits then parent.goal else DEFAULT_GOAL
      trashtime := if inherits then parent.trashtime else DEFAULT_TRASHTIME })

/-- The POSIX.1e rule for a node created with mode `mode` under a default acl:
the default acl with its owner, mask (owning group without a mask) and other
rights cut down to the mode's. -/
def posixInheritedAcl (defaultAcl : AccessControlList) (mode : UInt16) : AccessControlList :=
  defaultAcl.setMode (defaultAcl.getMode &&& mode)

/-- A minimal POSIX default acl is converted with no entries, so nothing is
inherited and the new node gets its mode through the umask. -/
theorem fsnodesCreateNodeAttributes_minimal_default_ignored :
    let posixAcl : AccessControlList := ⟨[], 0xF700⟩
    let dir : FSNode := { id := 3, type := .kDirectory, mode := 0o755, uid := 1, gid := 10 }
    let context : FsContext :=
      { rootinode := SPECIAL_INODE_ROOT, sesflags := 0, uid := 4, groups := [40] }
    ∃ storage withDefault, fsnodesSetaclPosix AclStorage.empty dir .kDefault posixAcl =
        .ok (storage, withDefault) ∧
      let (created, node) :=
        fsnodesCreateNodeAttributes storage withDefault 7 .kFile 0o666 0o022 1 10 false .kInheritAcl
      node.mode &&& 0o777 = 0o644 ∧ (posixInheritedAcl posixAcl 0o666).getMode = 0o600 ∧
        fsnodesAccess created context node MODE_MASK_R = true ∧
        (posixInheritedAcl posixAcl 0o666).getEffectiveRights node.uid node.gid context.uid
          context.groups &&& MODE_MASK_R = 0 := by
  exact ⟨_, _, rfl, by decide⟩

end SaunaFS
