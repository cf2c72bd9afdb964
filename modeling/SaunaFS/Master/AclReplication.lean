import SaunaFS.Common.RichACLString
import SaunaFS.Master.LockOperations

/-! Setting a RichACL on the master and replaying it on a shadow (`fs_setacl` and
`fs_apply_setrichacl` in `src/master/filesystem_operations.cc`, `do_setrichacl`
in `src/master/restore.cc`).

The master writes the `SETRICHACL` line from the acl the client sent, before
`fsnodes_setacl` looks at it; the shadow reads the acl back from the line's text
and sets it in its turn. Where the text gives back the acl, the shadow reaches
the master's state. The text has no letter for `kAutoSetMode`, with which
`fsnodes_setacl` keeps the node's mode bits: the shadow sets the acl without it.
-/

set_option autoImplicit false

namespace SaunaFS

open RichACL

/-- A `SETRICHACL(inode,acl)` line. The acl text has no `)` and no `%`, at which
`GETPATH` would stop or decode, so `do_setrichacl` reads back the text written. -/
structure SetRichAclLine where
  inode : UInt32
  aclString : List Char
  deriving DecidableEq, Repr

/-- `fs_setacl` for a RichACL, run by the master: the metadata it leaves and the
line it logs. -/
def fsSetacl (md : Metadata) (fuel : Nat) (context : FsContext) (inode : UInt32) (acl : RichACL) :
    FsOp (Metadata × SetRichAclLine) := do
  verifySession context .kReadWrite .kNotMeta
  let p ← fsnodesGetNodeForOperation md fuel context .kAny MODE_MASK_EMPTY inode
  let aclString := acl.toString
  let (storage, p) ← (fsnodesSetacl md.aclStorage p acl : Except Status _)
  return ({ md with aclStorage := storage }.setNode p.id p, ⟨p.id, aclString⟩)

def fsApplySetrichacl (md : Metadata) (inode : UInt32) (aclString : List Char) : Except Status Metadata :=
  match fromString aclString with
  | .error _ => .error .eInval
  | .ok acl =>
    match md.nodes inode with
    | none => .error .eNoEnt
    | some p =>
      (fsnodesSetacl md.aclStorage p acl).map fun (storage, p) => { md with aclStorage := storage }.setNode p.id p

def doSetrichacl (md : Metadata) (line : SetRichAclLine) : Except Status Metadata :=
  fsApplySetrichacl md line.inode line.aclString

/-- What a successful `fs_setacl` did: the node it found, what `fsnodes_setacl` made
of it, and the line written from the client's acl. -/
theorem fsSetacl_ok {md md' : Metadata} {fuel : Nat} {context : FsContext} {inode : UInt32} {acl : RichACL}
    {line : SetRichAclLine} (master : (fsSetacl md fuel context inode acl).run = some (.ok (md', line))) :
    ∃ p storage q, (fsnodesGetNodeForOperation md fuel context .kAny MODE_MASK_EMPTY inode).run = some (.ok p) ∧
      fsnodesSetacl md.aclStorage p acl = .ok (storage, q) ∧
      md' = { md with aclStorage := storage }.setNode q.id q ∧ line = ⟨q.id, acl.toString⟩ := by
  unfold fsSetacl at master
  simp only [ExceptT.run_bind, Option.bind_eq_bind, Option.bind_eq_some_iff] at master
  obtain ⟨verified, -, master⟩ := master
  cases verified with
  | error => cases master
  | ok =>
    simp only [Option.bind_eq_some_iff] at master
    obtain ⟨found, hfound, master⟩ := master
    cases found with
    | error => cases master
    | ok p =>
      simp only [Option.bind_eq_some_iff] at master
      obtain ⟨set, hset, master⟩ := master
      -- the `Except` of `fsnodes_setacl`, lifted into the operation
      have lifted : set = fsnodesSetacl md.aclStorage p acl := by
        simpa [liftM, monadLift, MonadLift.monadLift, ExceptT.run, ExceptT.mk] using hset.symm
      cases set with
      | error => cases master
      | ok result =>
        obtain ⟨storage, q⟩ := result
        simp only [ExceptT.run_pure, Option.pure_def, Option.some.injEq, Except.ok.injEq, Prod.mk.injEq] at master
        exact ⟨p, storage, q, hfound, lifted.symm, master.1.symm, master.2.symm⟩

/-- The master's results for an acl with `kAutoSetMode` and for the same acl without
it can differ, but both requests log the same line: whatever state the shadow
reaches from it misses at least one of them. -/
theorem fsSetacl_autoSetMode_not_replicated (md : Metadata) (fuel : Nat) (context : FsContext) (inode : UInt32)
    (acl : RichACL) {withFlag withoutFlag : Metadata} {line line' : SetRichAclLine}
    (master : (fsSetacl md fuel context inode acl).run = some (.ok (withFlag, line)))
    (master' : (fsSetacl md fuel context inode { acl with flags := acl.flags &&& ~~~kAutoSetMode }).run =
      some (.ok (withoutFlag, line')))
    (differ : withFlag.nodes line.inode ≠ withoutFlag.nodes line.inode) :
    line = line' ∧ ∀ shadow, doSetrichacl md line = .ok shadow →
      shadow.nodes line.inode ≠ withFlag.nodes line.inode ∨ shadow.nodes line'.inode ≠ withoutFlag.nodes line'.inode := by
  obtain ⟨p, storage, q, found, set, rfl, rfl⟩ := fsSetacl_ok master
  obtain ⟨p', storage', q', found', set', rfl, rfl⟩ := fsSetacl_ok master'
  -- both requests find the same node, and its id is the line's
  have sameNode : p' = p := by
    rw [found] at found'
    cases found'
    rfl
  subst sameNode
  have sameLine : (⟨q.id, acl.toString⟩ : SetRichAclLine) = ⟨q'.id, toString { acl with flags := acl.flags &&& ~~~kAutoSetMode }⟩ := by
    rw [fsnodesSetacl_id set, fsnodesSetacl_id set', toString_and_not_kAutoSetMode]
  refine ⟨sameLine, fun shadow _ => ?_⟩
  rw [← sameLine]
  by_contra both
  rw [not_or, not_not, not_not] at both
  exact differ (both.1.symm.trans both.2)

/-- Root gives file `2` of `oneFile`, mode bits `644`, an acl with `kAutoSetMode` and
empty masks that names user `1000`: the master keeps the mode bits, while the shadow
takes them from the empty masks. -/
theorem fsSetacl_autoSetMode_not_replicated_oneFile :
    let context : FsContext := ⟨SPECIAL_INODE_ROOT, 0, 0, [0]⟩
    let acl : RichACL := ⟨0, 0, 0, kAutoSetMode, [Ace.make 0 0 Ace.kReadData 1000]⟩
    ∃ withFlag withoutFlag line line' shadow,
      (fsSetacl oneFile 1 context 2 acl).run = some (.ok (withFlag, line)) ∧
      (fsSetacl oneFile 1 context 2 { acl with flags := acl.flags &&& ~~~kAutoSetMode }).run =
        some (.ok (withoutFlag, line')) ∧
      withFlag.nodes line.inode ≠ withoutFlag.nodes line.inode ∧
      (line = line' ∧ ∀ shadow, doSetrichacl oneFile line = .ok shadow →
        shadow.nodes line.inode ≠ withFlag.nodes line.inode ∨
          shadow.nodes line'.inode ≠ withoutFlag.nodes line'.inode) ∧
      line = ⟨2, "||||r::A:u1000/".toList⟩ ∧ doSetrichacl oneFile line = .ok shadow ∧
      (withFlag.nodes 2).map FSNode.mode = some 0o644 ∧ (shadow.nodes 2).map FSNode.mode = some 0 := by
  exact ⟨_, _, _, _, _, by rfl, by rfl, by decide,
    fsSetacl_autoSetMode_not_replicated oneFile 1 ⟨SPECIAL_INODE_ROOT, 0, 0, [0]⟩ 2
      ⟨0, 0, 0, kAutoSetMode, [Ace.make 0 0 Ace.kReadData 1000]⟩ (by rfl) (by rfl) (by decide),
    by rfl, by rfl, by rfl, by rfl⟩

end SaunaFS
