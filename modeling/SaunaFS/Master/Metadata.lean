import Mathlib.Logic.Function.Basic
import SaunaFS.Common.Goal
import SaunaFS.Lib.OptionFold
import SaunaFS.Master.Acl

/-! The namespace of the master (`src/master/filesystem_node.cc`,
`filesystem_node_types.h`, `filesystem_operations.cc`).

`Metadata` keeps every node by id, and the data of the derived structs by id as
well: a directory's entries, statistics and link count, a file's length and
chunks, a symlink's path length. Each directory's statistics sum those of what
it holds; the functions that move an entry push the change up every chain of
parents. Those recursions, and the walk of `fsnodes_isancestor`, end only
where the parent links end: they take a `fuel` bound and return `none` when
it runs out, so that a recursion that does not end is `none` for every fuel.
Case-insensitive directories, quotas, times and checksums are not modelled.
-/

set_option autoImplicit false

namespace SaunaFS

/-- `statsrecord`. -/
structure StatsRecord where
  inodes : UInt32
  dirs : UInt32
  files : UInt32
  links : UInt32
  chunks : UInt32
  length : UInt64
  size : UInt64
  realsize : UInt64
  deriving DecidableEq, Repr

namespace StatsRecord

def zero : StatsRecord := ⟨0, 0, 0, 0, 0, 0, 0, 0⟩

/-- The field by field `+=` of `fsnodes_add_stats`, wrapping as the unsigned fields do. -/
def add (psr sr : StatsRecord) : StatsRecord :=
  ⟨psr.inodes + sr.inodes, psr.dirs + sr.dirs, psr.files + sr.files, psr.links + sr.links,
    psr.chunks + sr.chunks, psr.length + sr.length, psr.size + sr.size, psr.realsize + sr.realsize⟩

/-- The field by field `-=` of `fsnodes_sub_stats`. -/
def sub (psr sr : StatsRecord) : StatsRecord :=
  ⟨psr.inodes - sr.inodes, psr.dirs - sr.dirs, psr.files - sr.files, psr.links - sr.links,
    psr.chunks - sr.chunks, psr.length - sr.length, psr.size - sr.size, psr.realsize - sr.realsize⟩

end StatsRecord

/-- The part of `FSNodeDirectory` below `FSNode`. -/
structure DirectoryData where
  entries : List (String × UInt32)
  stats : StatsRecord
  nlink : UInt32
  deriving DecidableEq, Repr

/-- The part of `FSNodeFile` below `FSNode`, also that of trash and reserved nodes. -/
structure FileData where
  length : UInt64
  chunks : List UInt64
  sessionid : List UInt32
  deriving DecidableEq, Repr

/-- `gMetadata` with `gGoalDefinitions`: the nodes and their data by id, the
root, the acls and the goal of each goal id. -/
structure Metadata where
  nodes : UInt32 → Option FSNode
  directories : UInt32 → Option DirectoryData
  files : UInt32 → Option FileData
  symlinkLengths : UInt32 → Option UInt16
  root : UInt32
  aclStorage : AclStorage
  goalDefinitions : UInt8 → Goal String

namespace Metadata

def setNode (md : Metadata) (id : UInt32) (node : FSNode) : Metadata :=
  { md with nodes := Function.update md.nodes id (some node) }

def setDirectory (md : Metadata) (id : UInt32) (dir : DirectoryData) : Metadata :=
  { md with directories := Function.update md.directories id (some dir) }

@[simp] theorem setNode_nodes (md : Metadata) (id : UInt32) (node : FSNode) :
    (md.setNode id node).nodes = Function.update md.nodes id (some node) := rfl

@[simp] theorem setNode_directories (md : Metadata) (id : UInt32) (node : FSNode) :
    (md.setNode id node).directories = md.directories := rfl

@[simp] theorem setNode_root (md : Metadata) (id : UInt32) (node : FSNode) :
    (md.setNode id node).root = md.root := rfl

@[simp] theorem setDirectory_nodes (md : Metadata) (id : UInt32) (dir : DirectoryData) :
    (md.setDirectory id dir).nodes = md.nodes := rfl

@[simp] theorem setDirectory_directories (md : Metadata) (id : UInt32) (dir : DirectoryData) :
    (md.setDirectory id dir).directories = Function.update md.directories id (some dir) := rfl

@[simp] theorem setDirectory_root (md : Metadata) (id : UInt32) (dir : DirectoryData) :
    (md.setDirectory id dir).root = md.root := rfl

end Metadata

/-! ## File statistics -/

def SFSBLOCKSIZE : Nat := 65536
def SFSBLOCKSINCHUNK : Nat := 1024
def SFSCHUNKSIZE : Nat := SFSBLOCKSIZE * SFSBLOCKSINCHUNK
def SFSHDRSIZE : Nat := 4 * SFSBLOCKSINCHUNK + 1024

/-- `file_chunks`: the chunks that are not holes. -/
def fileChunks (file : FileData) : UInt32 :=
  file.chunks.foldl (fun sum chunk => sum + if chunk ≠ 0 then 1 else 0) 0

/-- `last_chunk_blocks`: the blocks of the last chunk before the end of the file. -/
def lastChunkBlocks (file : FileData) : UInt32 :=
  let lastByte := file.length - 1
  let lastByteOffset := (lastByte % SFSCHUNKSIZE.toUInt64).toUInt32
  lastByteOffset / SFSBLOCKSIZE.toUInt32 + 1

/-- `last_chunk_nonempty`: the chunk holding the last byte exists and is not a hole. -/
def lastChunkNonempty (file : FileData) : Bool :=
  if file.chunks.length = 0 then false
  else
    let lastChunk := ((file.length - 1) / SFSCHUNKSIZE.toUInt64).toUInt32
    if lastChunk.toNat < file.chunks.length then file.chunks.getD lastChunk.toNat 0 != 0 else false

/-- `file_size`: whole chunks with their headers, the last chunk by its blocks. -/
def fileSize (file : FileData) (nonzeroChunks : UInt32) : UInt64 :=
  let size := nonzeroChunks.toUInt64 * (SFSCHUNKSIZE + SFSHDRSIZE).toUInt64
  if lastChunkNonempty file then
    size - SFSCHUNKSIZE.toUInt64 + (lastChunkBlocks file * SFSBLOCKSIZE.toUInt32).toUInt64
  else size

/-- `ec_chunk_realsize`: data, parity and part headers of a chunk of `blocks` blocks. -/
def ecChunkRealsize (blocks dataPartCount parityPartCount : UInt32) : UInt32 :=
  let stripes := (blocks + dataPartCount - 1) / dataPartCount
  blocks * SFSBLOCKSIZE.toUInt32 + parityPartCount * stripes * SFSBLOCKSIZE.toUInt32 +
    4096 * (dataPartCount + parityPartCount)

open SliceTraits in
/-- `file_realsize`: the disk space of every copy and part the goal asks for; an
unknown slice type makes the whole sum `0`. -/
def fileRealsize (goal : Goal String) (file : FileData) (nonzeroChunks : UInt32) (size : UInt64) :
    UInt64 :=
  let sliceRealsize (slice : Slice String) : UInt64 :=
    if isStandard slice.type || isTape slice.type then size * slice.getExpectedCopies.toUInt64
    else
      let dataParts := (getNumberOfDataParts slice.type).toUInt32
      let parityParts := (getNumberOfParityParts slice.type).toUInt32
      let fullChunkRealsize := ecChunkRealsize SFSBLOCKSINCHUNK.toUInt32 dataParts parityParts
      let realsize := nonzeroChunks.toUInt64 * fullChunkRealsize.toUInt64
      if lastChunkNonempty file then
        realsize - fullChunkRealsize.toUInt64 +
          (ecChunkRealsize (lastChunkBlocks file) dataParts parityParts).toUInt64
      else realsize
  let known (slice : Slice String) : Bool :=
    isStandard slice.type || isTape slice.type || isXor slice.type || isEC slice.type
  if goal.slices.all known then (goal.slices.map sliceRealsize).foldl (· + ·) 0 else 0

/-- `fsnodes_get_stats`: what a node adds to the statistics of a directory holding it. -/
def fsnodesGetStats (md : Metadata) (node : FSNode) : StatsRecord :=
  match node.type with
  | .kDirectory =>
    let stats := ((md.directories node.id).map DirectoryData.stats).getD StatsRecord.zero
    { stats with inodes := stats.inodes + 1, dirs := stats.dirs + 1 }
  | .kFile | .kTrash | .kReserved =>
    let file := (md.files node.id).getD ⟨0, [], []⟩
    let chunks := fileChunks file
    let size := fileSize file chunks
    ⟨1, 0, 1, 0, chunks, file.length, size,
      fileRealsize (md.goalDefinitions node.goal) file chunks size⟩
  | .kSymlink => ⟨1, 0, 0, 1, 0, ((md.symlinkLengths node.id).getD 0).toUInt64, 0, 0⟩
  | _ => ⟨1, 0, 0, 0, 0, 0, 0, 0⟩

/-! ## Walking up the parents -/

/-- The `while` loop of `fsnodes_isancestor` from `dirNode` along first parents. -/
def ancestorOnChain (md : Metadata) (ancestor : UInt32) : Nat → Option FSNode → Option Bool
  | _, none => some false
  | 0, some _ => none
  | fuel + 1, some dirNode =>
    if dirNode.id = ancestor then some true
    else
      match dirNode.parent with
      | [] => some false
      | (parentId, _) :: _ => ancestorOnChain md ancestor fuel (md.nodes parentId)

/-- `fsnodes_isancestor`: `ancestor` is on the first-parent chain of some parent
of `node`, so a strict ancestor. -/
def fsnodesIsancestor (md : Metadata) (fuel : Nat) (ancestor : UInt32) (node : FSNode) : Option Bool :=
  node.parent.anyM fun (parentId, _) => ancestorOnChain md ancestor fuel (md.nodes parentId)

/-- `fsnodes_add_stats` and `fsnodes_sub_stats`, which differ only in `update`:
update the directory's statistics and recurse into each of its parents, up to
the root. -/
def propagateStats (update : StatsRecord → StatsRecord → StatsRecord) (sr : StatsRecord) :
    Nat → UInt32 → Metadata → Option Metadata
  | 0, _, _ => none
  | fuel + 1, parent, md =>
    match md.directories parent, md.nodes parent with
    | some dir, some node =>
      let md := md.setDirectory parent { dir with stats := update dir.stats sr }
      if parent = md.root then some md
      else node.parent.foldlM (fun md (parentId, _) => propagateStats update sr fuel parentId md) md
    -- `if (parent)`: no directory to update
    | _, _ => some md

def fsnodesAddStats (sr : StatsRecord) (fuel : Nat) (parent : UInt32) (md : Metadata) :
    Option Metadata :=
  propagateStats StatsRecord.add sr fuel parent md

def fsnodesSubStats (sr : StatsRecord) (fuel : Nat) (parent : UInt32) (md : Metadata) :
    Option Metadata :=
  propagateStats StatsRecord.sub sr fuel parent md

/-! ## Entries -/

/-- `fsnodes_lookup`: the node of the entry `name` of directory `dir`. -/
def fsnodesLookup (md : Metadata) (dir : UInt32) (name : String) : Option UInt32 :=
  (md.directories dir).bind fun data => data.entries.lookup name

/-- `fsnodes_remove_edge`: drop the entry `name` of `parent`, which names `child`,
take the child's statistics from every directory above, and drop the parent
from the child's parent list. -/
def fsnodesRemoveEdge (fuel : Nat) (md : Metadata) (parent : UInt32) (name : String)
    (child : UInt32) : Option Metadata := do
  let dir ← md.directories parent
  let md := md.setDirectory parent { dir with entries := dir.entries.filter (·.1 != name) }
  let childNode ← md.nodes child
  let md ← fsnodesSubStats (fsnodesGetStats md childNode) fuel parent md
  let md ←
    if childNode.type = .kDirectory then do
      let dir ← md.directories parent
      pure (md.setDirectory parent { dir with nlink := dir.nlink - 1 })
    else pure md
  let childNode ← md.nodes child
  -- the first record of this entry in the child's parents goes
  pure (md.setNode child { childNode with parent := childNode.parent.erase (parent, name) })

/-- `fsnodes_link`: add the entry `name` for `child` to `parent`, record the
parent in the child, and add the child's statistics to every directory above. -/
def fsnodesLink (fuel : Nat) (md : Metadata) (parent child : UInt32) (name : String) :
    Option Metadata := do
  let dir ← md.directories parent
  let entries := if (dir.entries.lookup name).isSome then dir.entries else dir.entries ++ [(name, child)]
  let md := md.setDirectory parent { dir with entries }
  let childNode ← md.nodes child
  let md := md.setNode child { childNode with parent := childNode.parent ++ [(parent, name)] }
  let md ←
    if childNode.type = .kDirectory then do
      let dir ← md.directories parent
      pure (md.setDirectory parent { dir with nlink := dir.nlink + 1 })
    else pure md
  let childNode ← md.nodes child
  fsnodesAddStats (fsnodesGetStats md childNode) fuel parent md

/-! ## The statistics invariant -/

/-- What the entries of a directory contribute to its statistics: each entry's
node as `fsnodes_get_stats` counts it, once per entry. -/
def entriesStats (md : Metadata) (entries : List (String × UInt32)) : StatsRecord :=
  entries.foldl (fun sum (_, child) =>
    match md.nodes child with
    | some node => sum.add (fsnodesGetStats md node)
    | none => sum) StatsRecord.zero

/-- Every directory's statistics are what its entries contribute. -/
def StatsConsistent (md : Metadata) : Prop :=
  ∀ id dir, md.directories id = some dir → dir.stats = entriesStats md dir.entries

/-! ## What the recursions change -/

/-- What `propagateStats` leaves alone: the nodes, the root, and which ids are directories. -/
def StatsFrame (md md' : Metadata) : Prop :=
  md'.nodes = md.nodes ∧ md'.root = md.root ∧
    ∀ id, (md'.directories id).isSome = (md.directories id).isSome

theorem StatsFrame.refl (md : Metadata) : StatsFrame md md := ⟨rfl, rfl, fun _ => rfl⟩

theorem StatsFrame.trans (md md' md'' : Metadata) (first : StatsFrame md md')
    (second : StatsFrame md' md'') : StatsFrame md md'' :=
  ⟨second.1.trans first.1, second.2.1.trans first.2.1, fun id => (second.2.2 id).trans (first.2.2 id)⟩

theorem StatsFrame.setDirectory (md : Metadata) {id : UInt32} {old : DirectoryData}
    (present : md.directories id = some old) (dir : DirectoryData) :
    StatsFrame md (md.setDirectory id dir) := by
  refine ⟨rfl, rfl, fun other => ?_⟩
  by_cases same : other = id
  · subst same
    simp [present]
  · simp [Function.update_of_ne same]

section Propagate

variable (update : StatsRecord → StatsRecord → StatsRecord) (sr : StatsRecord)

/-- `propagateStats` only changes directory statistics. -/
theorem propagateStats_frame :
    ∀ (fuel : Nat) (parent : UInt32) (md md' : Metadata),
      propagateStats update sr fuel parent md = some md' → StatsFrame md md'
  | 0, _, _, _, done => by simp [propagateStats] at done
  | fuel + 1, parent, md, md', done => by
    simp only [propagateStats] at done
    split at done
    · rename_i dir node present _
      have updated := StatsFrame.setDirectory md present { dir with stats := update dir.stats sr }
      split at done
      · cases done
        exact updated
      -- every parent's recursion keeps the frame, so the loop over them does
      · have loop := OptionFold.foldlM_rel _ StatsFrame StatsFrame.refl StatsFrame.trans node.parent _ md'
          (fun entry _ before after step => by
            obtain ⟨parentId, _⟩ := entry
            exact propagateStats_frame fuel parentId before after step) done
        exact StatsFrame.trans _ _ _ updated loop
    · cases done
      exact StatsFrame.refl md

/-- A directory other than the root that is its own parent sends `propagateStats`
round the loop until the fuel runs out, whatever the fuel. -/
theorem propagateStats_self_parent {s : UInt32} {name : String} :
    ∀ (fuel : Nat) (md : Metadata) (node : FSNode), md.nodes s = some node → (s, name) ∈ node.parent →
      (md.directories s).isSome → s ≠ md.root → propagateStats update sr fuel s md = none
  | 0, _, _, _, _, _, _ => rfl
  | fuel + 1, md, node, found, member, isDir, notRoot => by
    obtain ⟨dir, present⟩ := Option.isSome_iff_exists.mp isDir
    simp only [propagateStats, present, found, Metadata.setDirectory_root, notRoot, if_false]
    have updated := StatsFrame.setDirectory md present { dir with stats := update dir.stats sr }
    -- the step for the entry `(s, name)` fails from any state the loop reaches
    refine OptionFold.foldlM_eq_none _ StatsFrame StatsFrame.refl StatsFrame.trans node.parent _
      (fun entry _ before after step => by
        obtain ⟨parentId, _⟩ := entry
        exact propagateStats_frame update sr fuel parentId before after step) member ?_
    intro later related
    have frame := StatsFrame.trans _ _ _ updated related
    exact propagateStats_self_parent fuel later node ((congrFun frame.1 s).trans found) member
      (by rw [frame.2.2 s, isDir]) (by rw [frame.2.1]; exact notRoot)

end Propagate

/-- `fsnodes_link` of a directory other than the root into itself: the directory
becomes its own parent and `fsnodes_add_stats` never returns. -/
theorem fsnodesLink_into_itself (fuel : Nat) (md : Metadata) {s : UInt32} (name : String)
    {node : FSNode} (found : md.nodes s = some node) (isDir : node.type = .kDirectory)
    {dir : DirectoryData} (present : md.directories s = some dir) (notRoot : s ≠ md.root) :
    fsnodesLink fuel md s s name = none := by
  simp only [fsnodesLink, present, Option.bind_eq_bind, Option.bind_some, Metadata.setDirectory_nodes,
    found, isDir, if_true, Metadata.setNode_directories, Metadata.setDirectory_directories,
    Function.update_self, Metadata.setNode_nodes, Option.pure_def, fsnodesAddStats]
  -- the child's record now lists the directory itself among its parents
  exact propagateStats_self_parent StatsRecord.add _ fuel _ _ (Function.update_self ..)
    (show (s, name) ∈ _ by simp) (by simp) (by simpa using notRoot)

end SaunaFS
