/-! Nodes, request contexts and status codes of the master
(`src/master/filesystem_node_types.h`, `fs_context.h`,
`src/errors/saunafs_error_codes.h`, `src/protocol/SFSCommunication.h`).

`FSNode` is the common part of every node: the fields of the base struct that
the modelled code reads; a parent is named by its id and the name of the entry
(the source keeps a handle to the name). The parts of the derived structs
(directory entries and statistics, file length and chunks) are kept by
`Metadata`. Times, the hash chain and checksums are not modelled.
-/

set_option autoImplicit false

namespace SaunaFS

/-- The `FSNode` type tags. -/
inductive NodeType where
  | kFile
  | kDirectory
  | kSymlink
  | kFifo
  | kBlockDev
  | kCharDev
  | kSocket
  | kTrash
  | kReserved
  | kUnknown
  deriving DecidableEq, Repr

/-- `FSNode`: the fields every node has. -/
structure FSNode where
  id : UInt32
  type : NodeType
  mode : UInt16
  uid : UInt32
  gid : UInt32
  goal : UInt8 := 0
  trashtime : UInt32 := 0
  /-- The directories holding an entry for the node, with the entry's name. -/
  parent : List (UInt32 × String) := []
  deriving DecidableEq, Repr

/-- The status codes the modelled operations return (`SAUNAFS_ERROR_*`). -/
inductive Status where
  | ePerm
  | eNotDir
  | eNoEnt
  | eAcces
  | eExist
  | eInval
  | eNotEmpty
  | eNotSup
  | eRofs
  deriving DecidableEq, Repr

def EATTR_NOOWNER : UInt16 := 0x01
def EATTR_NOECACHE : UInt16 := 0x04

def SESFLAG_READONLY : UInt8 := 0x01
def SESFLAG_IGNOREGID : UInt8 := 0x04
def SESFLAG_ALLCANCHANGEQUOTA : UInt8 := 0x08
def SESFLAG_NOMASTERPERMCHECK : UInt8 := 0x20

def MODE_MASK_R : UInt8 := 4
def MODE_MASK_W : UInt8 := 2
def MODE_MASK_X : UInt8 := 1

def SPECIAL_INODE_ROOT : UInt32 := 0x01

def DEFAULT_GOAL : UInt8 := 1
def DEFAULT_TRASHTIME : UInt32 := 86400

/-- `FsContext` of a client request on the master: the session's root inode and
flags, the requester's uid and groups, the primary group first. -/
structure FsContext where
  rootinode : UInt32
  sesflags : UInt8
  uid : UInt32
  groups : List UInt32
  deriving DecidableEq, Repr

namespace FsContext

/-- `FsContext::gid`: the first of the groups. -/
def gid (context : FsContext) : UInt32 := context.groups.headD 0

/-- `FsContext::hasGroup`. -/
def hasGroup (context : FsContext) (gid : UInt32) : Bool := context.groups.contains gid

end FsContext

end SaunaFS
