import SaunaFS.Lib.KeyedList
import SaunaFS.Common.Goal
import SaunaFS.Common.ChunkCopiesCalculator
import SaunaFS.Common.RichACL
import SaunaFS.Common.AccessControlList
import SaunaFS.Common.RichACLPosixConvert
import SaunaFS.Master.FSNode
import SaunaFS.Master.Acl
import SaunaFS.Master.Metadata
import SaunaFS.Master.Operations
import SaunaFS.Common.GaloisField
import SaunaFS.Lib.GaussJordan
import SaunaFS.Lib.SystematicCode
import SaunaFS.Lib.FlatArray
import SaunaFS.Common.GaloisFieldEncode
import SaunaFS.Common.GaloisMatrix
import SaunaFS.Common.ReedSolomon
import SaunaFS.Common.ReedSolomonCache
import SaunaFS.Common.ReedSolomonCoding
import SaunaFS.Lib.SortedKeys
import SaunaFS.Master.Quota
import SaunaFS.Master.LockRanges
import SaunaFS.Master.LockRangesInsert
import SaunaFS.Master.FileLocks
import SaunaFS.Master.LockOperations
import SaunaFS.Common.IdPool
import SaunaFS.Master.IdPoolDetainer
import SaunaFS.URaft.Election
import SaunaFS.Common.RichACLString
import SaunaFS.Master.AclReplication
import SaunaFS.Lib.ByteReader
import SaunaFS.Common.Serialization
import SaunaFS.Protocol.Packet
import SaunaFS.Lib.MergeJoin
import SaunaFS.Common.OperationCount
import SaunaFS.Common.PartsToMove
import SaunaFS.Lib.Assignment
import SaunaFS.Common.LinearAssignment
import SaunaFS.Common.RichACLCompat
import SaunaFS.Master.ChunkStats
import SaunaFS.Lib.ByteFile
import SaunaFS.Lib.Checksum
import SaunaFS.Chunkserver.CmrDisk
import SaunaFS.Chunkserver.BlockCrc
import SaunaFS.Lib.Striping
import SaunaFS.Common.SliceTraits
import SaunaFS.Lib.SortedSearch
import SaunaFS.Common.FlatSet
import SaunaFS.Master.ChangelogEscape
import SaunaFS.Lib.Numeral
import SaunaFS.Chunkserver.ChunkFilename
import SaunaFS.Master.Exports
import SaunaFS.Lib.HashedMemo
import SaunaFS.Common.LinearAssignmentCache
import SaunaFS.Master.LockStore
import SaunaFS.Master.AclStore
import SaunaFS.Master.IntervalTree
import SaunaFS.Master.Topology
