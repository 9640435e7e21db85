import Mangoo.Dbfs.Revival
import Mangoo.Dbfs.Isolation
import Mangoo.Dbfs.Tree
import Mangoo.Dbfs.EmptyDirectory
import Mangoo.Dbfs.Resuming
import Mangoo.Dbfs.Orphans
import Mangoo.Dbfs.NewBlocks
import Mangoo.Fuse.Readdir
import Mangoo.Fuse.Reading
import Mangoo.Fuse.Rewinding
import Mangoo.Dbfs.Regrowth
import Mangoo.Dbfs.BlockRanges
import Mangoo.Dbfs.FailedWrite
import Mangoo.Dbfs.KeyOrder
import Mangoo.Dbfs.ConcurrentWrites
import Mangoo.Dbfs.HandleCache
import Mangoo.Dbfs.CurrentSize
import Mangoo.Fuse.Metadata
import Mangoo.Fuse.Balance
import Mangoo.Fuse.Ownership
import Mangoo.Fuse.Durability
import Mangoo.Fuse.Refinement
import Mangoo.Dbfs.Encoding
import Mangoo.Fuse.RawServer
import Mangoo.Samp.OpenOrCreate
import Mangoo.Dbfs.SharedScan
import Mangoo.Dbfs.Footprints
import Mangoo.Fuse.Workers
import Mangoo.Foundation.CallBounds
import Mangoo.Dbfs.CallBounds
import Mangoo.Fuse.Progress
import Mangoo.Dbfs.Failures
import Mangoo.Fuse.FilesOnDisk
import Mangoo.Foundation.Decimal
import Mangoo.Samp.Sessions
import Mangoo.Samp.Sampwrite
import Mangoo.Samp.SavedTexts
