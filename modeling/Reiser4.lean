import Reiser4.Lib.Bytes
import Reiser4.Lib.Overlay
import Reiser4.Lib.Run
import Reiser4.Lib.Links
import Reiser4.Lib.Search
import Reiser4.Lib.Steps
import Reiser4.Lib.Sweep
import Reiser4.Lib.Tally
import Reiser4.Lib.Stream
import Reiser4.Aal
import Reiser4.Journal40.Format
import Reiser4.Journal40.Traverse
import Reiser4.Journal40.Replay
import Reiser4.Journal40.Counters
import Reiser4.Bitmap
import Reiser4.Bitmap.Runs
import Reiser4.Bitmap.Resize
import Reiser4.Bitmap.Pack
import Reiser4.Journal40.Check
import Reiser4.Journal40.Termination
import Reiser4.Journal40.Pack
import Reiser4.Journal40.Trace
import Reiser4.Journal40.CheckEvents
import Reiser4.Journal40.CheckSound
import Reiser4.Alloc40.Layout
import Reiser4.Alloc40.Alloc
import Reiser4.Alloc40.RoundTrip
import Reiser4.Alloc40.Region
import Reiser4.Repair.DiskScan
import Reiser4.LibAux.BinSearch
import Reiser4.Key
import Reiser4.Item.Body
import Reiser4.Item.Lookup
import Reiser4.Item.Extent
import Reiser4.Repair.TwigScan
import Reiser4.Repair.NodeCheck
import Reiser4.Repair.DiskPass
import Reiser4.Repair.Uplink
import Reiser4.Object.Factory
import Reiser4.Object.Namespace
import Reiser4.Object.Link
import Reiser4.Object.Unlink
import Reiser4.Object.Runs
import Reiser4.Tree.Node
import Reiser4.Tree.Walk
import Reiser4.Tree.Order
import Reiser4.Tree.Flow
import Reiser4.Ccreg40.Cluster
import Reiser4.Tree.Lookup
import Reiser4.Tree.Exact
import Reiser4.Tree.Next
import Reiser4.Tree.Rename
import Reiser4.Tree.Cache
import Reiser4.Tree.Sync
import Reiser4.Dir40.Name
import Reiser4.Dir40.Entry
import Reiser4.Dir40.Search
import Reiser4.Dir40.Collision
import Reiser4.Dir40.Exact
import Reiser4.Dir40.Accounting
import Reiser4.Fs.Areas
import Reiser4.Repair.Allocate
import Reiser4.Format40.Backup
import Reiser4.Tree.Trav
import Reiser4.Object.Semantic
import Reiser4.Format40.CheckStruct
import Reiser4.Repair.SuperBlocks
import Reiser4.Extent40.Map
import Reiser4.Extent40.Unit
import Reiser4.Extent40.Join
import Reiser4.Extent40.Remove
import Reiser4.Extent40.Memory
import Reiser4.Extent40.Trunc
import Reiser4.Extent40.TruncLoop
import Reiser4.Extent40.TruncLaw
import Reiser4.Extent40.TruncBytes
import Reiser4.Cde40.Layout
import Reiser4.Cde40.Expand
import Reiser4.Cde40.Edit
import Reiser4.Cde40.Update
import Reiser4.Cde40.Merge
import Reiser4.Node40.Layout
import Reiser4.Node40.Merge
import Reiser4.Node40.Cut
import Reiser4.Node40.Tail
import Reiser4.Node40.IplugCheck
import Reiser4.Node40.Pack
import Reiser4.Node40.ArrayCheck
import Reiser4.Node40.Expand
import Reiser4.Node40.Move
import Reiser4.Fs.Space
import Reiser4.Lib.Uniform
import Reiser4.Journal40.Crash
import Reiser4.Repair.ItemsCheck
import Reiser4.Repair.InsertRaw
import Reiser4.Repair.BackupChoice
import Reiser4.Repair.BitmapCompare
import Reiser4.Fs.Backups
import Reiser4.Stat40.PlugSet
import Reiser4.Stat40.CheckStruct
import Reiser4.Stat40.Pset
import Reiser4.Lib.BigEndian
import Reiser4.Lib.Cursor
import Reiser4.Dir40.NameKeys
import Reiser4.Dir40.Readdir
import Reiser4.Dir40.Enumerate
