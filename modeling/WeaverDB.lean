import WeaverDB.SharedInval.Ring
import WeaverDB.Session.FailedCommit
import WeaverDB.Session.Brackets
import WeaverDB.Visibility.HintBits
import WeaverDB.Visibility.RowMoves
import WeaverDB.Visibility.Versions
import WeaverDB.Blob.DroppedBlobs
import WeaverDB.Blob.SegmentLoops
import WeaverDB.ShadowLog.Replay
import WeaverDB.WriteGroups.LastPins
import WeaverDB.WriteGroups.LogExpiry
import WeaverDB.Locks.Wakeups
import WeaverDB.Varsup.ObjectIds
import WeaverDB.Buffers.ContentLock
import WeaverDB.Buffers.FlushRetry
import WeaverDB.Freespace.Allocation
import WeaverDB.Vacuum.DeadLists
import WeaverDB.Adt.Like
import WeaverDB.Adt.Int8
import WeaverDB.Adt.BitShifts
import WeaverDB.Adt.BitText
import WeaverDB.Adt.NumericQuotient
import WeaverDB.Btree.BulkDelete
import WeaverDB.Btree.Restore
import WeaverDB.Btree.Search
import WeaverDB.Java.Calls
import WeaverDB.Java.Resolution
import WeaverDB.Java.Rows
import WeaverDB.Java.Sequences
import WeaverDB.Java.Serializer
import WeaverDB.Java.TextForms
import WeaverDB.Java.Transfers
import WeaverDB.Java.Values
