import NandFs.SegMapInjective
import NandFs.CopyBackAtomic
import NandFs.CheckpointRoundTrip
import NandFs.SlotContents
import NandFs.SlotWrites
import NandFs.SlotPrograms
import NandFs.LogHead
import NandFs.LogSegments
import NandFs.LogSearch
import NandFs.SlotMoves
import NandFs.LogWear
import NandFs.LogMove
import NandFs.LogHeader
import NandFs.LogSteps
import NandFs.LogLookup
import NandFs.FormatLog
import NandFs.LogRuns
import NandFs.WearRuns
import NandFs.ReaddirRuns
import NandFs.MutexReleased
import NandFs.SingleWriter
import NandFs.TablesAgree
import NandFs.MediaRuns
import NandFs.WriteOnce
import NandFs.CounterLevels
import NandFs.CopiedPages
import NandFs.EuStatusCache
import NandFs.TransactionAbort
import NandFs.SegmentStart
import NandFs.CopyBackUnit
import NandFs.ReserveReplacement
import NandFs.LastValidPage
import NandFs.SlotScan
import NandFs.TwoGenerations
import NandFs.CheckpointSearch
import NandFs.SlotCuts
import NandFs.UncommittedTail
import NandFs.SlotErase
import NandFs.DirectoryLookup
import NandFs.PathLookup
import NandFs.BlockCount
import NandFs.BlockScans
import NandFs.DirectoryRoom
import NandFs.VotFile
import NandFs.HoleFlags
import NandFs.Cache
import NandFs.CacheCounts
import NandFs.CacheFlush
import NandFs.ReclaimChoice
import NandFs.ScanSearch
import NandFs.Scandir
import NandFs.ScandirRuns
import NandFs.TransactionRuns
import NandFs.BootTransactions
import NandFs.DirectoryStreams
import NandFs.FileReads
import NandFs.EmptyDirectory
