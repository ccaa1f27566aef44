import LKP.Library.TransitionRun
import LKP.Library.CBuffer
import LKP.Library.RecordStream
import LKP.Library.TwoCacheMsi
import LKP.Library.RedBlackTree
import LKP.Library.AddressMask
import LKP.Library.TreeMirror
import LKP.Dsm.Machine
import LKP.Dsm.PageCommand
import LKP.Dsm.Network
import LKP.Dsm.SingleWriter
import LKP.Dsm.PageLoss
import LKP.Dsm.MissReply
import LKP.Dsm.Undisturbed
import LKP.Dsm.PageIsolation
import LKP.Dsm.Serial
import LKP.Dsm.SerialRefinement
import LKP.Dsm.SerialCoherence
import LKP.Dsm.StartUp
import LKP.Dsm.Roles
import LKP.Dsm.InitialisationOrder
import LKP.Dsm.Framing
import LKP.Dsm.BulkCommand
import LKP.Dsm.WriteWindow
import LKP.Dsm.ReplyBuffer
import LKP.Dsm.Accesses
import LKP.Dsm.RegionBounds
import LKP.Dsm.ShortMessages
import LKP.Dsm.FaultHandler
import LKP.Proj2.Kernel
import LKP.Proj2.ProcShow
import LKP.Proj2.Insertion
import LKP.Proj2.Parsing
import LKP.Proj2.Cleanup
import LKP.Proj2.FourViews
import LKP.Proj2.SortedTree
import LKP.Proj2.Reads
import LKP.Proj2.Ledger
import LKP.Proj2.FailedInserts
import LKP.S2fs.FileSystem
import LKP.S2fs.Names
import LKP.S2fs.Blocks
import LKP.S2fs.Mount
import LKP.Library.DepthListing
import LKP.S2fs.PrintedNumbers
import LKP.Proj4.ProcTree
import LKP.Library.SequentialRead
import LKP.Library.CIntegers
import LKP.S2fs.TaskInfo
import LKP.S2fs.ChunkedReads
import LKP.S2fs.FailedMount
import LKP.Proj1.Encrypt
import LKP.Proj1.Reversible
import LKP.Library.CountedLoop
import LKP.Proj3.PageOffsets
import LKP.Library.Overlay
import LKP.Proj3.LastWrite
import LKP.Library.LockStep
import LKP.Proj3.TwoMenus
import LKP.Ex4.LinkedList
import LKP.Proj2.TreeRemoval
import LKP.Dsm.OneState
import LKP.Dsm.CaughtUp
import LKP.Dsm.Completion
import LKP.Dsm.OwnBytes
import LKP.Dsm.SecondMachine
import LKP.Dsm.MenusReached
import LKP.Dsm.ColdStart
import LKP.Library.DemandPaging
import LKP.Dsm.PagedRegion
import LKP.Dsm.PagedTraces
import LKP.Uffd.Demo
import LKP.Proj3.MenuRuns
import LKP.S2fs.Sessions
import LKP.S2fs.MountLog
import LKP.Proj3.PagedMenu
import LKP.Proj3.FaultedMenus
import LKP.Proj2.KeptMemory
import LKP.Dsm.Terminals
import LKP.Dsm.Launched
