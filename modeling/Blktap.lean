import Blktap.BlockVhd.Cache
import Blktap.BlockVhd.Finish
import Blktap.BlockVhd.Loaded
import Blktap.BlockVhd.LoadedRuns
import Blktap.BlockVhd.Lru
import Blktap.BlockVhd.PaddedRuns
import Blktap.BlockVhd.TableUse
import Blktap.BlockVhd.Zeros
import Blktap.Journal.UpdateRuns
import Blktap.Lcache.LcacheRuns
import Blktap.Lib.Bytes
import Blktap.Lib.Outcome
import Blktap.Libvhd.Answers
import Blktap.Libvhd.AtomicPio
import Blktap.Libvhd.Chain
import Blktap.Libvhd.ChangeParentFails
import Blktap.Libvhd.CheckRuns
import Blktap.Libvhd.Ancestor
import Blktap.Libvhd.Codec
import Blktap.Libvhd.CreateFails
import Blktap.Libvhd.CreateRuns
import Blktap.Libvhd.Fill
import Blktap.Libvhd.Geometry
import Blktap.Libvhd.Link
import Blktap.Libvhd.MapBounds
import Blktap.Libvhd.ModifyRight
import Blktap.Libvhd.ReadChain
import Blktap.Libvhd.Repair
import Blktap.Libvhd.ResizeRuns
import Blktap.Libvhd.ShowsBytes
import Blktap.Libvhd.SnapshotRuns
import Blktap.Libvhd.WriteBytesRuns
import Blktap.Libvhdindex.BlocksRuns
import Blktap.Libvhdindex.FileTableRuns
import Blktap.Libvhdio.Confined
import Blktap.Libvhdio.FdRuns
import Blktap.Libvhdio.Offsets
import Blktap.Llcache.LlecacheRuns
import Blktap.Llcache.LlpcacheRuns
import Blktap.Lock.DotLockRuns
import Blktap.Lock.NamesRuns
import Blktap.Lvm.Outputs
import Blktap.Part.Format
import Blktap.Ratelimit.BookRuns
import Blktap.Ratelimit.CreditRuns
import Blktap.Ratelimit.TableRuns
import Blktap.Ratelimit.TokenRuns
import Blktap.Scan.Tree
import Blktap.Scan.VolumeName
import Blktap.TapCtl.List
import Blktap.TapCtl.ListRuns
import Blktap.TapCtl.Transport
import Blktap.Tapdisk.Bounds
import Blktap.Tapdisk.Filter
import Blktap.Tapdisk.FilterQueue
import Blktap.Tapdisk.FilterRuns
import Blktap.Tapdisk.ForwardRuns
import Blktap.Tapdisk.IoGroups
import Blktap.Tapdisk.IoOptimize
import Blktap.Tapdisk.IoOptimizeRuns
import Blktap.Tapdisk.Kick
import Blktap.Tapdisk.Logfile
import Blktap.Tapdisk.OutputRuns
import Blktap.Tapdisk.PauseRuns
import Blktap.Tapdisk.Ram
import Blktap.Tapdisk.Reentry
import Blktap.Tapdisk.Scheduler
import Blktap.Tapdisk.SchedulerRuns
import Blktap.Tapdisk.SharingRuns
import Blktap.Tapdisk.Stream
import Blktap.Tapdisk.SyslogRuns
import Blktap.Tapdisk.Tqueue
import Blktap.Tapdisk.TqueueRuns
import Blktap.Tapdisk.Verdicts
import Blktap.Tapdisk.WriteLog
import Blktap.Vindex.ReadRuns
import Blktap.Xenblkif.Batches
import Blktap.Xenblkif.Contexts
import Blktap.Xenblkif.Indices
import Blktap.Xenblkif.Memoryless
import Blktap.Xenblkif.Requests
import Blktap.Xenblkif.Slots
import Blktap.Xenblkif.Untrusted
import Blktap.Xenblkif.Vectors
import Blktap.Xenio.BackendRuns
import Blktap.Xenio.Connection
