import BrLogger.Backend.ExactlyOnce
import BrLogger.Context.FillTags
import BrLogger.Context.Locking
import BrLogger.Context.LongKeys
import BrLogger.Context.PopOrder
import BrLogger.Context.Provenance
import BrLogger.Formatter.JsonBounds
import BrLogger.Formatter.JsonEscape
import BrLogger.Formatter.JsonTags
import BrLogger.Formatter.PatternRoundTrip
import BrLogger.Formatter.PatternTable
import BrLogger.Formatter.SameTime
import BrLogger.Logger.Destructor
import BrLogger.Logger.LogFiles
import BrLogger.Logger.LogOnce
import BrLogger.Logger.MonotonicClock
import BrLogger.Logger.NoArguments
import BrLogger.Logger.StopFlushes
import BrLogger.Ring.CapacityGuard
import BrLogger.Ring.Progress
import BrLogger.Ring.Safety
import BrLogger.Ring.Sequential
import BrLogger.Sink.DiskUse
import BrLogger.Sink.DumpResult
import BrLogger.Sink.EntryDates
import BrLogger.Sink.JsonLine
import BrLogger.Sink.Recovery
import BrLogger.Sink.Retention
import BrLogger.Sink.RingMemoryBounds
import BrLogger.Sink.SharedDisk
import BrLogger.Sink.SizeTracking
import BrLogger.Sink.WholeLines
