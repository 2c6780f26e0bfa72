import TriCoreDap.Library.Word
import TriCoreDap.Library.Program
import TriCoreDap.Library.Bits
import TriCoreDap.Library.Gray
import TriCoreDap.Library.LapBuffer
import TriCoreDap.Library.Memory
import TriCoreDap.Library.Sender
import TriCoreDap.Library.Intervals
import TriCoreDap.Library.Lists
import TriCoreDap.Library.Splice
import TriCoreDap.Library.Lz4
import TriCoreDap.Library.RecLock
import TriCoreDap.Trace.Drain
import TriCoreDap.Trace.Tram
import TriCoreDap.Trace.Follow
import TriCoreDap.Trace.Reading
import TriCoreDap.Trace.Refinement
import TriCoreDap.Trace.Torn
import TriCoreDap.Trace.Session
import TriCoreDap.Trace.Loss
import TriCoreDap.Trace.LossCount
import TriCoreDap.Trace.Ring
import TriCoreDap.Trace.RingRuns
import TriCoreDap.Probe.Bus
import TriCoreDap.Probe.MemoryAccess
import TriCoreDap.Flash.Interpreter
import TriCoreDap.Flash.Log
import TriCoreDap.Flash.Layout
import TriCoreDap.Flash.Apply
import TriCoreDap.Flash.Sectors
import TriCoreDap.Flash.Commands
import TriCoreDap.Flash.Erasing
import TriCoreDap.Flash.Programming
import TriCoreDap.Flash.OnImage
import TriCoreDap.Flash.EraseRuns
import TriCoreDap.Flash.Target
import TriCoreDap.Flash.Contents
import TriCoreDap.Flash.Locking
import TriCoreDap.Ucb.Catalogue
import TriCoreDap.Ucb.Writer
import TriCoreDap.Ucb.Safety
import TriCoreDap.Ucb.Target
import TriCoreDap.Ucb.Interruption
import TriCoreDap.Ucb.Outcome
import TriCoreDap.Upload.Hex
import TriCoreDap.Upload.Records
import TriCoreDap.Upload.Bounds
import TriCoreDap.Upload.Lines
import TriCoreDap.Upload.Contents
import TriCoreDap.Upload.Files
import TriCoreDap.Upload.Whole
import TriCoreDap.Upload.Acceptance
import TriCoreDap.Upload.Handlers
import TriCoreDap.Debug.Triggers
import TriCoreDap.Debug.Table
import TriCoreDap.Debug.Breakpoints
import TriCoreDap.Debug.Requests
import TriCoreDap.Debug.Stepping
import TriCoreDap.Library.Search
import TriCoreDap.Library.Bisect
import TriCoreDap.Decode.Framing
import TriCoreDap.Decode.Messages
import TriCoreDap.Decode.Decoder
import TriCoreDap.Decode.Agreement
import TriCoreDap.Decode.Retiming
import TriCoreDap.Decode.Effects
import TriCoreDap.Decode.Paragraphs
import TriCoreDap.Decode.Gap
import TriCoreDap.Decode.Discard
import TriCoreDap.Decode.Frames
import TriCoreDap.Decode.Stream
import TriCoreDap.Decode.RoundTrip
import TriCoreDap.Decode.Interleaving
import TriCoreDap.Decode.Apart
import TriCoreDap.Decode.Rising
import TriCoreDap.Decode.Unwrapping
import TriCoreDap.Decode.Records
import TriCoreDap.Signals.Leaves
import TriCoreDap.Signals.Bitfields
import TriCoreDap.Elfsyms.Types
import TriCoreDap.Elfsyms.Paths
import TriCoreDap.Plot.Decimation
import TriCoreDap.Plot.Envelope
import TriCoreDap.Signals.Shadow
import TriCoreDap.Signals.Remembered
import TriCoreDap.Signals.Slots
import TriCoreDap.Signals.SlotCover
import TriCoreDap.Signals.Extractor
import TriCoreDap.Signals.Direct
import TriCoreDap.Signals.WriteBack
import TriCoreDap.Signals.Batches
import TriCoreDap.Signals.EventLog
import TriCoreDap.Signals.Pipeline
import TriCoreDap.Signals.Sorted
import TriCoreDap.Signals.Overlay
import TriCoreDap.Signals.Parallel
import TriCoreDap.Signals.Held
import TriCoreDap.Signals.Reselect
import TriCoreDap.Signals.Columns
import TriCoreDap.Signals.Trimming
import TriCoreDap.Web.Lz4Fast
import TriCoreDap.Web.Lz4RoundTrip
import TriCoreDap.Web.Lz4Bounds
import TriCoreDap.Web.Frames
import TriCoreDap.Exclusion.Tasks
import TriCoreDap.Exclusion.Overlap
import TriCoreDap.Exclusion.Orderly
import TriCoreDap.Fpga.DualRead
import TriCoreDap.Fpga.HostFrame
import TriCoreDap.Fpga.FrameTx
import TriCoreDap.Fpga.FrameSent
import TriCoreDap.Fpga.CrcCode
import TriCoreDap.Library.Windows
import TriCoreDap.Fpga.FrameRx
import TriCoreDap.Fpga.ReplyFields
import TriCoreDap.Fpga.ClockBudget
import TriCoreDap.Fpga.ReplySamples
import TriCoreDap.Fpga.FrameReceived
import TriCoreDap.Fpga.DapTop
import TriCoreDap.Fpga.ParcelSteps
import TriCoreDap.Fpga.Pushing
import TriCoreDap.Fpga.BlockReads
import TriCoreDap.Flash.Crc32
import TriCoreDap.Flash.Written
import TriCoreDap.Flash.Honest
import TriCoreDap.Flash.Cells
import TriCoreDap.Flash.Again
import TriCoreDap.Flash.Staging
import TriCoreDap.Flash.Load
import TriCoreDap.Flash.Loaded
