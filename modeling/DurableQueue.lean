import DurableQueue.Text.Encoding
import DurableQueue.Text.Lines
import DurableQueue.Text.Blank
import DurableQueue.Text.Decimal
import DurableQueue.Text.Quoted
import DurableQueue.FileSystem.Disk
import DurableQueue.Position
import DurableQueue.Naming
import DurableQueue.Error
import DurableQueue.Config
import DurableQueue.Frame
import DurableQueue.Record.Store
import DurableQueue.Log
import DurableQueue.Queue
import DurableQueue.Segments
import DurableQueue.Shared
import DurableQueue.FileSystem.Edit
import DurableQueue.Logging.Format
import DurableQueue.Logging.Settings
import DurableQueue.Logging.Filter
import DurableQueue.Logging.Line
import DurableQueue.Main
import DurableQueue.Proofs.Queue.Fifo
import DurableQueue.Proofs.Queue.Recovery
import DurableQueue.Proofs.Log.Faithful
import DurableQueue.Proofs.Log.Covering
import DurableQueue.Proofs.Log.Ordering
import DurableQueue.Proofs.Shared.Protocol
import DurableQueue.Proofs.Session.Steady
import DurableQueue.Proofs.Queue.Isolation
import DurableQueue.Proofs.Frame.Stream
import DurableQueue.Proofs.Queue.Truthful
import DurableQueue.Proofs.Queue.Orphans
import DurableQueue.Proofs.Session.Loss
import DurableQueue.Proofs.Queue.Sharing
import DurableQueue.Proofs.Queue.Numbers
import DurableQueue.Proofs.Record.Grammar
import DurableQueue.Proofs.CommandLine.Fifo
import DurableQueue.Proofs.Session.Recovering
import DurableQueue.Proofs.Queue.Tiling
import DurableQueue.Proofs.Record.Atomic
import DurableQueue.Proofs.Log.Whole
import DurableQueue.Proofs.Log.Sweeping
import DurableQueue.Proofs.Queue.Bounds
import DurableQueue.Proofs.Queue.Honest
import DurableQueue.Proofs.Naming.Scan
