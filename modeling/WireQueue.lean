import WireQueue.Alignment
import WireQueue.Buffer
import WireQueue.BufferQueue
import WireQueue.Bytes
import WireQueue.Chain
import WireQueue.Chunk
import WireQueue.Command
import WireQueue.Counters
import WireQueue.DataType
import WireQueue.Element
import WireQueue.Encoding
import WireQueue.Fault
import WireQueue.Frame
import WireQueue.Header
import WireQueue.Numeral
import WireQueue.Operation
import WireQueue.Payload
import WireQueue.Proofs.Aligned
import WireQueue.Proofs.Boundaries
import WireQueue.Proofs.Bounds
import WireQueue.Proofs.Canonical
import WireQueue.Proofs.Checking
import WireQueue.Proofs.Chunking
import WireQueue.Proofs.Commits
import WireQueue.Proofs.Composition
import WireQueue.Proofs.Conservation
import WireQueue.Proofs.Custody
import WireQueue.Proofs.Dealings
import WireQueue.Proofs.Flushing
import WireQueue.Proofs.Framing
import WireQueue.Proofs.Growth
import WireQueue.Proofs.HeaderCodec
import WireQueue.Proofs.Indifference
import WireQueue.Proofs.Invariant
import WireQueue.Proofs.Laying
import WireQueue.Proofs.Layout
import WireQueue.Proofs.Logging
import WireQueue.Proofs.Marks
import WireQueue.Proofs.Outflow
import WireQueue.Proofs.Packing
import WireQueue.Proofs.Padding
import WireQueue.Proofs.Placement
import WireQueue.Proofs.Redundancy
import WireQueue.Proofs.Refusal
import WireQueue.Proofs.Rollback
import WireQueue.Proofs.Shortfall
import WireQueue.Proofs.SlicePush
import WireQueue.Proofs.Streams
import WireQueue.Queue.Basic
import WireQueue.Queue.Drain
import WireQueue.Queue.Write
import WireQueue.Request
import WireQueue.Sink
import WireQueue.Sink.Recorded
import WireQueue.Supplier
import WireQueue.Supplier.Logged
import WireQueue.Supplier.Pool
import WireQueue.Supplier.Shelf
