import StreamParse.Grammar
import StreamParse.Reactor.Request
import StreamParse.Proofs.Course
import StreamParse.Proofs.Fragmentation
import StreamParse.Proofs.Parser.Text
import StreamParse.Proofs.Conservation
import StreamParse.Proofs.Retry
import StreamParse.Proofs.Reactor.Places
import StreamParse.Proofs.Reactor.Agreement
import StreamParse.Proofs.Allocation
import StreamParse.Proofs.Buffer.ByteQueue
import StreamParse.Proofs.Reactor.Stint
import StreamParse.Proofs.Reactor.Apart
import StreamParse.Proofs.Reactor.Service
import StreamParse.Proofs.Reactor.LifeCycle
import StreamParse.Proofs.Reactor.Concurrency
import StreamParse.Proofs.Buffer.Checked
import StreamParse.Proofs.Reactor.Integrity
import StreamParse.Proofs.Reactor.Limits
import StreamParse.Proofs.Passage
import StreamParse.Proofs.Reactor.Career
import StreamParse.Proofs.Likeness
import StreamParse.Proofs.Reactor.Errands
import StreamParse.Proofs.Reactor.Abandonment
import StreamParse.Proofs.Shape
import StreamParse.Proofs.Reactor.Shape
import StreamParse.Proofs.Closing
import StreamParse.Proofs.Reactor.Endings
import StreamParse.Proofs.Bounds
import StreamParse.Proofs.Reactor.Bounds
import StreamParse.Proofs.Parser.Line
import StreamParse.Proofs.Parser.Recognition
import StreamParse.Proofs.Switching
import StreamParse.Proofs.Patience
import StreamParse.Proofs.Growth
import StreamParse.Proofs.Refill
import StreamParse.Proofs.Doubling
import StreamParse.Proofs.Refusal
import StreamParse.Proofs.Reactor.Refusal
import StreamParse.Proofs.Reallocation
import StreamParse.Proofs.Copying
import StreamParse.Proofs.Reactor.Moves
import StreamParse.Proofs.EntryPoints
import StreamParse.Proofs.Reactor.EntryPoints
