import Microcomputer.Instruction.Encoding
import Microcomputer.Memory.Flat
import Microcomputer.Machine
import Microcomputer.Proofs.Codec.Record
import Microcomputer.Proofs.Codec.Reader
import Microcomputer.Proofs.Codec.Snapshot
import Microcomputer.Proofs.Processor.Granularity
import Microcomputer.Proofs.Codec.Peripherals
import Microcomputer.Proofs.MemoryMap.Layout
import Microcomputer.Proofs.MemoryMap.Restore
import Microcomputer.Proofs.MemoryMap.Mapping
import Microcomputer.Proofs.MemoryMap.Reachable
import Microcomputer.Proofs.Memory.Program
import Microcomputer.Proofs.Processor.Uniform
import Microcomputer.Proofs.Machine.Reachable
import Microcomputer.Proofs.Machine.Restore
import Microcomputer.Proofs.MemoryMap.Arrangement
import Microcomputer.Proofs.Machine.Building
import Microcomputer.Proofs.MemoryMap.Visible
import Microcomputer.Proofs.MemoryMap.Alike
import Microcomputer.Proofs.Machine.Save
import Microcomputer.Proofs.Machine.Continuation
import Microcomputer.Proofs.Machine.Routing
import Microcomputer.Proofs.Processor.Events
import Microcomputer.Proofs.Processor.Serving
import Microcomputer.Proofs.Processor.Delivery
import Microcomputer.Proofs.Processor.Nesting
import Microcomputer.Proofs.MemoryMap.Time
import Microcomputer.Proofs.Machine.Granularity
import Microcomputer.Proofs.MemoryMap.Resolution
import Microcomputer.Proofs.MemoryMap.Registration
import Microcomputer.Proofs.Memory.Flat
import Microcomputer.Proofs.Memory.Recorded
import Microcomputer.Proofs.MemoryMap.Mirror
import Microcomputer.Proofs.Processor.Interchange
import Microcomputer.Proofs.Instruction.Encoding
import Microcomputer.Proofs.Machine.Population
import Microcomputer.Proofs.MemoryMap.Lifetime
import Microcomputer.Proofs.Machine.Traffic
import Microcomputer.Proofs.Machine.Timekeeping
import Microcomputer.Proofs.MemoryMap.Pristine
import Microcomputer.Proofs.Machine.Reset
import Microcomputer.Proofs.Processor.Stack
import Microcomputer.Proofs.Processor.Fetch
import Microcomputer.Proofs.Processor.Handler
import Microcomputer.Proofs.Processor.Literals
import Microcomputer.Proofs.Processor.Skipping
import Microcomputer.Proofs.Processor.Footprint
import Microcomputer.Proofs.Processor.Dispatch
import Microcomputer.Proofs.Processor.Computation
import Microcomputer.Proofs.Processor.CarryChain
import Microcomputer.Proofs.Peripheral.Countdown
import Microcomputer.Proofs.Memory.Written
import Microcomputer.Proofs.Memory.ByteStore
import Microcomputer.Proofs.Processor.Storing
import Microcomputer.Proofs.Processor.Stacking
import Microcomputer.Proofs.Processor.Sleep
import Microcomputer.Proofs.Device.Commits
import Microcomputer.Proofs.MemoryMap.Transfers
import Microcomputer.Proofs.Peripheral.RandomStream
import Microcomputer.Proofs.MemoryMap.RandomWords
