import ElfRelay.Bytes
import ElfRelay.Bytes.Laws
import ElfRelay.Address
import ElfRelay.Memory.Range
import ElfRelay.Memory
import ElfRelay.Memory.Terminated
import ElfRelay.Memory.Bulk
import ElfRelay.Memory.Laws
import ElfRelay.Errno
import ElfRelay.Utf8
import ElfRelay.LoadError
import ElfRelay.LogLevel
import ElfRelay.Machine
import ElfRelay.Kernel.Basic
import ElfRelay.Kernel.Calls
import ElfRelay.Kernel.Transfer
import ElfRelay.Resources
import ElfRelay.Elf.Header
import ElfRelay.Elf.ProgramHeader
import ElfRelay.Elf.Object
import ElfRelay.Elf.SelfRelocation
import ElfRelay.Image
import ElfRelay.Startup.Environment
import ElfRelay.Startup.View
import ElfRelay.Configuration
import ElfRelay.LibraryPath
import ElfRelay.Loader
import ElfRelay.Main
import ElfRelay.Proofs.PageRounding
import ElfRelay.Proofs.Memory.Copy
import ElfRelay.Proofs.Memory.Compare
import ElfRelay.Proofs.Heap
import ElfRelay.Proofs.Heap.Requests
import ElfRelay.Proofs.Run
import ElfRelay.Proofs.MappingCalls
import ElfRelay.Proofs.Answers
import ElfRelay.Proofs.Transfer
import ElfRelay.Proofs.Output.Delivery
import ElfRelay.Proofs.Custody
import ElfRelay.Proofs.Output
import ElfRelay.Proofs.WordChanges
import ElfRelay.Proofs.Reading.Schedules
import ElfRelay.Proofs.Reading
import ElfRelay.Proofs.Elf.Opening
import ElfRelay.Proofs.Elf.Encoding
import ElfRelay.Proofs.Elf.Format
import ElfRelay.Proofs.Elf.Acceptance
import ElfRelay.Proofs.Elf.RelocationTables
import ElfRelay.Proofs.Elf.SelfRelocation
import ElfRelay.Proofs.Elf.PackedTable
import ElfRelay.Proofs.Image.Placement
import ElfRelay.Proofs.Image.Steps
import ElfRelay.Proofs.Image.Calls
import ElfRelay.Proofs.Image.Containment
import ElfRelay.Proofs.Image.Coverage
import ElfRelay.Proofs.Image.Contents
import ElfRelay.Proofs.Image.Frame
import ElfRelay.Proofs.Image.Refusal
import ElfRelay.Proofs.Mirroring
import ElfRelay.Proofs.Reading.Independence
import ElfRelay.Proofs.Startup
import ElfRelay.Proofs.Startup.Decoding
import ElfRelay.Proofs.Block
import ElfRelay.Proofs.Startup.Updates
import ElfRelay.Proofs.Configuration
import ElfRelay.Proofs.Environment
import ElfRelay.Proofs.Definitions
import ElfRelay.Proofs.Selection
import ElfRelay.Proofs.Settings
import ElfRelay.Proofs.LibraryPath
import ElfRelay.Proofs.Aborting
import ElfRelay.Proofs.Environment.Separation
import ElfRelay.Proofs.Environment.Refinement
import ElfRelay.Proofs.LibraryPath.Segments
import ElfRelay.Proofs.LibraryPath.Effects
import ElfRelay.Proofs.LibraryPath.Configured
import ElfRelay.Proofs.LogEntries
import ElfRelay.Proofs.Loader.Phases
import ElfRelay.Proofs.Loader.Later
import ElfRelay.Proofs.HeapLimit
import ElfRelay.Proofs.Loader.Atomicity
import ElfRelay.Proofs.Loader.Custody
import ElfRelay.Proofs.Loader.Handover
import ElfRelay.Proofs.Loader.OpenedPath
import ElfRelay.Proofs.Loader.Totality
import ElfRelay.Proofs.Loader.Safety
import ElfRelay.Proofs.Loader.ChangedSlot
import ElfRelay.Proofs.Loader.Refusal
import ElfRelay.Proofs.Loader.HeapLimit
import ElfRelay.Proofs.Loader.HeapUse
import ElfRelay.Proofs.Loader.Holding
import ElfRelay.Proofs.Loader.LimitedRun
import ElfRelay.Proofs.Muting
import ElfRelay.Proofs.Loader.MutedPhases
import ElfRelay.Proofs.Loader.LogIndependence
import ElfRelay.Proofs.Loader.Reporting
