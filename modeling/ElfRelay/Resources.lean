import ElfRelay.Errno
import ElfRelay.Machine
/-! What the program asks the system for: files open for reading, and mappings. A mapping
without a fixed address makes a region that its owner releases; one with a fixed address
replaces bytes inside a region that is already owned. -/
namespace ElfRelay

structure File where
  descriptor : UInt32
  deriving DecidableEq, Repr

namespace File

def openPath (path : Bytes) : Program (Except Errno File) := do
  let result ← Program.callKernel (Kernel.openat path)
  return (Errno.ofResult result).map fun descriptor => ⟨descriptor.toUInt32⟩

/-- Reads at an offset until the buffer is full or the file ends. Gives how
many bytes count as read, or the error, and the buffer. -/
def readFully (file : File) (buffer : Bytes) (offset : UInt64) : Program (Except Errno Nat × Bytes) :=
  Program.callKernel (Kernel.readFully file.descriptor buffer offset)

def close (file : File) : Program Unit := do
  let _ ← Program.callKernel (Kernel.close file.descriptor)

end File

namespace Machine

/-- The bytes a mapping call asks for, by their distance from its start, or the
error number it is refused with. -/
def mapSource (machine : Machine) (request : MapRequest) : Except UInt64 (Nat → UInt8) :=
  if request.length = 0 || Kernel.maxOffset < request.offset.toNat then .error 22
  else if request.isAnonymous then .ok fun _ => 0
  else if Kernel.maxOffset < request.offset.toNat + request.length.toNat then .error 75
  else
    match machine.kernel.node? request.descriptor with
    | some (.regular contents) => .ok fun i => contents.getD (request.offset.toNat + i) 0
    | some _ => .error 19
    | none => .error 9

def mapAddress (machine : Machine) (request : MapRequest) : UInt64 :=
  if request.isFixed then request.address else machine.kernel.nextFree

/-- Mappings without a fixed address start at multiples of this. -/
def mapAlignment : Nat := 0x1000

/-- The first address behind a mapping at which another may start. -/
def freeAfter (machine : Machine) (region : Region) : UInt64 :=
  let stop := roundUp (region.address.toNat + region.length.toNat) mapAlignment
  (max machine.kernel.nextFree.toNat stop).toUInt64

/-- What the rules say on a mapping call: the bytes of the range become those
of the file, zero past its end, or all zero without a file. -/
def mapAnswer (machine : Machine) (request : MapRequest) : UInt64 × Machine :=
  match machine.mapSource request with
  | .error code => (Kernel.failure code, machine)
  | .ok source =>
    let region : Region := ⟨machine.mapAddress request, request.length⟩
    if machine.kernel.arena.encloses region.address region.length then
      (region.address, { machine with
        memory := machine.memory.overlay region.address region.length.toNat source
        kernel := { machine.kernel with nextFree := machine.freeAfter region } })
    else (Kernel.failure 12, machine)

def mmap (request : MapRequest) (machine : Machine) : UInt64 × Machine :=
  let outcome := match machine.kernel.answer .mmap with
    | .fixed result => (result, machine)
    | _ => machine.mapAnswer request
  let kernel := (outcome.2.kernel.answered .mmap).record (.mmap request outcome.1)
  (outcome.1, { outcome.2 with kernel := kernel })

end Machine

namespace MapRequest

/-- Asks for a file from an offset on, wherever there is room. -/
def anywhere (length protection : UInt64) (descriptor : UInt32) (offset : UInt64) : MapRequest :=
  ⟨0, length, protection, privateCopy, descriptor, offset⟩

/-- Asks for a file from an offset on, or for empty memory, at a fixed address. -/
def inPlace (address length protection : UInt64) (descriptor : Option UInt32) (offset : UInt64) :
    MapRequest :=
  let shared := privateCopy ||| fixedAddress
  match descriptor with
  | some descriptor => ⟨address, length, protection, shared, descriptor, offset⟩
  | none => ⟨address, length, protection, shared ||| anonymousMemory, noDescriptor, offset⟩

end MapRequest

namespace Region

def ofFile (length protection : UInt64) (descriptor : UInt32) (offset : UInt64) :
    Program (Except Errno Region) := do
  let result ← modifyGet (Machine.mmap (.anywhere length protection descriptor offset))
  return (Errno.ofResult result).map fun address => ⟨address, length⟩

/-- Replaces bytes at a fixed address by those of a file, or by zeros. The
range has to lie inside a region the caller owns. -/
def replaceRange (address length protection : UInt64) (descriptor : Option UInt32)
    (offset : UInt64) : Program (Except Errno Unit) := do
  let result ← modifyGet (Machine.mmap (.inPlace address length protection descriptor offset))
  return (Errno.ofResult result).map fun _ => ()

/-- Gives a region back. Nothing can be done about a failure. -/
def release (region : Region) : Program Unit := do
  let _ ← Program.callKernel (Kernel.munmap region)

end Region

end ElfRelay
