import ElfRelay.Elf.Header
import ElfRelay.Elf.ProgramHeader
import ElfRelay.Resources
/-! Opening an ELF object: its file, its header and its program headers. -/
namespace ElfRelay.Elf

structure Object where
  file : File
  header : Header
  programHeaders : List ProgramHeader
  deriving DecidableEq, Repr

namespace Object

def maxTableSize : Nat := 65536

/-- Up to this many program headers are kept without taking heap memory. -/
def inlineHeaders : Nat := 16

def newline : UInt8 := 10

/-- A path that was read from a text file may end in a newline. When there is
no such file, the path without it is tried. -/
def openTrimmed (path : Bytes) : Program (Except LoadError File) := do
  match ← File.openPath path with
  | .ok file => return .ok file
  | .error errno =>
    if errno = Errno.noSuchFile ∧ path.getLast? = some newline then
      let stripped := path.dropLast
      match ← Program.reserve (stripped.length + 1) 1 with
      | none => return .error .outOfMemory
      | some _ => return (← File.openPath stripped).mapError .cannotOpen
    else return .error (.cannotOpen errno)

/-- The entries of a table, one every `stride` bytes. -/
def decodeTable (table : Bytes) (stride count : Nat) : List ProgramHeader :=
  (List.range count).map fun i => ProgramHeader.decode (slice table (i * stride) stride)

/-- Room for the decoded headers, which a short table does not need. -/
def reserveHeaders (count : Nat) : Program (Option UInt64) :=
  if inlineHeaders < count then Program.reserve (count * ProgramHeader.size) 8
  else return some 0

def readProgramHeaders (file : File) (header : Header) :
    Program (Except LoadError (List ProgramHeader)) := do
  let tableSize := header.tableSize
  if tableSize = 0 ∨ maxTableSize < tableSize ∨ header.phentsize.toNat < ProgramHeader.size then
    return .error (.programHeaderSize tableSize)
  match ← Program.reserve tableSize 1 with
  | none => return .error .outOfMemory
  | some _ =>
    let (count, table) ← file.readFully (List.replicate tableSize 0) header.phoff
    match count with
    | .error errno => return .error (.unreadableProgramHeaders errno)
    | .ok count =>
      if count ≠ tableSize then return .error .truncatedProgramHeaders
      match ← reserveHeaders header.phnum.toNat with
      | none => return .error .outOfMemory
      | some _ => return .ok (decodeTable table header.phentsize.toNat header.phnum.toNat)

def readHeader (file : File) : Program (Except LoadError Header) := do
  let (count, bytes) ← file.readFully (List.replicate Header.size 0) 0
  match count with
  | .error errno => return .error (.unreadableHeader errno)
  | .ok count =>
    if bytes.length < count then Program.failRange .stop ⟨count, bytes.length⟩
    match Header.parse (bytes.take count) with
    | .error error => return .error error
    | .ok header => return header.validate.map fun _ => header

def ofFile (file : File) : Program (Except LoadError Object) := do
  match ← readHeader file with
  | .error error => return .error error
  | .ok header =>
    return (← readProgramHeaders file header).map fun programHeaders =>
      ⟨file, header, programHeaders⟩

/-- Opens an object by its path. The file stays open only with the object. -/
def openPath (path : Bytes) : Program (Except LoadError Object) := do
  match ← openTrimmed path with
  | .error error => return .error error
  | .ok file =>
    let object ← ofFile file
    if object.isOk then return object
    file.close
    return object

def segments (object : Object) : List ProgramHeader :=
  object.programHeaders.filter ProgramHeader.occupiesMemory

end Object
end ElfRelay.Elf
