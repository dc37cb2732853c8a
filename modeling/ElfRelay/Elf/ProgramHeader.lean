import ElfRelay.Bytes
import ElfRelay.Address
/-! Entries of the program header table. Each is 56 bytes and describes a
segment: what part of the file it takes, and where it goes in memory. -/
namespace ElfRelay.Elf

structure ProgramHeader where
  type : UInt32
  flags : UInt32
  offset : UInt64
  vaddr : UInt64
  paddr : UInt64
  filesz : UInt64
  memsz : UInt64
  align : UInt64
  deriving DecidableEq, Repr

namespace ProgramHeader

def size : Nat := 56

def loadable : UInt32 := 1

def dynamic : UInt32 := 2

def executeFlag : UInt32 := 1
def writeFlag : UInt32 := 2
def readFlag : UInt32 := 4

def decode (bytes : Bytes) : ProgramHeader where
  type := (field bytes 0 4).toUInt32
  flags := (field bytes 4 4).toUInt32
  offset := (field bytes 8 8).toUInt64
  vaddr := (field bytes 16 8).toUInt64
  paddr := (field bytes 24 8).toUInt64
  filesz := (field bytes 32 8).toUInt64
  memsz := (field bytes 40 8).toUInt64
  align := (field bytes 48 8).toUInt64

def encode (header : ProgramHeader) : Bytes :=
  toLittleEndian 4 header.type.toNat ++
  toLittleEndian 4 header.flags.toNat ++
  toLittleEndian 8 header.offset.toNat ++
  toLittleEndian 8 header.vaddr.toNat ++
  toLittleEndian 8 header.paddr.toNat ++
  toLittleEndian 8 header.filesz.toNat ++
  toLittleEndian 8 header.memsz.toNat ++
  toLittleEndian 8 header.align.toNat

/-- Whether the segment occupies memory. Empty ones are never mapped. -/
def occupiesMemory (header : ProgramHeader) : Bool := header.type == loadable && header.memsz != 0

def has (header : ProgramHeader) (flag : UInt32) : Bool := header.flags &&& flag != 0

def isReadable (header : ProgramHeader) : Bool := header.has readFlag
def isWritable (header : ProgramHeader) : Bool := header.has writeFlag
def isExecutable (header : ProgramHeader) : Bool := header.has executeFlag

def memoryEnd (header : ProgramHeader) : UInt64 := saturatingAdd header.vaddr header.memsz

def fileEnd (header : ProgramHeader) : UInt64 := saturatingAdd header.vaddr header.filesz

/-- Whether memory behind the file's part has to be zero. -/
def hasZeroFill (header : ProgramHeader) : Bool :=
  header.filesz < header.memsz && header.isWritable

/-- The protection to map the segment with: 1 to read, 2 to write, 4 to execute. -/
def protection (header : ProgramHeader) : UInt64 :=
  (if header.isReadable then 1 else 0) ||| (if header.isWritable then 2 else 0) |||
    (if header.isExecutable then 4 else 0)

/-- The flags in three columns, `RWE` with blanks for those that are unset. -/
def flagText (header : ProgramHeader) : List Bytes :=
  [if header.isReadable then ascii "R" else ascii " ",
    if header.isWritable then ascii "W" else ascii " ",
    if header.isExecutable then ascii "E" else ascii " "]

end ProgramHeader
end ElfRelay.Elf
