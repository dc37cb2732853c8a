import ElfRelay.LoadError
/-! The header of an ELF object: 64 bytes that begin with the magic number and
say where the program header table is. -/
namespace ElfRelay.Elf

/-- The machine this process runs, x86-64. -/
def nativeMachine : UInt16 := 62

/-- Identification byte 4 of 64-bit objects. -/
def wideClass : UInt8 := 2

def littleEndianData : UInt8 := 1

def dynamicObject : UInt16 := 3

def magic : Bytes := [0x7f, 0x45, 0x4c, 0x46]

structure Header where
  ident : Bytes
  type : UInt16
  machine : UInt16
  version : UInt32
  entry : UInt64
  phoff : UInt64
  shoff : UInt64
  flags : UInt32
  ehsize : UInt16
  phentsize : UInt16
  phnum : UInt16
  shentsize : UInt16
  shnum : UInt16
  shstrndx : UInt16
  deriving DecidableEq, Repr

namespace Header

def size : Nat := 64

def decode (bytes : Bytes) : Header where
  ident := slice bytes 0 16
  type := (field bytes 16 2).toUInt16
  machine := (field bytes 18 2).toUInt16
  version := (field bytes 20 4).toUInt32
  entry := (field bytes 24 8).toUInt64
  phoff := (field bytes 32 8).toUInt64
  shoff := (field bytes 40 8).toUInt64
  flags := (field bytes 48 4).toUInt32
  ehsize := (field bytes 52 2).toUInt16
  phentsize := (field bytes 54 2).toUInt16
  phnum := (field bytes 56 2).toUInt16
  shentsize := (field bytes 58 2).toUInt16
  shnum := (field bytes 60 2).toUInt16
  shstrndx := (field bytes 62 2).toUInt16

def encode (header : Header) : Bytes :=
  header.ident ++
  toLittleEndian 2 header.type.toNat ++
  toLittleEndian 2 header.machine.toNat ++
  toLittleEndian 4 header.version.toNat ++
  toLittleEndian 8 header.entry.toNat ++
  toLittleEndian 8 header.phoff.toNat ++
  toLittleEndian 8 header.shoff.toNat ++
  toLittleEndian 4 header.flags.toNat ++
  toLittleEndian 2 header.ehsize.toNat ++
  toLittleEndian 2 header.phentsize.toNat ++
  toLittleEndian 2 header.phnum.toNat ++
  toLittleEndian 2 header.shentsize.toNat ++
  toLittleEndian 2 header.shnum.toNat ++
  toLittleEndian 2 header.shstrndx.toNat

/-- Reads the header at the start of a file. What is too short for a header is
a truncated object only if it has the magic number. -/
def parse (bytes : Bytes) : Except LoadError Header :=
  if bytes.take magic.length ≠ magic then .error .notElf
  else if bytes.length < size then .error .truncatedHeader
  else .ok (decode bytes)

def fileClass (header : Header) : UInt8 := header.ident.getD 4 0

def dataEncoding (header : Header) : UInt8 := header.ident.getD 5 0

/-- Whether this process can map the object: 64-bit, little-endian, for this
machine and position independent. -/
def validate (header : Header) : Except LoadError Unit :=
  if header.fileClass ≠ wideClass then .error (.unsupportedClass header.fileClass)
  else if header.dataEncoding ≠ littleEndianData then .error (.unsupportedEncoding header.dataEncoding)
  else if header.machine ≠ nativeMachine then
    .error (.wrongMachine nativeMachine header.machine)
  else if header.type ≠ dynamicObject then .error (.notDynamic header.type)
  else .ok ()

def tableSize (header : Header) : Nat := header.phnum.toNat * header.phentsize.toNat

end Header
end ElfRelay.Elf
