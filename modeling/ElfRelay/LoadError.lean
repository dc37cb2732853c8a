import ElfRelay.Errno
import ElfRelay.Utf8
/-! Why the interpreter could not be started, and the diagnostic that says so. -/
namespace ElfRelay

/-- The architecture that tags configuration variables, as in
`NIX_LD_x86_64_linux`. -/
def system : Bytes := ascii "x86_64_linux"

inductive LoadError
  | missingInterpreter
  | missingPageSize
  | cannotOpen (errno : Errno)
  | unreadableHeader (errno : Errno)
  | truncatedHeader
  | notElf
  | unsupportedClass (found : UInt8)
  | unsupportedEncoding (found : UInt8)
  | wrongMachine (expected found : UInt16)
  | notDynamic (kind : UInt16)
  | programHeaderSize (size : Nat)
  | unreadableProgramHeaders (errno : Errno)
  | truncatedProgramHeaders
  | noLoadableSegments
  | segmentOrder
  | cannotMap (errno : Errno)
  | outOfMemory
  | cannotExecute (errno : Errno)
  deriving DecidableEq, Repr

/-- What is at fault: the environment, a file operation, the file's contents,
or a lack of memory. -/
inductive LoadError.Kind
  | configuration
  | io
  | format
  | resource
  deriving DecidableEq, Repr

namespace LoadError

def kind : LoadError → Kind
  | missingInterpreter | missingPageSize => .configuration
  | cannotOpen _ | unreadableHeader _ | unreadableProgramHeaders _ | cannotExecute _ => .io
  | truncatedHeader | notElf | unsupportedClass _ | unsupportedEncoding _ | wrongMachine _ _
  | notDynamic _ | programHeaderSize _ | truncatedProgramHeaders | noLoadableSegments
  | segmentOrder => .format
  | cannotMap _ | outOfMemory => .resource

/-- A file that claims to be a loadable object but is a damaged one, as
opposed to a file that is no such object at all. -/
def isDamaged : LoadError → Bool
  | truncatedHeader | programHeaderSize _ | truncatedProgramHeaders | noLoadableSegments
  | segmentOrder => true
  | _ => false

def namesInterpreter : LoadError → Bool
  | missingInterpreter | missingPageSize | outOfMemory => false
  | _ => true

def message : LoadError → List Bytes
  | missingInterpreter =>
    [ascii "You are trying to run an unpatched binary on nixos, but you have not configured NIX_LD or NIX_LD_",
      system, ascii ". See https://github.com/Mic92/nix-ld for more details"]
  | missingPageSize => [ascii "no page size (AT_PAGESZ) given by operating system in auxv."]
  | cannotOpen errno => ascii "cannot open: " :: errno.message
  | unreadableHeader errno => ascii "cannot read elf header: " :: errno.message
  | truncatedHeader => [ascii "elf header is truncated"]
  | notElf => [ascii "not an elf file"]
  | unsupportedClass found => [ascii "unsupported elf class ", decimal found.toNat]
  | unsupportedEncoding found => [ascii "unsupported elf data encoding ", decimal found.toNat]
  | wrongMachine expected found =>
    [ascii "built for machine ", decimal found.toNat, ascii ", this process runs machine ",
      decimal expected.toNat]
  | notDynamic kind => [ascii "not a dynamic library (type ", decimal kind.toNat, ascii ")"]
  | programHeaderSize size => [ascii "incorrect program header size: ", decimal size]
  | unreadableProgramHeaders errno => ascii "cannot read program headers: " :: errno.message
  | truncatedProgramHeaders => [ascii "program header table is truncated"]
  | noLoadableSegments => [ascii "no loadable segments"]
  | segmentOrder => [ascii "loadable segments are not sorted by address"]
  | cannotMap errno => ascii "mmap segment failed: " :: errno.message
  | outOfMemory => [ascii "out of memory"]
  | cannotExecute errno => ascii "cannot execute: " :: errno.message

end LoadError

/-- An error together with what was being started, which the program exits with. -/
structure Diagnostic where
  programName : Bytes
  interpreter : Option Bytes
  error : LoadError
  deriving DecidableEq, Repr

def Diagnostic.message (diagnostic : Diagnostic) : List Bytes :=
  ascii "cannot execute " :: Utf8.lossy diagnostic.programName ++ ascii ": " ::
    match diagnostic.interpreter with
    | some path =>
      if diagnostic.error.namesInterpreter then
        ascii "$NIX_LD (" :: Utf8.lossy path ++ ascii "): " :: diagnostic.error.message
      else diagnostic.error.message
    | none => diagnostic.error.message

end ElfRelay
