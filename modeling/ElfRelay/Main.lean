import ElfRelay.Loader
import ElfRelay.Startup.View
/-! The command line: a dry run of the loader. The program named by the
arguments is started on a simulated machine, with the configuration variables
of this process and the interpreter file they name. -/
namespace ElfRelay.DryRun

def stackPointer : UInt64 := 0x7ffc00000000
def stringsAddress : UInt64 := 0x7ffd00000000
def heapAddress : UInt64 := 0x500000000000
def imageAddress : UInt64 := 0x60000000
def heapSize : Nat := 65536

def arena : Region := ⟨0x100000000000, 0x100000000⟩

/-- The auxiliary vector: pages of 4096 bytes, and an interpreter was asked for. -/
def auxiliary : List (UInt64 × UInt64) :=
  [(AuxiliaryVector.pageSizeKey, 4096), (AuxiliaryVector.baseKey, 0x7f0000000000)]

def variableNames : List String :=
  ["NIX_LD", "NIX_LD_x86_64_linux", "NIX_LD_LIBRARY_PATH", "NIX_LD_LIBRARY_PATH_x86_64_linux",
    "LD_LIBRARY_PATH", "NIX_LD_LOG"]

def encode (text : String) : Bytes := text.toUTF8.toList

def decode (text : Bytes) : String :=
  (String.fromUTF8? (ByteArray.mk text.toArray)).getD ""

def machine (block : StartupBlock) (files : List (Bytes × Node)) : Machine where
  memory := block.place stackPointer stringsAddress Memory.zero
  kernel := Kernel.initial (fun path => files.lookup path) [] arena
  heap := Heap.empty heapAddress (some heapSize)
  logFilter := LogFilter.default

def readEntry (name : String) : IO (Option String) := do
  return (← IO.getEnv name).map fun value => name ++ "=" ++ value

def readFile (path : String) : IO (Option (Bytes × Node)) := do
  try
    let contents ← IO.FS.readBinFile path
    return some (encode path, .regular contents.data)
  catch _ => return none

/-- The paths a value may name: itself, and itself without a newline. -/
def paths (value : String) : List String :=
  if value.endsWith "\n" then [value, (value.dropEnd 1).toString] else [value]

def conclude : Ending → IO UInt32
  | .exited status => return status
  | .aborted => return 134
  | .jumped registers => do
    IO.println ("entry point " ++ decode (Image.hex registers.entryPoint).flatten)
    return 0

end ElfRelay.DryRun

open ElfRelay ElfRelay.DryRun in
def main (arguments : List String) : IO UInt32 := do
  let environment := (← variableNames.mapM readEntry).filterMap id
  let values := (← ["NIX_LD_x86_64_linux", "NIX_LD"].mapM fun name => IO.getEnv name).filterMap id
  let files := (← (values.flatMap paths).mapM readFile).filterMap id
  let block : StartupBlock :=
    ⟨arguments.map fun argument => some (encode argument), environment.map encode, auxiliary⟩
  match (Loader.start imageAddress stackPointer).run (machine block files) with
  | .ok impossible _ => nomatch impossible
  | .error ending final =>
    IO.eprint (decode final.kernel.errorOutput)
    conclude ending
