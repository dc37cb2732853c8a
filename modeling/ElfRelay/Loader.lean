import ElfRelay.Elf.SelfRelocation
import ElfRelay.Image
import ElfRelay.LibraryPath
import ElfRelay.Memory.Terminated
/-! The loader: read the configuration, map the interpreter, hand on the library path, tell
the interpreter where it was loaded, and become it; or print a diagnostic and exit with
status 1. -/
namespace ElfRelay

inductive Handover
  /-- Nobody asked for an interpreter: start it as a program, with the path and
  the lists at these addresses. -/
  | execute (interpreter arguments environment : UInt64)
  /-- Go on as the interpreter, on the stack the system built. -/
  | jump (entryPoint stackPointer : UInt64) (image : Image)
  deriving DecidableEq, Repr

namespace Handover

def interpreterPath (handover : Handover) (m : Memory) : Option Bytes :=
  match handover with
  | execute interpreter _ _ => some (m.string interpreter)
  | jump _ _ _ => none

/-- Carries out the handover. Returns only if the interpreter could not be
started. The interpreter finds no exit handler in its registers. -/
def carryOut : Handover → Program LoadError
  | execute interpreter arguments environment => do
    let memory ← Program.inspect Machine.memory
    let result ← Program.callKernel
      (Kernel.execve (memory.string interpreter) (memory.strings arguments)
        (memory.strings environment))
    match Errno.ofResult result with
    | .error errno => return .cannotExecute errno
    | .ok _ => return .cannotExecute Errno.invalidArgument
  | jump entryPoint stackPointer _ => throw (.jumped ⟨entryPoint, stackPointer, 0, 0⟩)

end Handover
end ElfRelay

namespace ElfRelay.Loader

def applyLogLevel (configuration : Configuration) : Program Unit := do
  match configuration.logLevel with
  | some (.ok filter) => Program.setLogFilter filter
  | some (.error text) => Program.log .warn (ascii "Unknown log level " :: Utf8.lossy text)
  | none => return

/-- Opens and maps the interpreter. Its file is closed whether or not the
mapping succeeded. -/
def loadInterpreter (configuration : Configuration) : Program (Except LoadError Image) := do
  match ← Elf.Object.openPath configuration.interpreter.value with
  | .error error => return .error error
  | .ok object =>
    let image ← Image.build object configuration.pageSize
    object.file.close
    return image

/-- Decides how to hand over. A base address of zero says that this process was
started directly; any other is replaced by that of the interpreter. -/
def chooseHandover (process : StartupView) (configuration : Configuration) (image : Image) :
    Program Handover := do
  let auxiliary := process.auxiliaryVector
  match ← Program.inspect fun machine => auxiliary.get? machine.memory AuxiliaryVector.baseKey with
  | some base =>
    if base = 0 then
      Program.log .warn [ascii "executed directly, starting the interpreter with execve"]
      image.region.release
      return .execute configuration.interpreter.valueAddress process.arguments
        process.environment.slots
    Program.log .debug
      (ascii "AT_BASE " :: Image.hex base ++ ascii " -> " :: Image.hex image.loadBias)
    Program.changeMemory fun m => auxiliary.set m AuxiliaryVector.baseKey image.loadBias
  | none => Program.log .debug [ascii "no AT_BASE to patch"]
  return .jump image.entryPoint process.stackPointer image

def loadWith (process : StartupView) (configuration : Configuration) :
    Program (Except LoadError Handover) := do
  applyLogLevel configuration
  Program.log .debug
    (ascii "loading interpreter " :: Utf8.lossy configuration.interpreter.value)
  match ← loadInterpreter configuration with
  | .error error => return .error error
  | .ok image =>
    match ← LibraryPath.handOn configuration process.environment with
    | .error error =>
      image.region.release
      return .error error
    | .ok _ => return .ok (← chooseHandover process configuration image)

def load (process : StartupView) : Program (Except Diagnostic Handover) := do
  let memory ← Program.inspect Machine.memory
  match Configuration.read memory process with
  | .error error => return .error ⟨process.programName memory, none, error⟩
  | .ok configuration =>
    return (← loadWith process configuration).mapError configuration.diagnostic

end ElfRelay.Loader

namespace ElfRelay.Loader

def fail (diagnostic : Diagnostic) : Program α := do
  Program.writePieces Kernel.standardError (diagnostic.message ++ [ascii "\n"])
  Program.exit 1

/-- The whole program on the start-up block at `stackPointer`: become the
interpreter, or say why not and exit with status 1. -/
def run (stackPointer : UInt64) : Program Empty := do
  Program.setLogFilter LogFilter.default
  let process ← Program.inspect fun machine => StartupView.read machine.memory stackPointer
  let programName ← Program.inspect fun machine => process.programName machine.memory
  match ← load process with
  | .error diagnostic => fail diagnostic
  | .ok handover =>
    let path ← Program.inspect fun machine => handover.interpreterPath machine.memory
    let error ← handover.carryOut
    fail ⟨programName, path, error⟩

/-- Relocates the program's own image at `base`. Nothing can be said about an
image that cannot be relocated: it aborts. -/
def relocateOwnImage (base : UInt64) : Program Unit := do
  let memory ← Program.inspect Machine.memory
  let relocated := Elf.relocate base memory
  Program.changeMemory fun _ => relocated.memory
  if !relocated.complete then Program.abort

/-- The program from its entry point: its own image first, then the run. -/
def start (base stackPointer : UInt64) : Program Empty := do
  relocateOwnImage base
  run stackPointer

end ElfRelay.Loader
