import ElfRelay.Kernel.Transfer
import ElfRelay.LogLevel
import ElfRelay.Memory
import ElfRelay.Address
/-! The process the program runs in, and programs as steps on it. A program either returns a
value or ends the process: it exits, aborts, or hands control to the code at an entry point.
What it has done until then stays done. -/
namespace ElfRelay

/-- Memory handed out from a fixed arena and never taken back. A request gets the
first aligned address behind all earlier ones; one that does not fit takes nothing. -/
structure Heap where
  base : UInt64
  /-- The arena's size; `none` is an arena without end. -/
  capacity : Option Nat
  /-- How much of the arena has been handed out or skipped. -/
  used : Nat
  deriving DecidableEq, Repr

namespace Heap

def empty (base : UInt64) (capacity : Option Nat) : Heap := ⟨base, capacity, 0⟩

def start (heap : Heap) (align : Nat) : Nat :=
  roundUp (heap.base.toNat + heap.used) align - heap.base.toNat

def fits (heap : Heap) (stop : Nat) : Bool :=
  match heap.capacity with
  | some capacity => stop ≤ capacity
  | none => true

def allocate? (heap : Heap) (size align : Nat) : Option (Nat × Heap) :=
  let start := heap.start align
  if heap.fits (start + size) then some (start, { heap with used := start + size }) else none

def release (heap : Heap) (_offset : Nat) : Heap := heap

end Heap

structure Machine where
  /-- Every address can be read and written: no page is ever absent. So a program that
  returns here may still be stopped by the system where it touches a page without backing,
  such as one of a file mapping that lies wholly behind the end of the file. -/
  memory : Memory
  kernel : Kernel
  heap : Heap
  logFilter : LogFilter

structure Registers where
  entryPoint : UInt64
  stackPointer : UInt64
  framePointer : UInt64
  exitHandler : UInt64
  deriving DecidableEq, Repr

inductive Ending
  | exited (status : UInt32)
  | aborted
  | jumped (registers : Registers)
  deriving DecidableEq, Repr

abbrev Program := EStateM Ending Machine

namespace Program

def inspect (view : Machine → α) : Program α := do return view (← get)

def callKernel (call : Kernel → α × Kernel) : Program α :=
  modifyGet fun machine =>
    let answered := call machine.kernel
    (answered.1, { machine with kernel := answered.2 })

def changeMemory (change : Memory → Memory) : Program Unit :=
  modify fun machine => { machine with memory := change machine.memory }

def exit (status : UInt32) : Program α := throw (.exited status)

def raiseSignal (signal : UInt32) : Program UInt64 := do
  let process ← callKernel Kernel.getpid
  let thread ← callKernel Kernel.gettid
  callKernel (Kernel.tgkill process thread signal)

/-- Ends the process on the spot: nothing is closed or unmapped. The call that
sends the signal does not return. -/
def abort : Program α := do
  let _ ← callKernel Kernel.getpid
  let _ ← callKernel Kernel.gettid
  callKernel fun k => ((), k.answered .tgkill)
  throw .aborted

/-- Which end of a range an index was. -/
inductive RangeEnd
  | start
  | stop
  deriving DecidableEq, Repr

def RangeEnd.text : RangeEnd → Bytes
  | start => ascii "range start index "
  | stop => ascii "range end index "

/-- The file, the line and the column of the index, which depend on the build. -/
def place : List Bytes := [ascii "?", ascii ":", ascii "?", ascii ":", ascii "?"]

/-- What is said about an index that was out of range because of an overrun. -/
def overrunMessage (index : RangeEnd) (excess : Kernel.Overrun) : List Bytes :=
  [ascii "[nix-ld] FATAL: ", ascii "panicked at "] ++ place ++
    [ascii ":\n", index.text, decimal excess.claimed,
      ascii " out of range for slice of length ", decimal excess.asked, ascii "\n"]

/-- Says that an index was out of range. When the system claims too much for a
piece of this text too, the rest of the piece starts out of range: the text ends there
and another is begun. Each time takes one of the system's prepared answers, which
bounds their number. -/
def announceOverrun : Nat → RangeEnd → Kernel.Overrun → Kernel → Kernel
  | 0, _, _, k => k
  | bound + 1, index, excess, k =>
    match k.deliverPieces Kernel.standardError (overrunMessage index excess) with
    | (some next, after) => announceOverrun bound .start next after
    | (none, after) => after

def failRange (index : RangeEnd) (excess : Kernel.Overrun) : Program α := do
  callKernel fun k => ((), announceOverrun ((k.pending .write).length + 1) index excess k)
  abort

/-- Writes pieces to a descriptor, each as far as it can be written. -/
def writePieces (descriptor : UInt32) (pieces : List Bytes) : Program Unit := do
  match ← callKernel (Kernel.deliverPieces descriptor pieces) with
  | some excess => failRange .start excess
  | none => return

/-- Pieces between two others that are written in one with the first and the
last of them. -/
def enclose (before after : Bytes) : List Bytes → List Bytes
  | [] => [before ++ after]
  | [piece] => [before ++ piece ++ after]
  | piece :: pieces => (before ++ piece) :: pieces.dropLast ++ [pieces.getLastD [] ++ after]

/-- A broken invariant: a message and an abort. -/
def abortWith (message : List Bytes) : Program α := do
  writePieces Kernel.standardError (enclose (ascii "[nix-ld] FATAL: ") (ascii "\n") message)
  abort

def setLogFilter (filter : LogFilter) : Program Unit :=
  modify fun machine => { machine with logFilter := filter }

def log (level : LogLevel) (message : List Bytes) : Program Unit := do
  let filter ← inspect Machine.logFilter
  if filter.enables level then writePieces Kernel.standardError (level.line message)

/-- Takes memory from the heap and gives its address, or nothing when there is
no room left. An empty request takes nothing and cannot fail. -/
def reserve (size align : Nat) : Program (Option UInt64) :=
  modifyGet fun machine =>
    if size = 0 then (some machine.heap.base, machine)
    else
      match machine.heap.allocate? size align with
      | some (start, heap) =>
        (some (machine.heap.base + start.toUInt64), { machine with heap := heap })
      | none => (none, machine)

end Program

end ElfRelay
