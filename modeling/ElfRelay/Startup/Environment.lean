import ElfRelay.Machine
import ElfRelay.Memory.Terminated
/-! The environment of the start-up block, viewed in place: a fixed number of
slots, each a pointer to a string `NAME=VALUE`. A string can be overwritten
within its storage, or its slot pointed at another string. -/
namespace ElfRelay

/-- A variable as it read when it was looked up. -/
structure Variable where
  slot : Nat
  name : Bytes
  value : Bytes
  valueAddress : UInt64
  deriving DecidableEq, Repr

structure Environment where
  slots : UInt64
  count : Nat
  deriving DecidableEq, Repr

def equalsSign : UInt8 := 61

/-- An entry split at its first `=`. An entry without one defines nothing. -/
def splitEntry (entry : Bytes) : Option (Bytes × Bytes) :=
  if equalsSign ∈ entry then
    some (entry.takeWhile (· != equalsSign), (entry.dropWhile (· != equalsSign)).drop 1)
  else none

namespace Environment

/-- The environment whose slots start at an address and end before a null one. -/
def ofAddress (m : Memory) (slots : UInt64) : Environment := ⟨slots, m.pointerCount slots⟩

def isEmpty (environment : Environment) : Bool := environment.count == 0

def slotAddress (environment : Environment) (slot : Nat) : UInt64 :=
  environment.slots + 8 * slot.toUInt64

def entryAddress (environment : Environment) (m : Memory) (slot : Nat) : UInt64 :=
  m.wordAt environment.slots slot

def entry (environment : Environment) (m : Memory) (slot : Nat) : Bytes :=
  m.string (environment.entryAddress m slot)

def entries (environment : Environment) (m : Memory) : List Bytes :=
  (List.range environment.count).map (environment.entry m)

def get? (environment : Environment) (m : Memory) (slot : Nat) : Option Variable :=
  if slot < environment.count then
    (splitEntry (environment.entry m slot)).map fun (name, value) =>
      { slot, name, value
        valueAddress := environment.entryAddress m slot + (name.length + 1).toUInt64 }
  else none

def bindings (environment : Environment) (m : Memory) : List Variable :=
  (List.range environment.count).filterMap (environment.get? m)

def find? (environment : Environment) (m : Memory) (name : Bytes) : Option Variable :=
  (environment.bindings m).find? (·.name == name)

def outOfRange (slot : Nat) : List Bytes :=
  [ascii "environment slot ", decimal slot, ascii " out of range"]

/-- Copies a string over the one at a slot, which may not be shorter. -/
def overwrite (environment : Environment) (slot : Nat) (entry : Bytes) : Program Unit := do
  if environment.count ≤ slot then Program.abortWith (outOfRange slot)
  let current ← Program.inspect fun machine => environment.entry machine.memory slot
  if current.length < entry.length then
    Program.abortWith [ascii "rewritten environment entry outgrows its storage (",
      decimal entry.length, ascii " > ", decimal current.length, ascii ")"]
  Program.changeMemory fun m => m.writeString (environment.entryAddress m slot) entry

def redirect (environment : Environment) (slot : Nat) (entry : UInt64) : Program Unit := do
  if environment.count ≤ slot then Program.abortWith (outOfRange slot)
  Program.changeMemory fun m => m.writeWord (environment.slotAddress slot) entry

end Environment
end ElfRelay
