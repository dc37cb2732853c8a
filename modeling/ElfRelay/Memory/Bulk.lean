import ElfRelay.Memory
/-! Copying and comparing ranges of memory one byte at a time. A copy reads what earlier
steps of the same copy have written, so on overlapping ranges the direction matters: `move`
goes upwards exactly when the destination is at or below the source, and never reads a byte
it has already replaced. A comparison stops at the first pair of bytes that differs or when
none is left, and the order is read off the condition flags it leaves. -/
namespace ElfRelay.Memory

/-- Copies `length` bytes, the lowest first. -/
def copyUp (m : Memory) (destination source : UInt64) : Nat → Memory
  | 0 => m
  | length + 1 =>
    (m.set destination (m.read source)).copyUp (destination + 1) (source + 1) length

/-- Copies `length` bytes, the highest first. -/
def copyDown (m : Memory) (destination source : UInt64) : Nat → Memory
  | 0 => m
  | length + 1 =>
    let last := length.toUInt64
    (m.set (destination + last) (m.read (source + last))).copyDown destination source length

/-- Copies upwards whether or not the ranges overlap. Gives the destination
back, as `move` does. -/
def copy (m : Memory) (destination source : UInt64) (length : Nat) : UInt64 × Memory :=
  (destination, m.copyUp destination source length)

/-- Copies as if through a buffer, whether or not the ranges overlap. -/
def move (m : Memory) (destination source : UInt64) (length : Nat) : UInt64 × Memory :=
  if destination ≤ source then m.copy destination source length
  else (destination, m.copyDown destination source length)

end ElfRelay.Memory

namespace ElfRelay

/-- The flags of the processor that say how two unsigned numbers compare. -/
structure ConditionFlags where
  zero : Bool
  /-- Whether the last subtraction had to borrow. -/
  carry : Bool
  deriving DecidableEq, Repr

namespace ConditionFlags

def cleared : ConditionFlags := ⟨true, false⟩

def subtracted (left right : UInt8) : ConditionFlags := ⟨left - right == 0, left < right⟩

def above (flags : ConditionFlags) : Bool := !flags.carry && !flags.zero

/-- The order as a number: `above` is put into a cleared register and the borrow is taken
from it. -/
def order (flags : ConditionFlags) : Int32 := flags.above.toInt32 - flags.carry.toInt32

end ConditionFlags

namespace Memory

/-- The flags after up to `length` pairs of bytes have been compared, each one only if all
before it were the same. -/
def compareWhileEqual (m : Memory) (flags : ConditionFlags) (left right : UInt64) :
    Nat → ConditionFlags
  | 0 => flags
  | length + 1 =>
    let flags := ConditionFlags.subtracted (m.read left) (m.read right)
    if flags.zero then m.compareWhileEqual flags (left + 1) (right + 1) length else flags

/-- Zero when two ranges hold the same bytes; otherwise 1 or -1, as the first byte in which
they differ is greater or smaller on the left. -/
def compareBytes (m : Memory) (left right : UInt64) (length : Nat) : Int32 :=
  (m.compareWhileEqual .cleared left right length).order

/-- Not zero when two ranges differ in any byte. -/
def differ (m : Memory) (left right : UInt64) (length : Nat) : Int32 :=
  m.compareBytes left right length

end Memory
end ElfRelay
