import ElfRelay.Errno
import ElfRelay.Kernel.Calls
import ElfRelay.Address
/-! Whole transfers over calls that may do less than they are asked. A read
goes on until its buffer is full or the file ends, a write until everything is
written or a call stores nothing. -/
namespace ElfRelay.Kernel

/-- A positional read in progress: the buffer and how much of it counts as
filled, a number that fits a word. A system that claims to have read more than it
was asked leaves `filled` above the buffer's length. -/
structure Reading where
  buffer : Bytes
  filled : Nat
  deriving DecidableEq, Repr

/-- Reads into a buffer from `offset` on, for at most `bound` calls. Interrupted
calls are repeated. -/
def readFrom (descriptor : UInt32) (offset : UInt64) :
    Nat → Reading → Kernel → (Except Errno Nat × Bytes) × Kernel
  | 0, reading, k => ((.ok reading.filled, reading.buffer), k)
  | bound + 1, reading, k =>
    if reading.buffer.length ≤ reading.filled then ((.ok reading.filled, reading.buffer), k)
    else
      let ((result, stored), after) :=
        k.pread descriptor (reading.buffer.length - reading.filled)
          (offset + reading.filled.toUInt64)
      let buffer := splice reading.buffer reading.filled stored
      match Errno.ofResult result with
      | .error errno =>
        if errno = Errno.interrupted then
          readFrom descriptor offset bound ⟨buffer, reading.filled⟩ after
        else ((.error errno, buffer), after)
      | .ok count =>
        if count = 0 then ((.ok reading.filled, buffer), after)
        else
          readFrom descriptor offset bound
            ⟨buffer, (reading.filled + count.toNat) % UInt64.size⟩ after

/-- Reads until `buffer` is full or the file ends. Gives how many bytes count
as read, or the error, and the buffer. Only a call that stores a byte or uses
up a prepared answer goes on to another call, which bounds their number. -/
def readFully (descriptor : UInt32) (buffer : Bytes) (offset : UInt64) (k : Kernel) :
    (Except Errno Nat × Bytes) × Kernel :=
  readFrom descriptor offset ((k.pending .pread).length + buffer.length) ⟨buffer, 0⟩ k

/-- A call that claims to have done more than it was asked. -/
structure Overrun where
  claimed : Nat
  asked : Nat
  deriving DecidableEq, Repr

inductive Delivery
  | complete
  | refused
  | overrun (excess : Overrun)
  deriving DecidableEq, Repr

/-- Writes a byte string in as many calls as it takes. What a call has stored
is at least the first byte of what it was given. -/
def deliver (descriptor : UInt32) (bytes : Bytes) (k : Kernel) : Delivery × Kernel :=
  match bytes with
  | [] => (.complete, k)
  | first :: rest =>
    let (result, after) := k.write descriptor (first :: rest)
    if signed result ≤ 0 then (.refused, after)
    else if rest.length + 1 < result.toNat then
      (.overrun ⟨result.toNat, rest.length + 1⟩, after)
    else deliver descriptor (rest.drop (result.toNat - 1)) after
termination_by bytes.length
decreasing_by simp only [List.length_drop, List.length_cons]; omega

/-- Writes pieces one after the other, whatever becomes of the earlier ones,
up to the first overrun, which it gives. -/
def deliverPieces (descriptor : UInt32) : List Bytes → Kernel → Option Overrun × Kernel
  | [], k => (none, k)
  | piece :: pieces, k =>
    match k.deliver descriptor piece with
    | (.overrun excess, after) => (some excess, after)
    | (_, after) => deliverPieces descriptor pieces after

end ElfRelay.Kernel
