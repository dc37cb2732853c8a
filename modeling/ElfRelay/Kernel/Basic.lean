import ElfRelay.Bytes
import ElfRelay.Address
/-! The operating system the program runs on: a file system, the open descriptors, an arena
for mappings, and for each system call the answers to the next calls of it that depart from
the rules, such as injected errors. Every call is seen from outside as an event. -/
namespace ElfRelay

structure MapRequest where
  address : UInt64
  length : UInt64
  protection : UInt64
  flags : UInt64
  descriptor : UInt32
  offset : UInt64
  deriving DecidableEq, Repr

namespace MapRequest

def privateCopy : UInt64 := 0x02
def fixedAddress : UInt64 := 0x10
def anonymousMemory : UInt64 := 0x20

/-- The descriptor of a mapping that has no file, -1. -/
def noDescriptor : UInt32 := 0xffffffff

def isFixed (request : MapRequest) : Bool := request.flags &&& fixedAddress != 0

def isAnonymous (request : MapRequest) : Bool := request.flags &&& anonymousMemory != 0

end MapRequest

inductive Event
  | openat (path : Bytes) (result : UInt64)
  | pread (descriptor : UInt32) (length : Nat) (offset result : UInt64)
  | close (descriptor : UInt32) (result : UInt64)
  | mmap (request : MapRequest) (result : UInt64)
  | munmap (address length result : UInt64)
  | execve (path : Bytes) (arguments environment : List Bytes) (result : UInt64)
  | write (descriptor : UInt32) (data : Bytes) (result : UInt64)
  | tgkill (process thread signal : UInt32) (result : UInt64)
  deriving DecidableEq, Repr

inductive SystemCall
  | openat
  | pread
  | close
  | mmap
  | munmap
  | execve
  | write
  | getpid
  | gettid
  | tgkill
  deriving DecidableEq, Repr

/-- How one call is answered: by the rules, with a given result and no effect,
or by the rules after its length has been cut. -/
inductive Answer
  | ordinary
  | fixed (result : UInt64)
  | atMost (length : Nat)
  deriving DecidableEq, Repr

/-- What a path names: a file that cannot be opened, a directory, or a
regular file. -/
inductive Node
  | refusing (code : UInt64)
  | directory
  | regular (contents : Array UInt8)
  deriving DecidableEq, Repr

structure Kernel where
  files : Bytes → Option Node
  descriptors : List (UInt32 × Node)
  nextDescriptor : Nat
  /-- The prepared answers to the next calls, by kind. -/
  answers : List (SystemCall × List Answer)
  arena : Region
  nextFree : UInt64
  /-- The calls made so far, the latest first. -/
  history : List Event
  /-- What standard error has received, write by write, the latest first. -/
  written : List Bytes

namespace Kernel

def initial (files : Bytes → Option Node) (answers : List (SystemCall × List Answer))
    (arena : Region) : Kernel where
  files
  descriptors := []
  nextDescriptor := 3
  answers
  arena
  nextFree := arena.address
  history := []
  written := []

def pending (k : Kernel) (call : SystemCall) : List Answer := (k.answers.lookup call).getD []

def answer (k : Kernel) (call : SystemCall) : Answer := ((k.pending call).head?).getD .ordinary

/-- The system after its next answer to a kind of call has been used up. -/
def answered (k : Kernel) (call : SystemCall) : Kernel :=
  { k with answers := k.answers.map fun entry =>
      if entry.1 = call then (entry.1, entry.2.tail) else entry }

theorem pending_answered (k : Kernel) (call other : SystemCall) :
    (k.answered call).pending other =
      if other = call then (k.pending other).tail else k.pending other := by
  obtain ⟨_, _, _, answers, _⟩ := k
  induction answers with
  | nil => simp [pending, answered]
  | cons entry answers ih =>
    simp only [pending, answered, List.map_cons] at ih ⊢
    by_cases here : entry.1 = call <;> by_cases found : other = entry.1 <;>
      grind

def trace (k : Kernel) : List Event := k.history.reverse

def record (k : Kernel) (event : Event) : Kernel := { k with history := event :: k.history }

theorem trace_record (k : Kernel) (event : Event) :
    (k.record event).trace = k.trace ++ [event] := by simp [trace, record]

def errorOutput (k : Kernel) : Bytes := k.written.reverse.flatten

def node? (k : Kernel) (descriptor : UInt32) : Option Node := k.descriptors.lookup descriptor

/-- The result that reports an error number. -/
def failure (code : UInt64) : UInt64 := 0 - code

def maxOffset : Nat := 0x7fffffffffffffff

def standardError : UInt32 := 2

end Kernel

end ElfRelay
