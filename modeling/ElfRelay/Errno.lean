import ElfRelay.Bytes
/-! Error numbers of system calls. A call returns the negated number; every
result outside -4095 to -1, also an address in the upper half of the address
space, is a success. -/
namespace ElfRelay

structure Errno where
  code : UInt32
  deriving DecidableEq, Repr

namespace Errno

def noSuchFile : Errno := ⟨2⟩
def interrupted : Errno := ⟨4⟩
def invalidArgument : Errno := ⟨22⟩

def ofResult (result : UInt64) : Except Errno UInt64 :=
  if 0xfffffffffffff001 ≤ result then .error ⟨(0 - result).toUInt32⟩ else .ok result

/-- The description POSIX gives for an error number. -/
def description? (code : Nat) : Option String :=
  match code with
  | 1 => some "Operation not permitted"
  | 2 => some "No such file or directory"
  | 4 => some "Interrupted system call"
  | 5 => some "I/O error"
  | 6 => some "No such device or address"
  | 7 => some "Argument list too long"
  | 8 => some "Exec format error"
  | 9 => some "Bad file descriptor"
  | 11 => some "Resource temporarily unavailable"
  | 12 => some "Out of memory"
  | 13 => some "Permission denied"
  | 14 => some "Bad address"
  | 16 => some "Resource busy"
  | 19 => some "No such device"
  | 20 => some "Not a directory"
  | 21 => some "Is a directory"
  | 22 => some "Invalid argument"
  | 23 => some "Too many open files in system"
  | 24 => some "Too many open files"
  | 26 => some "Text file busy"
  | 27 => some "File too large"
  | 36 => some "Filename too long"
  | 40 => some "Symbolic link loop"
  | 75 => some "Value too large for data type"
  | _ => none

def message (errno : Errno) : List Bytes :=
  match description? errno.code.toNat with
  | some text => [ascii text]
  | none => [ascii "Unknown error: ", decimal errno.code.toNat]

end Errno
end ElfRelay
