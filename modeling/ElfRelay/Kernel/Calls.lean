import ElfRelay.Kernel.Basic
/-! The rules of the system calls that do not touch memory. Every call uses up
one answer; a fixed answer is returned as it is and changes nothing else. -/
namespace ElfRelay.Kernel

/-- Opens a path for reading. Descriptors are numbered upwards and never reused. -/
def openat (path : Bytes) (k : Kernel) : UInt64 × Kernel :=
  let after := k.answered .openat
  match k.answer .openat with
  | .fixed result => (result, after.record (.openat path result))
  | _ =>
    match k.files path with
    | none => (failure 2, after.record (.openat path (failure 2)))
    | some (.refusing code) => (failure code, after.record (.openat path (failure code)))
    | some node =>
      let result := k.nextDescriptor.toUInt64
      (result, { after with
        descriptors := (k.nextDescriptor.toUInt32, node) :: k.descriptors
        nextDescriptor := k.nextDescriptor + 1 }.record (.openat path result))

/-- What the rules say on a positional read of at most `length` bytes: the
result and the bytes stored. -/
def readAnswer (k : Kernel) (descriptor : UInt32) (length : Nat) (offset : UInt64) :
    UInt64 × Bytes :=
  match k.node? descriptor with
  | some (.regular contents) =>
    if maxOffset < offset.toNat then (failure 22, [])
    else
      let stored := (contents.extract offset.toNat (offset.toNat + length)).toList
      (stored.length.toUInt64, stored)
  | some _ => if maxOffset < offset.toNat then (failure 22, []) else (failure 21, [])
  | none => (failure 9, [])

/-- Reads at an offset. Besides the result gives the bytes stored. -/
def pread (descriptor : UInt32) (length : Nat) (offset : UInt64) (k : Kernel) :
    (UInt64 × Bytes) × Kernel :=
  let after := k.answered .pread
  let result := match k.answer .pread with
    | .fixed result => (result, [])
    | .atMost limit => k.readAnswer descriptor (min limit length) offset
    | .ordinary => k.readAnswer descriptor length offset
  (result, after.record (.pread descriptor length offset result.1))

def close (descriptor : UInt32) (k : Kernel) : UInt64 × Kernel :=
  let after := k.answered .close
  match k.answer .close with
  | .fixed result => (result, after.record (.close descriptor result))
  | _ =>
    match k.node? descriptor with
    | none => (failure 9, after.record (.close descriptor (failure 9)))
    | some _ =>
      (0, { after with
        descriptors := k.descriptors.filter fun entry => entry.1 != descriptor }.record
          (.close descriptor 0))

/-- What the rules say on unmapping. Memory keeps its contents. -/
def unmapAnswer (k : Kernel) (region : Region) : UInt64 :=
  if region.length = 0 || !k.arena.encloses region.address region.length then failure 22 else 0

def munmap (region : Region) (k : Kernel) : UInt64 × Kernel :=
  let result := match k.answer .munmap with
    | .fixed result => result
    | _ => k.unmapAnswer region
  (result, (k.answered .munmap).record (.munmap region.address region.length result))

/-- No program can be started here: a path either is not executable or does
not exist. -/
def execve (path : Bytes) (arguments environment : List Bytes) (k : Kernel) : UInt64 × Kernel :=
  let result := match k.answer .execve with
    | .fixed result => result
    | _ => if (k.files path).isSome then failure 13 else failure 2
  (result, (k.answered .execve).record (.execve path arguments environment result))

/-- Writes at most `limit` bytes of `data`; only standard error can be written to. -/
def writeUpTo (k : Kernel) (descriptor : UInt32) (data : Bytes) (limit : Nat) : UInt64 × Kernel :=
  if descriptor = standardError then
    let stored := data.take limit
    (stored.length.toUInt64, { k with written := stored :: k.written })
  else (failure 9, k)

def write (descriptor : UInt32) (data : Bytes) (k : Kernel) : UInt64 × Kernel :=
  let after := k.answered .write
  let outcome := match k.answer .write with
    | .fixed result => (result, after)
    | .atMost limit => after.writeUpTo descriptor data limit
    | .ordinary => after.writeUpTo descriptor data data.length
  (outcome.1, outcome.2.record (.write descriptor data outcome.1))

def getpid (k : Kernel) : UInt32 × Kernel :=
  let result := match k.answer .getpid with
    | .fixed result => result.toUInt32
    | _ => 4242
  (result, k.answered .getpid)

def gettid (k : Kernel) : UInt32 × Kernel :=
  let result := match k.answer .gettid with
    | .fixed result => result.toUInt32
    | _ => 4243
  (result, k.answered .gettid)

def tgkill (process thread signal : UInt32) (k : Kernel) : UInt64 × Kernel :=
  let result := match k.answer .tgkill with
    | .fixed result => result
    | _ => 0
  (result, (k.answered .tgkill).record (.tgkill process thread signal result))

end ElfRelay.Kernel
