import ElfRelay.Elf.Object
import ElfRelay.Proofs.Heap
/-! How far opening an object gets. It consists of calls on files, reservations of
memory and output, so a relation that each of these keeps is kept by all of it,
whether the object opens or not. -/
namespace ElfRelay

open Elf (Header)

namespace Machine

/-- A relation that reading one file keeps: every single read of it, and every
reservation and output. -/
structure KeptByReads (step : Machine → Machine → Prop) (descriptor : UInt32) : Prop
    extends KeptByOutput step where
  pread : ∀ (m : Machine) (length : Nat) (offset : UInt64),
    step m { m with kernel := (Kernel.pread descriptor length offset m.kernel).2 }
  heap : ∀ (m : Machine) (heap : Heap), m.heap.Later heap → step m { m with heap := heap }

/-- A relation that reading files keeps, and opening and closing them. -/
structure KeptByFiles (step : Machine → Machine → Prop) : Prop where
  reads : ∀ descriptor, KeptByReads step descriptor
  openat : ∀ (m : Machine) (path : Bytes),
    step m { m with kernel := (Kernel.openat path m.kernel).2 }
  close : ∀ (m : Machine) (descriptor : UInt32),
    step m { m with kernel := (Kernel.close descriptor m.kernel).2 }

variable {step : Machine → Machine → Prop} [IsPreorder Machine step]

theorem KeptByReads.readFrom {descriptor : UInt32} (kept : KeptByReads step descriptor)
    (m : Machine) (offset : UInt64) (bound : Nat) (reading : Kernel.Reading) (k : Kernel) :
    step { m with kernel := k }
      { m with kernel := (Kernel.readFrom descriptor offset bound reading k).2 } := by
  induction bound generalizing reading k with
  | zero => exact refl_of step _
  | succ bound ih =>
    have first := kept.pread { m with kernel := k } (reading.buffer.length - reading.filled)
      (offset + reading.filled.toUInt64)
    rw [Kernel.readFrom]
    split
    · exact refl_of step _
    · dsimp only
      split
      · split
        · exact trans_of step first (ih _ _)
        · exact first
      · split
        · exact first
        · exact trans_of step first (ih _ _)

end Machine

variable {step : Machine → Machine → Prop} [IsPreorder Machine step]

namespace File

theorem within_openPath (kept : Machine.KeptByFiles step) (path : Bytes) :
    Program.Within step (openPath path) :=
  .bind (fun m => kept.openat m path) fun _ => .pure _

theorem within_close (kept : Machine.KeptByFiles step) (file : File) :
    Program.Within step file.close :=
  .bind (fun m => kept.close m _) fun _ => .pure ()

theorem within_readFully {file : File} (kept : Machine.KeptByReads step file.descriptor)
    (buffer : Bytes) (offset : UInt64) : Program.Within step (file.readFully buffer offset) :=
  fun m => kept.readFrom m _ _ _ m.kernel

end File

namespace Elf.Object

theorem within_openTrimmed (kept : Machine.KeptByFiles step) (path : Bytes) :
    Program.Within step (openTrimmed path) := by
  refine .bind (File.within_openPath kept path) fun opened => ?_
  cases opened with
  | ok file => exact .pure _
  | error errno =>
    dsimp only
    split
    · refine .bind (Program.within_reserve (kept.reads 0).heap _ (by decide)) fun room => ?_
      cases room with
      | none => exact .pure _
      | some _ => exact .bind (File.within_openPath kept _) fun _ => .pure _
    · exact .pure _

theorem within_readHeader {file : File} (kept : Machine.KeptByReads step file.descriptor) :
    Program.Within step (readHeader file) := by
  refine .bind (File.within_readFully kept _ _) fun answer => ?_
  obtain ⟨count, bytes⟩ := answer
  cases count with
  | error errno => exact .pure _
  | ok count =>
    dsimp only
    split
    · refine .bind (Program.within_failRange kept.toKeptByOutput _ _) fun _ => ?_
      split <;> exact .pure _
    · split <;> exact .pure _

theorem within_reserveHeaders {descriptor : UInt32}
    (kept : Machine.KeptByReads step descriptor) (count : Nat) :
    Program.Within step (reserveHeaders count) := by
  rw [reserveHeaders]
  split
  · exact Program.within_reserve kept.heap _ (by decide)
  · exact .pure _

theorem within_readProgramHeaders {file : File}
    (kept : Machine.KeptByReads step file.descriptor) (header : Header) :
    Program.Within step (readProgramHeaders file header) := by
  rw [readProgramHeaders]
  dsimp only
  split
  · exact .pure _
  · refine .bind (Program.within_reserve kept.heap _ (by decide)) fun room => ?_
    cases room with
    | none => exact .pure _
    | some _ =>
      refine .bind (File.within_readFully kept _ _) fun answer => ?_
      obtain ⟨count, table⟩ := answer
      cases count with
      | error errno => exact .pure _
      | ok count =>
        dsimp only
        split
        · exact .pure _
        · refine .bind (within_reserveHeaders kept _) fun room => ?_
          cases room with
          | none => exact .pure _
          | some _ => exact .pure _

theorem within_ofFile {file : File} (kept : Machine.KeptByReads step file.descriptor) :
    Program.Within step (ofFile file) := by
  refine .bind (within_readHeader kept) fun read => ?_
  cases read with
  | error error => exact .pure _
  | ok header => exact .bind (within_readProgramHeaders kept header) fun _ => .pure _

theorem within_openPath (kept : Machine.KeptByFiles step) (path : Bytes) :
    Program.Within step (openPath path) := by
  refine .bind (within_openTrimmed kept path) fun opened => ?_
  cases opened with
  | error error => exact .pure _
  | ok file =>
    refine .bind (within_ofFile (kept.reads _)) fun object => ?_
    split
    · exact .pure _
    · exact .bind (File.within_close kept file) fun _ => .pure _

theorem ofFile_file {file : File} {object : Object} {m : Machine}
    (returned : (ofFile file).value? m = some (.ok object)) : object.file = file := by
  rw [ofFile] at returned
  obtain ⟨read, _, returned⟩ := Program.value?_bind_eq_some.mp returned
  cases read with
  | error error => cases returned
  | ok header =>
    obtain ⟨table, _, returned⟩ := Program.value?_bind_eq_some.mp returned
    cases table with
    | error error => cases returned
    | ok programHeaders =>
      cases returned
      rfl

end Elf.Object
end ElfRelay
