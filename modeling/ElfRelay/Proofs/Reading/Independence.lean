import ElfRelay.Proofs.Elf.Acceptance
import ElfRelay.Proofs.Mirroring
/-! Reading does not depend on the schedule of the system's answers. Under all schedules that
get what the file holds, a read comes to the same answer, so reading an object does too. -/
namespace ElfRelay

open Program (Bond Mirrors)

variable {m : Machine} {file : File} {contents : Array UInt8} {failures : Errno → Prop}
  {offset : UInt64}

def Machine.providing (file : File) (contents : Array UInt8) : Bond where
  related m n := n = { m with kernel := n.kernel } ∧
    m.kernel.Provides file.descriptor contents ∧ n.kernel.Provides file.descriptor contents
  mayEnd _ := False

open Machine (providing)

theorem File.mirrors_readFully (buffer : Bytes) (offset : UInt64) :
    Mirrors (providing file contents) (file.readFully buffer offset)
      (file.readFully buffer offset) := by
  refine .modifyGet fun m n ⟨same, one, two⟩ => ?_
  obtain ⟨answer, still, later⟩ := Kernel.readFully_settled one two buffer offset
  refine ⟨answer, ?_, still, later⟩
  rw [same]

theorem Program.mirrors_reserve_providing (size align : Nat) :
    Mirrors (providing file contents) (reserve size align) (reserve size align) := by
  refine .modifyGet fun m n ⟨same, one, two⟩ => ?_
  have heap : n.heap = m.heap := by rw [same]
  rw [heap]
  split
  · exact ⟨rfl, same, one, two⟩
  · cases m.heap.allocate? size align with
    | none => exact ⟨rfl, same, one, two⟩
    | some taken => exact ⟨rfl, by rw [same], one, two⟩

namespace Elf.Object

theorem mirrors_readHeader_providing :
    Mirrors (providing file contents) (readHeader file) (readHeader file) := by
  intro m n ⟨same, one, two⟩
  obtain ⟨after, read, still, _⟩ := run_readHeader one
  obtain ⟨last, reread, later, _⟩ := run_readHeader two
  rw [read, reread]
  refine .returned ⟨?_, still, later⟩
  rw [same]

/-- What is read of an object is settled by its file, up to the memory there is for it. -/
theorem ofFile_settled {k l : Kernel} (one : k.Provides file.descriptor contents)
    (two : l.Provides file.descriptor contents) :
    (ofFile file).value? { m with kernel := l } = (ofFile file).value? { m with kernel := k } := by
  have mirrors : Mirrors (providing file contents) (ofFile file) (ofFile file) :=
    mirrors_ofFile File.mirrors_readFully
      (fun size _ _ => Program.mirrors_reserve_providing size _) mirrors_readHeader_providing
  exact mirrors.value? ⟨rfl, one, two⟩

end Elf.Object

/-- A read of a regular file comes to its end under every schedule that lets each call be
interrupted, fail, or get any number of the bytes that are left. If no call fails, it gives
what the file holds at the offset, as far as the buffer reaches, and leaves the rest of the
buffer alone; otherwise it ends at the first call that has failed, with the error of that call.
So under all schedules without failures, one and the same object is read of the file. Neither
a file nor a buffer has more bytes than the last offset. -/
theorem File.readFully_any_schedule
    (serves : m.kernel.Serves file.descriptor contents failures) (buffer : Bytes)
    (low : offset.toNat ≤ Kernel.maxOffset)
    (fits : min buffer.length (contents.size - offset.toNat) ≤ Kernel.maxOffset) :
    (∃ answer after calls,
      file.readFully buffer offset m = .ok answer { m with kernel := after } ∧
      Kernel.Finishes file.descriptor offset ⟨buffer, 0⟩ m.kernel (answer, after) ∧
      after.trace = m.kernel.trace ++ calls ∧
      Kernel.Gathers contents.toList offset.toNat buffer
        (min buffer.length (contents.size - offset.toNat)) failures calls answer) ∧
    ∀ k l : Kernel, k.Provides file.descriptor contents → l.Provides file.descriptor contents →
      (Elf.Object.ofFile file).value? { m with kernel := l } =
        (Elf.Object.ofFile file).value? { m with kernel := k } := by
  refine ⟨?_, fun k l one two => Elf.Object.ofFile_settled one two⟩
  have completes := Kernel.readFully_completes serves low rfl fits
  rcases called : Kernel.readFully file.descriptor buffer offset m.kernel with ⟨answer, after⟩
  rw [called] at completes
  obtain ⟨finishes, _, calls, trace, gathers⟩ := completes
  rw [Kernel.Reading.partway, filled_zero] at finishes
  exact ⟨answer, after, calls, run_readFully called, finishes, trace, gathers⟩

/-- A machine with a file of five bytes open, whose first and third call are interrupted, and
whose others are short. -/
def interruptedMachine : Machine where
  memory := .zero
  kernel := { Kernel.initial (fun _ => none)
      [(.pread, [.fixed (Kernel.failure 4), .atMost 2, .fixed (Kernel.failure 4), .atMost 1])]
      ⟨0x10000000, 0x1000⟩ with descriptors := [(3, .regular #[1, 2, 3, 4, 5])] }
  heap := .empty 0x100000 none
  logFilter := none

theorem File.readFully_interruptedMachine :
    interruptedMachine.kernel.Serves 3 #[1, 2, 3, 4, 5] (fun _ => False) ∧
      ((File.mk 3).readFully (List.replicate 6 0) 1).value? interruptedMachine =
        some (.ok 4, [2, 3, 4, 5, 0, 0]) := by
  have serves : interruptedMachine.kernel.Serves (File.mk 3).descriptor #[1, 2, 3, 4, 5]
      (fun _ => False) := by
    refine ⟨rfl, fun answer member => ?_, .inl (by decide)⟩
    have pending : interruptedMachine.kernel.pending .pread =
        [.fixed (Kernel.failure 4), .atMost 2, .fixed (Kernel.failure 4), .atMost 1] := rfl
    rw [pending] at member
    have interrupted : (Answer.fixed (Kernel.failure 4)).Serves (fun _ => False) :=
      ⟨Errno.interrupted, rfl, .inl rfl⟩
    simp only [List.mem_cons, List.not_mem_nil, or_false] at member
    obtain rfl | rfl | rfl | rfl := member
    · exact interrupted
    · exact (by decide : 0 < 2)
    · exact interrupted
    · exact (by decide : 0 < 1)
  obtain ⟨⟨answer, after, calls, ran, _, _, gathers⟩, _⟩ :=
    File.readFully_any_schedule serves (List.replicate 6 0)
      (by decide : (1 : UInt64).toNat ≤ Kernel.maxOffset) (by decide)
  refine ⟨serves, ?_⟩
  rw [Program.value?_of_eq_ok ran, gathers.eq_whole]
  rfl

end ElfRelay
