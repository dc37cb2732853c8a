import ElfRelay.Proofs.LibraryPath.Configured
import ElfRelay.Proofs.Loader.HeapLimit
/-! How much memory a run takes at most, by its configuration. With this the conditions under
which a start-up block is safe from a run speak of what the run is given alone. -/
namespace ElfRelay

open Elf (Header ProgramHeader Object)
open Program (Heapless)

theorem Heap.HandedOut.near {before after : Heap} {address : UInt64} {bytes : Nat}
    (handed : before.HandedOut after address) (grown : after.used ≤ before.used + bytes) :
    (address - (before.base + before.used.toUInt64)).toNat < bytes := by
  obtain ⟨offset, low, high, rfl⟩ := handed
  obtain ⟨distance, rfl⟩ := Nat.exists_eq_add_of_le low
  have split : (before.used + distance).toUInt64 = before.used.toUInt64 + distance.toUInt64 :=
    UInt64.ofNat_add _ _
  have near : before.base + (before.used + distance).toUInt64 -
      (before.base + before.used.toUInt64) = distance.toUInt64 := by
    rw [split]
    grind
  have small : distance.toUInt64.toNat ≤ distance := Nat.mod_le _ _
  rw [near]
  omega

namespace Program

/-- Whether a program takes so many bytes at most, those that it skips included. -/
def Takes (bytes : Nat) (program : Program α) : Prop :=
  ∀ m, (program.last m).heap.used ≤ m.heap.used + bytes

variable {program : Program α} {first : Program β} {next : β → Program α} {bytes more : Nat}

theorem Takes.of_heapless (heapless : Heapless program) : Takes bytes program := by
  intro m
  rw [(heapless.run 0 m).2]
  exact Nat.le_add_right _ _

theorem Takes.pure (value : α) : Takes bytes (Pure.pure value) := .of_heapless (.pure value)

theorem Takes.mono (takes : Takes bytes program) (le : bytes ≤ more) : Takes more program :=
  fun m => Nat.le_trans (takes m) (Nat.add_le_add_left le _)

theorem Takes.bind (early : Takes bytes first) (rest : ∀ value, Takes more (next value)) :
    Takes (bytes + more) (first >>= next) := by
  intro m
  have taken := early m
  rw [last_bind]
  cases first.value? m with
  | none =>
    dsimp only
    omega
  | some value =>
    have late := rest value (first.last m)
    dsimp only
    omega

theorem Takes.after (heapless : Heapless first) (rest : ∀ value, Takes bytes (next value)) :
    Takes bytes (first >>= next) :=
  (Takes.bind (.of_heapless heapless) rest).mono (Nat.le_of_eq (Nat.zero_add bytes))

theorem Takes.before (early : Takes bytes first) (heapless : ∀ value, Heapless (next value)) :
    Takes bytes (first >>= next) :=
  (Takes.bind early fun value => .of_heapless (heapless value)).mono (Nat.le_of_eq (Nat.add_zero bytes))

theorem Takes.reserve (size : Nat) {align : Nat} (pos : 0 < align) :
    Takes (size + (align - 1)) (reserve size align) := by
  intro m
  obtain ⟨room, heap, ran, _, used, _⟩ := run_reserve size pos (m := m)
  have start := m.heap.start_le pos
  rw [last, ran]
  dsimp only
  omega

end Program

open Program (Takes)

namespace Elf.Object

theorem takes_openTrimmed (path : Bytes) :
    Takes (path.dropLast.length + 1) (openTrimmed path) := by
  refine .after (File.heapless_openPath path) fun opened => ?_
  cases opened with
  | ok file => exact .pure _
  | error errno =>
    dsimp only
    split
    · refine .before (.reserve _ (by decide)) fun room => ?_
      cases room with
      | none => exact .pure _
      | some _ => exact .bind (File.heapless_openPath _) fun _ => .pure _
    · exact .pure _

theorem takes_reserveHeaders (count : Nat) :
    Takes (count * ProgramHeader.size + 7) (reserveHeaders count) := by
  rw [reserveHeaders]
  split
  · exact .reserve _ (by decide)
  · exact .pure _

theorem takes_readProgramHeaders (file : File) (header : Header) :
    Takes (maxTableSize + (maxTableSize + 7)) (readProgramHeaders file header) := by
  rw [readProgramHeaders]
  dsimp only
  split
  · exact .pure _
  · next acceptable =>
    obtain ⟨_, small, wide⟩ : header.tableSize ≠ 0 ∧ header.tableSize ≤ maxTableSize ∧
        ProgramHeader.size ≤ header.phentsize.toNat := by omega
    -- The decoded headers are no larger than the table that they are read from.
    have rows : header.phnum.toNat * ProgramHeader.size ≤ maxTableSize :=
      Nat.le_trans (Nat.mul_le_mul_left _ wide) small
    refine .bind ((Takes.reserve _ (by decide)).mono small) fun room => ?_
    cases room with
    | none => exact .pure _
    | some _ =>
      refine .after (.of_coupled fun coupled => coupled.readFully _ _ _) fun answer => ?_
      obtain ⟨count, table⟩ := answer
      cases count with
      | error errno => exact .pure _
      | ok count =>
        dsimp only
        split
        · exact .pure _
        · refine .before ((takes_reserveHeaders _).mono (Nat.add_le_add_right rows 7)) fun room => ?_
          cases room <;> exact .pure _

theorem takes_ofFile (file : File) : Takes (maxTableSize + (maxTableSize + 7)) (ofFile file) := by
  refine .after (.of_coupled fun coupled => mirrors_readHeader coupled file) fun read => ?_
  cases read with
  | error error => exact .pure _
  | ok header => exact .before (takes_readProgramHeaders file header) fun _ => .pure _

def openUse (path : Bytes) : Nat :=
  path.dropLast.length + 1 + (maxTableSize + (maxTableSize + 7))

theorem takes_openPath (path : Bytes) : Takes (openUse path) (openPath path) := by
  refine .bind (takes_openTrimmed path) fun opened => ?_
  cases opened with
  | error error => exact .pure _
  | ok file =>
    refine .before (takes_ofFile file) fun object => ?_
    cases object with
    | error error => exact .bind (.of_coupled fun coupled => coupled.close file) fun _ => .pure _
    | ok object => exact .pure _

end Elf.Object

namespace LibraryPath

variable {environment : Environment} {supplementary existing : Variable}

theorem takes_leak (text : Bytes) : Takes (text.length + 1) (leak text) := by
  refine .before (.reserve _ (by decide)) fun room => ?_
  cases room with
  | none => exact .pure _
  | some _ =>
    refine .bind (fun _ _ => Program.Limits.changeMemory _) fun _ => ?_
    exact heapless_unless _ fun _ => .pure _

theorem takes_rename : Takes (entry supplementary.value).length (rename environment supplementary) := by
  refine .after (heapless_notice _ _) fun _ => .before (.reserve _ (by decide)) fun room => ?_
  cases room with
  | none => exact .pure _
  | some _ => exact .bind (heapless_overwrite _ _) fun _ => .pure _

theorem takes_append :
    Takes (appendRoom supplementary existing) (append environment supplementary existing) := by
  refine .after (heapless_notice _ _) fun _ => .bind (.reserve _ (by decide)) fun room => ?_
  cases room with
  | none => exact .pure _
  | some _ =>
    refine .before (takes_leak _) fun leaked => ?_
    cases leaked with
    | error error => exact .pure _
    | ok address => exact .bind (heapless_redirect _ _) fun _ => .pure _

theorem takes_handOn (configuration : Configuration) (environment : Environment) :
    Takes (room configuration) (handOn configuration environment) := by
  rw [handOn, room]
  cases configuration.supplementary with
  | none => exact .pure _
  | some supplementary =>
    refine .after heapless_expectPresent fun _ => ?_
    cases configuration.existing with
    | none => exact takes_rename
    | some existing => exact takes_append

end LibraryPath

namespace Loader

variable {process : StartupView} {configuration : Configuration} {m : Machine}

/-- What a run takes at most: for its interpreter's path and headers, and the library path. -/
def heapUse (configuration : Configuration) : Nat :=
  Object.openUse configuration.interpreter.value + LibraryPath.room configuration

theorem takes_fetch (configuration : Configuration) :
    Takes (Object.openUse configuration.interpreter.value) (fetch configuration) := by
  refine .after (heapless_announce configuration) fun _ => ?_
  refine .before (Object.takes_openPath _) fun opened => ?_
  cases opened with
  | error error => exact .pure _
  | ok object =>
    refine .bind (.of_coupled fun coupled => Image.mirrors_build coupled object _) fun image => ?_
    exact .bind (.of_coupled fun coupled => coupled.close object.file) fun _ => .pure _

theorem takes_loadWith (process : StartupView) (configuration : Configuration) :
    Takes (heapUse configuration) (loadWith process configuration) := by
  rw [loadWith_eq]
  refine .bind (takes_fetch configuration) fun fetched => ?_
  cases fetched with
  | error error => exact .pure _
  | ok image =>
    refine .before (LibraryPath.takes_handOn _ _) fun handed => ?_
    cases handed with
    | error error => exact .bind (.of_coupled fun coupled => coupled.release _) fun _ => .pure _
    | ok change => exact .bind (heapless_chooseHandover _ _ _) fun _ => .pure _

/-- The start-up block is as the system lays it out, where neither building the image reaches
nor the heap can grow to, and mapping calls fail if they do not follow the rules. -/
structure Secluded (process : StartupView) (m : Machine) : Prop where
  fails : m.kernel.OnlyFails .mmap
  low : m.kernel.arena.InUserSpace
  unaliased : process.Unaliased m.memory
  apart : ∀ address, process.Contains m.memory address → ¬ Reaches process m address
  beyond : ∀ configuration, Configuration.read m.memory process = .ok configuration →
    ∀ address, address = 0 ∨ process.Contains m.memory address →
      heapUse configuration ≤ (address - (m.heap.base + m.heap.used.toUInt64)).toNat

theorem Secluded.unused (secluded : Secluded process m) {address : UInt64}
    (reason : address = 0 ∨ process.Contains m.memory address) :
    ¬ m.heap.HandedOut ((load process).last m).heap address := by
  intro handed
  rw [last_load] at handed
  cases configured : Configuration.read m.memory process with
  | error error =>
    rw [configured] at handed
    obtain ⟨offset, low, high, _⟩ := handed
    exact absurd high (Nat.not_lt.mpr low)
  | ok configuration =>
    rw [configured] at handed
    have near := handed.near (takes_loadWith process configuration m)
    exact absurd near (Nat.not_lt.mpr (secluded.beyond configuration configured address reason))

/-- A block that was laid out clear of the image and of the memory that the heap may come to. -/
theorem Secluded.of_liesIn {block : StartupBlock} {stackPointer strings : UInt64} {bytes : Nat}
    (lies : block.LiesIn m.memory stackPointer strings) (fails : m.kernel.OnlyFails .mmap)
    (low : m.kernel.arena.InUserSpace) (image : ClearOfImage block stackPointer strings m)
    (use : ∀ configuration,
      Configuration.read m.memory (.read m.memory stackPointer) = .ok configuration →
        heapUse configuration ≤ bytes)
    (nonnull : m.heap.base ≠ 0) (fits : m.heap.base.toNat + (m.heap.used + bytes) ≤ UInt64.size)
    (heap : block.ClearOf stackPointer strings m.heap.base.toNat (m.heap.used + bytes)) :
    Secluded (.read m.memory stackPointer) m where
  fails := fails
  low := low
  unaliased := lies.unaliased
  apart _ := not_reaches_of_liesIn lies low image
  beyond configuration configured address reason := by
    refine Nat.le_trans (use configuration configured) ?_
    have used : m.heap.used.toUInt64.toNat = m.heap.used % UInt64.size := rfl
    have outside : address.toNat < m.heap.base.toNat ∨
        m.heap.base.toNat + (m.heap.used + bytes) ≤ address.toNat := by
      rcases reason with rfl | contains
      · exact .inl (Nat.pos_of_ne_zero fun null => nonnull (UInt64.toNat_inj.mp null))
      · exact lies.clear_of_contains heap contains
    have := address.toNat_lt
    have := m.heap.base.toNat_lt
    simp only [UInt64.toNat_sub, UInt64.toNat_add, used, UInt64.size] at *
    omega

end Loader
end ElfRelay
