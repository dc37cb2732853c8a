import ElfRelay.Proofs.Block
import ElfRelay.Proofs.Elf.Encoding
import ElfRelay.Proofs.Elf.Opening
import ElfRelay.Proofs.Image.Frame
import ElfRelay.Proofs.Loader.Phases
/-! A run that cannot load the interpreter leaves the start-up block as it was, if building the
image does not reach the block: everything before the library path is handed on changes memory
only there, and handing it on changes memory only as its very last act, when nothing can fail
any more. -/
namespace ElfRelay

open Elf (Header ProgramHeader Object)

namespace Kernel.KeepsMaps

theorem openat (k : Kernel) (path : Bytes) : k.KeepsMaps (Kernel.openat path k).2 := by
  have used : k.KeepsMaps (k.answered .openat) := answered k (by decide)
  rw [Kernel.openat]
  cases k.answer .openat with
  | fixed result => exact ⟨used.arena, used.nextFree, used.pending⟩
  | _ =>
    dsimp only
    split <;> exact ⟨used.arena, used.nextFree, used.pending⟩

theorem close (k : Kernel) (descriptor : UInt32) : k.KeepsMaps (Kernel.close descriptor k).2 := by
  have used : k.KeepsMaps (k.answered .close) := answered k (by decide)
  rw [Kernel.close]
  cases k.answer .close with
  | fixed result => exact ⟨used.arena, used.nextFree, used.pending⟩
  | _ =>
    dsimp only
    split <;> exact ⟨used.arena, used.nextFree, used.pending⟩

theorem pread (k : Kernel) (descriptor : UInt32) (length : Nat) (offset : UInt64) :
    k.KeepsMaps (Kernel.pread descriptor length offset k).2 := by
  have used : k.KeepsMaps (k.answered .pread) := answered k (by decide)
  exact ⟨used.arena, used.nextFree, used.pending⟩

end Kernel.KeepsMaps

theorem Machine.MapsNothing.kept : KeptByFiles MapsNothing where
  openat m path := ⟨rfl, .openat m.kernel path⟩
  close m descriptor := ⟨rfl, .close m.kernel descriptor⟩
  reads descriptor := {
    answered := fun m _ output => (Wrote.kept.answered m output).mapsNothing
    write := fun m descriptor data => (Wrote.kept.write m descriptor data).mapsNothing
    pread := fun m length offset => ⟨rfl, .pread m.kernel descriptor length offset⟩
    heap := fun _ _ _ => ⟨rfl, rfl, rfl, rfl⟩ }

namespace Loader

open Machine (MapsNothing)

variable {process : StartupView} {configuration : Configuration} {m : Machine} {address : UInt64}

/-- Whether a run may write to an address when it builds the image of its interpreter. -/
def Reaches (process : StartupView) (m : Machine) (address : UInt64) : Prop :=
  ∃ configuration object, Accepts process m configuration object ∧
    Image.Reaches m.kernel object configuration.pageSize address

theorem mapsNothing_announce (configuration : Configuration) :
    Program.Within MapsNothing (announce configuration) :=
  within_announce (MapsNothing.kept.reads 0).toKeptByOutput (fun _ _ => ⟨rfl, rfl, rfl, rfl⟩)
    configuration

/-- However fetching the interpreter ends, memory is unchanged where its image does not reach. -/
theorem fetch_keeps (configured : Configuration.read m.memory process = .ok configuration)
    (fails : m.kernel.OnlyFails .mmap) (low : m.kernel.arena.InUserSpace)
    (outside : ¬ Reaches process m address) :
    ((fetch configuration).last m).memory.read address = m.memory.read address := by
  have announced := mapsNothing_announce configuration m
  have opened : MapsNothing m ((Object.openPath configuration.interpreter.value).last
      ((announce configuration).last m)) :=
    trans_of _ announced (Object.within_openPath MapsNothing.kept _ _)
  rw [fetch, Program.last_bind]
  cases (announce configuration).value? m with
  | none => rw [announced.memory]
  | some _ =>
    dsimp only
    rw [loadInterpreter, Program.last_bind]
    cases found : (Object.openPath configuration.interpreter.value).value?
        ((announce configuration).last m) with
    | none => rw [opened.memory]
    | some outcome =>
      cases outcome with
      | error error => exact congrArg (·.read address) opened.memory
      | ok object =>
        have outside : ¬ Image.Reaches m.kernel object configuration.pageSize address :=
          fun reaches => outside ⟨configuration, object, ⟨configured, found⟩, reaches⟩
        rw [← Image.reaches_congr opened.kernel] at outside
        have built := Image.build_keeps (opened.kernel.onlyFails fails)
          (opened.kernel.arena.symm ▸ low) outside
        -- Opening and closing the file do not write, so only building counts.
        refine Eq.trans ?_ (built.trans (congrArg (·.read address) opened.memory))
        refine congrArg (·.read address) (MapsNothing.memory (Program.Within.rest (fun image => ?_) _))
        exact .bind (File.within_close MapsNothing.kept object.file) fun _ => .pure image

theorem settle_fails {image : Image} {error : LoadError}
    (failed : (settle process configuration image).value? m = some (.error error)) :
    ((settle process configuration image).last m).memory = m.memory := by
  rw [settle] at failed ⊢
  obtain ⟨handed, outcome, failed⟩ := Program.value?_bind_eq_some.mp failed
  rw [Program.last_bind_of_value _ outcome]
  cases handed with
  -- Releasing the image changes the system, not memory.
  | error error => exact LibraryPath.handOn_fails outcome
  | ok change =>
    obtain ⟨_, _, failed⟩ := Program.value?_bind_eq_some.mp failed
    cases failed

theorem loadWith_fails {error : LoadError}
    (failed : (loadWith process configuration).value? m = some (.error error)) :
    ((loadWith process configuration).last m).memory = ((fetch configuration).last m).memory := by
  rw [loadWith_eq] at failed ⊢
  obtain ⟨fetched, found, failed⟩ := Program.value?_bind_eq_some.mp failed
  rw [Program.last_bind_of_value _ found]
  cases fetched with
  | error error => rfl
  | ok image => exact settle_fails failed

/-- A run that fails, at whatever call or reservation, has changed memory only where it may
have written when it built the image. So it leaves every word of the start-up block and every
string of the environment as they were if building the image does not reach these. -/
theorem load_fails_keeps_block {stackPointer : UInt64} {diagnostic : Diagnostic}
    (failed : (load (.read m.memory stackPointer)).value? m = some (.error diagnostic))
    (fails : m.kernel.OnlyFails .mmap) (low : m.kernel.arena.InUserSpace) :
    let process := StartupView.read m.memory stackPointer
    let after := (load process).last m
    (∀ address, ¬ Reaches process m address →
      after.memory.read address = m.memory.read address) ∧
    ((∀ address, process.Owns m.memory address → ¬ Reaches process m address) →
      process.Kept m.memory after.memory) := by
  intro process after
  have keeps (address : UInt64) (outside : ¬ Reaches process m address) :
      after.memory.read address = m.memory.read address := by
    change ((load process).last m).memory.read address = _
    rw [last_load]
    rw [value?_load] at failed
    cases configured : Configuration.read m.memory process with
    | error error => rfl
    | ok configuration =>
      rw [configured] at failed
      obtain ⟨outcome, loaded, passed⟩ := Option.map_eq_some_iff.mp failed
      cases outcome with
      | ok handover => cases passed
      | error error =>
        dsimp only
        rw [loadWith_fails loaded, fetch_keeps configured fails low outside]
  refine ⟨keeps, fun apart => (StartupView.laid_read m.memory stackPointer).kept ?_⟩
  exact fun address owned => keeps address (apart address owned)

/-- Whether a block is clear of the arena, and of the page behind it if the image of the
interpreter overruns it. -/
def ClearOfImage (block : StartupBlock) (stackPointer strings : UInt64) (m : Machine) : Prop :=
  ∀ found ∈ accepted? (.read m.memory stackPointer) m,
    found.1.pageSize.Aligned m.kernel.nextFree ∧
      block.ClearOf stackPointer strings m.kernel.arena.address.toNat
        (m.kernel.arena.length.toNat + Image.overrun found.2 found.1.pageSize)
  deriving Decidable

theorem not_reaches_of_liesIn {block : StartupBlock} {stackPointer strings : UInt64}
    (lies : block.LiesIn m.memory stackPointer strings) (low : m.kernel.arena.InUserSpace)
    (clear : ClearOfImage block stackPointer strings m)
    (contains : (StartupView.read m.memory stackPointer).Contains m.memory address) :
    ¬ Reaches (.read m.memory stackPointer) m address := by
  rintro ⟨configuration, object, accepts, reaches⟩
  obtain ⟨aligned, clear⟩ := clear (configuration, object) (accepts_iff.mp accepts)
  have bounds := Image.reaches_bounds low aligned reaches
  have outside := lies.clear_of_contains clear contains
  dsimp only at bounds outside
  omega

def strayBlock : StartupBlock :=
  ⟨[], [ascii "NIX_LD=/ld"], [(AuxiliaryVector.pageSizeKey, 4096)]⟩

/-- There is no file. The block starts right behind the arena. -/
def strayMachine : Machine :=
  hosting strayBlock 0x10100000 0x10101000 ⟨0x10000000, 0x100000⟩ none

def twoSegmentFile : Array UInt8 :=
  Elf.fileOf [⟨1, 5, 0, 0, 0, 0x78, 0x78, 0x1000⟩, ⟨1, 6, 0, 0x1000, 0, 0x78, 0x800, 0x1000⟩]

/-- There is a file, but the second mapping fails. -/
def crowdedMachine : Machine :=
  { strayMachine with
    kernel := .initial (fun _ => some (.regular twoSegmentFile))
      [(.mmap, [.ordinary, .fixed (Kernel.failure 12)])] ⟨0x10000000, 0x100000⟩ }

theorem strayBlock_liesIn : strayBlock.LiesIn strayMachine.memory 0x10100000 0x10101000 :=
  have fits : strayBlock.FitsAt 0x10100000 0x10101000 := by decide
  StartupBlock.liesIn_place fits .zero

/-- Failures of a call before anything is mapped and after, and of a request for memory. -/
theorem load_fails_keeps_block_stray :
    let process := StartupView.read strayMachine.memory 0x10100000
    let poorMachine := { crowdedMachine with heap := .empty 0x100000 (some 100) }
    ((load process).value? strayMachine =
        some (.error ⟨ascii "nix-ld", some (ascii "/ld"), .cannotOpen Errno.noSuchFile⟩) ∧
      process.Kept strayMachine.memory ((load process).last strayMachine).memory) ∧
    ((load process).value? crowdedMachine =
        some (.error ⟨ascii "nix-ld", some (ascii "/ld"), .cannotMap ⟨12⟩⟩) ∧
      ((load process).last crowdedMachine).kernel.mapCalls.length = 2 ∧
      process.Kept strayMachine.memory ((load process).last crowdedMachine).memory) ∧
    ((load process).value? poorMachine =
        some (.error ⟨ascii "nix-ld", some (ascii "/ld"), .outOfMemory⟩) ∧
      process.Kept strayMachine.memory ((load process).last poorMachine).memory) := by
  intro process poorMachine
  have kept {m : Machine} {diagnostic : Diagnostic} (same : m.memory = strayMachine.memory)
      (failed : (load process).value? m = some (.error diagnostic))
      (fails : m.kernel.OnlyFails .mmap) (low : m.kernel.arena.InUserSpace)
      (clear : ClearOfImage strayBlock 0x10100000 0x10101000 m) :
      process.Kept strayMachine.memory ((load process).last m).memory := by
    have view : process = .read m.memory 0x10100000 := by rw [same]
    rw [view] at failed ⊢
    rw [← same]
    refine (load_fails_keeps_block failed fails low).2 fun address owned => ?_
    exact not_reaches_of_liesIn (same ▸ strayBlock_liesIn) low clear
      (StartupView.contains_of_owns owned)
  have crowded : crowdedMachine.kernel.OnlyFails .mmap := by
    intro result member
    have pending : crowdedMachine.kernel.pending .mmap =
        [.ordinary, .fixed (Kernel.failure 12)] := rfl
    rw [pending, List.mem_pair] at member
    obtain ⟨⟨⟩⟩ | ⟨⟨⟩⟩ := member
    exact ⟨_, rfl⟩
  have low : Region.InUserSpace ⟨0x10000000, 0x100000⟩ := by decide
  have missing : (load process).value? strayMachine =
      some (.error ⟨ascii "nix-ld", some (ascii "/ld"), .cannotOpen Errno.noSuchFile⟩) := by
    decide +kernel
  have unmapped : (load process).value? crowdedMachine =
      some (.error ⟨ascii "nix-ld", some (ascii "/ld"), .cannotMap ⟨12⟩⟩) := by
    decide +kernel
  have refused : (load process).value? poorMachine =
      some (.error ⟨ascii "nix-ld", some (ascii "/ld"), .outOfMemory⟩) := by
    decide +kernel
  refine ⟨⟨missing, kept rfl missing (fun _ member => nomatch member) low (by decide +kernel)⟩,
    ⟨unmapped, by decide +kernel, kept rfl unmapped crowded low (by decide +kernel)⟩,
    refused, kept rfl refused crowded low (by decide +kernel)⟩

/-- A start-up block as the system lays it out, outside the arena and the memory that a run
takes, on a system whose page size is the one it names and where mapping calls fail if they do
not follow the rules. -/
structure Ordinary (m : Machine) (stackPointer : UInt64) : Prop where
  fails : m.kernel.OnlyFails .mmap
  low : m.kernel.arena.InUserSpace
  aligned : ∀ configuration object, Accepts (.read m.memory stackPointer) m configuration object →
    configuration.pageSize.Aligned m.kernel.nextFree
  unaliased : (StartupView.read m.memory stackPointer).Unaliased m.memory
  outside : ∀ address, (StartupView.read m.memory stackPointer).Contains m.memory address →
    ¬ m.kernel.arena.Covers address
  unused : ∀ address, address = 0 ∨
      (StartupView.read m.memory stackPointer).Contains m.memory address →
    ¬ m.heap.HandedOut ((load (.read m.memory stackPointer)).last m).heap address

/-- No image reaches such a block but one whose file data ends in the last page of the address
space. -/
theorem Ordinary.not_reaches {stackPointer : UInt64} (ordinary : Ordinary m stackPointer)
    (within : ∀ configuration object,
      Accepts (.read m.memory stackPointer) m configuration object →
        ¬ Image.Overruns object configuration.pageSize)
    (contains : (StartupView.read m.memory stackPointer).Contains m.memory address) :
    ¬ Reaches (.read m.memory stackPointer) m address := by
  rintro ⟨configuration, object, accepts, reaches⟩
  have bounds := Image.reaches_bounds ordinary.low
    (ordinary.aligned configuration object accepts) reaches
  rw [Image.overrun, if_neg (within configuration object accepts)] at bounds
  refine ordinary.outside address contains ?_
  have := address.toNat_lt
  have := m.kernel.arena.address.toNat_lt
  rw [Region.Covers, UInt64.toNat_sub]
  omega

theorem not_handedOut_of_liesIn {block : StartupBlock} {stackPointer strings : UInt64} {after : Heap}
    (lies : block.LiesIn m.memory stackPointer strings) (nonnull : m.heap.base ≠ 0)
    (fits : m.heap.base.toNat + after.used ≤ UInt64.size)
    (clear : block.ClearOf stackPointer strings m.heap.base.toNat after.used)
    (reason : address = 0 ∨
      (StartupView.read m.memory stackPointer).Contains m.memory address) :
    ¬ m.heap.HandedOut after address := by
  intro handed
  obtain ⟨low, high⟩ := handed.bounds fits
  rcases reason with rfl | contains
  · exact nonnull (UInt64.toNat_inj.mp (Nat.le_zero.mp low))
  · have := lies.clear_of_contains clear contains
    omega

/-- A start-up block of a program that was started directly, on a system with small pages. -/
def exposedBlock (environment : List Bytes) : StartupBlock :=
  ⟨[some (ascii "p")], environment,
    [(AuxiliaryVector.pageSizeKey, 64), (AuxiliaryVector.baseKey, 0)]⟩

/-- Its strings lie on the page behind the arena, from its fourth byte on. -/
def exposedMachine (environment : List Bytes) (rows : List ProgramHeader) (answers : List Answer) :
    Machine where
  memory := (exposedBlock environment).place 0x20000000 0x10000043 .zero
  kernel := .initial (fun _ => some (.regular (Elf.fileOf rows))) [(.mmap, answers)]
    ⟨0x10000000, 0x40⟩
  heap := .empty 0x100000 none
  logFilter := .default

theorem ordinary_exposed {environment : List Bytes} {rows : List ProgramHeader}
    {answers : List Answer} {m : Machine} (same : m = exposedMachine environment rows answers)
    (fits : (exposedBlock environment).FitsAt 0x20000000 0x10000043)
    (fails : m.kernel.OnlyFails .mmap)
    (page : ∀ found ∈ accepted? (.read m.memory 0x20000000) m, found.1.pageSize.bytes = 64)
    (used : ((load (.read m.memory 0x20000000)).last m).heap.used < 0x1000) :
    Ordinary m 0x20000000 := by
  have lies : (exposedBlock environment).LiesIn m.memory 0x20000000 0x10000043 :=
    same ▸ StartupBlock.liesIn_place fits .zero
  have base : m.heap.base = 0x100000 := same ▸ rfl
  have arena : m.kernel.arena = ⟨0x10000000, 0x40⟩ := same ▸ rfl
  have next : m.kernel.nextFree = 0x10000000 := same ▸ rfl
  have clear {first length : Nat} (low : first + length ≤ 0x10000040) :
      (exposedBlock environment).ClearOf 0x20000000 0x10000043 first length :=
    ⟨.inr (Nat.le_trans low (by decide)), .inr (Nat.le_trans low (by decide))⟩
  refine ⟨fails, arena ▸ by decide, fun configuration object accepts => ?_, lies.unaliased,
    fun address contains covers => ?_, fun address reason => ?_⟩
  · have bytes := page (configuration, object) (accepts_iff.mp accepts)
    rw [PageSize.Aligned, next, bytes]
    decide
  · rw [arena] at covers
    have bounds := covers.bounds (by decide)
    exact (lies.clear_of_contains (clear (Nat.le_refl _)) contains).elim
      (Nat.not_lt.mpr bounds.1) (Nat.not_le.mpr bounds.2)
  · have small : m.heap.base.toNat + ((load (.read m.memory 0x20000000)).last m).heap.used ≤
        0x10000040 := by
      rw [base]
      exact Nat.le_trans (Nat.add_le_add_left (Nat.le_of_lt used) _) (by decide)
    exact not_handedOut_of_liesIn lies (by rw [base]; decide)
      (Nat.le_trans small (by decide)) (clear small) reason

/-- Its file data ends in the last page of the address space. -/
def overrunRow : ProgramHeader := ⟨1, 6, 0, 0xffffffffffffff80, 0, 0x45, 0x7f, 64⟩

/-- The page behind the arena is cleared before the mapping of the second segment fails, and
with it the string that names the interpreter. -/
theorem load_fails_clears_block :
    ¬ ∀ (m : Machine) (stackPointer : UInt64) (diagnostic : Diagnostic), Ordinary m stackPointer →
      (load (.read m.memory stackPointer)).value? m = some (.error diagnostic) →
      (StartupView.read m.memory stackPointer).Kept m.memory
        ((load (.read m.memory stackPointer)).last m).memory := by
  intro keeps
  let m := exposedMachine [ascii "NIX_LD=/ld"] [overrunRow, overrunRow]
    [.ordinary, .fixed (Kernel.failure 12)]
  have fails : m.kernel.OnlyFails .mmap := by
    intro result member
    obtain ⟨⟨⟩⟩ | ⟨⟨⟩⟩ := List.mem_pair.mp member
    exact ⟨_, rfl⟩
  have ordinary : Ordinary m 0x20000000 :=
    ordinary_exposed rfl (by decide) fails (by decide +kernel) (by decide +kernel)
  have kept := keeps m 0x20000000 ⟨ascii "p", some (ascii "/ld"), .cannotMap ⟨12⟩⟩ ordinary
    (by decide +kernel)
  exact absurd (kept.entries 0 (by decide +kernel)) (by decide +kernel)

end Loader
end ElfRelay
