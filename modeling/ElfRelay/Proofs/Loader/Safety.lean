import ElfRelay.Proofs.Loader.Handover
import ElfRelay.Proofs.Loader.Totality
/-! No run ends the process, and none computes with a number that does not fit. Sizes are
differences of addresses, and each is the true difference: what is taken away is never
more than what it is taken from. -/
namespace ElfRelay

open Elf (Header ProgramHeader Object)

namespace Elf.Header

variable (header : Header)

theorem tableSize_lt : header.tableSize < UInt64.size := by
  have rows := header.phnum.toNat_lt
  have width := header.phentsize.toNat_lt
  have bound := Nat.mul_le_mul (Nat.le_of_lt rows) (Nat.le_of_lt width)
  exact Nat.lt_of_le_of_lt bound (by decide)

theorem entry_inside {i : Nat} (listed : i < header.phnum.toNat)
    (wide : ProgramHeader.size ≤ header.phentsize.toNat) :
    i * header.phentsize.toNat + ProgramHeader.size ≤ header.tableSize := by
  have next := Nat.mul_le_mul_right header.phentsize.toNat (Nat.succ_le_of_lt listed)
  rw [Nat.succ_mul] at next
  exact Nat.le_trans (Nat.add_le_add_left wide _) next

end Elf.Header

theorem toNat_sub_add {a b : UInt64} (le : b.toNat ≤ a.toNat) :
    (a - b).toNat + b.toNat = a.toNat := by
  rw [UInt64.toNat_sub_of_le _ _ (UInt64.le_iff_toNat_le.mpr le), Nat.sub_add_cancel le]

namespace Span

variable {span : Span}

theorem exact_length (proper : span.low < span.high) :
    span.length.toNat + span.low.toNat = span.high.toNat :=
  toNat_sub_add (UInt64.le_iff_toNat_le.mp (UInt64.le_of_lt proper))

theorem exact_footprint (proper : span.low < span.high) (page : PageSize) :
    (span.footprint page).toNat + (page.floor span.low).toNat = (page.ceil span.high).toNat :=
  toNat_sub_add (page.floor_le_ceil (UInt64.le_of_lt proper))

end Span

namespace Image

/-- The sizes that a segment is mapped, cleared and extended with are true differences. -/
structure Exact (page : PageSize) (descriptor : UInt32) (loadBias : UInt64)
    (segment : ProgramHeader) : Prop where
  overlay : (overlayRequest page descriptor loadBias segment).length.toNat +
    (page.floor segment.vaddr).toNat = (page.ceil segment.memoryEnd).toNat
  clear : segment.hasZeroFill = true →
    (tail page loadBias segment).length.toNat + (loadBias + segment.fileEnd).toNat =
      (page.ceil (loadBias + segment.fileEnd)).toNat
  extend : page.ceil (loadBias + segment.fileEnd) < loadBias + page.ceil segment.memoryEnd →
    (emptyRequest page loadBias segment).length.toNat +
      (page.ceil (loadBias + segment.fileEnd)).toNat =
        (loadBias + page.ceil segment.memoryEnd).toNat

variable {page : PageSize} {span : Span} {region : Region} {loadBias : UInt64}

theorem Placement.exact (placed : Placement page span region loadBias) {segment : ProgramHeader}
    (held : span.Holds segment) (descriptor : UInt32) : Exact page descriptor loadBias segment where
  overlay := by
    rw [overlayRequest, MapRequest.inPlace_length]
    exact toNat_sub_add (page.floor_le_ceil segment.vaddr_le_memoryEnd)
  clear zeroFill := toNat_sub_add (placed.tail_bounds held zeroFill).1
  extend before := by
    rw [emptyRequest, MapRequest.inPlace_length]
    exact toNat_sub_add (UInt64.le_iff_toNat_le.mp (UInt64.le_of_lt before))

/-- What a later machine reserves for an object is a placement of its span. -/
theorem Reserves.exact {object : Object} {anchor : Anchor} {m made : Machine}
    (low : m.kernel.arena.InUserSpace) (fails : m.kernel.OnlyFails .mmap)
    (reserved : Reserves object page m anchor made) {segment : ProgramHeader}
    (listed : segment ∈ object.segments) :
    Exact page object.file.descriptor anchor.loadBias segment := by
  obtain @⟨span, first, rest, _, spanned, _, _, anchored⟩ := reserved
  obtain ⟨proper, held⟩ := Span.of_ok spanned
  have wrote : m.Wrote ((reportSpan span).last m) := wrote_reportSpan m
  obtain ⟨placed, _⟩ := placement_of_reserved proper (wrote.kernel.arena.symm ▸ low)
    (wrote.kernel.onlyFails (by decide) fails) anchored
  exact placed.exact (held segment listed) object.file.descriptor

end Image

namespace Loader

/-- Every number that a run computes from here on fits, whatever its file holds. -/
structure Exact (m : Machine) : Prop where
  reads : ∀ later, m.Later later → ∀ (descriptor : UInt32) (buffer : Bytes) (offset : UInt64),
    buffer.length ≤ Object.maxTableSize →
      Kernel.Reads descriptor offset buffer.length later.kernel
        (Kernel.readFully descriptor buffer offset later.kernel)
  tables : ∀ header : Header, header.tableSize < UInt64.size ∧
    (ProgramHeader.size ≤ header.phentsize.toNat → ∀ i < header.phnum.toNat,
      i * header.phentsize.toNat + ProgramHeader.size ≤ header.tableSize)
  spans : ∀ (object : Object) (span : Span), Span.of object.programHeaders = .ok span →
    span.length.toNat + span.low.toNat = span.high.toNat ∧
      ∀ page : PageSize, (span.footprint page).toNat + (page.floor span.low).toNat =
        (page.ceil span.high).toNat
  segments : ∀ later, m.Later later →
    ∀ (object : Object) (page : PageSize) (anchor : Image.Anchor) (made : Machine),
      Image.Reserves object page later anchor made → ∀ segment ∈ object.segments,
        Image.Exact page object.file.descriptor anchor.loadBias segment

variable {m : Machine}

theorem exact_of_truthful (truthful : m.kernel.Truthful) (fails : m.kernel.OnlyFails .mmap)
    (low : m.kernel.arena.InUserSpace) : Exact m where
  reads later passed descriptor buffer offset small := by
    have still := truthful.later passed.kernel
    exact Kernel.readFully_reads still.reads descriptor (Nat.le_trans small (by decide)) offset
  tables header := ⟨header.tableSize_lt, fun wide i listed => header.entry_inside listed wide⟩
  spans object span spanned := by
    have proper := (Span.of_ok spanned).1
    exact ⟨Span.exact_length proper, fun page => Span.exact_footprint proper page⟩
  segments later passed object page anchor made reserved segment listed := by
    have here : later.kernel.arena.InUserSpace := passed.kernel.arena.symm ▸ low
    exact reserved.exact here (passed.kernel.onlyFails fails) listed

section
variable {process : StartupView} {configuration : Configuration}

/-- A run settles while the variables are where the configuration has found them. -/
theorem settle_returns (truthful : m.kernel.Truthful)
    (sound : configuration.Sound process.environment m.memory) (image : Image) :
    ∃ outcome, (settle process configuration image).value? m = some outcome := by
  refine (LibraryPath.within_handOn Machine.Later.maps.toKeptByEdits _ _).returns_bind
    (LibraryPath.handOn_returns truthful sound) fun handed between later => ?_
  have still := truthful.later later.kernel
  cases handed with
  | error error => exact ⟨_, rfl⟩
  | ok change =>
    obtain ⟨handover, chosen⟩ :=
      (total_chooseHandover process configuration image).returns still
    exact ⟨_, Program.value?_bind_eq_some.mpr ⟨handover, chosen, rfl⟩⟩

/-- Fetching the interpreter does not touch the environment, so the variables that were
found in it are found again. -/
theorem loadWith_returns (truthful : m.kernel.Truthful) (fails : m.kernel.OnlyFails .mmap)
    (low : m.kernel.arena.InUserSpace)
    (configured : Configuration.read m.memory process = .ok configuration) (laid : process.Laid)
    (apart : ∀ address, process.Owns m.memory address → ¬ Reaches process m address) :
    ∃ outcome, (loadWith process configuration).value? m = some outcome := by
  rw [loadWith_eq]
  obtain ⟨fetched, found⟩ := (total_fetch configuration).returns truthful
  have still := truthful.later (later_fetch configuration m).kernel
  have sound : configuration.Sound process.environment ((fetch configuration).last m).memory :=
    (Configuration.sound_of_read configured).congr (laid.get?_congr fun address owned =>
      fetch_keeps configured fails low (apart address owned))
  cases fetched with
  | error error => exact ⟨_, Program.value?_bind_eq_some.mpr ⟨_, found, rfl⟩⟩
  | ok image =>
    obtain ⟨outcome, settled⟩ := settle_returns still sound image
    exact ⟨outcome, Program.value?_bind_eq_some.mpr ⟨_, found, settled⟩⟩

end

/-- The loader neither ends the process nor computes with a number that does not fit: it
hands over or reports an error, on every file and wherever a call fails, if building the image
does not reach the start-up block. This is said of memory that can be read and written
everywhere: the system may still stop a process that clears memory on a page without backing. -/
theorem load_returns {stackPointer : UInt64} (truthful : m.kernel.Truthful)
    (fails : m.kernel.OnlyFails .mmap) (low : m.kernel.arena.InUserSpace)
    (apart : ∀ address, (StartupView.read m.memory stackPointer).Owns m.memory address →
      ¬ Reaches (.read m.memory stackPointer) m address) :
    (∃ outcome, (load (.read m.memory stackPointer)).value? m = some outcome) ∧
      Exact m := by
  refine ⟨?_, exact_of_truthful truthful fails low⟩
  rw [value?_load]
  cases configured : Configuration.read m.memory (.read m.memory stackPointer) with
  | error error => exact ⟨_, rfl⟩
  | ok configuration =>
    obtain ⟨outcome, returned⟩ := loadWith_returns truthful fails low configured
      (StartupView.laid_read m.memory stackPointer) apart
    exact ⟨_, congrArg (Option.map _) returned⟩

theorem load_returns_renaming :
    let process := StartupView.read renamingMachine.memory 0x10100000
    (∃ outcome, (load process).value? renamingMachine = some outcome) ∧ Exact renamingMachine := by
  refine load_returns ⟨(fun _ member => nomatch member), (fun _ member => nomatch member)⟩
    (fun _ member => nomatch member) (by decide) fun address owned => ?_
  exact not_reaches_of_liesIn renamingBlock_liesIn (by decide) (by decide +kernel)
    (StartupView.contains_of_owns owned)

/-- The page behind the arena is cleared, and with it the variable that is to be handed on. -/
theorem load_returns_cleared :
    ¬ ∀ (m : Machine) (stackPointer : UInt64), Ordinary m stackPointer → m.kernel.Truthful →
      ∃ outcome, (load (.read m.memory stackPointer)).value? m = some outcome := by
  intro returns
  let m := exposedMachine [ascii "NIX_LD=/ld", ascii "NIX_LD_LIBRARY_PATH=/lib"] [overrunRow] []
  have ordinary : Ordinary m 0x20000000 :=
    ordinary_exposed rfl (by decide) (fun _ member => nomatch member) (by decide +kernel)
      (by decide +kernel)
  obtain ⟨outcome, returned⟩ := returns m 0x20000000 ordinary
    ⟨(fun _ member => nomatch member), (fun _ member => nomatch member)⟩
  have aborted : (load (.read m.memory 0x20000000)).value? m = none := by decide +kernel
  rw [aborted] at returned
  contradiction

end Loader
end ElfRelay
