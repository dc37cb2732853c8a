import ElfRelay.Proofs.Configuration
import ElfRelay.Proofs.Loader.Later
import ElfRelay.Proofs.Transfer
/-! Each part of a run returns, and none of them ends the process, on a system that
never claims too much. Handing on the library path also needs the variables to be
where the configuration has found them. -/
namespace ElfRelay

open Elf (Header ProgramHeader Object)

/-- A system that never claims to have read or written more than it was asked to. -/
structure Kernel.Truthful (k : Kernel) : Prop where
  reads : k.OnlyFails .pread
  writes : k.OnlyFails .write

theorem Kernel.Truthful.later {before after : Kernel} (truthful : before.Truthful)
    (later : before.Later after) : after.Truthful :=
  ⟨later.onlyFails truthful.reads, later.onlyFails truthful.writes⟩

namespace Program

open Machine (Later)

/-- Whether a program returns on every truthful system, and leaves a truthful one behind. -/
def Total (program : Program α) : Prop :=
  Returns (·.kernel.Truthful) program fun _ after => after.kernel.Truthful

theorem Total.of_within {program : Program α} (within : Within Later program)
    (returns : ∀ m : Machine, m.kernel.Truthful → ∃ value, program.value? m = some value) :
    Total program := by
  intro m truthful
  obtain ⟨value, found⟩ := returns m truthful
  exact ⟨value, found, truthful.later (within m).kernel⟩

theorem Total.pure (value : α) : Total (Pure.pure value) := Returns.pure fun _ => id

theorem Total.bind {program : Program α} {next : α → Program β} (first : Total program)
    (rest : ∀ value, Total (next value)) : Total (program >>= next) :=
  Returns.bind first rest

theorem Total.returns {program : Program α} (total : Total program) {m : Machine}
    (truthful : m.kernel.Truthful) : ∃ value, program.value? m = some value := by
  obtain ⟨value, found, _⟩ := total m truthful
  exact ⟨value, found⟩

/-- A program returns if its rest does wherever its first part may have come to. -/
theorem Within.returns_bind {step : Machine → Machine → Prop} {program : Program α}
    {next : α → Program β} {m : Machine} (within : Within step program)
    (first : ∃ value, program.value? m = some value)
    (rest : ∀ value between, step m between → ∃ result, (next value).value? between = some result) :
    ∃ result, (program >>= next).value? m = some result := by
  obtain ⟨value, found⟩ := first
  obtain ⟨result, returns⟩ := rest value _ (within m)
  exact ⟨result, value?_bind_eq_some.mpr ⟨value, found, returns⟩⟩

theorem value?_writePieces {m : Machine} (fails : m.kernel.OnlyFails .write) (descriptor : UInt32)
    (pieces : List Bytes) : (writePieces descriptor pieces).value? m = some () := by
  rw [writePieces, value?_bind, value?_callKernel, Option.bind_some,
    Kernel.deliverPieces_completes fails]
  rfl

theorem value?_log {m : Machine} (fails : m.kernel.OnlyFails .write) (level : LogLevel)
    (message : List Bytes) : (log level message).value? m = some () := by
  rw [log, value?_bind, value?_inspect, last_inspect, Option.bind_some]
  split
  · exact value?_writePieces fails _ _
  · rfl

theorem total_log (level : LogLevel) (message : List Bytes) : Total (log level message) :=
  .of_within (within_log Later.maps.toKeptByOutput level message) fun _ truthful =>
    ⟨(), value?_log truthful.writes level message⟩

theorem total_reserve (size : Nat) {align : Nat} (pos : 0 < align) : Total (reserve size align) :=
  .of_within (within_reserve Later.maps.heap size pos) fun m _ => value?_reserve size align m

theorem total_changeMemory (change : Memory → Memory) : Total (changeMemory change) :=
  .of_within (Later.maps.within_changeMemory change) fun _ _ => ⟨_, rfl⟩

end Program

open Program (Returns Total Within)
open Machine (Later)

theorem File.total_openPath (path : Bytes) : Total (openPath path) :=
  .of_within (within_openPath Later.kept path) fun _ _ => ⟨_, rfl⟩

theorem File.total_close (file : File) : Total file.close :=
  .of_within (within_close Later.kept file) fun _ _ => ⟨_, rfl⟩

theorem File.returns_readFully (file : File) {buffer : Bytes}
    (small : buffer.length ≤ Kernel.maxOffset) (offset : UInt64) :
    Returns (·.kernel.Truthful) (file.readFully buffer offset) fun answer after =>
      after.kernel.Truthful ∧ ∀ count, answer.1 = .ok count → count ≤ answer.2.length := by
  intro m truthful
  have later := within_readFully (Later.kept.reads file.descriptor) buffer offset m
  have reads := Kernel.readFully_reads truthful.reads file.descriptor small offset
  exact ⟨_, rfl, truthful.later later.kernel, fun count done =>
    reads.length.symm ▸ reads.inside count done⟩

theorem Region.total_release (region : Region) : Total region.release :=
  .of_within (within_release Later.maps region) fun _ _ => ⟨_, rfl⟩

namespace Elf.Object

theorem total_openTrimmed (path : Bytes) : Total (openTrimmed path) := by
  refine .bind (File.total_openPath path) fun opened => ?_
  cases opened with
  | ok file => exact .pure _
  | error errno =>
    dsimp only
    split
    · refine .bind (Program.total_reserve _ (by decide)) fun room => ?_
      cases room with
      | none => exact .pure _
      | some _ => exact .bind (File.total_openPath _) fun _ => .pure _
    · exact .pure _

theorem total_readHeader (file : File) : Total (readHeader file) := by
  refine Returns.bind (file.returns_readFully (by decide) 0) fun answer => ?_
  obtain ⟨count, bytes⟩ := answer
  rintro m ⟨truthful, counts⟩
  cases count with
  | error errno => exact ⟨_, rfl, truthful⟩
  | ok count =>
    dsimp only
    rw [if_neg (Nat.not_lt.mpr (counts count rfl))]
    split <;> exact ⟨_, rfl, truthful⟩

theorem total_reserveHeaders (count : Nat) : Total (reserveHeaders count) := by
  rw [reserveHeaders]
  split
  · exact Program.total_reserve _ (by decide)
  · exact .pure _

theorem total_readProgramHeaders (file : File) (header : Header) :
    Total (readProgramHeaders file header) := by
  rw [readProgramHeaders]
  dsimp only
  split
  · exact .pure _
  · refine .bind (Program.total_reserve _ (by decide)) fun room => ?_
    cases room with
    | none => exact .pure _
    | some _ =>
      refine .bind (.of_within (File.within_readFully (Later.kept.reads _) _ _)
        fun _ _ => ⟨_, rfl⟩) fun answer => ?_
      obtain ⟨count, table⟩ := answer
      cases count with
      | error errno => exact .pure _
      | ok count =>
        dsimp only
        split
        · exact .pure _
        · refine .bind (total_reserveHeaders _) fun room => ?_
          cases room <;> exact .pure _

theorem total_ofFile (file : File) : Total (ofFile file) := by
  refine .bind (total_readHeader file) fun read => ?_
  cases read with
  | error error => exact .pure _
  | ok header => exact .bind (total_readProgramHeaders file header) fun _ => .pure _

theorem total_openPath (path : Bytes) : Total (openPath path) := by
  refine .bind (total_openTrimmed path) fun opened => ?_
  cases opened with
  | error error => exact .pure _
  | ok file =>
    refine .bind (total_ofFile file) fun object => ?_
    split
    · exact .pure _
    · exact .bind (File.total_close file) fun _ => .pure _

end Elf.Object

namespace Image

variable {page : PageSize} {span : Span} {descriptor : UInt32} {loadBias : UInt64}

theorem total_perform (one : Step) : Total (one.perform page descriptor loadBias) := by
  refine .of_within (within_perform Later.maps one) fun m truthful => ?_
  cases one with
  | overlay segment => exact ⟨_, rfl⟩
  | report segment =>
    exact ⟨_, Program.value?_bind_eq_some.mpr ⟨(), Program.value?_log truthful.writes _ _, rfl⟩⟩
  | clear segment => exact ⟨_, rfl⟩
  | extend segment =>
    rw [Step.perform, mapEmpty]
    split <;> exact ⟨_, rfl⟩

theorem total_performAll (list : List Step) : Total (performAll page descriptor loadBias list) := by
  induction list with
  | nil => exact .pure _
  | cons one rest ih =>
    refine .bind (total_perform one) fun outcome => ?_
    cases outcome with
    | error error => exact .pure _
    | ok => exact ih

theorem total_anchor (segment : ProgramHeader) : Total (anchor page descriptor span segment) :=
  .of_within (within_anchor Later.maps segment) fun _ _ => ⟨_, value?_anchor⟩

theorem total_complete (object : Object) (first : ProgramHeader) (later : List ProgramHeader)
    (anchor : Anchor) : Total (complete object page first later anchor) := by
  rw [complete, fillIn_eq]
  refine .bind (total_performAll _) fun outcome => ?_
  cases outcome with
  | error error => exact .bind (Region.total_release _) fun _ => .pure _
  | ok => exact .bind (Program.total_log _ _) fun _ => .pure _

theorem total_build (object : Object) (page : PageSize) : Total (build object page) := by
  rw [build]
  split
  · exact .pure _
  · refine .bind (Program.total_log _ _) fun _ => ?_
    split
    · exact .pure _
    · refine .bind (total_anchor _) fun anchored => ?_
      cases anchored with
      | error error => exact .pure _
      | ok anchor => exact total_complete object _ _ anchor

end Image

namespace Loader

theorem total_applyLogLevel (configuration : Configuration) :
    Total (applyLogLevel configuration) := by
  refine .of_within (within_applyLogLevel Later.maps.toKeptByOutput
    (fun _ _ => .of_kernel rfl (.refl _)) configuration) fun m truthful => ?_
  rw [applyLogLevel]
  split
  · exact ⟨_, rfl⟩
  · exact ⟨(), Program.value?_log truthful.writes _ _⟩
  · exact ⟨_, rfl⟩

theorem total_fetch (configuration : Configuration) : Total (fetch configuration) := by
  refine .bind (.bind (total_applyLogLevel configuration) fun _ => Program.total_log _ _) fun _ => ?_
  refine .bind (Elf.Object.total_openPath _) fun opened => ?_
  cases opened with
  | error error => exact .pure _
  | ok object =>
    refine .bind (Image.total_build object _) fun image => ?_
    exact .bind (File.total_close _) fun _ => .pure _

theorem total_chooseHandover (process : StartupView) (configuration : Configuration)
    (image : Image) : Total (chooseHandover process configuration image) := by
  refine .bind (.of_within (.inspect _) fun _ _ => ⟨_, rfl⟩) fun base => ?_
  cases base with
  | none => exact .bind (Program.total_log _ _) fun _ => .pure _
  | some base =>
    dsimp only
    split
    · refine .bind (Program.total_log _ _) fun _ => ?_
      exact .bind (Region.total_release _) fun _ => .pure _
    · refine .bind (Program.total_log _ _) fun _ => ?_
      exact .bind (Program.total_changeMemory _) fun _ => .pure _

end Loader

namespace LibraryPath

variable {environment : Environment} {configuration : Configuration} {m : Machine}
  {supplementary existing : Variable}

theorem total_leak {text : Bytes} (clean : 0 ∉ text) : Total (leak text) := by
  refine .bind (Program.total_reserve _ (by decide)) fun room => ?_
  cases room with
  | none => exact .pure _
  | some _ =>
    refine .bind (Program.total_changeMemory _) fun _ => ?_
    rw [if_neg clean]
    exact .pure _

/-- The abort over a NUL is not reached by a configuration that was read from an environment. -/
theorem zero_not_mem_appended (sound : configuration.Sound environment m.memory)
    (chosen : configuration.supplementary = some supplementary)
    (inherited : configuration.existing = some existing) :
    0 ∉ entry (join existing.value supplementary.value) :=
  zero_not_mem_entry_join (Environment.zero_not_mem_value (sound.existing _ inherited).1)
    (Environment.zero_not_mem_value (sound.supplementary _ chosen).1)

theorem expectPresent_returns (present : environment.get? m.memory supplementary.slot =
    some supplementary) : (expectPresent environment supplementary).value? m = some () ∧
      (expectPresent environment supplementary).last m = m := by
  rw [expectPresent, Program.value?_bind, Program.last_bind, Program.value?_inspect,
    Program.last_inspect, Option.bind_some]
  dsimp only
  rw [present]
  dsimp only
  rw [if_neg (not_not.mpr rfl)]
  exact ⟨rfl, rfl⟩

/-- The entry of `LD_LIBRARY_PATH` is no longer than that of the variable it is made from. -/
theorem length_entry_le (present : environment.get? m.memory supplementary.slot = some supplementary)
    (named : supplementary.Named VariableName.supplementaryPath) :
    (entry supplementary.value).length ≤
      (environment.entry m.memory supplementary.slot).length := by
  obtain ⟨_, _, split, _⟩ := Environment.get?_eq_some present
  have longer : VariableName.libraryPath.length ≤ supplementary.name.length := by
    rcases named with same | same <;> rw [same] <;> decide
  rw [split, entry]
  simp [longer]

theorem rename_returns (truthful : m.kernel.Truthful)
    (present : environment.get? m.memory supplementary.slot = some supplementary)
    (named : supplementary.Named VariableName.supplementaryPath) :
    ∃ outcome, (rename environment supplementary).value? m = some outcome := by
  refine (Program.wrote_log _ _).returns_bind ⟨(), Program.value?_log truthful.writes _ _⟩
    fun _ between wrote => ?_
  refine (Program.requested_reserve _ (by decide)).returns_bind (Program.value?_reserve _ _ _)
    fun room after requested => ?_
  cases room with
  | none => exact ⟨_, rfl⟩
  | some _ =>
    obtain ⟨heap, _, rfl⟩ := requested
    have listed := (Environment.get?_eq_some present).1
    have fits := length_entry_le present named
    rw [← wrote.memory] at fits
    exact ⟨_, Program.value?_bind_eq_some.mpr
      ⟨(), Environment.overwrite_returns listed fits, rfl⟩⟩

theorem total_append (listed : existing.slot < environment.count)
    (clean : 0 ∉ entry (join existing.value supplementary.value)) :
    Total (append environment supplementary existing) := by
  refine .bind (Program.total_log _ _) fun _ => ?_
  refine .bind (Program.total_reserve _ (by decide)) fun room => ?_
  cases room with
  | none => exact .pure _
  | some _ =>
    refine .bind (total_leak clean) fun leaked => ?_
    cases leaked with
    | error error => exact .pure _
    | ok address =>
      refine .bind (.of_within (Environment.within_redirect Later.maps.toKeptByEdits _ _ _)
        fun _ _ => ⟨_, Environment.redirect_returns listed address⟩) fun _ => .pure _

/-- Handing on returns while the variables are where the configuration has found them. -/
theorem handOn_returns (truthful : m.kernel.Truthful) (sound : configuration.Sound environment m.memory) :
    ∃ outcome, (handOn configuration environment).value? m = some outcome := by
  rw [handOn]
  cases chosen : configuration.supplementary with
  | none => exact ⟨_, rfl⟩
  | some supplementary =>
    obtain ⟨present, named⟩ := sound.supplementary _ chosen
    obtain ⟨returns, last⟩ := expectPresent_returns present
    dsimp only
    rw [Program.value?_bind, returns, Option.bind_some, last]
    cases inherited : configuration.existing with
    | none => exact rename_returns truthful present named
    | some existing =>
      have listed := (Environment.get?_eq_some (sound.existing _ inherited).1).1
      exact (total_append listed (zero_not_mem_appended sound chosen inherited)).returns truthful

end LibraryPath
end ElfRelay
