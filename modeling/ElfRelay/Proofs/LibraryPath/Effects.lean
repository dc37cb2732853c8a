import ElfRelay.Proofs.Aborting
import ElfRelay.Proofs.Loader.ChangedSlot
import ElfRelay.Proofs.Loader.Refusal
/-! What handing on the library path does to an environment that need not be the one that
the configuration was read from. The slot of the supplementary variable is looked at again
before anything is changed; the slot of the inherited path is not, so whatever it holds by
then is replaced. -/
namespace ElfRelay

open Program (AbortsAfter Within)

/-- The values of a configuration were read in some environment, if not in this one. -/
def Configuration.Recorded (configuration : Configuration) : Prop :=
  ∀ found, configuration.supplementary = some found ∨ configuration.existing = some found →
    ∃ (environment : Environment) (m : Memory), environment.get? m found.slot = some found

/-- The machine after a run that has written no memory but what was handed out to it. -/
structure Machine.Unedited (before after : Machine) : Prop where
  heap : before.heap.Later after.heap
  memory : ∀ address, ¬ before.heap.HandedOut after.heap address →
    after.memory.read address = before.memory.read address

namespace Machine

instance : IsPreorder Machine Unedited where
  refl m := ⟨.refl _, fun _ _ => rfl⟩
  trans _ _ _ first second := by
    refine ⟨first.heap.trans second.heap, fun address outside => ?_⟩
    rw [second.memory address fun handed => outside (handed.mono first.heap (.refl _)),
      first.memory address fun handed => outside (handed.mono (.refl _) second.heap)]

theorem Unedited.kept : KeptByOutput Unedited where
  answered _ _ _ := ⟨.refl _, fun _ _ => rfl⟩
  write _ _ _ := ⟨.refl _, fun _ _ => rfl⟩

end Machine

open Machine (Unedited)

theorem StartupBlock.LiesIn.fresh {block : StartupBlock} {m : Machine} {after : Heap}
    {stackPointer strings : UInt64} (lies : block.LiesIn m.memory stackPointer strings)
    (fits : m.heap.base.toNat + after.used ≤ UInt64.size)
    (clear : block.ClearOf stackPointer strings m.heap.base.toNat after.used) {address : UInt64}
    (contains : (StartupView.read m.memory stackPointer).environment.Contains m.memory address) :
    ¬ m.heap.HandedOut after address := by
  intro handed
  obtain ⟨slot, holds⟩ := contains
  have laid := StartupView.laid_read m.memory stackPointer
  have := lies.clear_of_contains clear (StartupView.contains_of_holds laid holds)
  have := handed.bounds fits
  omega

/-- What a program returns if its rest does so wherever its first part may have come to. -/
theorem Program.Within.value?_bind {step : Machine → Machine → Prop} {program : Program α}
    {next : α → Program β} {m : Machine} {value : α} {result : β} (within : Within step program)
    (first : program.value? m = some value)
    (rest : ∀ between, step m between → (next value).value? between = some result) :
    (program >>= next).value? m = some result :=
  value?_bind_eq_some.mpr ⟨value, first, rest _ (within m)⟩

namespace LibraryPath

variable {environment : Environment} {configuration : Configuration} {m : Machine}
  {supplementary existing : Variable} {change : Change}

/-- Values that were read have no NUL in them, so the entry that is made from them has none. -/
theorem zero_not_mem_recorded (recorded : configuration.Recorded)
    (named : configuration.supplementary = some supplementary)
    (inherited : configuration.existing = some existing) :
    0 ∉ entry (join existing.value supplementary.value) := by
  obtain ⟨_, _, first⟩ := recorded existing (.inr inherited)
  obtain ⟨_, _, second⟩ := recorded supplementary (.inl named)
  exact zero_not_mem_entry_join (Environment.zero_not_mem_value first)
    (Environment.zero_not_mem_value second)

theorem unedited_reserve (size : Nat) : Within Unedited (Program.reserve size 1) :=
  Program.within_reserve (fun _ _ later => ⟨later, fun _ _ => rfl⟩) size Nat.one_pos

/-- A string that was leaked is in the memory that was handed out for it, also when a NUL in
it makes the run abort. -/
theorem unedited_leak (text : Bytes) : Within Unedited (leak text) := by
  intro m
  obtain ⟨room, reserved⟩ := Program.value?_reserve (text.length + 1) 1 m
  rw [leak, Program.last_bind_of_value _ reserved]
  cases room with
  | none =>
    have reserves := unedited_reserve (text.length + 1) m
    exact reserves
  | some start =>
    obtain ⟨rfl, last⟩ := Program.reserve_succeeds (Nat.succ_ne_zero _) reserved
    have above := m.heap.used_le_start Nat.one_pos
    have written : Unedited m { m with
        memory := m.memory.writeString (m.heap.base + (m.heap.start 1).toUInt64) text
        heap := { m.heap with used := m.heap.start 1 + (text.length + 1) } } := by
      refine ⟨⟨rfl, rfl, Nat.le_trans above (Nat.le_add_right _ _)⟩, fun address outside => ?_⟩
      exact Memory.read_writeString_outside _ (Nat.lt_succ_self _) fun inside =>
        outside (.of_inside above (Nat.le_refl _) inside)
    rw [last]
    exact trans_of Unedited written
      (Program.within_unless Unedited.kept _ (fun _ => .pure _) _)

theorem abortsAfter_leak (text : Bytes) : AbortsAfter Unedited (leak text) := by
  intro m ended
  refine ⟨?_, unedited_leak text m⟩
  have aborts : AbortsAfter Machine.Later (leak text) := by
    refine .bind (Program.within_reserve Machine.Later.maps.heap _ Nat.one_pos)
      (.of_returns (Program.value?_reserve _ _)) fun room => ?_
    cases room with
    | none => exact .pure _
    | some _ =>
      refine .bind (Machine.Later.maps.within_changeMemory _) (.of_returns fun _ => ⟨_, rfl⟩)
        fun _ => ?_
      exact Program.abortsAfter_unless Machine.Later.maps.toKeptByOutput _ fun _ => .pure _
  exact (aborts m ended).1

theorem abortsAfter_rename (environment : Environment) (supplementary : Variable) :
    AbortsAfter Unedited (rename environment supplementary) := by
  refine .bind (Program.within_log Unedited.kept _ _) (Program.abortsAfter_log Unedited.kept _ _)
    fun _ => ?_
  refine .bind (unedited_reserve _) (.of_returns (Program.value?_reserve _ _)) fun room => ?_
  cases room with
  | none => exact .pure _
  | some _ =>
    exact .before (Environment.abortsAfter_overwrite Unedited.kept _ _ _) fun _ _ => ⟨_, rfl⟩

theorem abortsAfter_append (environment : Environment) (supplementary existing : Variable) :
    AbortsAfter Unedited (append environment supplementary existing) := by
  refine .bind (Program.within_log Unedited.kept _ _) (Program.abortsAfter_log Unedited.kept _ _)
    fun _ => ?_
  refine .bind (unedited_reserve _) (.of_returns (Program.value?_reserve _ _)) fun room => ?_
  cases room with
  | none => exact .pure _
  | some _ =>
    refine .bind (unedited_leak _) (abortsAfter_leak _) fun leaked => ?_
    cases leaked with
    | error error => exact .pure _
    | ok address =>
      exact .before (Environment.abortsAfter_redirect Unedited.kept _ _ _) fun _ _ => ⟨_, rfl⟩

/-- A run that is aborted has edited nothing, as the edit is the last that can abort. -/
theorem abortsAfter_handOn (configuration : Configuration) (environment : Environment) :
    AbortsAfter Unedited (handOn configuration environment) := by
  rw [handOn]
  cases configuration.supplementary with
  | none => exact .pure _
  | some supplementary =>
    refine .bind (within_expectPresent Unedited.kept _ _)
      (abortsAfter_expectPresent Unedited.kept _ _) fun _ => ?_
    cases configuration.existing with
    | none => exact abortsAfter_rename _ _
    | some existing => exact abortsAfter_append _ _ _

theorem expectPresent_cases (environment : Environment) (expected : Variable) (m : Machine) :
    environment.Binds m.memory expected.slot expected.name ∧
        expectPresent environment expected m = .ok () m ∨
      ¬ environment.Binds m.memory expected.slot expected.name ∧
        (expectPresent environment expected).value? m = none := by
  rw [expectPresent, Program.value?_bind, Program.value?_inspect, Program.last_inspect,
    Option.bind_some, Program.run_bind_ok (show Program.inspect _ m =
      .ok (environment.get? m.memory expected.slot) m from rfl)]
  cases present : environment.get? m.memory expected.slot with
  | none =>
    refine .inr ⟨?_, Program.value?_abortWith _ _⟩
    rintro ⟨found, held, _⟩
    rw [present] at held
    contradiction
  | some current =>
    dsimp only
    by_cases same : current.name = expected.name
    · exact .inl ⟨⟨current, present, same⟩, by rw [if_neg (not_not.mpr same)]; rfl⟩
    · refine .inr ⟨?_, by rw [if_pos same]; exact Program.value?_abortWith _ _⟩
      rintro ⟨found, held, named⟩
      rw [present, Option.some.injEq] at held
      exact same (held ▸ named)

section
variable (named : configuration.supplementary = some supplementary)
include named

/-- Which edit is made, once the supplementary variable is where it was found. -/
theorem handOn_of_binds
    (held : environment.Binds m.memory supplementary.slot supplementary.name) :
    handOn configuration environment m =
      (match configuration.existing with
      | none => rename environment supplementary
      | some existing => append environment supplementary existing) m := by
  rcases expectPresent_cases environment supplementary m with ⟨_, present⟩ | ⟨missing, _⟩
  · rw [handOn, named]
    exact Program.run_bind_ok present
  · contradiction

theorem binds_of_returned {outcome : Except LoadError Change}
    (returned : (handOn configuration environment).value? m = some outcome) :
    environment.Binds m.memory supplementary.slot supplementary.name := by
  rcases expectPresent_cases environment supplementary m with ⟨held, _⟩ | ⟨_, aborted⟩
  · exact held
  · rw [handOn, named] at returned
    dsimp only at returned
    rw [Program.value?_bind, aborted] at returned
    contradiction

end

theorem append_change
    (returned : (append environment supplementary existing).value? m = some (.ok change)) :
    change = .appended existing.slot := by
  obtain ⟨_, _, returned⟩ := Program.value?_bind_eq_some.mp returned
  obtain ⟨room, _, returned⟩ := Program.value?_bind_eq_some.mp returned
  cases room with
  | none => cases returned
  | some _ =>
    obtain ⟨leaked, _, returned⟩ := Program.value?_bind_eq_some.mp returned
    cases leaked with
    | error error => cases returned
    | ok address =>
      obtain ⟨_, _, returned⟩ := Program.value?_bind_eq_some.mp returned
      cases returned
      rfl

inductive Leaves (configuration : Configuration) (environment : Environment)
    (before after : Machine) : Option (Except LoadError Change) → Prop
  | aborted (kept : ∀ address, ¬ before.heap.HandedOut after.heap address →
      after.memory.read address = before.memory.read address) :
    Leaves configuration environment before after none
  | failed (memory : after.memory = before.memory) :
    Leaves configuration environment before after (some (.error .outOfMemory))
  | unchanged (without : configuration.supplementary = none)
    (memory : after.memory = before.memory) :
    Leaves configuration environment before after (some (.ok .unchanged))
  | renamed {supplementary : Variable} (named : configuration.supplementary = some supplementary)
    (without : configuration.existing = none)
    (held : environment.Binds before.memory supplementary.slot supplementary.name)
    (replaced : environment.Replaced before.memory after.memory supplementary.slot
      (entry supplementary.value))
    (kept : ∀ address,
      ¬ (address - environment.entryAddress before.memory supplementary.slot).toNat <
        before.memory.textSize (environment.entryAddress before.memory supplementary.slot) →
      after.memory.read address = before.memory.read address) :
    Leaves configuration environment before after (some (.ok (.renamed supplementary.slot)))
  | appended {supplementary existing : Variable}
    (named : configuration.supplementary = some supplementary)
    (inherited : configuration.existing = some existing)
    (held : environment.Binds before.memory supplementary.slot supplementary.name)
    (replaced : environment.Replaced before.memory after.memory existing.slot
      (entry (join existing.value supplementary.value)))
    (kept : ∀ address, ¬ (address - environment.slotAddress existing.slot).toNat < 8 →
      ¬ before.heap.HandedOut after.heap address →
        after.memory.read address = before.memory.read address) :
    Leaves configuration environment before after (some (.ok (.appended existing.slot)))

section
variable (unaliased : environment.Unaliased m.memory) (recorded : configuration.Recorded)
  (fresh : ∀ address, environment.Contains m.memory address →
    ¬ m.heap.HandedOut ((handOn configuration environment).last m).heap address)
include unaliased recorded fresh

/-- The edit of a run that succeeds sets the slot that it reports. -/
theorem leaves_succeeds
    (returned : (handOn configuration environment).value? m = some (.ok change)) :
    Leaves configuration environment m ((handOn configuration environment).last m)
      (some (.ok change)) := by
  have edits := handOn_succeeds returned
  generalize (handOn configuration environment).last m = after at edits fresh ⊢
  cases edits with
  | unchanged without memory => exact .unchanged without memory
  | @renamed supplementary named listed fits memory =>
    have held := binds_of_returned named returned
    have without : configuration.existing = none := by
      rw [Program.value?_congr (handOn_of_binds named held)] at returned
      cases inherited : configuration.existing with
      | none => rfl
      | some existing =>
        rw [inherited] at returned
        cases append_change returned
    obtain ⟨_, _, found⟩ := recorded supplementary (.inl named)
    refine .renamed named without held ?_ fun address outside => ?_
    · rw [memory]
      exact unaliased.replaced_overwrite listed fits
        (zero_not_mem_entry (Environment.zero_not_mem_value found))
    · rw [Environment.entry, Memory.length_string] at fits
      rw [memory]
      exact Memory.read_writeString_outside _ (Nat.lt_succ_of_le fits) outside
  | @appended supplementary existing start named inherited listed low high memory =>
    refine .appended named inherited (binds_of_returned named returned) ?_
      fun address pointer outside => ?_
    · rw [memory]
      exact unaliased.replaced_redirect listed (zero_not_mem_recorded recorded named inherited)
        fun address contains inside => fresh address contains (.of_inside low high inside)
    · rw [memory, Memory.read_writeWord_outside _ pointer]
      exact Memory.read_writeString_outside _ (Nat.lt_succ_self _) fun inside =>
        outside (.of_inside low high inside)

theorem leaves_handOn : Leaves configuration environment m
    ((handOn configuration environment).last m) ((handOn configuration environment).value? m) := by
  cases returned : (handOn configuration environment).value? m with
  | none => exact .aborted (abortsAfter_handOn _ _ m returned).2.memory
  | some outcome =>
    cases outcome with
    | error error =>
      obtain rfl := reports_handOn configuration environment m error returned
      exact .failed (handOn_fails returned)
    | ok change => exact leaves_succeeds unaliased recorded fresh returned

end

theorem Leaves.replaced {before after : Machine} {slot : Nat}
    (leaves : Leaves configuration environment before after (some (.ok change)))
    (changed : change.slot? = some slot) :
    environment.Replaced before.memory after.memory slot (change.text configuration) := by
  cases leaves with
  | unchanged => contradiction
  | renamed named without held replaced =>
    cases changed
    rw [Change.text, named]
    exact replaced
  | appended named inherited held replaced =>
    cases changed
    rw [Change.text, named, inherited]
    exact replaced

/-- The memory that appending takes: for the joined paths, and for the entry with its NUL. -/
def appendRoom (supplementary existing : Variable) : Nat :=
  let joined := join existing.value supplementary.value
  joined.length + ((entry joined).length + 1)

theorem leak_of_fits {text : Bytes} (clean : 0 ∉ text)
    (fits : m.heap.fits (m.heap.used + (text.length + 1)) = true) :
    ∃ address, (leak text).value? m = some (.ok address) := by
  obtain ⟨address, reserved, _⟩ := Program.reserve_of_fits fits
  refine ⟨address, Program.value?_bind_eq_some.mpr ⟨_, reserved, ?_⟩⟩
  refine Program.value?_bind_eq_some.mpr ⟨(), rfl, ?_⟩
  rw [if_neg clean]
  rfl

theorem append_of_fits (writes : m.kernel.OnlyFails .write)
    (listed : existing.slot < environment.count)
    (clean : 0 ∉ entry (join existing.value supplementary.value))
    (room : m.heap.fits (m.heap.used + appendRoom supplementary existing) = true) :
    (append environment supplementary existing).value? m =
      some (.ok (.appended existing.slot)) := by
  refine (Program.wrote_log _ _).value?_bind (Program.value?_log writes _ _) fun logged wrote => ?_
  rw [← wrote.heap, appendRoom, ← Nat.add_assoc] at room
  obtain ⟨_, reserved, last⟩ := Program.reserve_of_fits (Heap.fits_of_le (Nat.le_add_right _ _) room)
  obtain ⟨address, leaked⟩ : ∃ address, (leak (entry (join existing.value supplementary.value))).value?
      ((Program.reserve (join existing.value supplementary.value).length 1).last logged) =
        some (.ok address) := by
    rw [last]
    exact leak_of_fits clean room
  refine Program.value?_bind_eq_some.mpr ⟨_, reserved, ?_⟩
  refine Program.value?_bind_eq_some.mpr ⟨_, leaked, ?_⟩
  exact Program.value?_bind_eq_some.mpr ⟨(), Environment.redirect_returns listed address, rfl⟩

theorem rename_of_fits (writes : m.kernel.OnlyFails .write)
    (listed : supplementary.slot < environment.count)
    (fits : (entry supplementary.value).length ≤
      (environment.entry m.memory supplementary.slot).length)
    (room : m.heap.fits (m.heap.used + (entry supplementary.value).length) = true) :
    (rename environment supplementary).value? m = some (.ok (.renamed supplementary.slot)) := by
  refine (Program.wrote_log _ _).value?_bind (Program.value?_log writes _ _) fun logged wrote => ?_
  rw [← wrote.heap] at room
  rw [← wrote.memory] at fits
  obtain ⟨_, reserved, last⟩ := Program.reserve_of_fits room
  refine Program.value?_bind_eq_some.mpr ⟨_, reserved, ?_⟩
  rw [last]
  exact Program.value?_bind_eq_some.mpr ⟨(), Environment.overwrite_returns listed fits, rfl⟩

/-- Where there is room, a path is appended to whatever is in the slot of the inherited one. -/
theorem handOn_appends_iff (named : configuration.supplementary = some supplementary)
    (inherited : configuration.existing = some existing) (writes : m.kernel.OnlyFails .write)
    (clean : 0 ∉ entry (join existing.value supplementary.value))
    (room : m.heap.fits (m.heap.used + appendRoom supplementary existing) = true) :
    (handOn configuration environment).value? m = some (.ok (.appended existing.slot)) ↔
      environment.Binds m.memory supplementary.slot supplementary.name ∧
        existing.slot < environment.count := by
  constructor
  · intro returned
    exact ⟨binds_of_returned named returned, ((handOn_succeeds returned).slot_cases rfl).1⟩
  · rintro ⟨held, listed⟩
    rw [Program.value?_congr (handOn_of_binds named held), inherited]
    exact append_of_fits writes listed clean room

def Change.former (configuration : Configuration) : Change → Bytes
  | .unchanged => []
  | .renamed _ => (configuration.supplementary.map Variable.name).getD []
  | .appended _ => VariableName.libraryPath

/-- Whatever the environment, a run that does not succeed leaves it as it was, and one that
does sets the one slot that it reports. What that slot held is the variable that was
recorded for it if the inherited path is still in its slot. If it is not, nobody notices:
whether a path is appended depends on the supplementary variable alone. -/
theorem handOn_effects (unaliased : environment.Unaliased m.memory)
    (recorded : configuration.Recorded)
    (fresh : ∀ address, environment.Contains m.memory address →
      ¬ m.heap.HandedOut ((handOn configuration environment).last m).heap address) :
    let run := handOn configuration environment
    Leaves configuration environment m (run.last m) (run.value? m) ∧
    (run.value? m = none → run.ending? m = some .aborted) ∧
    (∀ change slot, run.value? m = some (.ok change) → change.slot? = some slot →
      (∀ existing, configuration.existing = some existing →
        environment.Binds m.memory existing.slot VariableName.libraryPath) →
      environment.Binds m.memory slot (change.former configuration)) ∧
    (∀ supplementary existing, configuration.supplementary = some supplementary →
      configuration.existing = some existing → m.kernel.OnlyFails .write →
      m.heap.fits (m.heap.used + appendRoom supplementary existing) = true →
      (run.value? m = some (.ok (.appended existing.slot)) ↔
        environment.Binds m.memory supplementary.slot supplementary.name ∧
          existing.slot < environment.count)) := by
  refine ⟨leaves_handOn unaliased recorded fresh, fun ended => (abortsAfter_handOn _ _ m ended).1,
    fun change slot returned changed present => ?_,
    fun supplementary existing named inherited writes => handOn_appends_iff named inherited writes
      (zero_not_mem_recorded recorded named inherited)⟩
  have leaves := leaves_succeeds unaliased recorded fresh returned
  cases leaves with
  | unchanged => contradiction
  | renamed named without held =>
    cases changed
    rw [Change.former, named]
    exact held
  | appended named inherited =>
    cases changed
    exact present _ inherited

/-- A configuration that was read where `LD_LIBRARY_PATH` was the first variable. -/
def recordedBlock : StartupBlock :=
  ⟨[], [ascii "LD_LIBRARY_PATH=/usr/lib", ascii "NIX_LD_LIBRARY_PATH=/nix/lib"], []⟩

def staleConfiguration : Configuration where
  programName := StartupView.defaultName
  interpreter := ⟨2, VariableName.interpreter, ascii "/ld", 0x3000⟩
  supplementary := some ⟨1, VariableName.supplementaryPath, ascii "/nix/lib", 0x202d⟩
  existing := some ⟨0, VariableName.libraryPath, ascii "/usr/lib", 0x2010⟩
  pageSize := ⟨0x4000, by decide⟩
  logLevel := none

theorem staleConfiguration_recorded : staleConfiguration.Recorded := by
  let m := recordedBlock.place 0x1000 0x2000 .zero
  rintro found (named | inherited)
  · cases named
    exact ⟨(StartupView.read m 0x1000).environment, m, by decide +kernel⟩
  · cases inherited
    exact ⟨(StartupView.read m 0x1000).environment, m, by decide +kernel⟩

/-- A block in which another variable is where that configuration has seen `LD_LIBRARY_PATH`. -/
def shiftedBlock : StartupBlock :=
  ⟨[], [ascii "HOME=/", ascii "NIX_LD_LIBRARY_PATH=/nix/lib"], []⟩

def shiftedMachine : Machine where
  memory := shiftedBlock.place 0x1000 0x2000 .zero
  kernel := .initial (fun _ => none) [] ⟨0x10000000, 0x100000⟩
  heap := .empty 0x100000 none
  logFilter := none

theorem shiftedBlock_liesIn : shiftedBlock.LiesIn shiftedMachine.memory 0x1000 0x2000 :=
  have fits : shiftedBlock.FitsAt 0x1000 0x2000 := by decide
  StartupBlock.liesIn_place fits .zero

theorem handOn_effects_shifted :
    let environment := (StartupView.read shiftedMachine.memory 0x1000).environment
    let run := handOn staleConfiguration environment
    Leaves staleConfiguration environment shiftedMachine (run.last shiftedMachine)
        (run.value? shiftedMachine) ∧
      (run.value? shiftedMachine = some (.ok (.appended 0)) ↔
        environment.Binds shiftedMachine.memory 1 VariableName.supplementaryPath ∧
          0 < environment.count) := by
  have laid := StartupView.laid_read shiftedMachine.memory 0x1000
  have used : ((handOn staleConfiguration
      (StartupView.read shiftedMachine.memory 0x1000).environment).last shiftedMachine).heap.used =
        51 := by decide +kernel
  obtain ⟨leaves, _, _, appends⟩ := handOn_effects (shiftedBlock_liesIn.unaliased.environment laid)
    staleConfiguration_recorded fun _ => shiftedBlock_liesIn.fresh (by rw [used]; decide)
      (by rw [used]; exact ⟨.inl (by decide), .inl (by decide)⟩)
  exact ⟨leaves, appends _ _ rfl rfl (fun _ member => nomatch member) rfl⟩

/-- The slot of the inherited path holds another variable by now, which is replaced. -/
theorem handOn_replaces_other :
    let environment := (StartupView.read shiftedMachine.memory 0x1000).environment
    let run := handOn staleConfiguration environment
    run.value? shiftedMachine = some (.ok (.appended 0)) ∧
      environment.entry shiftedMachine.memory 0 = ascii "HOME=/" ∧
      environment.entry (run.last shiftedMachine).memory 0 =
        ascii "LD_LIBRARY_PATH=/usr/lib:/nix/lib" := by
  decide +kernel

end LibraryPath
end ElfRelay
