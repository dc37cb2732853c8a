import ElfRelay.Proofs.LibraryPath.Effects
import ElfRelay.Proofs.Selection
/-! What handing on the library path makes of the environment that the configuration was
read from. As long as there is memory it succeeds, and `LD_LIBRARY_PATH` is then found with
the supplementary path in it, in one slot, while everything else is found as before. -/
namespace ElfRelay

open VariableName (libraryPath supplementaryPath tagged)

variable {configuration : Configuration} {environment : Environment} {m : Machine}

theorem Configuration.Sound.recorded (sound : configuration.Sound environment m.memory) :
    configuration.Recorded := by
  rintro found (named | inherited)
  · exact ⟨environment, m.memory, (sound.supplementary found named).1⟩
  · exact ⟨environment, m.memory, (sound.existing found inherited).1⟩

namespace LibraryPath

def room (configuration : Configuration) : Nat :=
  match configuration.supplementary, configuration.existing with
  | none, _ => 0
  | some supplementary, none => (entry supplementary.value).length
  | some supplementary, some existing => appendRoom supplementary existing

/-- Two memories in which an environment is the same but for one slot, which held a variable
of some name and now is the first to set the library path. -/
structure Sets (environment : Environment) (before after : Memory) (slot : Nat)
    (former value : Bytes) : Prop where
  replaced : environment.Replaced before after slot (entry value)
  found : ∃ found, environment.find? after libraryPath = some found ∧
    found.slot = slot ∧ found.name = libraryPath ∧ found.value = value
  others : ∀ name, name ≠ libraryPath → name ≠ former →
    environment.find? after name = environment.find? before name

theorem sets_of_replaced {before after : Memory} {slot : Nat} {former value : Bytes}
    (replaced : environment.Replaced before after slot (entry value))
    (held : environment.Binds before slot former)
    (first : ∀ earlier < slot, ¬ environment.Binds before earlier libraryPath) :
    Sets environment before after slot former value := by
  have plain : equalsSign ∉ libraryPath := by decide
  refine ⟨replaced, ⟨_, replaced.find?_self plain first, rfl, rfl, rfl⟩, fun name new old => ?_⟩
  refine replaced.find?_other plain new ?_
  rintro ⟨found, present, rfl⟩
  obtain ⟨other, held, rfl⟩ := held
  rw [present, Option.some.injEq] at held
  exact old (congrArg Variable.name held)

/-- What handing on comes to, by the supplementary path and the library path that are found.
Without the one nothing is changed, without the other its variable becomes the library path,
in its slot; otherwise the library path is extended. -/
inductive HandsOn (environment : Environment) (run : Program (Except LoadError Change))
    (m : Machine) : Option Variable → Option Variable → Prop
  | nothing {existing : Option Variable} (returned : run.value? m = some (.ok .unchanged))
    (memory : (run.last m).memory = m.memory) : HandsOn environment run m none existing
  | renames {supplementary : Variable}
    (returned : run.value? m = some (.ok (.renamed supplementary.slot)))
    (sets : Sets environment m.memory (run.last m).memory supplementary.slot supplementary.name
      supplementary.value) : HandsOn environment run m (some supplementary) none
  | appends {supplementary existing : Variable}
    (returned : run.value? m = some (.ok (.appended existing.slot)))
    (sets : Sets environment m.memory (run.last m).memory existing.slot libraryPath
      (join existing.value supplementary.value)) :
    HandsOn environment run m (some supplementary) (some existing)

section
variable {process : StartupView}
  (configured : Configuration.read m.memory process = .ok configuration)
  (unaliased : process.environment.Unaliased m.memory) (writes : m.kernel.OnlyFails .write)
  (enough : m.heap.fits (m.heap.used + room configuration) = true)
  (fresh : ∀ address, process.environment.Contains m.memory address →
    ¬ m.heap.HandedOut ((handOn configuration process.environment).last m).heap address)
include configured unaliased writes enough fresh

/-- With enough memory handing on succeeds in any environment that can be configured. The
supplementary path is the first one with the tag, or else the first one without it. -/
theorem handOn_sets_path :
    HandsOn process.environment (handOn configuration process.environment) m
      ((process.environment.find? m.memory (tagged supplementaryPath)).or
        (process.environment.find? m.memory supplementaryPath))
      (process.environment.find? m.memory libraryPath) := by
  have sound := Configuration.sound_of_read configured
  have leaves := leaves_handOn unaliased sound.recorded fresh
  obtain ⟨first, selected⟩ := Configuration.paths_of_read configured
  rw [← first, ← selected]
  cases named : configuration.supplementary with
  | none =>
    rw [handOn, named]
    exact .nothing rfl rfl
  | some supplementary =>
    obtain ⟨present, kind⟩ := sound.supplementary _ named
    have held : process.environment.Binds m.memory supplementary.slot supplementary.name :=
      ⟨supplementary, present, rfl⟩
    cases inherited : configuration.existing with
    | none =>
      rw [room, named, inherited] at enough
      have returned : (handOn configuration process.environment).value? m =
          some (.ok (.renamed supplementary.slot)) := by
        rw [Program.value?_congr (handOn_of_binds named held), inherited]
        exact rename_of_fits writes (Environment.get?_eq_some present).1
          (length_entry_le present kind) enough
      rw [returned] at leaves
      have replaced := leaves.replaced rfl
      rw [Change.text, named] at replaced
      have without := Environment.find?_eq_none_iff.mp (first.symm.trans inherited)
      exact .renames returned (sets_of_replaced replaced held fun earlier _ => without earlier)
    | some existing =>
      rw [room, named, inherited] at enough
      obtain ⟨there, same, before⟩ :=
        Environment.find?_eq_some_iff.mp (first.symm.trans inherited)
      have returned := (handOn_appends_iff named inherited writes
        (zero_not_mem_appended sound named inherited) enough).mpr
        ⟨held, (Environment.get?_eq_some there).1⟩
      rw [returned] at leaves
      have replaced := leaves.replaced rfl
      rw [Change.text, named, inherited] at replaced
      exact .appends returned (sets_of_replaced replaced ⟨existing, there, same⟩ before)

end

/-- A block with library paths of every kind, one of them twice. -/
def pathsBlock : StartupBlock :=
  ⟨[some (ascii "p")], [ascii "NIX_LD=/ld", ascii "NIX_LD_LIBRARY_PATH=/plain", ascii "BARE",
    ascii "LD_LIBRARY_PATH=/usr/lib", ascii "NIX_LD_LIBRARY_PATH_x86_64_linux=/nix/lib",
    ascii "LD_LIBRARY_PATH=/later"], [(AuxiliaryVector.pageSizeKey, 4096)]⟩

def pathsMachine : Machine where
  memory := pathsBlock.place 0x1000 0x2000 .zero
  kernel := .initial (fun _ => none) [] ⟨0x10000000, 0x100000⟩
  heap := .empty 0x100000 (some 51)
  logFilter := none

theorem pathsBlock_liesIn : pathsBlock.LiesIn pathsMachine.memory 0x1000 0x2000 := by
  have fits : pathsBlock.FitsAt 0x1000 0x2000 := by decide +kernel
  have placed : pathsMachine.memory = pathsBlock.place 0x1000 0x2000 .zero := by rw [pathsMachine]
  exact placed ▸ StartupBlock.liesIn_place fits .zero

def pathsProcess : StartupView := .read pathsMachine.memory 0x1000

theorem handOn_sets_path_twice :
    ∃ configuration, Configuration.read pathsMachine.memory pathsProcess = .ok configuration ∧
      (handOn configuration pathsProcess.environment).value? pathsMachine =
        some (.ok (.appended 3)) ∧
      Sets pathsProcess.environment pathsMachine.memory
        ((handOn configuration pathsProcess.environment).last pathsMachine).memory 3 libraryPath
        (ascii "/usr/lib:/nix/lib") := by
  have read : ((Configuration.read pathsMachine.memory pathsProcess).toOption.map
      fun configuration => (room configuration,
        ((handOn configuration pathsProcess.environment).last pathsMachine).heap.used)) =
          some (51, 51) := by decide +kernel
  obtain ⟨configuration, configured⟩ : ∃ configuration,
      Configuration.read pathsMachine.memory pathsProcess = .ok configuration := by
    cases outcome : Configuration.read pathsMachine.memory pathsProcess with
    | error error =>
      rw [outcome] at read
      contradiction
    | ok configuration => exact ⟨configuration, rfl⟩
  rw [configured] at read
  obtain ⟨needs, used⟩ := Prod.mk.inj (Option.some.inj read)
  have first : pathsProcess.environment.find? pathsMachine.memory libraryPath =
      some ⟨3, libraryPath, ascii "/usr/lib", 0x203d⟩ := by decide +kernel
  have chosen : (pathsProcess.environment.find? pathsMachine.memory (tagged supplementaryPath)).or
      (pathsProcess.environment.find? pathsMachine.memory supplementaryPath) =
        some ⟨4, tagged supplementaryPath, ascii "/nix/lib", 0x2067⟩ := by decide +kernel
  have clear : pathsBlock.ClearOf 0x1000 0x2000 0x100000 51 := by decide +kernel
  have law := handOn_sets_path configured
    (pathsBlock_liesIn.unaliased.environment (StartupView.laid_read pathsMachine.memory 0x1000))
    (fun _ member => nomatch member) (by rw [needs]; rfl)
    fun _ => pathsBlock_liesIn.fresh (by rw [used]; decide) (by rw [used]; exact clear)
  rw [first, chosen] at law
  cases law with
  | appends returned sets => exact ⟨configuration, configured, returned, sets⟩

end LibraryPath
end ElfRelay
