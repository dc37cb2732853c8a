import ElfRelay.Proofs.Loader.HeapLimit
import ElfRelay.Proofs.Muting
/-! The phases of a run, beside those of another on a system that differs in what is written
out, with a configuration that differs in the log level. Each comes to the same result, and the
last of them to the same end. -/
namespace ElfRelay

open Program (Mirrors Alike muting Coupled run_bind_ok eq_ok_of_value?)
open Machine (Told Later)

section
variable {m n after other : Machine} {environment : Environment} {may : Ending → Prop}

namespace Environment

variable {slot : Nat} {entry : Bytes} (beside : Machine.Beside m n after other)
include beside

theorem overwrite_alike (one : (environment.overwrite slot entry).value? after = some ())
    (two : (environment.overwrite slot entry).value? other = some ()) :
    Alike (muting m n may) (environment.overwrite slot entry after)
      (environment.overwrite slot entry other) := by
  rw [eq_ok_of_value? one, eq_ok_of_value? two, (overwrite_succeeds one).2.2,
    (overwrite_succeeds two).2.2]
  exact .returned (beside.memory _ _)

theorem redirect_alike (listed : slot < environment.count) (address : UInt64) :
    Alike (muting m n may) (environment.redirect slot address after)
      (environment.redirect slot address other) := by
  rw [redirect, if_neg (Nat.not_le.mpr listed)]
  exact Program.mirrors_changeMemory _ _ _ _ beside

end Environment

namespace LibraryPath

variable {configuration twin : Configuration} {supplementary similar existing inherited : Variable}

theorem last_reserve_memory (size : Nat) (m : Machine) :
    ((Program.reserve size 1).last m).memory = m.memory := by
  obtain ⟨_, _, last⟩ := Program.requested_reserve size Nat.one_pos m
  rw [last]

theorem mirrors_leak {text : Bytes} (clean : 0 ∉ text) :
    Mirrors (muting m n may) (leak text) (leak text) := by
  refine .bind (Program.mirrors_reserve _ (by decide)) fun room => ?_
  cases room with
  | none => exact .pure _
  | some address =>
    refine .bind (Program.mirrors_changeMemory _ _) fun _ => ?_
    rw [if_neg clean]
    exact .pure _

variable (modest : m.kernel.OnlyFails .write) (shy : n.kernel.OnlyFails .write)
  (beside : Machine.Beside m n after other)
include modest shy beside

theorem rename_alike (bare : similar.bare = supplementary.bare)
    (named : supplementary.Named VariableName.supplementaryPath)
    (found : environment.get? after.memory supplementary.slot = some supplementary)
    (there : environment.get? other.memory similar.slot = some similar) :
    Alike (muting m n may) (rename environment supplementary after)
      (rename environment similar other) := by
  obtain ⟨slot, name, value⟩ := Variable.eq_of_bare bare
  have fits := length_entry_le found named
  have fit := length_entry_le there (by rwa [Variable.Named, name])
  have listed := (Environment.get?_eq_some found).1
  have one := Program.within_log Told.kept .info
    (ascii "renaming " :: Utf8.lossy supplementary.name ++ [ascii " to LD_LIBRARY_PATH"]) after
  have two := Program.within_log Told.kept .info
    (ascii "renaming " :: Utf8.lossy similar.name ++ [ascii " to LD_LIBRARY_PATH"]) other
  rw [rename, rename]
  refine Alike.bind (Program.mirrors_log modest shy _ _ _ _ _ _ beside) fun _ beside => ?_
  rw [← one.memory] at fits
  rw [← two.memory] at fit
  rw [slot, value] at fit ⊢
  refine Alike.bind (Program.mirrors_reserve _ (by decide) _ _ beside) fun room beside => ?_
  cases room with
  | none => exact .returned beside
  | some _ =>
    refine Alike.bind (Environment.overwrite_alike beside ?_ ?_) fun _ beside => .returned beside
    · exact Environment.overwrite_returns listed (by rwa [last_reserve_memory])
    · exact Environment.overwrite_returns listed (by rwa [last_reserve_memory])

theorem append_alike (listed : existing.slot < environment.count)
    (clean : 0 ∉ entry (join existing.value supplementary.value)) (bare : similar.bare = supplementary.bare) (same : inherited.bare = existing.bare) :
    Alike (muting m n may) (append environment supplementary existing after)
      (append environment similar inherited other) := by
  obtain ⟨_, _, value⟩ := Variable.eq_of_bare bare
  obtain ⟨slot, _, path⟩ := Variable.eq_of_bare same
  rw [append, append, slot, value, path]
  refine Alike.bind (Program.mirrors_log modest shy _ _ _ _ _ _ beside) fun _ beside => ?_
  refine Alike.bind (Program.mirrors_reserve _ (by decide) _ _ beside) fun room beside => ?_
  cases room with
  | none => exact .returned beside
  | some _ =>
    refine Alike.bind (mirrors_leak clean _ _ beside) fun leaked beside => ?_
    cases leaked with
    | error error => exact .returned beside
    | ok address =>
      exact Alike.bind (Environment.redirect_alike beside listed address) fun _ beside =>
        .returned beside

/-- Handing on returns the same on both sides while the variables are in their slots. -/
theorem handOn_alike (bare : twin.bare = configuration.bare)
    (sound : configuration.Sound environment after.memory)
    (similar : twin.Sound environment other.memory) :
    Alike (muting m n may) (handOn configuration environment after)
      (handOn twin environment other) := by
  have chosen : twin.supplementary.map Variable.bare = configuration.supplementary.map Variable.bare :=
    congrArg Configuration.supplementary bare
  have inherited : twin.existing.map Variable.bare = configuration.existing.map Variable.bare :=
    congrArg Configuration.existing bare
  rw [handOn, handOn]
  obtain ⟨none, absent⟩ | ⟨one, two, first, second, same⟩ := Variable.cases_of_bare chosen
  · rw [none, absent]
    exact .returned beside
  · obtain ⟨present, named⟩ := sound.supplementary one first
    have there := (similar.supplementary two second).1
    obtain ⟨returns, stays⟩ := expectPresent_returns present
    obtain ⟨goesOn, remains⟩ := expectPresent_returns there
    rw [first, second]
    dsimp only
    rw [run_bind_ok (eq_ok_of_value? returns), run_bind_ok (eq_ok_of_value? goesOn), stays, remains]
    obtain ⟨none, absent⟩ | ⟨path, other, third, fourth, alike⟩ := Variable.cases_of_bare inherited
    · rw [none, absent]
      exact rename_alike modest shy beside same named present there
    · rw [third, fourth]
      have listed := (Environment.get?_eq_some (sound.existing path third).1).1
      exact append_alike modest shy beside listed (zero_not_mem_appended sound first third) same alike

end LibraryPath
end

namespace Loader

open LibraryPath (handOn)

variable {bond : Program.Bond} {m n : Machine} {may : Ending → Prop}
  {configuration twin : Configuration}

theorem mirrors_loadInterpreter (coupled : Coupled bond)
    (reserves : ∀ size {align}, 0 < align →
      Mirrors bond (Program.reserve size align) (Program.reserve size align))
    (configuration : Configuration) :
    Mirrors bond (loadInterpreter configuration) (loadInterpreter configuration) := by
  refine .bind (Elf.Object.mirrors_openPath coupled reserves _) fun opened => ?_
  cases opened with
  | error error => exact .pure _
  | ok object =>
    refine .bind (Image.mirrors_build coupled object _) fun image => ?_
    exact .bind (coupled.close object.file) fun _ => .pure _

/-- Of a configuration, loading the interpreter takes its path and the page size. -/
theorem loadInterpreter_congr (bare : twin.bare = configuration.bare) :
    loadInterpreter twin = loadInterpreter configuration := by
  have interpreter := Variable.eq_of_bare (congrArg Configuration.interpreter bare)
  have pageSize : twin.pageSize = configuration.pageSize :=
    (congrArg Configuration.pageSize bare :)
  rw [loadInterpreter, loadInterpreter, pageSize, interpreter.2.2]

/-- How two runs end that have only written different text: with the same diagnostic, or in
the same way without one, and with the same block. -/
inductive EndsAlike (process : StartupView) (m n : Machine) :
    EStateM.Result Ending Machine Empty → EStateM.Result Ending Machine Empty → Prop
  | reported (diagnostic : Diagnostic) {after other : Machine}
    (beside : Machine.Beside m n after other)
    (block : process.SameBlock after.memory other.memory) :
    EndsAlike process m n (fail diagnostic after) (fail diagnostic other)
  | ended {ending : Ending} {after other : Machine} (silent : ∀ status, ending ≠ .exited status)
    (beside : Machine.Beside m n after other)
    (block : process.SameBlock after.memory other.memory) :
    EndsAlike process m n (.error ending after) (.error ending other)

variable {process : StartupView} {after other : Machine} {image : Image} {programName : Bytes}

theorem EndsAlike.bind {program similar : Program α} {next last : α → Program Empty}
    (alike : Alike (muting m n fun _ => False) (program after) (similar other))
    (rest : ∀ value, Machine.Beside m n (program.last after) (similar.last other) →
      EndsAlike process m n (next value (program.last after)) (last value (similar.last other))) :
    EndsAlike process m n ((program >>= next) after) ((similar >>= last) other) := by
  obtain ⟨reached, ⟨value, one, two⟩ | ⟨_, never, _⟩⟩ := alike.cases
  · rw [run_bind_ok one, run_bind_ok two]
    exact rest value reached
  · exact never.elim

def refusal (result : UInt64) : LoadError :=
  match Errno.ofResult result with
  | .error errno => .cannotExecute errno
  | .ok _ => .cannotExecute Errno.invalidArgument

theorem finish_execute {path arguments environment result : UInt64} {m : Machine} {kernel : Kernel}
    (called : Kernel.execve (m.memory.string path) (m.memory.strings arguments)
      (m.memory.strings environment) m.kernel = (result, kernel)) :
    finish programName (.execute path arguments environment) m =
      fail ⟨programName, some (m.memory.string path), refusal result⟩ { m with kernel := kernel } := by
  have carried : (Handover.execute path arguments environment).carryOut m =
      .ok (refusal result) { m with kernel := kernel } := by
    have answered : Program.callKernel (Kernel.execve (m.memory.string path)
        (m.memory.strings arguments) (m.memory.strings environment)) m =
          .ok result { m with kernel := kernel } := by
      change EStateM.Result.ok _ _ = _
      rw [called]
    rw [Handover.carryOut, run_bind_ok (show Program.inspect Machine.memory m = .ok m.memory m from rfl),
      run_bind_ok answered, refusal]
    cases Errno.ofResult result <;> rfl
  rw [finish, run_bind_ok (show Program.inspect _ m = .ok (some (m.memory.string path)) m from rfl),
    run_bind_ok carried]

theorem finish_execute_alike {path twin : UInt64} (beside : Machine.Beside m n after other)
    (block : process.SameBlock after.memory other.memory)
    (same : other.memory.string twin = after.memory.string path) :
    EndsAlike process m n
      (finish programName (.execute path process.arguments process.environment.slots) after)
      (finish programName (.execute twin process.arguments process.environment.slots) other) := by
  have called := beside.kernel.execve (after.memory.string path)
    (after.memory.strings process.arguments) block.environmentStrings_alike
  have later (k : Kernel) (path : Bytes) (arguments environment : List Bytes) :
      k.Later (Kernel.execve path arguments environment k).2 := .record _ rfl rfl rfl
  have tried := later after.kernel (after.memory.string path)
    (after.memory.strings process.arguments) (after.memory.strings process.environment.slots)
  have failed := later other.kernel (after.memory.string path)
    (after.memory.strings process.arguments) (other.memory.strings process.environment.slots)
  generalize first : Kernel.execve _ _ (after.memory.strings _) after.kernel = one at called tried
  generalize second : Kernel.execve _ _ (other.memory.strings _) other.kernel = two at called failed
  rw [← same, ← block.argumentStrings_eq] at second
  obtain ⟨result, one⟩ := one
  obtain ⟨_, two⟩ := two
  obtain ⟨rfl, kernels⟩ := called
  rw [finish_execute first, finish_execute second, same]
  exact .reported _ (beside.step kernels beside.heap (.of_kernel rfl tried) (.of_kernel rfl failed))
    block

section
variable (modest : m.kernel.OnlyFails .write) (shy : n.kernel.OnlyFails .write)
include modest shy

theorem mirrors_announce : Mirrors (muting m n may) (announce configuration) (announce twin) := by
  have applies (configuration : Configuration) (m : Machine) (fails : m.kernel.OnlyFails .write) :
      (applyLogLevel configuration).value? m = some () := by
    rw [applyLogLevel]
    split
    · rfl
    · exact Program.value?_log fails _ _
    · rfl
  have told (configuration : Configuration) : Program.Within Told (applyLogLevel configuration) :=
    within_applyLogLevel Told.kept (fun _ _ => ⟨rfl, rfl, .refl _, .refl _⟩) configuration
  exact .bind (Program.mirrors_of_told modest shy (told _) (told _) (applies _) (applies _))
    fun _ => Program.mirrors_log modest shy _ _ _ _

theorem mirrors_fetch (aborts : may .aborted) (bare : twin.bare = configuration.bare) :
    Mirrors (muting m n may) (fetch configuration) (fetch twin) := by
  rw [fetch, fetch, loadInterpreter_congr bare]
  exact .bind (mirrors_announce modest shy) fun _ => mirrors_loadInterpreter
    (Program.coupled_muting aborts modest shy) (fun size _ => Program.mirrors_reserve size) _

theorem conclude_alike (beside : Machine.Beside m n after other)
    (block : process.SameBlock after.memory other.memory)
    (same : other.memory.string twin.interpreter.valueAddress =
      after.memory.string configuration.interpreter.valueAddress)
    (patched : process.SameBlock
      (process.auxiliaryVector.set after.memory AuxiliaryVector.baseKey image.loadBias)
      (process.auxiliaryVector.set other.memory AuxiliaryVector.baseKey image.loadBias)) :
    EndsAlike process m n
      ((chooseHandover process configuration image >>= finish programName) after)
      ((chooseHandover process twin image >>= finish programName) other) := by
  have jumps {after other : Machine} (beside : Machine.Beside m n after other)
      (block : process.SameBlock after.memory other.memory) :
      EndsAlike process m n
        (finish programName (.jump image.entryPoint process.stackPointer image) after)
        (finish programName (.jump image.entryPoint process.stackPointer image) other) :=
    .ended nofun beside block
  have logged (level : LogLevel) (message : List Bytes) (m : Machine) :
      ((Program.log level message).last m).memory = m.memory :=
    (Program.wrote_log level message m).memory
  -- Both sides read the same base address, and so take the same way.
  rw [chooseHandover, chooseHandover, bind_assoc, bind_assoc,
    run_bind_ok (show Program.inspect _ after = .ok (process.auxiliaryVector.get? after.memory
      AuxiliaryVector.baseKey) after from rfl),
    run_bind_ok (show Program.inspect _ other = .ok (process.auxiliaryVector.get? other.memory
      AuxiliaryVector.baseKey) other from rfl), block.get?_eq]
  cases process.auxiliaryVector.get? after.memory AuxiliaryVector.baseKey with
  | none =>
    simp only [bind_assoc, pure_bind]
    refine .bind (Program.mirrors_log modest shy _ _ _ _ _ _ beside) fun _ beside => ?_
    exact jumps beside (by rwa [logged, logged])
  | some base =>
    dsimp only
    split
    · simp only [bind_assoc, pure_bind]
      refine .bind (Program.mirrors_log modest shy _ _ _ _ _ _ beside) fun _ beside => ?_
      refine .bind (Program.mirrors_release image.region _ _ beside) fun _ beside => ?_
      have released (m : Machine) : (image.region.release.last m).memory = m.memory := rfl
      refine finish_execute_alike beside ?_ ?_ <;> rwa [released, released, logged, logged]
    · simp only [bind_assoc, pure_bind]
      refine .bind (Program.mirrors_log modest shy _ _ _ _ _ _ beside) fun _ beside => ?_
      refine .bind (Program.mirrors_changeMemory _ _ _ _ beside) fun _ beside => ?_
      refine jumps beside ?_
      rwa [Program.last_changeMemory, Program.last_changeMemory, logged, logged]

end

end Loader
end ElfRelay
