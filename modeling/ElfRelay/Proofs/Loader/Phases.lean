import ElfRelay.Loader
import ElfRelay.Proofs.Image.Calls
/-! A run in two phases. Fetching opens, checks and maps the interpreter, and ends
with its file closed; settling hands on the library path and chooses the handover.
How far a run has come is read off what it returns. -/
namespace ElfRelay.Loader

open Elf (Object)

/-- What a run does with the configuration before it opens the interpreter. -/
def announce (configuration : Configuration) : Program Unit := do
  applyLogLevel configuration
  Program.log .debug
    (ascii "loading interpreter " :: Utf8.lossy configuration.interpreter.value)

/-- What a run does until the interpreter is mapped and its file closed. -/
def fetch (configuration : Configuration) : Program (Except LoadError Image) := do
  announce configuration
  loadInterpreter configuration

def settle (process : StartupView) (configuration : Configuration) (image : Image) :
    Program (Except LoadError Handover) := do
  match ← LibraryPath.handOn configuration process.environment with
  | .error error =>
    image.region.release
    return .error error
  | .ok _ => return .ok (← chooseHandover process configuration image)

variable {process : StartupView} {configuration : Configuration} {m : Machine}

section
variable {step : Machine → Machine → Prop} [IsPreorder Machine step]

theorem within_applyLogLevel (kept : Machine.KeptByOutput step)
    (filters : ∀ (m : Machine) (filter : LogFilter), step m { m with logFilter := filter })
    (configuration : Configuration) : Program.Within step (applyLogLevel configuration) := by
  rw [applyLogLevel]
  split
  · exact fun m => filters m _
  · exact Program.within_log kept _ _
  · exact .pure ()

theorem within_announce (kept : Machine.KeptByOutput step)
    (filters : ∀ (m : Machine) (filter : LogFilter), step m { m with logFilter := filter })
    (configuration : Configuration) : Program.Within step (announce configuration) :=
  .bind (within_applyLogLevel kept filters configuration) fun _ => Program.within_log kept _ _

theorem within_chooseHandover (kept : Machine.KeptByMaps step) (process : StartupView)
    (configuration : Configuration) (image : Image) :
    Program.Within step (chooseHandover process configuration image) := by
  refine .bind (.inspect _) fun base => ?_
  cases base with
  | none => exact .bind (Program.within_log kept.toKeptByOutput _ _) fun _ => .pure _
  | some base =>
    dsimp only
    split
    · refine .bind (Program.within_log kept.toKeptByOutput _ _) fun _ => ?_
      exact .bind (Region.within_release kept _) fun _ => .pure _
    · refine .bind (Program.within_log kept.toKeptByOutput _ _) fun _ => ?_
      exact .bind (kept.within_changeMemory _) fun _ => .pure _

theorem within_settle (kept : Machine.KeptByMaps step) (process : StartupView)
    (configuration : Configuration) (image : Image) :
    Program.Within step (settle process configuration image) := by
  refine .bind (LibraryPath.within_handOn kept.toKeptByEdits _ _) fun handed => ?_
  cases handed with
  | error error => exact .bind (Region.within_release kept _) fun _ => .pure _
  | ok change => exact .bind (within_chooseHandover kept _ _ _) fun _ => .pure _

end

theorem loadWith_eq (process : StartupView) (configuration : Configuration) :
    loadWith process configuration = (do
      match ← fetch configuration with
      | .error error => return .error error
      | .ok image => settle process configuration image) := by
  simp only [loadWith, fetch, announce, bind_assoc]
  rfl

theorem value?_load (process : StartupView) (m : Machine) :
    (load process).value? m = match Configuration.read m.memory process with
      | .error error => some (.error ⟨process.programName m.memory, none, error⟩)
      | .ok configuration => ((loadWith process configuration).value? m).map
          fun outcome => outcome.mapError configuration.diagnostic := by
  rw [load, Program.value?_bind, Program.value?_inspect, Program.last_inspect, Option.bind_some]
  cases Configuration.read m.memory process with
  | error error => rfl
  | ok configuration =>
    dsimp only
    rw [Program.value?_bind]
    cases (loadWith process configuration).value? m <;> rfl

theorem last_load (process : StartupView) (m : Machine) :
    (load process).last m = match Configuration.read m.memory process with
      | .error _ => m
      | .ok configuration => (loadWith process configuration).last m := by
  rw [load, Program.last_bind, Program.value?_inspect, Program.last_inspect]
  dsimp only
  cases Configuration.read m.memory process with
  | error error => rfl
  | ok configuration =>
    dsimp only
    rw [Program.last_bind]
    cases (loadWith process configuration).value? m <;> rfl

/-- An interpreter that was fetched has been opened and built into an image. -/
theorem fetch_succeeds {image : Image} (fetched : (fetch configuration).value? m = some (.ok image)) :
    ∃ object, (Elf.Object.openPath configuration.interpreter.value).value?
        ((announce configuration).last m) = some (.ok object) ∧
      (Image.build object configuration.pageSize).value?
        ((Elf.Object.openPath configuration.interpreter.value).last
          ((announce configuration).last m)) = some (.ok image) ∧
      (fetch configuration).last m = object.file.close.last
        ((Image.build object configuration.pageSize).last
          ((Elf.Object.openPath configuration.interpreter.value).last
            ((announce configuration).last m))) := by
  obtain ⟨_, announced, fetched⟩ := Program.value?_bind_eq_some.mp fetched
  obtain ⟨opened, found, fetched⟩ := Program.value?_bind_eq_some.mp fetched
  rw [fetch, Program.last_bind_of_value _ announced, loadInterpreter,
    Program.last_bind_of_value _ found]
  cases opened with
  | error error => cases fetched
  | ok object =>
    obtain ⟨built, made, fetched⟩ := Program.value?_bind_eq_some.mp fetched
    obtain ⟨_, closed, fetched⟩ := Program.value?_bind_eq_some.mp fetched
    dsimp only
    rw [Program.last_bind_of_value _ made, Program.last_bind_of_value _ closed]
    cases fetched
    exact ⟨object, found, made, rfl⟩

/-- A run that opens the file it is configured with, and accepts it as an object. -/
def Accepts (process : StartupView) (m : Machine) (configuration : Configuration)
    (object : Object) : Prop :=
  Configuration.read m.memory process = .ok configuration ∧
    (Object.openPath configuration.interpreter.value).value? ((announce configuration).last m) =
      some (.ok object)

def accepted? (process : StartupView) (m : Machine) : Option (Configuration × Object) :=
  match Configuration.read m.memory process with
  | .error _ => none
  | .ok configuration =>
    match (Object.openPath configuration.interpreter.value).value?
        ((announce configuration).last m) with
    | some (.ok object) => some (configuration, object)
    | _ => none

theorem accepts_iff {object : Object} : Accepts process m configuration object ↔
    accepted? process m = some (configuration, object) := by
  unfold Accepts accepted?
  cases Configuration.read m.memory process with
  | error error => simp
  | ok found =>
    dsimp only
    split <;> grind

theorem chooseHandover_cases {handover : Handover} {image : Image}
    (returned : (chooseHandover process configuration image).value? m = some handover) :
    (process.auxiliaryVector.get? m.memory AuxiliaryVector.baseKey = some 0 ∧
      handover = .execute configuration.interpreter.valueAddress process.arguments
        process.environment.slots ∧
      ((chooseHandover process configuration image).last m).memory = m.memory) ∨
    (process.auxiliaryVector.get? m.memory AuxiliaryVector.baseKey ≠ some 0 ∧
      handover = .jump image.entryPoint process.stackPointer image ∧
      ((chooseHandover process configuration image).last m).memory =
        process.auxiliaryVector.set m.memory AuxiliaryVector.baseKey image.loadBias) := by
  rw [chooseHandover] at returned ⊢
  obtain ⟨base, inspected, returned⟩ := Program.value?_bind_eq_some.mp returned
  rw [Program.last_bind_of_value _ inspected]
  rw [Program.value?_inspect, Option.some.injEq] at inspected
  rw [Program.last_inspect] at returned ⊢
  rw [inspected]
  cases base with
  | none =>
    obtain ⟨_, logged, wrote, _, returned, last⟩ := (Program.wrote_log _ _).bind_succeeds returned
    dsimp only
    rw [last]
    cases returned
    rw [AuxiliaryVector.get?, Option.map_eq_none_iff] at inspected
    refine .inr ⟨nofun, rfl, ?_⟩
    rw [AuxiliaryVector.set, inspected]
    exact wrote.memory
  | some base =>
    dsimp only at returned ⊢
    split at returned
    · next zero =>
      obtain ⟨_, logged, wrote, _, returned, last⟩ := (Program.wrote_log _ _).bind_succeeds returned
      rw [if_pos zero, last]
      cases returned
      exact .inl ⟨zero ▸ rfl, rfl, wrote.memory⟩
    · next nonzero =>
      obtain ⟨_, logged, wrote, _, returned, last⟩ := (Program.wrote_log _ _).bind_succeeds returned
      rw [if_neg nonzero, last]
      cases returned
      refine .inr ⟨fun same => nonzero (Option.some.inj same), rfl, ?_⟩
      rw [← wrote.memory]
      rfl

/-- A run that returns has stopped at the configuration, has failed to fetch the
interpreter, or has settled. -/
theorem load_cases {outcome : Except Diagnostic Handover}
    (returned : (load process).value? m = some outcome) :
    (∃ error, Configuration.read m.memory process = .error error ∧
      outcome = .error ⟨process.programName m.memory, none, error⟩ ∧ (load process).last m = m) ∨
    ∃ configuration, Configuration.read m.memory process = .ok configuration ∧
      ((∃ error, (fetch configuration).value? m = some (.error error) ∧
          outcome = .error (configuration.diagnostic error) ∧
          (load process).last m = (fetch configuration).last m) ∨
        ∃ image settled, (fetch configuration).value? m = some (.ok image) ∧
          (settle process configuration image).value? ((fetch configuration).last m) =
            some settled ∧
          outcome = settled.mapError configuration.diagnostic ∧
          (load process).last m =
            (settle process configuration image).last ((fetch configuration).last m)) := by
  rw [value?_load] at returned
  rw [last_load]
  cases configured : Configuration.read m.memory process with
  | error error =>
    rw [configured] at returned
    cases returned
    exact .inl ⟨error, rfl, rfl, rfl⟩
  | ok configuration =>
    rw [configured] at returned
    obtain ⟨loaded, ran, rfl⟩ := Option.map_eq_some_iff.mp returned
    refine .inr ⟨configuration, rfl, ?_⟩
    dsimp only
    rw [loadWith_eq] at ran ⊢
    obtain ⟨fetched, found, ran⟩ := Program.value?_bind_eq_some.mp ran
    rw [Program.last_bind_of_value _ found]
    cases fetched with
    | error error =>
      cases ran
      exact .inl ⟨error, found, rfl, rfl⟩
    | ok image => exact .inr ⟨image, loaded, found, ran, rfl, rfl⟩

/-- A process on a start-up block, with a node at `/ld` or none, and an arena for mappings. -/
def hosting (block : StartupBlock) (stackPointer strings : UInt64) (arena : Region)
    (node : Option Node) : Machine where
  memory := block.place stackPointer strings .zero
  kernel := .initial (fun path => if path = ascii "/ld" then node else none) [] arena
  heap := .empty 0x100000 none
  logFilter := none

end ElfRelay.Loader
