import ElfRelay.Proofs.HeapLimit
import ElfRelay.Proofs.Loader.Atomicity
import ElfRelay.Proofs.Loader.Custody
import ElfRelay.Proofs.Output
/-! The whole program on a heap of limited size. The blocks that a run on an endless heap
asks for are listed in the order in which it does so: the interpreter's path without its
newline, the program header table, the decoded headers, and the library path. -/
namespace ElfRelay

open Elf (Header ProgramHeader)
open Program (Mirrors Limits Heapless Draws Within afterwards succeeded)
open Machine (Later)

variable {limit : Nat}

namespace File

theorem heapless_openPath (path : Bytes) : Heapless (openPath path) :=
  .of_coupled fun coupled => coupled.openPath path

end File

namespace Elf.Object

end Elf.Object

namespace LibraryPath

variable {environment : Environment} {supplementary existing : Variable}

def notice (done : Bytes) (supplementary : Variable) : Program Unit :=
  Program.log .info (done :: Utf8.lossy supplementary.name ++ [ascii " to LD_LIBRARY_PATH"])

theorem heapless_notice (done : Bytes) (supplementary : Variable) :
    Heapless (notice done supplementary) :=
  .of_coupled fun coupled => coupled.log _ _

theorem heapless_unless {condition : Prop} [Decidable condition] (message : List Bytes)
    {next : Unit → Program α} (rest : ∀ done, Heapless (next done)) :
    Heapless (if condition then Program.abortWith message >>= next else next ()) := by
  split
  · exact .bind (fun _ _ => Limits.abortWith message) rest
  · exact rest ()

theorem heapless_overwrite (slot : Nat) (entry : Bytes) :
    Heapless (environment.overwrite slot entry) := by
  rw [Environment.overwrite]
  refine heapless_unless _ fun _ => .bind (fun limit _ => Limits.inspect fun _ => rfl) fun _ => ?_
  exact heapless_unless _ fun _ _ _ => Limits.changeMemory _

theorem heapless_redirect (slot : Nat) (entry : UInt64) :
    Heapless (environment.redirect slot entry) := by
  rw [Environment.redirect]
  exact heapless_unless _ fun _ _ _ => Limits.changeMemory _

theorem heapless_expectPresent : Heapless (expectPresent environment supplementary) := by
  refine .bind (fun _ _ => Limits.inspect fun _ => rfl) fun current => ?_
  cases current with
  | none => exact fun _ _ => Limits.abortWith _
  | some current =>
    dsimp only
    split
    · exact fun _ _ => Limits.abortWith _
    · exact .pure _

end LibraryPath

namespace Loader

variable {process : StartupView} {configuration : Configuration} {m : Machine}

theorem heapless_setLogFilter (filter : LogFilter) : Heapless (Program.setLogFilter filter) :=
  fun _ _ => Limits.modifyGet (fun m => ((), { m with logFilter := filter }))
    (fun _ => rfl) fun _ => rfl

theorem heapless_announce (configuration : Configuration) : Heapless (announce configuration) := by
  refine .bind ?_ fun _ => .of_coupled fun coupled => coupled.log _ _
  rw [applyLogLevel]
  split
  · exact heapless_setLogFilter _
  · exact .of_coupled fun coupled => coupled.log _ _
  · exact .pure _

theorem heapless_chooseHandover (process : StartupView) (configuration : Configuration)
    (image : Image) : Heapless (chooseHandover process configuration image) := by
  refine .bind (fun _ _ => Limits.inspect fun _ => rfl) fun base => ?_
  cases base with
  | none => exact .bind (.of_coupled fun coupled => coupled.log _ _) fun _ => .pure _
  | some base =>
    dsimp only
    split
    · refine .bind (.of_coupled fun coupled => coupled.log _ _) fun _ => ?_
      exact .bind (.of_coupled fun coupled => coupled.release _) fun _ => .pure _
    · refine .bind (.of_coupled fun coupled => coupled.log _ _) fun _ => ?_
      exact .bind (.of_coupled fun coupled => coupled.changeMemory _) fun _ => .pure _

def finish (programName : Bytes) (handover : Handover) : Program Empty := do
  let path ← Program.inspect fun machine => handover.interpreterPath machine.memory
  let error ← handover.carryOut
  fail ⟨programName, path, error⟩

theorem run_eq (stackPointer : UInt64) (m : Machine) :
    let process := StartupView.read m.memory stackPointer
    run stackPointer m =
      match Configuration.read m.memory process with
      | .error error => fail ⟨process.programName m.memory, none, error⟩
          { m with logFilter := LogFilter.default }
      | .ok configuration =>
        (loadWith process configuration >>= fun outcome =>
          match outcome with
          | .error error => fail (configuration.diagnostic error)
          | .ok handover => finish (process.programName m.memory) handover)
          { m with logFilter := LogFilter.default } := by
  intro process
  rw [run, Program.run_bind_ok (show Program.setLogFilter LogFilter.default m = .ok () _ from rfl)]
  change (load process >>= fun outcome => _) { m with logFilter := LogFilter.default } = _
  rw [load, bind_assoc, Program.run_bind_ok (show Program.inspect Machine.memory
    { m with logFilter := LogFilter.default } = .ok m.memory _ from rfl)]
  dsimp only
  change _ = match Configuration.read m.memory (.read m.memory stackPointer) with
    | .error error => _
    | .ok configuration => _
  cases Configuration.read m.memory (.read m.memory stackPointer) with
  | error error => rw [pure_bind]
  | ok configuration =>
    dsimp only
    rw [bind_assoc]
    refine congrFun (congrArg _ (funext fun outcome => ?_)) _
    rw [pure_bind]
    cases outcome <;> rfl

end Loader

end ElfRelay
