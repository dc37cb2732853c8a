import ElfRelay.Proofs.LibraryPath.Effects
import ElfRelay.Proofs.Loader.LimitedRun
import ElfRelay.Proofs.Loader.MutedPhases
/-! What a run that fails has written. It exits with its diagnostic and in no other way, and
however the system splits the writing of it, the diagnostic arrives byte for byte. -/
namespace ElfRelay

open Program (Mirrors Coupled AbortsAfter Within)
open Machine (Later Wrote)

namespace Program

theorem run_writePieces {descriptor : UInt32} {pieces : List Bytes} {m : Machine} {after : Kernel}
    (delivered : m.kernel.deliverPieces descriptor pieces = (none, after)) :
    writePieces descriptor pieces m = .ok () { m with kernel := after } := by
  rw [writePieces, run_bind_ok (run_callKernel delivered)]
  rfl

/-- Machines that are the same, in programs that do not exit. -/
def exitless : Bond where
  related m n := n = m
  mayEnd ending := ∀ status, ending ≠ .exited status

theorem exitless_of_abortsAfter {step : Machine → Machine → Prop} {program : Program α}
    (aborts : AbortsAfter step program) : Mirrors exitless program program := by
  rintro m n rfl
  cases ran : program n with
  | ok value after => exact .returned rfl
  | error ending after =>
    obtain ⟨aborted, _⟩ := aborts n (by rw [value?, ran])
    rw [ending?, ran] at aborted
    cases aborted
    exact .ended (fun _ exited => by cases exited) rfl

theorem exitless_modifyGet (change : Machine → α × Machine) :
    Mirrors exitless (modifyGet change : Program α) (modifyGet change) :=
  .modifyGet fun _ _ same => same ▸ ⟨rfl, rfl⟩

/-- The steps of fetching an interpreter return or abort. -/
theorem coupled_exitless : Coupled exitless where
  log level message := exitless_of_abortsAfter (abortsAfter_log Wrote.kept level message)
  failRange index excess := exitless_of_abortsAfter (abortsAfter_failRange Wrote.kept index excess)
  openPath _ := .bind (exitless_modifyGet _) fun _ => .pure _
  readFully _ _ _ := exitless_modifyGet _
  close _ := .bind (exitless_modifyGet _) fun _ => .pure _
  mmap _ := exitless_modifyGet _
  release _ := .bind (exitless_modifyGet _) fun _ => .pure _
  changeMemory _ := exitless_modifyGet _

end Program

namespace Loader

/-- What a run does until it has a diagnostic to report, if it comes to that. -/
def diagnose (stackPointer : UInt64) : Program Diagnostic := do
  Program.setLogFilter LogFilter.default
  let process ← Program.inspect fun machine => StartupView.read machine.memory stackPointer
  let programName ← Program.inspect fun machine => process.programName machine.memory
  match ← load process with
  | .error diagnostic => return diagnostic
  | .ok handover =>
    let path ← Program.inspect fun machine => handover.interpreterPath machine.memory
    let error ← handover.carryOut
    return ⟨programName, path, error⟩

theorem run_eq_diagnose (stackPointer : UInt64) :
    run stackPointer = diagnose stackPointer >>= fail := by
  simp only [run, diagnose, bind_assoc]
  refine congrArg _ (funext fun _ => congrArg _ (funext fun process => congrArg _ (funext fun _ =>
    congrArg _ (funext fun loaded => ?_))))
  cases loaded <;> simp only [bind_assoc, pure_bind]

variable {m : Machine} {stackPointer : UInt64}

theorem later_load (process : StartupView) : Within Later (load process) := by
  refine .bind (.inspect _) fun memory => ?_
  cases Configuration.read memory process with
  | error error => exact .pure _
  | ok configuration =>
    dsimp only
    rw [loadWith_eq]
    refine .bind (.bind (later_fetch configuration) fun fetched => ?_) fun _ => .pure _
    cases fetched with
    | error error => exact .pure _
    | ok image => exact within_settle Later.maps _ _ _

theorem later_diagnose (stackPointer : UInt64) : Within Later (diagnose stackPointer) := by
  refine .bind (fun _ => .of_kernel rfl (.refl _)) fun _ => .bind (.inspect _) fun process => ?_
  refine .bind (.inspect _) fun programName => .bind (later_load process) fun loaded => ?_
  cases loaded with
  | error diagnostic => exact .pure _
  | ok handover =>
    exact .bind (.inspect _) fun _ => .bind (later_carryOut handover) fun _ => .pure _

open Program (exitless exitless_of_abortsAfter exitless_modifyGet coupled_exitless)

theorem exitless_fetch (configuration : Configuration) :
    Mirrors exitless (fetch configuration) (fetch configuration) := by
  refine .bind (.bind ?_ fun _ => coupled_exitless.log _ _) fun _ =>
    mirrors_loadInterpreter coupled_exitless (fun _ _ _ => exitless_modifyGet _) configuration
  rw [applyLogLevel]
  split
  · exact exitless_modifyGet _
  · exact coupled_exitless.log _ _
  · exact .pure _

theorem exitless_chooseHandover (process : StartupView) (configuration : Configuration)
    (image : Image) : Mirrors exitless (chooseHandover process configuration image)
      (chooseHandover process configuration image) := by
  refine .bind (.inspect fun _ _ same => same ▸ rfl) fun base => ?_
  cases base with
  | none => exact .bind (coupled_exitless.log _ _) fun _ => .pure _
  | some base =>
    dsimp only
    split
    · refine .bind (coupled_exitless.log _ _) fun _ => ?_
      exact .bind (coupled_exitless.release _) fun _ => .pure _
    · refine .bind (coupled_exitless.log _ _) fun _ => ?_
      exact .bind (coupled_exitless.changeMemory _) fun _ => .pure _

theorem exitless_load (process : StartupView) :
    Mirrors exitless (load process) (load process) := by
  refine .bind (.inspect fun _ _ same => same ▸ rfl) fun memory => ?_
  cases Configuration.read memory process with
  | error error => exact .pure _
  | ok configuration =>
    dsimp only
    rw [loadWith_eq]
    refine .bind (.bind (exitless_fetch configuration) fun fetched => ?_) fun _ => .pure _
    cases fetched with
    | error error => exact .pure _
    | ok image =>
      refine .bind (exitless_of_abortsAfter (LibraryPath.abortsAfter_handOn _ _)) fun handed => ?_
      cases handed with
      | error error => exact .bind (coupled_exitless.release _) fun _ => .pure _
      | ok change => exact .bind (exitless_chooseHandover _ _ _) fun _ => .pure _

theorem exitless_carryOut (handover : Handover) :
    Mirrors exitless handover.carryOut handover.carryOut := by
  cases handover with
  | execute interpreter arguments environment =>
    refine .bind (.inspect fun _ _ same => same ▸ rfl) fun memory => ?_
    refine .bind (exitless_modifyGet _) fun result => ?_
    split <;> exact .pure _
  | jump => exact .throw nofun

theorem exitless_diagnose (stackPointer : UInt64) :
    Mirrors exitless (diagnose stackPointer) (diagnose stackPointer) := by
  refine .bind (exitless_modifyGet _) fun _ => .bind (.inspect fun _ _ same => same ▸ rfl)
    fun process => .bind (.inspect fun _ _ same => same ▸ rfl) fun programName => ?_
  refine .bind (exitless_load process) fun loaded => ?_
  cases loaded with
  | error diagnostic => exact .pure _
  | ok handover =>
    refine .bind (.inspect fun _ _ same => same ▸ rfl) fun path => ?_
    exact .bind (exitless_carryOut handover) fun _ => .pure _

theorem diagnosed_of_exited {status : UInt32}
    (exits : (run stackPointer).ending? m = some (.exited status)) :
    ∃ diagnostic, (diagnose stackPointer).value? m = some diagnostic := by
  rw [run_eq_diagnose, Program.ending?_bind] at exits
  obtain ⟨_, ⟨diagnostic, ran, _⟩ | ⟨ending, silent, ran, _⟩⟩ :=
    (exitless_diagnose stackPointer m m rfl).cases
  · exact ⟨diagnostic, Program.value?_of_eq_ok ran⟩
  · rw [Program.value?, Program.ending?, ran] at exits
    cases exits
    exact absurd rfl (silent status)

theorem fail_arrives {diagnostic : Diagnostic} (splits : m.kernel.SplitsWrites)
    (short : ∀ piece ∈ diagnostic.message, piece.length ≤ Kernel.maxOffset) :
    (fail diagnostic : Program α).ending? m = some (.exited 1) ∧
      ((fail diagnostic : Program α).last m).kernel.errorOutput =
        m.kernel.errorOutput ++ (diagnostic.message ++ [ascii "\n"]).flatten := by
  have short (piece : Bytes) (member : piece ∈ diagnostic.message ++ [ascii "\n"]) :
      piece.length ≤ Kernel.maxOffset := by
    rcases List.mem_append.mp member with message | newline
    · exact short piece message
    · rw [List.mem_singleton.mp newline]
      decide
  obtain ⟨after, delivered, arrived, _⟩ := Kernel.deliverPieces_arrives splits short
  have ran : (fail diagnostic : Program α) m = .error (.exited 1) { m with kernel := after } := by
    rw [fail, Program.run_bind_ok (Program.run_writePieces delivered)]
    rfl
  rw [Program.ending?, Program.last, ran]
  exact ⟨rfl, arrived⟩

/-- What is written arrives in order, nothing left out or repeated. Whatever the calls return
that write a byte string out, as long as none claims more than it was given: each is for just
what is left, a call that accepts nothing is the last, and the string arrives whole unless there
is one. So if the system only ever splits what is written, a run that exits has come to a
diagnostic, and the diagnostic stands on standard error byte for byte, behind what was said
before. No piece of it has more bytes than the system can count. -/
theorem writes_arrive_in_order :
    (∀ (descriptor : UInt32) (bytes : Bytes) (k : Kernel),
      ∃ calls, Kernel.Sends descriptor bytes k calls (k.deliver descriptor bytes)) ∧
    ∀ (m : Machine) (stackPointer : UInt64), m.kernel.SplitsWrites →
      (∀ status, (run stackPointer).ending? m = some (.exited status) →
        ∃ diagnostic, (diagnose stackPointer).value? m = some diagnostic) ∧
      ∀ diagnostic, (diagnose stackPointer).value? m = some diagnostic →
        (∀ piece ∈ diagnostic.message, piece.length ≤ Kernel.maxOffset) →
        (run stackPointer).ending? m = some (.exited 1) ∧
          ((run stackPointer).last m).kernel.errorOutput =
            ((diagnose stackPointer).last m).kernel.errorOutput ++
              (diagnostic.message ++ [ascii "\n"]).flatten := by
  refine ⟨Kernel.deliver_sends, fun m stackPointer splits =>
    ⟨fun _ => diagnosed_of_exited, fun diagnostic diagnosed short => ?_⟩⟩
  rw [run_eq_diagnose, Program.ending?_bind, diagnosed, Program.last_bind_of_value _ diagnosed]
  exact fail_arrives (splits.later (later_diagnose stackPointer m).kernel) short

/-- A machine started directly, on a system that writes three bytes at a time. -/
def splittingMachine : Machine :=
  { directMachine with
    kernel := { directMachine.kernel with answers := [(.write, List.replicate 60 (.atMost 3))] } }

theorem writes_arrive_in_order_split :
    let diagnostic : Diagnostic := ⟨ascii "p", some (ascii "/ld\n"), .cannotExecute Errno.noSuchFile⟩
    splittingMachine.kernel.SplitsWrites ∧
      (diagnose 0x10100000).value? splittingMachine = some diagnostic ∧
      (∀ piece ∈ diagnostic.message, piece.length ≤ Kernel.maxOffset) ∧
      (run 0x10100000).ending? splittingMachine = some (.exited 1) ∧
      ((run 0x10100000).last splittingMachine).kernel.errorOutput =
        ascii "[nix-ld]  WARN: executed directly, starting the interpreter with execve\n" ++
        ascii "cannot execute p: $NIX_LD (/ld\n): cannot execute: No such file or directory\n" := by
  intro diagnostic
  have splits : splittingMachine.kernel.SplitsWrites := by
    intro answer member
    have member : answer ∈ List.replicate 60 (.atMost 3) := member
    rw [List.eq_of_mem_replicate member]
    exact (by decide : 0 < 3)
  have diagnosed : (diagnose 0x10100000).value? splittingMachine = some diagnostic := by
    decide +kernel
  have said : ((diagnose 0x10100000).last splittingMachine).kernel.errorOutput =
      ascii "[nix-ld]  WARN: executed directly, starting the interpreter with execve\n" := by
    decide +kernel
  have short : ∀ piece ∈ diagnostic.message, piece.length ≤ Kernel.maxOffset := by decide +kernel
  obtain ⟨exits, reported⟩ :=
    (writes_arrive_in_order.2 splittingMachine 0x10100000 splits).2 diagnostic diagnosed short
  refine ⟨splits, diagnosed, short, exits, ?_⟩
  rw [reported, said]
  decide +kernel

end Loader
end ElfRelay
