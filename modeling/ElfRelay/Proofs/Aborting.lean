import ElfRelay.Proofs.LibraryPath
/-! Programs that end the process in no other way than by an abort, and what they have
done until then. An edit of the environment that is refused has changed nothing. -/
namespace ElfRelay
namespace Program

/-- Whether a run that does not return ends in an abort, after a step of a relation. -/
def AbortsAfter (step : Machine → Machine → Prop) (program : Program α) : Prop :=
  ∀ m, program.value? m = none →
    program.ending? m = some .aborted ∧ step m (program.last m)

variable {step : Machine → Machine → Prop}

theorem AbortsAfter.of_returns {program : Program α}
    (returns : ∀ m, ∃ value, program.value? m = some value) : AbortsAfter step program := by
  intro m ended
  obtain ⟨value, returned⟩ := returns m
  rw [ended] at returned
  contradiction

theorem AbortsAfter.pure (value : α) : AbortsAfter step (Pure.pure value : Program α) :=
  .of_returns fun _ => ⟨value, rfl⟩

theorem AbortsAfter.inspect (view : Machine → α) : AbortsAfter step (Program.inspect view) :=
  .of_returns fun _ => ⟨_, rfl⟩

theorem AbortsAfter.before {program : Program α} {next : α → Program β}
    (first : AbortsAfter step program)
    (returns : ∀ value m, ∃ result, (next value).value? m = some result) :
    AbortsAfter step (program >>= next) := by
  intro m ended
  rw [value?_bind] at ended
  rw [ending?_bind, last_bind]
  cases found : program.value? m with
  | none => exact first m found
  | some value =>
    obtain ⟨result, returned⟩ := returns value (program.last m)
    rw [found, Option.bind_some, returned] at ended
    contradiction

section
variable [IsPreorder Machine step]

theorem AbortsAfter.bind {program : Program α} {next : α → Program β}
    (within : Within step program) (first : AbortsAfter step program)
    (rest : ∀ value, AbortsAfter step (next value)) : AbortsAfter step (program >>= next) := by
  intro m ended
  rw [value?_bind] at ended
  rw [ending?_bind, last_bind]
  cases found : program.value? m with
  | none => exact first m found
  | some value =>
    rw [found, Option.bind_some] at ended
    obtain ⟨aborted, after⟩ := rest value _ ended
    exact ⟨aborted, trans_of step (within m) after⟩

variable (kept : Machine.KeptByOutput step)
include kept

theorem abortsAfter_abort : AbortsAfter step (abort : Program α) :=
  fun m _ => ⟨rfl, within_abort kept m⟩

theorem abortsAfter_failRange (index : RangeEnd) (excess : Kernel.Overrun) :
    AbortsAfter step (failRange index excess : Program α) :=
  fun m _ => ⟨rfl, within_failRange kept index excess m⟩

theorem abortsAfter_writePieces (descriptor : UInt32) (pieces : List Bytes) :
    AbortsAfter step (writePieces descriptor pieces) := by
  refine .bind (fun m => kept.deliverPieces m descriptor pieces m.kernel)
    (.of_returns fun _ => ⟨_, rfl⟩) fun excess => ?_
  cases excess with
  | none => exact .pure ()
  | some excess => exact abortsAfter_failRange kept _ excess

theorem abortsAfter_abortWith (message : List Bytes) :
    AbortsAfter step (abortWith message : Program α) :=
  .bind (within_writePieces kept _ _) (abortsAfter_writePieces kept _ _)
    fun _ => abortsAfter_abort kept

theorem abortsAfter_log (level : LogLevel) (message : List Bytes) :
    AbortsAfter step (log level message) := by
  refine .bind (.inspect _) (.inspect _) fun filter => ?_
  split
  · exact abortsAfter_writePieces kept _ _
  · exact .pure ()

theorem abortsAfter_unless {condition : Prop} [Decidable condition] (message : List Bytes)
    {next : Unit → Program α} (rest : ∀ done, AbortsAfter step (next done)) :
    AbortsAfter step (if condition then abortWith message >>= next else next ()) := by
  split
  · exact .bind (within_abortWith kept message) (abortsAfter_abortWith kept message) rest
  · exact rest ()

end
end Program

open Program (AbortsAfter)

variable {step : Machine → Machine → Prop} [IsPreorder Machine step]
  (kept : Machine.KeptByOutput step)
include kept

namespace Environment

theorem abortsAfter_overwrite (environment : Environment) (slot : Nat) (entry : Bytes) :
    AbortsAfter step (environment.overwrite slot entry) := by
  rw [overwrite]
  refine Program.abortsAfter_unless kept _ fun _ => ?_
  refine .bind (.inspect _) (.inspect _) fun current => ?_
  exact Program.abortsAfter_unless kept _ fun _ => .of_returns fun _ => ⟨_, rfl⟩

theorem abortsAfter_redirect (environment : Environment) (slot : Nat) (entry : UInt64) :
    AbortsAfter step (environment.redirect slot entry) := by
  rw [redirect]
  exact Program.abortsAfter_unless kept _ fun _ => .of_returns fun _ => ⟨_, rfl⟩

end Environment

namespace LibraryPath

theorem abortsAfter_expectPresent (environment : Environment) (expected : Variable) :
    AbortsAfter step (expectPresent environment expected) := by
  refine .bind (.inspect _) (.inspect _) fun current => ?_
  cases current with
  | none => exact Program.abortsAfter_abortWith kept _
  | some current =>
    dsimp only
    split
    · exact Program.abortsAfter_abortWith kept _
    · exact .pure ()

end LibraryPath
end ElfRelay
