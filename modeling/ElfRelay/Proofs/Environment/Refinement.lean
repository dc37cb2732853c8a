import ElfRelay.Proofs.Aborting
import ElfRelay.Proofs.Block
import ElfRelay.Proofs.Definitions
import ElfRelay.Proofs.Environment.Separation
/-! The environment as a list of texts of fixed length. Whatever is done with it, one
operation after the other, answers and entries are those of the list, and no operation writes
outside what its slot holds. -/
namespace ElfRelay
namespace Environment

/-- What can be done with an environment. A slot is pointed at a text by the address at which
the text is stored. -/
inductive Operation
  | get (slot : Nat)
  | find (name : Bytes)
  | iterate
  | overwrite (slot : Nat) (text : Bytes)
  | replace (slot : Nat) (text : Bytes) (start : UInt64)
  deriving DecidableEq, Repr

inductive Answer
  | found (definition : Option Definition)
  | listed (definitions : List Definition)
  | done
  | aborted
  deriving DecidableEq, Repr

namespace Operation

/-- The answer of an operation on a list of texts, and the list it leaves behind. A text is
written over another one only if it is no longer, and only up to its first NUL. -/
def onList (entries : List Bytes) : Operation → Answer × List Bytes
  | get slot => (.found (entries[slot]?.bind (Definition.parse? · slot)), entries)
  | find name => (.found ((definitions entries).find? (·.name == name)), entries)
  | iterate => (.listed (definitions entries), entries)
  | overwrite slot text =>
    if entries[slot]?.any (text.length ≤ ·.length) then
      (.done, entries.set slot (text.takeWhile (· != 0)))
    else (.aborted, entries)
  | replace slot text _ =>
    if slot < entries.length then (.done, entries.set slot text) else (.aborted, entries)

def onListAll (entries : List Bytes) : List Operation → List Answer × List Bytes
  | [] => ([], entries)
  | operation :: rest =>
    let (answers, last) := onListAll (operation.onList entries).2 rest
    ((operation.onList entries).1 :: answers, last)

def run (environment : Environment) : Operation → Program Answer
  | get slot => Program.inspect fun machine =>
    .found ((environment.get? machine.memory slot).map Variable.definition)
  | find name => Program.inspect fun machine =>
    .found ((environment.find? machine.memory name).map Variable.definition)
  | iterate => Program.inspect fun machine =>
    .listed ((environment.bindings machine.memory).map Variable.definition)
  | overwrite slot text => do
    environment.overwrite slot text
    return .done
  | replace slot _ start => do
    environment.redirect slot start
    return .done

def answer? (operation : Operation) (environment : Environment) (m : Machine) : Option Answer :=
  match operation.run environment m with
  | .ok answer _ => some answer
  | .error .aborted _ => some .aborted
  | .error _ _ => none

/-- Whether a text that a slot is pointed at is in memory that the environment does not use. -/
def Stored (operation : Operation) (environment : Environment) (m : Memory) : Prop :=
  match operation with
  | replace _ text start => m.string start = text ∧ environment.Spare m start
  | _ => True

/-- The addresses that an operation may write to: those of the string in its slot, with the
NUL behind it, or those of the slot itself. -/
def MayWrite (operation : Operation) (environment : Environment) (m : Memory) (address : UInt64) :
    Prop :=
  match operation with
  | overwrite slot _ => (address - environment.entryAddress m slot).toNat <
    m.textSize (environment.entryAddress m slot)
  | replace slot _ _ => (address - environment.slotAddress slot).toNat < 8
  | _ => False

end Operation

structure Step where
  operation : Operation
  answer? : Option Answer
  before : Memory
  after : Memory

def Operation.step (operation : Operation) (environment : Environment) (m : Machine) : Step where
  operation
  answer? := operation.answer? environment m
  before := m.memory
  after := ((operation.run environment).last m).memory

/-- Whether a step did to the entries what the operation does to a list of texts, leaving the
number of slots and the null pointer behind them. -/
structure Step.Refines (step : Step) (environment : Environment) : Prop where
  answer : step.answer? = some (step.operation.onList (environment.entries step.before)).1
  entries : environment.entries step.after =
    (step.operation.onList (environment.entries step.before)).2
  viewed : ofAddress step.after environment.slots = environment
  null : environment.entryAddress step.after environment.count = 0
  aborted : step.answer? = some .aborted → step.after = step.before
  confined : ∀ address, step.after.read address ≠ step.before.read address →
    step.operation.MayWrite environment step.before address

/-- Runs of operations. In between anything may happen, as long as what the environment
occupies is left alone. An abort ends the process; the steps behind one are those of a run
that starts from what it has left behind. -/
inductive Performs (environment : Environment) : Machine → List Step → Machine → Prop
  | nil (m : Machine) : Performs environment m [] m
  | elsewhere {m n last : Machine} {steps : List Step} :
    (∀ address, environment.Occupies m.memory address →
      n.memory.read address = m.memory.read address) →
    Performs environment n steps last → Performs environment m steps last
  | step {m last : Machine} {operation : Operation} {steps : List Step} :
    operation.Stored environment m.memory →
    Performs environment ((operation.run environment).last m) steps last →
    Performs environment m (operation.step environment m :: steps) last

variable {environment : Environment} {m last : Machine} {operation : Operation} {slot : Nat}
  {text : Bytes} {start : UInt64}

namespace Operation

theorem answer?_of_value? {answer : Answer}
    (returned : (operation.run environment).value? m = some answer) :
    operation.answer? environment m = some answer := by
  rw [answer?, Program.eq_ok_of_value? returned]

theorem answer?_of_ending? (ended : (operation.run environment).ending? m = some .aborted) :
    operation.answer? environment m = some .aborted := by
  rw [Program.ending?] at ended
  rw [answer?]
  cases ran : operation.run environment m with
  | ok answer after =>
    rw [ran] at ended
    contradiction
  | error ending after =>
    rw [ran] at ended
    cases ended
    rfl

theorem any_entries : ((environment.entries m.memory)[slot]?.any (text.length ≤ ·.length)) = true ↔
    slot < environment.count ∧ text.length ≤ (environment.entry m.memory slot).length := by
  rw [getElem?_entries]
  by_cases listed : slot < environment.count <;> simp [listed]

section
variable (separate : environment.Separate m.memory)
include separate

theorem refines_of_memory
    (answer : operation.answer? environment m =
      some (operation.onList (environment.entries m.memory)).1)
    (entries : (operation.onList (environment.entries m.memory)).2 = environment.entries m.memory)
    (memory : ((operation.run environment).last m).memory = m.memory) :
    (operation.step environment m).Refines environment ∧
      environment.Separate ((operation.run environment).last m).memory := by
  rw [memory]
  refine ⟨⟨answer, ?_, ?_, ?_, fun _ => memory, fun address changed => ?_⟩, separate⟩
  · rw [step, memory, entries]
  · rw [step, memory]
    exact separate.viewed
  · rw [step, memory]
    exact separate.null
  · rw [step, memory] at changed
    contradiction

/-- An operation that does not return has aborted before it has written anything. -/
theorem refines_of_refused (aborts : Program.AbortsAfter Machine.Wrote (operation.run environment))
    (refused : (operation.run environment).value? m = none)
    (listed : operation.onList (environment.entries m.memory) =
      (.aborted, environment.entries m.memory)) :
    (operation.step environment m).Refines environment ∧
      environment.Separate ((operation.run environment).last m).memory := by
  obtain ⟨ended, wrote⟩ := aborts m refused
  apply refines_of_memory separate
  · rw [answer?_of_ending? ended, listed]
  · rw [listed]
  · exact wrote.memory

end

theorem refines_of_done {list : List Bytes} {after : Machine}
    (returned : (operation.run environment).value? m = some .done)
    (last : (operation.run environment).last m = after)
    (listed : operation.onList (environment.entries m.memory) = (.done, list))
    (changed : environment.Separate after.memory ∧ environment.entries after.memory = list)
    (confined : ∀ address, ¬ operation.MayWrite environment m.memory address →
      after.memory.read address = m.memory.read address) :
    (operation.step environment m).Refines environment ∧
      environment.Separate ((operation.run environment).last m).memory := by
  obtain ⟨separate, entries⟩ := changed
  have answer := answer?_of_value? returned
  subst last
  refine ⟨⟨?_, ?_, separate.viewed, separate.null, ?_, ?_⟩, separate⟩
  · rw [step, answer, listed]
  · rw [step, entries, listed]
  · intro aborted
    rw [step, answer] at aborted
    cases aborted
  · intro address different
    by_contra outside
    exact different (confined address outside)

theorem refines_overwrite (separate : environment.Separate m.memory) :
    ((overwrite slot text).step environment m).Refines environment ∧
      environment.Separate (((overwrite slot text).run environment).last m).memory := by
  by_cases accepted : slot < environment.count ∧
      text.length ≤ (environment.entry m.memory slot).length
  · have returned := overwrite_returns accepted.1 accepted.2
    have done : (overwrite slot text).onList (environment.entries m.memory) =
        (.done, (environment.entries m.memory).set slot (text.takeWhile (· != 0))) :=
      if_pos (any_entries.mpr accepted)
    apply refines_of_done (Program.value?_bind_eq_some.mpr ⟨(), returned, rfl⟩)
      ((Program.last_bind_of_value _ returned).trans (overwrite_succeeds returned).2.2) done
      (separate.overwritten accepted.1 accepted.2)
    intro address outside
    apply Memory.read_writeString_outside m.memory _ outside
    have fits := accepted.2
    rw [entry, Memory.length_string] at fits
    exact Nat.lt_succ_of_le fits
  · apply refines_of_refused separate
    · exact .before (abortsAfter_overwrite Machine.Wrote.kept _ _ _) fun _ _ => ⟨_, rfl⟩
    · apply Option.eq_none_iff_forall_ne_some.mpr
      intro answer answered
      obtain ⟨_, returned, _⟩ := Program.value?_bind_eq_some.mp answered
      obtain ⟨listed, fits, _⟩ := overwrite_succeeds returned
      exact accepted ⟨listed, fits⟩
    · exact if_neg (any_entries.not.mpr accepted)

theorem refines_replace (separate : environment.Separate m.memory)
    (stored : (replace slot text start).Stored environment m.memory) :
    ((replace slot text start).step environment m).Refines environment ∧
      environment.Separate (((replace slot text start).run environment).last m).memory := by
  obtain ⟨rfl, spare⟩ := stored
  have length : (environment.entries m.memory).length = environment.count := by simp [entries]
  by_cases listed : slot < environment.count
  · have returned : (environment.redirect slot start).value? m = some () :=
      redirect_returns listed start
    have done : (replace slot (m.memory.string start) start).onList (environment.entries m.memory) =
        (.done, (environment.entries m.memory).set slot (m.memory.string start)) :=
      if_pos (length ▸ listed)
    apply refines_of_done (Program.value?_bind_eq_some.mpr ⟨(), returned, rfl⟩)
      ((Program.last_bind_of_value _ returned).trans (redirect_succeeds returned).2) done
      (separate.replaced listed spare)
    intro address outside
    exact Memory.read_writeWord_outside m.memory outside
  · apply refines_of_refused separate
    · exact .before (abortsAfter_redirect Machine.Wrote.kept _ _ _) fun _ _ => ⟨_, rfl⟩
    · apply Option.eq_none_iff_forall_ne_some.mpr
      intro answer answered
      obtain ⟨_, returned, _⟩ := Program.value?_bind_eq_some.mp answered
      exact listed (redirect_succeeds returned).1
    · exact if_neg (length ▸ listed)

/-- Every operation does to the entries what it does to a list of texts, and the strings have
memory of their own again. -/
theorem refines (separate : environment.Separate m.memory)
    (stored : operation.Stored environment m.memory) :
    (operation.step environment m).Refines environment ∧
      environment.Separate ((operation.run environment).last m).memory := by
  cases operation with
  | get slot =>
    apply refines_of_memory separate _ rfl rfl
    rw [onList, ← get?_definition]
    rfl
  | find name =>
    apply refines_of_memory separate _ rfl rfl
    rw [onList, ← find?_definition]
    rfl
  | iterate =>
    apply refines_of_memory separate _ rfl rfl
    rw [onList, ← bindings_definition]
    rfl
  | overwrite slot text => exact refines_overwrite separate
  | replace slot text start => exact refines_replace separate stored

end Operation

/-- A run of operations has the answers that the operations have on a list of texts, and leaves
the entries that they leave of the list. Each step keeps the number of slots and the null
pointer behind them, and writes nothing behind the NUL of the string in its slot. -/
theorem performs_refines {steps : List Step} (separate : environment.Separate m.memory)
    (performs : environment.Performs m steps last) :
    let expected := Operation.onListAll (environment.entries m.memory) (steps.map Step.operation)
    steps.map Step.answer? = expected.1.map some ∧
      environment.entries last.memory = expected.2 ∧
      (∀ step ∈ steps, step.Refines environment) ∧ environment.Separate last.memory := by
  induction performs with
  | nil m =>
    refine ⟨rfl, rfl, fun step member => ?_, separate⟩
    contradiction
  | elsewhere same _ ih =>
    obtain ⟨separate, entries⟩ := separate.kept same
    rw [← entries]
    exact ih separate
  | @step m last operation steps stored _ ih =>
    obtain ⟨refines, separate⟩ := Operation.refines separate stored
    obtain ⟨answers, entries, each, after⟩ := ih separate
    have here : environment.entries ((operation.run environment).last m).memory =
        (operation.onList (environment.entries m.memory)).2 := refines.entries
    rw [here] at answers entries
    refine ⟨?_, entries, List.forall_mem_cons.mpr ⟨refines, each⟩, after⟩
    exact congrArg₂ List.cons refines.answer answers

/-- Operations that need no text to be stored can be done one after the other. -/
theorem exists_performs {operations : List Operation}
    (stored : ∀ operation ∈ operations, ∀ m, operation.Stored environment m) (m : Machine) :
    ∃ steps last, environment.Performs m steps last ∧ steps.map Step.operation = operations := by
  induction operations generalizing m with
  | nil => exact ⟨[], m, .nil m, rfl⟩
  | cons operation rest ih =>
    obtain ⟨first, others⟩ := List.forall_mem_cons.mp stored
    obtain ⟨steps, last, performs, done⟩ := ih others ((operation.run environment).last m)
    exact ⟨_, last, .step (first m.memory) performs, congrArg (operation :: ·) done⟩

/-- An environment of three slots, and a text that is stored elsewhere. -/
def sharedBlock : StartupBlock := ⟨[], [ascii "A=first", ascii "BARE", ascii "A=2=two"], []⟩

def sharedMachine : Machine where
  memory := sharedBlock.place 0x1000 0x2000 (Memory.zero.writeString 0x4000 (ascii "B=longer"))
  kernel := .initial (fun _ => none) [] ⟨0x10000000, 0x1000⟩
  heap := .empty 0 none
  logFilter := none

/-- The text that a slot is pointed at is written over, which leaves no room for itself. -/
def sharedOperations : List Operation :=
  [.overwrite 1 (ascii "C=long"), .overwrite 1 (ascii "B=longer"),
    .overwrite 0 (ascii "A" ++ 0 :: ascii "=1"), .get 0, .find (ascii "A"), .overwrite 3 [], .iterate]

theorem performs_refines_shared :
    let environment := (StartupView.read sharedMachine.memory 0x1000).environment
    environment.Separate sharedMachine.memory ∧
      ∃ steps last, environment.Performs sharedMachine steps last ∧
        steps.map Step.operation = .replace 1 (ascii "B=longer") 0x4000 :: sharedOperations ∧
        steps.map Step.answer? = [some .done, some .done, some .aborted, some .done,
          some (.found none), some (.found (some ⟨2, ascii "A", ascii "2=two"⟩)), some .aborted,
          some (.listed [⟨1, ascii "C", ascii "long"⟩, ⟨2, ascii "A", ascii "2=two"⟩])] ∧
        environment.entries last.memory = [ascii "A", ascii "C=long", ascii "A=2=two"] := by
  have fits : sharedBlock.FitsAt 0x1000 0x2000 := by decide +kernel
  have lies : sharedBlock.LiesIn sharedMachine.memory 0x1000 0x2000 :=
    StartupBlock.liesIn_place fits _
  have separate := lies.unaliased.separate
  have stored : (Operation.replace 1 (ascii "B=longer") 0x4000).Stored
      (StartupView.read sharedMachine.memory 0x1000).environment sharedMachine.memory :=
    ⟨by decide +kernel, by decide, by decide +kernel, by decide +kernel⟩
  have others : ∀ operation ∈ sharedOperations, ∀ m,
      operation.Stored (StartupView.read sharedMachine.memory 0x1000).environment m := by
    simp [sharedOperations, Operation.Stored]
  obtain ⟨steps, last, performs, operations⟩ : ∃ steps last,
      (StartupView.read sharedMachine.memory 0x1000).environment.Performs sharedMachine steps last ∧
        steps.map Step.operation = .replace 1 (ascii "B=longer") 0x4000 :: sharedOperations := by
    obtain ⟨rest, last, performs, operations⟩ := exists_performs others _
    exact ⟨_, last, .step stored performs, congrArg (_ :: ·) operations⟩
  obtain ⟨answers, entries, _⟩ := performs_refines separate performs
  have placed : (StartupView.read sharedMachine.memory 0x1000).environment.entries
      sharedMachine.memory = sharedBlock.environment := lies.standsAt.entries
  rw [operations, placed] at answers entries
  exact ⟨separate, steps, last, performs, operations, answers, entries⟩

end Environment
end ElfRelay
