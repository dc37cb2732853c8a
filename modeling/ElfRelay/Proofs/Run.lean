import ElfRelay.Machine
import Mathlib
/-! Runs of programs. A run from a machine may return a value, and it leaves a
machine behind in any case. A relation between machines that every part of a
program keeps is kept by the program; writing text out is the first of them. What
holds of the machine a part leaves behind is what the next part starts from. -/
namespace ElfRelay

namespace Program

/-- What a run returns, unless it ends the process. -/
def value? (program : Program α) (m : Machine) : Option α :=
  match program m with
  | .ok value _ => some value
  | .error _ _ => none

def last (program : Program α) (m : Machine) : Machine :=
  match program m with
  | .ok _ after => after
  | .error _ after => after

/-- How a run ends the process, unless it returns. -/
def ending? (program : Program α) (m : Machine) : Option Ending :=
  match program m with
  | .ok _ _ => none
  | .error ending _ => some ending

variable {m : Machine}

@[simp] theorem value?_pure (value : α) : (pure value : Program α).value? m = some value := rfl
@[simp] theorem last_pure (value : α) : (pure value : Program α).last m = m := rfl

@[simp] theorem value?_throw (ending : Ending) : (throw ending : Program α).value? m = none := rfl
@[simp] theorem ending?_throw (ending : Ending) :
    (throw ending : Program α).ending? m = some ending := rfl
@[simp] theorem last_throw (ending : Ending) : (throw ending : Program α).last m = m := rfl

@[simp] theorem value?_modifyGet (change : Machine → α × Machine) :
    (modifyGet change : Program α).value? m = some (change m).1 := rfl
@[simp] theorem last_modifyGet (change : Machine → α × Machine) :
    (modifyGet change : Program α).last m = (change m).2 := rfl

@[simp] theorem value?_inspect (view : Machine → α) : (inspect view).value? m = some (view m) := rfl
@[simp] theorem last_inspect (view : Machine → α) : (inspect view).last m = m := rfl

@[simp] theorem value?_callKernel (call : Kernel → α × Kernel) :
    (callKernel call).value? m = some (call m.kernel).1 := rfl
@[simp] theorem last_callKernel (call : Kernel → α × Kernel) :
    (callKernel call).last m = { m with kernel := (call m.kernel).2 } := rfl

theorem run_callKernel {call : Kernel → α × Kernel} {answer : α} {after : Kernel}
    (called : call m.kernel = (answer, after)) :
    callKernel call m = .ok answer { m with kernel := after } := by
  change EStateM.Result.ok (call m.kernel).1 { m with kernel := (call m.kernel).2 } = _
  rw [called]

@[simp] theorem value?_changeMemory (change : Memory → Memory) :
    (changeMemory change).value? m = some () := rfl
@[simp] theorem last_changeMemory (change : Memory → Memory) :
    (changeMemory change).last m = { m with memory := change m.memory } := rfl

theorem value?_bind (program : Program α) (next : α → Program β) (m : Machine) :
    (program >>= next).value? m =
      (program.value? m).bind fun value => (next value).value? (program.last m) := by
  cases run : program m <;> simp [value?, last, bind, EStateM.bind, run]

theorem last_bind (program : Program α) (next : α → Program β) (m : Machine) :
    (program >>= next).last m =
      match program.value? m with
      | some value => (next value).last (program.last m)
      | none => program.last m := by
  cases run : program m <;> simp [value?, last, bind, EStateM.bind, run]

theorem ending?_bind (program : Program α) (next : α → Program β) (m : Machine) :
    (program >>= next).ending? m =
      match program.value? m with
      | some value => (next value).ending? (program.last m)
      | none => program.ending? m := by
  cases run : program m <;> simp [value?, last, ending?, bind, EStateM.bind, run]

theorem last_bind_of_value {program : Program α} {value : α} (next : α → Program β)
    (returns : program.value? m = some value) :
    (program >>= next).last m = (next value).last (program.last m) := by
  rw [last_bind, returns]

theorem value?_bind_eq_some {program : Program α} {next : α → Program β} {result : β} :
    (program >>= next).value? m = some result ↔
      ∃ value, program.value? m = some value ∧ (next value).value? (program.last m) = some result := by
  rw [value?_bind, Option.bind_eq_some_iff]

section
variable {first other : Program α} {next : α → Program β} {n : Machine}

theorem value?_congr (same : first m = other n) : first.value? m = other.value? n := by
  rw [value?, value?, same]

theorem ending?_congr (same : first m = other n) : first.ending? m = other.ending? n := by
  rw [ending?, ending?, same]

theorem last_congr (same : first m = other n) : first.last m = other.last n := by
  rw [last, last, same]

theorem eq_ok_of_value? {value : α} (returned : first.value? m = some value) :
    first m = .ok value (first.last m) := by
  unfold value? at returned
  unfold last
  split at returned
  · next ran =>
    cases returned
    rw [ran]
  · contradiction

theorem value?_of_eq_ok {value : α} {after : Machine} (returned : first m = .ok value after) :
    first.value? m = some value := by
  rw [value?, returned]

theorem run_bind_congr (same : first m = other n) : (first >>= next) m = (other >>= next) n := by
  change EStateM.bind first next m = EStateM.bind other next n
  rw [EStateM.bind, EStateM.bind, same]

theorem run_bind_ok {value : α} {after : Machine} (returned : first m = .ok value after) :
    (first >>= next) m = next value after := by
  change EStateM.bind first next m = _
  rw [EStateM.bind, returned]

theorem run_bind_error {ending : Ending} {after : Machine} (ended : first m = .error ending after) :
    (first >>= next) m = .error ending after := by
  change EStateM.bind first next m = _
  rw [EStateM.bind, ended]

end

def andThen (first : Program (Except ε Unit)) (rest : Program (Except ε α)) :
    Program (Except ε α) := do
  match ← first with
  | .error error => return .error error
  | .ok () => rest

theorem andThen_assoc (first second : Program (Except ε Unit)) (rest : Program (Except ε α)) :
    (first.andThen second).andThen rest = first.andThen (second.andThen rest) := by
  simp only [andThen, bind_assoc]
  congr 1
  funext outcome
  cases outcome with
  | error error => simp
  | ok => rfl

theorem andThen_done (program : Program (Except ε Unit)) :
    program.andThen (pure (.ok ())) = program := by
  simp only [andThen]
  conv => rhs; rw [← bind_pure program]
  congr 1
  funext outcome
  cases outcome <;> rfl

@[simp] theorem done_andThen (rest : Program (Except ε α)) :
    andThen (pure (.ok ())) rest = rest := by
  simp [andThen]

theorem unit_andThen (first : Program Unit) (rest : Program (Except ε α)) :
    andThen (do first; return .ok ()) rest = (do first; rest) := by
  simp [andThen]

theorem value?_andThen (first : Program (Except ε Unit)) (rest : Program (Except ε α))
    (m : Machine) : (first.andThen rest).value? m =
      match first.value? m with
      | some (.ok ()) => rest.value? (first.last m)
      | some (.error error) => some (.error error)
      | none => none := by
  rw [andThen, value?_bind]
  rcases first.value? m with _ | _ | _ <;> rfl

theorem last_andThen (first : Program (Except ε Unit)) (rest : Program (Except ε α))
    (m : Machine) : (first.andThen rest).last m =
      match first.value? m with
      | some (.ok ()) => rest.last (first.last m)
      | some (.error _) => first.last m
      | none => first.last m := by
  rw [andThen, last_bind]
  rcases first.value? m with _ | _ | _ <;> rfl

theorem andThen_succeeds {first : Program (Except ε Unit)} {rest : Program (Except ε α)}
    {m : Machine} {result : α} (succeeds : (first.andThen rest).value? m = some (.ok result)) :
    first.value? m = some (.ok ()) ∧ rest.value? (first.last m) = some (.ok result) ∧
      (first.andThen rest).last m = rest.last (first.last m) := by
  rw [value?_andThen] at succeeds
  rw [last_andThen]
  rcases done : first.value? m with _ | _ | _
  · rw [done] at succeeds; contradiction
  · rw [done] at succeeds; cases succeeds
  · rw [done] at succeeds; exact ⟨rfl, succeeds, rfl⟩

/-- Every run of the program, however it ends, is a step of the relation. -/
def Within (step : Machine → Machine → Prop) (program : Program α) : Prop :=
  ∀ m, step m (program.last m)

section
variable {step : Machine → Machine → Prop} [IsPreorder Machine step]

theorem Within.pure (value : α) : Within step (Pure.pure value : Program α) :=
  fun m => refl_of step m

theorem Within.throw (ending : Ending) : Within step (MonadExcept.throw ending : Program α) :=
  fun m => refl_of step m

theorem Within.inspect (view : Machine → α) : Within step (Program.inspect view) :=
  fun m => refl_of step m

theorem Within.bind {program : Program α} {next : α → Program β} (first : Within step program)
    (rest : ∀ value, Within step (next value)) : Within step (program >>= next) := by
  intro m
  rw [last_bind]
  cases program.value? m with
  | none => exact first m
  | some value => exact trans_of step (first m) (rest value _)

/-- What follows a part comes after it. -/
theorem Within.rest {first : Program α} {next : α → Program β}
    (rest : ∀ value, Within step (next value)) (m : Machine) :
    step (first.last m) ((first >>= next).last m) := by
  rw [last_bind]
  cases first.value? m with
  | none => exact refl_of step _
  | some value => exact rest value _

theorem Within.andThen {first : Program (Except ε Unit)} {rest : Program (Except ε α)}
    (head : Within step first) (tail : Within step rest) : Within step (first.andThen rest) := by
  refine .bind head fun outcome => ?_
  cases outcome with
  | error error => exact .pure _
  | ok => exact tail

end

theorem Within.bind_succeeds {step : Machine → Machine → Prop} {program : Program α}
    {next : α → Program β} {result : β} (within : Within step program)
    (returned : (program >>= next).value? m = some result) :
    ∃ value between, step m between ∧ program.value? m = some value ∧
      (next value).value? between = some result ∧
      (program >>= next).last m = (next value).last between := by
  obtain ⟨value, found, returned⟩ := value?_bind_eq_some.mp returned
  exact ⟨value, program.last m, within m, found, returned, last_bind_of_value next found⟩

theorem Within.mono {step wider : Machine → Machine → Prop} {program : Program α}
    (within : Within step program) (sub : ∀ before after, step before after → wider before after) :
    Within wider program :=
  fun m => sub _ _ (within m)

def Ensures (before : Machine → Prop) (program : Program α) (after : α → Machine → Prop) : Prop :=
  ∀ m, before m → ∀ value, program.value? m = some value → after value (program.last m)

/-- A run that starts with one property returns, and has another when it has returned. -/
def Returns (before : Machine → Prop) (program : Program α) (after : α → Machine → Prop) : Prop :=
  ∀ m, before m → ∃ value, program.value? m = some value ∧ after value (program.last m)

section
variable {before middle : Machine → Prop}

theorem Ensures.pure {after : α → Machine → Prop} {value : α}
    (holds : ∀ m, before m → after value m) : Ensures before (Pure.pure value) after := by
  intro m start result returns
  rw [value?_pure, Option.some.injEq] at returns
  exact returns ▸ holds m start

theorem Ensures.bind {program : Program α} {next : α → Program β} {between : α → Machine → Prop}
    {after : β → Machine → Prop} (first : Ensures before program between)
    (rest : ∀ value, Ensures (between value) (next value) after) :
    Ensures before (program >>= next) after := by
  intro m start result returns
  obtain ⟨value, found, returns⟩ := value?_bind_eq_some.mp returns
  rw [last_bind_of_value _ found]
  exact rest value _ (first m start value found) result returns

theorem Ensures.mono {program : Program α} {after weaker : α → Machine → Prop}
    (ensures : Ensures middle program after) (weaken : ∀ m, before m → middle m)
    (sub : ∀ value m, after value m → weaker value m) : Ensures before program weaker :=
  fun m start value returns => sub value _ (ensures m (weaken m start) value returns)

/-- What a relation carries over, every program that keeps the relation carries over. -/
theorem Ensures.of_within {step : Machine → Machine → Prop} {program : Program α}
    (within : Within step program) (carries : ∀ m n, before m → step m n → before n) :
    Ensures before program fun _ => before :=
  fun m start _ _ => carries m _ start (within m)

theorem Returns.pure {after : α → Machine → Prop} {value : α}
    (holds : ∀ m, before m → after value m) : Returns before (Pure.pure value) after :=
  fun m start => ⟨value, rfl, holds m start⟩

theorem Returns.bind {program : Program α} {next : α → Program β} {between : α → Machine → Prop}
    {after : β → Machine → Prop} (first : Returns before program between)
    (rest : ∀ value, Returns (between value) (next value) after) :
    Returns before (program >>= next) after := by
  intro m start
  obtain ⟨value, found, reached⟩ := first m start
  obtain ⟨result, returns, ends⟩ := rest value _ reached
  refine ⟨result, value?_bind_eq_some.mpr ⟨value, found, returns⟩, ?_⟩
  rw [last_bind_of_value _ found]
  exact ends

end

end Program

namespace Kernel

/-- The calls that write text out or end the process. -/
def outputCalls : List SystemCall := [.write, .getpid, .gettid, .tgkill]

/-- The system after nothing but output: the calls made are writes, and answers
to other kinds of calls are left alone. -/
structure Wrote (before after : Kernel) : Prop where
  files : after.files = before.files
  descriptors : after.descriptors = before.descriptors
  nextDescriptor : after.nextDescriptor = before.nextDescriptor
  arena : after.arena = before.arena
  nextFree : after.nextFree = before.nextFree
  pending : ∀ call, call ∉ outputCalls → after.pending call = before.pending call
  history : ∃ events, after.history = events ++ before.history ∧
    ∀ event ∈ events, ∃ descriptor data result, event = .write descriptor data result

theorem Wrote.refl (k : Kernel) : Wrote k k :=
  ⟨rfl, rfl, rfl, rfl, rfl, fun _ _ => rfl, [], rfl, fun _ member => nomatch member⟩

theorem Wrote.trans {a b c : Kernel} (first : Wrote a b) (second : Wrote b c) : Wrote a c where
  files := second.files.trans first.files
  descriptors := second.descriptors.trans first.descriptors
  nextDescriptor := second.nextDescriptor.trans first.nextDescriptor
  arena := second.arena.trans first.arena
  nextFree := second.nextFree.trans first.nextFree
  pending call other := (second.pending call other).trans (first.pending call other)
  history := by
    obtain ⟨earlier, firstHistory, firstWrites⟩ := first.history
    obtain ⟨later, secondHistory, secondWrites⟩ := second.history
    refine ⟨later ++ earlier, by rw [secondHistory, firstHistory, List.append_assoc], ?_⟩
    intro event member
    rcases List.mem_append.mp member with late | early
    · exact secondWrites event late
    · exact firstWrites event early

theorem Wrote.answered (k : Kernel) {call : SystemCall} (output : call ∈ outputCalls) :
    Wrote k (k.answered call) where
  files := rfl
  descriptors := rfl
  nextDescriptor := rfl
  arena := rfl
  nextFree := rfl
  pending other apart := by
    rw [pending_answered, if_neg]
    rintro rfl
    exact apart output
  history := ⟨[], rfl, fun _ member => nomatch member⟩

theorem Wrote.writeUpTo (k : Kernel) (descriptor : UInt32) (data : Bytes) (limit : Nat) :
    Wrote k (k.writeUpTo descriptor data limit).2 := by
  rw [Kernel.writeUpTo]
  split
  · exact ⟨rfl, rfl, rfl, rfl, rfl, fun _ _ => rfl, [], rfl, fun _ member => nomatch member⟩
  · exact Wrote.refl k

theorem Wrote.record (k : Kernel) (descriptor : UInt32) (data : Bytes) (result : UInt64) :
    Wrote k (k.record (.write descriptor data result)) :=
  ⟨rfl, rfl, rfl, rfl, rfl, fun _ _ => rfl, [_], rfl, fun _ member =>
    ⟨descriptor, data, result, List.mem_singleton.mp member⟩⟩

theorem Wrote.write (k : Kernel) (descriptor : UInt32) (data : Bytes) :
    Wrote k (k.write descriptor data).2 := by
  have used : Wrote k (k.answered .write) := Wrote.answered k (by decide)
  rw [Kernel.write]
  refine Wrote.trans ?_ (Wrote.record _ _ _ _)
  cases k.answer .write with
  | fixed result => exact used
  | atMost limit => exact used.trans (Wrote.writeUpTo _ _ _ _)
  | ordinary => exact used.trans (Wrote.writeUpTo _ _ _ _)

theorem history_openat (k : Kernel) (path : Bytes) :
    (openat path k).2.history = .openat path (openat path k).1 :: k.history := by
  rw [openat]
  cases k.answer .openat with
  | fixed result => rfl
  | _ =>
    dsimp only
    split <;> rfl

theorem history_pread (k : Kernel) (descriptor : UInt32) (length : Nat) (offset : UInt64) :
    (pread descriptor length offset k).2.history =
      .pread descriptor length offset (pread descriptor length offset k).1.1 :: k.history := rfl

theorem history_close (k : Kernel) (descriptor : UInt32) :
    (close descriptor k).2.history = .close descriptor (close descriptor k).1 :: k.history := by
  rw [close]
  cases k.answer .close with
  | fixed result => rfl
  | _ =>
    dsimp only
    split <;> rfl

theorem history_write (k : Kernel) (descriptor : UInt32) (data : Bytes) :
    (write descriptor data k).2.history =
      .write descriptor data (write descriptor data k).1 :: k.history := by
  rw [write]
  cases k.answer .write with
  | fixed result => rfl
  | _ =>
    dsimp only [writeUpTo]
    split <;> rfl

end Kernel

namespace Machine

structure Wrote (before after : Machine) : Prop where
  memory : after.memory = before.memory
  heap : after.heap = before.heap
  logFilter : after.logFilter = before.logFilter
  kernel : before.kernel.Wrote after.kernel

instance : IsPreorder Machine Wrote where
  refl _ := ⟨rfl, rfl, rfl, Kernel.Wrote.refl _⟩
  trans _ _ _ first second :=
    ⟨second.memory.trans first.memory, second.heap.trans first.heap,
      second.logFilter.trans first.logFilter, first.kernel.trans second.kernel⟩

/-- A relation that every single call for output keeps: a write, or one of the
calls that end the process. -/
structure KeptByOutput (step : Machine → Machine → Prop) : Prop where
  answered : ∀ (m : Machine) {call : SystemCall}, call ∈ Kernel.outputCalls →
    step m { m with kernel := m.kernel.answered call }
  write : ∀ (m : Machine) (descriptor : UInt32) (data : Bytes),
    step m { m with kernel := (m.kernel.write descriptor data).2 }

theorem Wrote.kept : KeptByOutput Wrote where
  answered m _ output := ⟨rfl, rfl, rfl, .answered m.kernel output⟩
  write m descriptor data := ⟨rfl, rfl, rfl, .write m.kernel descriptor data⟩

namespace KeptByOutput

variable {step : Machine → Machine → Prop} [IsPreorder Machine step]

theorem deliver (kept : KeptByOutput step) (m : Machine) (descriptor : UInt32) (bytes : Bytes)
    (k : Kernel) : step { m with kernel := k }
      { m with kernel := (Kernel.deliver descriptor bytes k).2 } := by
  have called {bytes : Bytes} {k after : Kernel} {result : UInt64}
      (call : Kernel.write descriptor bytes k = (result, after)) :
      step { m with kernel := k } { m with kernel := after } := by
    have wrote := kept.write { m with kernel := k } descriptor bytes
    rwa [show (Kernel.write descriptor bytes k).2 = after by rw [call]] at wrote
  fun_induction Kernel.deliver descriptor bytes k with
  | case1 => exact refl_of step _
  | case2 _ _ _ _ _ call => exact called call
  | case3 _ _ _ _ _ call => exact called call
  | case4 _ _ _ _ _ call _ _ ih => exact trans_of step (called call) ih

theorem deliverPieces (kept : KeptByOutput step) (m : Machine) (descriptor : UInt32)
    (pieces : List Bytes) (k : Kernel) : step { m with kernel := k }
      { m with kernel := (Kernel.deliverPieces descriptor pieces k).2 } := by
  induction pieces generalizing k with
  | nil => exact refl_of step _
  | cons piece pieces ih =>
    have first := kept.deliver m descriptor piece k
    rw [Kernel.deliverPieces]
    split
    · next delivered => rw [delivered] at first; exact first
    · next delivered => rw [delivered] at first; exact trans_of step first (ih _)

theorem announceOverrun (kept : KeptByOutput step) (m : Machine) (bound : Nat)
    (index : Program.RangeEnd) (excess : Kernel.Overrun) (k : Kernel) :
    step { m with kernel := k } { m with kernel := Program.announceOverrun bound index excess k } := by
  induction bound generalizing index excess k with
  | zero => exact refl_of step _
  | succ bound ih =>
    have said := kept.deliverPieces m Kernel.standardError (Program.overrunMessage index excess) k
    rw [Program.announceOverrun]
    split
    · next delivered => rw [delivered] at said; exact trans_of step said (ih _ _ _)
    · next delivered => rw [delivered] at said; exact said

end KeptByOutput
end Machine

namespace Program

section
variable {step : Machine → Machine → Prop} [IsPreorder Machine step]

theorem within_abort (kept : Machine.KeptByOutput step) : Within step (abort : Program α) := by
  refine .bind (fun m => kept.answered m (by decide)) fun _ => ?_
  refine .bind (fun m => kept.answered m (by decide)) fun _ => ?_
  exact .bind (fun m => kept.answered m (by decide)) fun _ => .throw _

theorem within_failRange (kept : Machine.KeptByOutput step) (index : RangeEnd)
    (excess : Kernel.Overrun) : Within step (failRange index excess : Program α) :=
  .bind (fun m => kept.announceOverrun m _ _ _ m.kernel) fun _ => within_abort kept

theorem within_writePieces (kept : Machine.KeptByOutput step) (descriptor : UInt32)
    (pieces : List Bytes) : Within step (writePieces descriptor pieces) := by
  refine .bind (fun m => kept.deliverPieces m descriptor pieces m.kernel) fun excess => ?_
  cases excess with
  | none => exact .pure ()
  | some excess => exact within_failRange kept _ excess

theorem within_abortWith (kept : Machine.KeptByOutput step) (message : List Bytes) :
    Within step (abortWith message : Program α) :=
  .bind (within_writePieces kept _ _) fun _ => within_abort kept

theorem within_log (kept : Machine.KeptByOutput step) (level : LogLevel) (message : List Bytes) :
    Within step (log level message) := by
  refine .bind (.inspect _) fun filter => ?_
  split
  · exact within_writePieces kept _ _
  · exact .pure ()

end

theorem value?_abortWith (message : List Bytes) (m : Machine) :
    (abortWith message : Program α).value? m = none := by
  rw [abortWith, value?_bind]
  cases (writePieces Kernel.standardError _).value? m <;> rfl

theorem unless_succeeds {condition : Prop} [Decidable condition] {message : List Bytes}
    {next : Unit → Program α} {value : α} {m : Machine}
    (returned : (if condition then abortWith message >>= next else next ()).value? m = some value) :
    ¬ condition ∧ (next ()).value? m = some value ∧
      (if condition then abortWith message >>= next else next ()).last m = (next ()).last m := by
  split at returned
  · rw [value?_bind, value?_abortWith] at returned
    contradiction
  · next goesOn => exact ⟨goesOn, returned, by rw [if_neg goesOn]⟩

theorem wrote_log (level : LogLevel) (message : List Bytes) :
    Within Machine.Wrote (log level message) :=
  within_log Machine.Wrote.kept level message

end Program
end ElfRelay
