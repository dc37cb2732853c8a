import ElfRelay.Proofs.Loader.Later
import ElfRelay.Proofs.Mirroring
/-! What a heap of limited size changes in a run. The run on an endless heap tells which
blocks are asked for, each at a machine that it reaches. If all of them fit in the limited
heap, nothing is different; if not, the run fails at the first one that does not. -/
namespace ElfRelay

open Program (Mirrors Alike Within)
open Machine (Later)

/-- The heap after a block has been taken from it; an empty block takes nothing. -/
def Heap.take? (heap : Heap) (size align : Nat) : Option Heap :=
  if size = 0 then some heap else (heap.allocate? size align).map Prod.snd

inductive Held
  | file (file : File)
  | image (region : Region)
  deriving DecidableEq, Repr

def Held.release : Held → Program Unit
  | .file opened => opened.close
  | .image region => region.release

def releaseAll : List Held → Program Unit
  | [] => pure ()
  | held :: rest => do held.release; releaseAll rest

/-- A block that a run asks for, the machine it has reached then, and what it holds. -/
structure Need where
  size : Nat
  align : Nat
  reached : Machine
  held : List Held

/-- Takes blocks one after the other, up to the first that does not fit. -/
def Heap.serve : List Need → Heap → Except Need Heap
  | [], heap => .ok heap
  | need :: needs, heap =>
    match heap.take? need.size need.align with
    | none => .error need
    | some rest => serve needs rest

theorem Heap.serve_append (early late : List Need) (heap : Heap) :
    serve (early ++ late) heap = (serve early heap).bind (serve late) := by
  induction early generalizing heap with
  | nil => rfl
  | cons need early ih =>
    rw [List.cons_append, serve, serve]
    cases heap.take? need.size need.align with
    | none => rfl
    | some rest => exact ih rest

def Machine.limit (m : Machine) (limit : Nat) : Machine :=
  { m with heap := { m.heap with capacity := some limit } }

namespace Program

def limited (limit : Nat) : EStateM.Result Ending Machine α → EStateM.Result Ending Machine α
  | .ok value m => .ok value (m.limit limit)
  | .error ending m => .error ending (m.limit limit)

/-- The second machine is the first one with a limit to its heap, which is a given one. -/
def Limits (limit : Nat) (heap : Heap) : Bond where
  related m n := m.heap = heap ∧ n = m.limit limit
  mayEnd _ := True

def Heapless (program : Program α) : Prop :=
  ∀ limit heap, Mirrors (Limits limit heap) program program

variable {limit : Nat} {heap : Heap}

theorem Limits.modifyGet (change : Machine → α × Machine)
    (kept : ∀ m, (change m).2.heap = m.heap)
    (commutes : ∀ m : Machine, change (m.limit limit) = ((change m).1, (change m).2.limit limit)) :
    Mirrors (Limits limit heap) (MonadStateOf.modifyGet change : Program α)
      (MonadStateOf.modifyGet change) := by
  refine .modifyGet fun m n same => ?_
  obtain ⟨rfl, rfl⟩ := same
  rw [commutes m]
  exact ⟨rfl, kept m, rfl⟩

theorem Limits.callKernel (call : Kernel → α × Kernel) :
    Mirrors (Limits limit heap) (callKernel call) (callKernel call) :=
  Limits.modifyGet _ (fun _ => rfl) fun _ => rfl

theorem Limits.changeMemory (change : Memory → Memory) :
    Mirrors (Limits limit heap) (changeMemory change) (changeMemory change) :=
  Limits.modifyGet (fun m => ((), { m with memory := change m.memory })) (fun _ => rfl) fun _ => rfl

theorem Limits.inspect {view : Machine → α} (blind : ∀ m : Machine, view (m.limit limit) = view m) :
    Mirrors (Limits limit heap) (inspect view) (inspect view) :=
  .inspect fun m n same => by rw [same.2, blind m]

theorem Limits.abort : Mirrors (Limits limit heap) (abort : Program α) abort :=
  .bind (Limits.callKernel _) fun _ => .bind (Limits.callKernel _) fun _ =>
    .bind (Limits.callKernel _) fun _ => .throw trivial

theorem Limits.failRange (index : RangeEnd) (excess : Kernel.Overrun) :
    Mirrors (Limits limit heap) (failRange index excess : Program α) (failRange index excess) :=
  .bind (Limits.callKernel _) fun _ => Limits.abort

theorem Limits.writePieces (descriptor : UInt32) (pieces : List Bytes) :
    Mirrors (Limits limit heap) (writePieces descriptor pieces) (writePieces descriptor pieces) := by
  refine .bind (Limits.callKernel _) fun excess => ?_
  cases excess with
  | none => exact .pure _
  | some excess => exact Limits.failRange _ excess

theorem Limits.abortWith (message : List Bytes) :
    Mirrors (Limits limit heap) (abortWith message : Program α) (abortWith message) :=
  .bind (Limits.writePieces _ _) fun _ => Limits.abort

theorem Limits.log (level : LogLevel) (message : List Bytes) :
    Mirrors (Limits limit heap) (log level message) (log level message) := by
  refine .bind (Limits.inspect fun _ => rfl) fun filter => ?_
  split
  · exact Limits.writePieces _ _
  · exact .pure _

theorem Limits.mmap (request : MapRequest) :
    Mirrors (Limits limit heap) (MonadStateOf.modifyGet (Machine.mmap request) : Program UInt64)
      (MonadStateOf.modifyGet (Machine.mmap request)) := by
  refine Limits.modifyGet _ (fun m => m.mmap_heap request) fun m => ?_
  have ruled : (m.limit limit).mapAnswer request =
      ((m.mapAnswer request).1, (m.mapAnswer request).2.limit limit) := by
    rw [Machine.mapAnswer, Machine.mapAnswer, show (m.limit limit).mapSource request =
      m.mapSource request from rfl]
    cases m.mapSource request with
    | error code => rfl
    | ok source =>
      dsimp only
      rw [show (m.limit limit).mapAddress request = m.mapAddress request from rfl,
        show (m.limit limit).kernel = m.kernel from rfl]
      split <;> rfl
  rw [Machine.mmap, Machine.mmap, ruled, show (m.limit limit).kernel = m.kernel from rfl]
  cases m.kernel.answer .mmap <;> rfl

/-- Nothing that fetching an interpreter consists of has a use for the heap, but for what
is asked for outright. -/
theorem Limits.coupled : Coupled (Limits limit heap) where
  log := Limits.log
  failRange := Limits.failRange
  openPath _ := .bind (Limits.callKernel _) fun _ => .pure _
  readFully _ _ _ := Limits.callKernel _
  close _ := .bind (Limits.callKernel _) fun _ => .pure _
  mmap := Limits.mmap
  release _ := .bind (Limits.callKernel _) fun _ => .pure _
  changeMemory := Limits.changeMemory

def afterwards (program : Program α) (needs : α → Machine → List Need) (m : Machine) : List Need :=
  match program m with
  | .ok value after => needs value after
  | .error _ _ => []

def succeeded (needs : α → Machine → List Need) : Except LoadError α → Machine → List Need
  | .ok value, m => needs value m
  | .error _, _ => []

/-- How a run ends with a limit to the heap, by what comes of serving its blocks: as it does
without, or at the first block that does not fit, with what it holds given back. -/
def Ends (limit : Nat) (program : Program (Except LoadError α)) (m : Machine) :
    Except Need Heap → Prop
  | .ok heap => program (m.limit limit) = limited limit (program m) ∧
      heap = ((program.last m).limit limit).heap
  | .error need => program (m.limit limit) =
      (do releaseAll need.held; return .error .outOfMemory : Program (Except LoadError α))
        (need.reached.limit limit)

/-- A program that asks for certain blocks, and comes by the machines that these are noted
with. -/
structure Draws (limit : Nat) (program : Program (Except LoadError α))
    (needs : Machine → List Need) : Prop where
  within : Within Later program
  later : ∀ (m : Machine), ∀ need ∈ needs m, Later need.reached (program.last m)
  ends : ∀ (m : Machine), m.heap.capacity = none →
    Ends limit program m ((m.limit limit).heap.serve (needs m))

section
variable {program : Program (Except LoadError α)} {first : Program β}
  {next : β → Program (Except LoadError α)} {m n : Machine}

theorem Ends.congr {other : Program (Except LoadError α)} {outcome : Except Need Heap}
    (same : program m = other n) (sameLimited : program (m.limit limit) = other (n.limit limit))
    (ends : Ends limit other n outcome) : Ends limit program m outcome := by
  cases outcome with
  | ok heap => exact ⟨by rw [sameLimited, ends.1, same], by rw [ends.2, last_congr same]⟩
  | error need => exact sameLimited.trans ends

theorem Heapless.run {first : Program β} (heapless : Heapless first) (limit : Nat) (m : Machine) :
    first (m.limit limit) = limited limit (first m) ∧ (first.last m).heap = m.heap := by
  have alike := heapless limit m.heap m (m.limit limit) ⟨rfl, rfl⟩
  unfold last
  generalize first m = one at alike
  generalize first (m.limit limit) = two at alike
  cases alike with
  | returned reached => exact ⟨by rw [reached.2, limited], reached.1⟩
  | ended may reached => exact ⟨by rw [reached.2, limited], reached.1⟩

theorem Heapless.draws (heapless : Heapless program) (within : Within Later program) :
    Draws limit program fun _ => [] where
  within := within
  later _ _ member := nomatch member
  ends m _ := by
    obtain ⟨run, kept⟩ := heapless.run limit m
    exact ⟨run, by rw [Machine.limit, Machine.limit, kept]⟩

theorem later_afterwards {needs : β → Machine → List Need}
    (later : ∀ value (n : Machine), ∀ need ∈ needs value n, Later need.reached ((next value).last n))
    {need : Need} (member : need ∈ afterwards first needs m) :
    Later need.reached ((first >>= next).last m) := by
  unfold afterwards at member
  split at member
  · next value after returned =>
    rw [Program.last, run_bind_ok returned, ← Program.last]
    exact later value after need member
  · exact absurd member List.not_mem_nil

theorem Draws.after {needs : β → Machine → List Need} (heapless : Heapless first)
    (within : Within Later first) (rest : ∀ value, Draws limit (next value) (needs value)) :
    Draws limit (first >>= next) (afterwards first needs) where
  within := .bind within fun value => (rest value).within
  later _ _ member := later_afterwards (fun value => (rest value).later) member
  ends m endless := by
    obtain ⟨run, kept⟩ := heapless.run limit m
    have later := within m
    unfold afterwards
    cases ran : first m with
    | ok value after =>
      rw [ran] at run
      rw [last, ran] at kept later
      have same : (after.limit limit).heap = (m.limit limit).heap := by
        rw [Machine.limit, Machine.limit, kept]
      rw [← same]
      exact ((rest value).ends after (later.heap.capacity.trans endless)).congr
        (run_bind_ok ran) (run_bind_ok run)
    | error ending after =>
      rw [ran] at run
      rw [last, ran] at kept
      refine ⟨by rw [run_bind_error run, run_bind_error ran, limited], ?_⟩
      rw [last, run_bind_error ran]
      rw [Machine.limit, Machine.limit, kept]

theorem Draws.bind {first : Program (Except LoadError β)}
    {next : Except LoadError β → Program (Except LoadError α)} {early : Machine → List Need}
    {late : β → Machine → List Need} (draws : Draws limit first early)
    (passes : ∀ error, next (.error error) = pure (.error error))
    (rest : ∀ value, Draws limit (next (.ok value)) (late value)) :
    Draws limit (first >>= next) fun m => early m ++ afterwards first (succeeded late) m := by
  have within (outcome : Except LoadError β) : Within Later (next outcome) := by
    cases outcome with
    | error error => rw [passes]; exact .pure _
    | ok value => exact (rest value).within
  refine ⟨.bind draws.within within, fun m need member => ?_, fun m endless => ?_⟩
  · rcases List.mem_append.mp member with member | member
    · exact trans_of _ (draws.later m need member) (Within.rest within m)
    · refine later_afterwards (fun outcome n need member => ?_) member
      cases outcome with
      | error error => nomatch member
      | ok value => exact (rest value).later n need member
  -- A block of the first part that does not fit ends the whole, so the later ones do not count.
  · have ends := draws.ends m endless
    rw [Heap.serve_append]
    cases served : (m.limit limit).heap.serve (early m) with
    | error need =>
      rw [served] at ends
      change (first >>= next) (m.limit limit) = _
      rw [run_bind_congr ends, bind_assoc]
      simp only [pure_bind, passes]
    | ok heap =>
      rw [served] at ends
      obtain ⟨run, left⟩ := ends
      have later := draws.within m
      rw [Except.bind, left, last]
      rw [last] at later
      unfold afterwards
      cases ran : first m with
      | error ending after =>
        rw [ran] at run
        refine ⟨by rw [run_bind_error run, run_bind_error ran, limited], ?_⟩
        rw [last, run_bind_error ran]
      | ok outcome after =>
        rw [ran] at run later
        cases outcome with
        | error error =>
          refine ⟨by rw [run_bind_ok run, run_bind_ok ran, passes]; rfl, ?_⟩
          rw [last, run_bind_ok ran, passes]
          rfl
        | ok value =>
          exact ((rest value).ends after (later.heap.capacity.trans endless)).congr
            (run_bind_ok ran) (run_bind_ok run)

/-- A block that fits in the limited heap is at the same address as in the endless one. -/
theorem reserve_limit (limit size align : Nat) (endless : m.heap.capacity = none) :
    match (m.limit limit).heap.take? size align with
    | none => Program.reserve size align (m.limit limit) = .ok none (m.limit limit)
    | some heap => ∃ address after, Program.reserve size align m = .ok (some address) after ∧
        Program.reserve size align (m.limit limit) = .ok (some address) (after.limit limit) ∧
        heap = (after.limit limit).heap := by
  by_cases empty : size = 0
  · have idle (n : Machine) : Program.reserve size align n = .ok (some n.heap.base) n := by
      simp only [Program.reserve, if_pos empty]
      rfl
    rw [idle, idle, Heap.take?, if_pos empty]
    exact ⟨_, m, rfl, rfl, rfl⟩
  · have granted {n : Machine} {start : Nat} {heap : Heap}
        (room : n.heap.allocate? size align = some (start, heap)) : Program.reserve size align n =
          .ok (some (n.heap.base + start.toUInt64)) { n with heap := heap } := by
      simp only [Program.reserve, if_neg empty, modifyGet, MonadStateOf.modifyGet,
        EStateM.modifyGet, room]
    have refused {n : Machine} (full : n.heap.allocate? size align = none) :
        Program.reserve size align n = .ok none n := by
      simp only [Program.reserve, if_neg empty, modifyGet, MonadStateOf.modifyGet,
        EStateM.modifyGet, full]
    rw [Heap.take?, if_neg empty]
    by_cases fits : (m.limit limit).heap.fits ((m.limit limit).heap.start align + size) = true
    · have limited : (m.limit limit).heap.allocate? size align = _ := if_pos fits
      have endless : m.heap.allocate? size align = _ := if_pos (by rw [Heap.fits, endless])
      rw [granted limited, granted endless, limited]
      exact ⟨_, _, rfl, rfl, rfl⟩
    · have limited : (m.limit limit).heap.allocate? size align = none := if_neg fits
      rw [refused limited, limited]
      rfl

/-- A request comes before what is done with the block; without it the whole fails. -/
theorem Draws.reserve {size align : Nat}
    {next : Option UInt64 → Program (Except LoadError α)} {needs : UInt64 → Machine → List Need}
    (aligned : 0 < align) (fails : next none = pure (.error .outOfMemory))
    (rest : ∀ address, Draws limit (next (some address)) (needs address)) :
    Draws limit (Program.reserve size align >>= next) fun m =>
      ⟨size, align, m, []⟩ :: afterwards (Program.reserve size align)
        (fun room m => room.elim [] fun address => needs address m) m := by
  have within (room : Option UInt64) : Within Later (next room) := by
    cases room with
    | none => rw [fails]; exact .pure _
    | some address => exact (rest address).within
  have reserves : Within Later (Program.reserve size align) :=
    within_reserve Later.maps.heap size aligned
  refine ⟨.bind reserves within, fun m need member => ?_, fun m endless => ?_⟩
  · rcases List.mem_cons.mp member with rfl | member
    · exact trans_of _ (reserves m) (Within.rest within m)
    · refine later_afterwards (fun room n need member => ?_) member
      cases room with
      | none => nomatch member
      | some address => exact (rest address).later n need member
  · have later := reserves m
    have granted := reserve_limit limit size align endless
    rw [Heap.serve]
    dsimp only
    cases taken : (m.limit limit).heap.take? size align with
    | none =>
      rw [taken] at granted
      change (Program.reserve size align >>= next) (m.limit limit) = _
      rw [run_bind_ok granted, fails]
      rfl
    | some heap =>
      rw [taken] at granted
      obtain ⟨address, after, run, same, rfl⟩ := granted
      rw [last, run] at later
      rw [afterwards, run]
      exact ((rest address).ends after (later.heap.capacity.trans endless)).congr
        (run_bind_ok run) (run_bind_ok same)

end

theorem Heapless.pure (value : α) : Heapless (Pure.pure value) := fun _ _ => .pure value

theorem Heapless.bind {first : Program α} {next : α → Program β} (heapless : Heapless first)
    (rest : ∀ value, Heapless (next value)) : Heapless (first >>= next) :=
  fun limit heap => .bind (heapless limit heap) fun value => rest value limit heap

/-- What holds of every bond that fetching keeps holds of a limit to the heap. -/
theorem Heapless.of_coupled {program : Program α}
    (mirrors : ∀ {bond : Bond}, Coupled bond → Mirrors bond program program) : Heapless program :=
  fun _ _ => mirrors Limits.coupled

end Program

end ElfRelay
