import ElfRelay.Proofs.Loader.Totality
import ElfRelay.Proofs.LogEntries
import ElfRelay.Proofs.Mirroring
/-! Two systems that differ in what has been written out, and machines on two such systems
with the same heap. The calls other than output are answered alike, and calls for output
keep the systems alike, however many there are on either side. -/
namespace ElfRelay

/-- Two calls that are the same, up to the log level that a program is started with. -/
inductive Event.Similar : Event → Event → Prop
  | same (event : Event) : Similar event event
  | execve (path : Bytes) (arguments : List Bytes) (result : UInt64)
    {environment other : List Bytes} (alike : List.Forall₂ LogAlike environment other) :
    Similar (.execve path arguments environment result) (.execve path arguments other result)

def Event.isWrite : Event → Bool
  | .write _ _ _ => true
  | _ => false

namespace Kernel

def calls (k : Kernel) : List Event := k.history.filter fun event => !event.isWrite

theorem Wrote.calls {k after : Kernel} (wrote : k.Wrote after) : after.calls = k.calls := by
  obtain ⟨events, history, writes⟩ := wrote.history
  have none : events.filter (fun event => !event.isWrite) = [] := by
    apply List.filter_eq_nil_iff.mpr
    intro event member
    obtain ⟨descriptor, data, result, rfl⟩ := writes event member
    simp [Event.isWrite]
  simp [Kernel.calls, history, none]

/-- Two systems that are the same but for output: the descriptors, the mappings and the
answers prepared for other calls agree, and so do the calls made so far. -/
structure Beside (k l : Kernel) : Prop where
  files : l.files = k.files
  descriptors : l.descriptors = k.descriptors
  nextDescriptor : l.nextDescriptor = k.nextDescriptor
  arena : l.arena = k.arena
  nextFree : l.nextFree = k.nextFree
  pending : ∀ call, call ∉ outputCalls → l.pending call = k.pending call
  calls : List.Forall₂ Event.Similar k.calls l.calls

theorem Beside.refl (k : Kernel) : k.Beside k :=
  ⟨rfl, rfl, rfl, rfl, rfl, fun _ _ => rfl, List.forall₂_same.mpr fun event _ => .same event⟩

namespace Beside

variable {k l : Kernel} (beside : k.Beside l)
include beside

theorem wrote {after other : Kernel} (one : k.Wrote after) (two : l.Wrote other) :
    after.Beside other where
  files := by rw [two.files, one.files, beside.files]
  descriptors := by rw [two.descriptors, one.descriptors, beside.descriptors]
  nextDescriptor := by rw [two.nextDescriptor, one.nextDescriptor, beside.nextDescriptor]
  arena := by rw [two.arena, one.arena, beside.arena]
  nextFree := by rw [two.nextFree, one.nextFree, beside.nextFree]
  pending call other := by
    rw [two.pending call other, one.pending call other, beside.pending call other]
  calls := by
    rw [two.calls, one.calls]
    exact beside.calls

theorem answered (call : SystemCall) : (k.answered call).Beside (l.answered call) where
  files := beside.files
  descriptors := beside.descriptors
  nextDescriptor := beside.nextDescriptor
  arena := beside.arena
  nextFree := beside.nextFree
  pending other apart := by simp [pending_answered, beside.pending other apart]
  calls := beside.calls

theorem answer {call : SystemCall} (apart : call ∉ outputCalls) : l.answer call = k.answer call := by
  simp [Kernel.answer, beside.pending call apart]

theorem record {event other : Event} (similar : event.Similar other)
    (one : event.isWrite = false) (two : other.isWrite = false) :
    (k.record event).Beside (l.record other) where
  files := beside.files
  descriptors := beside.descriptors
  nextDescriptor := beside.nextDescriptor
  arena := beside.arena
  nextFree := beside.nextFree
  pending := beside.pending
  calls := by
    simp only [Kernel.calls, Kernel.record, List.filter_cons, one, two]
    exact .cons similar beside.calls

theorem openat (path : Bytes) :
    (Kernel.openat path l).1 = (Kernel.openat path k).1 ∧
      (Kernel.openat path k).2.Beside (Kernel.openat path l).2 := by
  have used := beside.answered .openat
  rw [Kernel.openat, Kernel.openat, beside.answer (by decide), beside.files, beside.nextDescriptor,
    beside.descriptors]
  cases k.answer .openat with
  | fixed result => exact ⟨rfl, used.record (.same _) rfl rfl⟩
  | _ =>
    dsimp only
    split
    · exact ⟨rfl, used.record (.same _) rfl rfl⟩
    · exact ⟨rfl, used.record (.same _) rfl rfl⟩
    · constructor
      · rfl
      · exact { used.record (.same _) rfl rfl with descriptors := rfl, nextDescriptor := rfl }

theorem node?_eq (descriptor : UInt32) : l.node? descriptor = k.node? descriptor := by
  simp [Kernel.node?, beside.descriptors]

theorem pread (descriptor : UInt32) (length : Nat) (offset : UInt64) :
    (Kernel.pread descriptor length offset l).1 = (Kernel.pread descriptor length offset k).1 ∧
      (Kernel.pread descriptor length offset k).2.Beside
        (Kernel.pread descriptor length offset l).2 := by
  have same : (Kernel.pread descriptor length offset l).1 =
      (Kernel.pread descriptor length offset k).1 := by
    simp [Kernel.pread, beside.answer (show SystemCall.pread ∉ outputCalls by decide), readAnswer,
      beside.node?_eq]
  refine ⟨same, ?_⟩
  change ((k.answered .pread).record (.pread _ _ _ (Kernel.pread descriptor length offset k).1.1)).Beside
    ((l.answered .pread).record (.pread _ _ _ (Kernel.pread descriptor length offset l).1.1))
  rw [same]
  exact (beside.answered .pread).record (.same _) rfl rfl

theorem close (descriptor : UInt32) :
    (Kernel.close descriptor l).1 = (Kernel.close descriptor k).1 ∧
      (Kernel.close descriptor k).2.Beside (Kernel.close descriptor l).2 := by
  have used := beside.answered .close
  rw [Kernel.close, Kernel.close, beside.answer (by decide), beside.node?_eq, beside.descriptors]
  cases k.answer .close with
  | fixed result => exact ⟨rfl, used.record (.same _) rfl rfl⟩
  | _ =>
    dsimp only
    split
    · exact ⟨rfl, used.record (.same _) rfl rfl⟩
    · exact ⟨rfl, { used.record (.same _) rfl rfl with descriptors := rfl }⟩

theorem munmap (region : Region) :
    (Kernel.munmap region l).1 = (Kernel.munmap region k).1 ∧
      (Kernel.munmap region k).2.Beside (Kernel.munmap region l).2 := by
  have same : (Kernel.munmap region l).1 = (Kernel.munmap region k).1 := by
    simp [Kernel.munmap, beside.answer (show SystemCall.munmap ∉ outputCalls by decide),
      unmapAnswer, beside.arena]
  refine ⟨same, ?_⟩
  change ((k.answered .munmap).record (.munmap _ _ (Kernel.munmap region k).1)).Beside
    ((l.answered .munmap).record (.munmap _ _ (Kernel.munmap region l).1))
  rw [same]
  exact (beside.answered .munmap).record (.same _) rfl rfl

theorem execve (path : Bytes) (arguments : List Bytes) {environment other : List Bytes}
    (alike : List.Forall₂ LogAlike environment other) :
    (Kernel.execve path arguments other l).1 = (Kernel.execve path arguments environment k).1 ∧
      (Kernel.execve path arguments environment k).2.Beside
        (Kernel.execve path arguments other l).2 := by
  have same : (Kernel.execve path arguments other l).1 =
      (Kernel.execve path arguments environment k).1 := by
    simp [Kernel.execve, beside.answer (show SystemCall.execve ∉ outputCalls by decide),
      beside.files]
  refine ⟨same, ?_⟩
  change ((k.answered .execve).record (.execve _ _ _ (Kernel.execve path arguments environment k).1)).Beside
    ((l.answered .execve).record (.execve _ _ _ (Kernel.execve path arguments other l).1))
  rw [same]
  exact (beside.answered .execve).record (.execve path arguments _ alike) rfl rfl

theorem readFrom (descriptor : UInt32) (offset : UInt64) (bound : Nat) (reading : Reading) :
    (Kernel.readFrom descriptor offset bound reading l).1 =
        (Kernel.readFrom descriptor offset bound reading k).1 ∧
      (Kernel.readFrom descriptor offset bound reading k).2.Beside
        (Kernel.readFrom descriptor offset bound reading l).2 := by
  induction bound generalizing reading k l with
  | zero => exact ⟨rfl, beside⟩
  | succ bound ih =>
    rw [Kernel.readFrom, Kernel.readFrom]
    by_cases full : reading.buffer.length ≤ reading.filled
    · simp only [if_pos full]
      exact ⟨trivial, beside⟩
    · simp only [if_neg full]
      obtain ⟨same, after⟩ := beside.pread descriptor (reading.buffer.length - reading.filled)
        (offset + reading.filled.toUInt64)
      generalize Kernel.pread descriptor _ _ k = one at same after ⊢
      generalize Kernel.pread descriptor _ _ l = two at same after ⊢
      obtain ⟨answer, one⟩ := one
      obtain ⟨other, two⟩ := two
      cases same
      dsimp only
      split
      · split
        · exact ih after _
        · exact ⟨rfl, after⟩
      · split
        · exact ⟨rfl, after⟩
        · exact ih after _

theorem readFully (descriptor : UInt32) (buffer : Bytes) (offset : UInt64) :
    (Kernel.readFully descriptor buffer offset l).1 =
        (Kernel.readFully descriptor buffer offset k).1 ∧
      (Kernel.readFully descriptor buffer offset k).2.Beside
        (Kernel.readFully descriptor buffer offset l).2 := by
  rw [Kernel.readFully, Kernel.readFully, beside.pending .pread (by decide)]
  exact beside.readFrom _ _ _ _

end Beside
end Kernel

namespace Machine

/-- The machine after nothing but output and a change of the log's filter. -/
structure Told (before after : Machine) : Prop where
  memory : after.memory = before.memory
  heap : after.heap = before.heap
  kernel : before.kernel.Wrote after.kernel
  later : before.kernel.Later after.kernel

instance : IsPreorder Machine Told where
  refl _ := ⟨rfl, rfl, .refl _, .refl _⟩
  trans _ _ _ first second :=
    ⟨second.memory.trans first.memory, second.heap.trans first.heap,
      first.kernel.trans second.kernel, first.later.trans second.later⟩

theorem Told.kept : KeptByOutput Told where
  answered m _ output := ⟨rfl, rfl, .answered m.kernel output, .answered m.kernel _⟩
  write m descriptor data := ⟨rfl, rfl, .write m.kernel descriptor data, .write m.kernel descriptor data⟩

/-- Two runs, each from a machine of its own, that have come to machines on systems that are
the same but for output, with the same heap. -/
structure Beside (m n after other : Machine) : Prop where
  kernel : after.kernel.Beside other.kernel
  heap : other.heap = after.heap
  one : Later m after
  two : Later n other

namespace Beside

variable {m n after other next last : Machine} (beside : Beside m n after other)
include beside

theorem step (kernel : next.kernel.Beside last.kernel) (heap : last.heap = next.heap)
    (one : Later after next) (two : Later other last) : Beside m n next last :=
  ⟨kernel, heap, trans_of Later beside.one one, trans_of Later beside.two two⟩

theorem told (one : Told after next) (two : Told other last) : Beside m n next last :=
  beside.step (beside.kernel.wrote one.kernel two.kernel) (by rw [one.heap, two.heap, beside.heap])
    (.of_kernel one.heap one.later) (.of_kernel two.heap two.later)

theorem memory (first second : Memory) :
    Beside m n { after with memory := first } { other with memory := second } :=
  ⟨beside.kernel, beside.heap, ⟨beside.one.kernel, beside.one.heap⟩,
    ⟨beside.two.kernel, beside.two.heap⟩⟩

theorem mmap (request : MapRequest) : (other.mmap request).1 = (after.mmap request).1 ∧
    Beside m n (after.mmap request).2 (other.mmap request).2 := by
  have kernel := beside.kernel
  have source : other.mapSource request = after.mapSource request := by
    simp [mapSource, kernel.node?_eq]
  have address : other.mapAddress request = after.mapAddress request := by
    simp [mapAddress, kernel.nextFree]
  have ruled : (other.mapAnswer request).1 = (after.mapAnswer request).1 ∧
      (after.mapAnswer request).2.kernel.Beside (other.mapAnswer request).2.kernel := by
    rw [mapAnswer, mapAnswer, source, address, kernel.arena]
    cases after.mapSource request with
    | error code => exact ⟨rfl, kernel⟩
    | ok source =>
      dsimp only
      split
      · refine ⟨rfl, { kernel with nextFree := ?_ }⟩
        simp [freeAfter, kernel.nextFree]
      · exact ⟨rfl, kernel⟩
  have called : (other.mmap request).1 = (after.mmap request).1 ∧
      (after.mmap request).2.kernel.Beside (other.mmap request).2.kernel := by
    rw [Machine.mmap, Machine.mmap, kernel.answer (by decide)]
    cases after.kernel.answer .mmap with
    | fixed result => exact ⟨rfl, (kernel.answered _).record (.same _) rfl rfl⟩
    | _ =>
      dsimp only
      rw [ruled.1]
      exact ⟨rfl, (ruled.2.answered _).record (.same _) rfl rfl⟩
  refine ⟨called.1, beside.step called.2 ?_ (.mmap after request) (.mmap other request)⟩
  rw [mmap_heap, mmap_heap, beside.heap]

end Beside
end Machine

namespace Program

open Machine (Told Later)

/-- Two runs that differ in what they write out, with the ways in which they may both end. -/
def muting (m n : Machine) (may : Ending → Prop) : Bond := ⟨Machine.Beside m n, may⟩

variable {m n : Machine} {may : Ending → Prop}

section
variable (modest : m.kernel.OnlyFails .write) (shy : n.kernel.OnlyFails .write)
include modest shy

/-- What is written out may be anything, and no text at all, if that is all. -/
theorem mirrors_of_told {program other : Program Unit} (one : Within Told program)
    (two : Within Told other)
    (returns : ∀ after, after.kernel.OnlyFails .write → program.value? after = some ())
    (others : ∀ after, after.kernel.OnlyFails .write → other.value? after = some ()) :
    Mirrors (muting m n may) program other := by
  intro after last beside
  rw [eq_ok_of_value? (returns after (beside.one.kernel.onlyFails modest)),
    eq_ok_of_value? (others last (beside.two.kernel.onlyFails shy))]
  exact .returned (beside.told (one after) (two last))

theorem mirrors_log (level other : LogLevel) (message text : List Bytes) :
    Mirrors (muting m n may) (log level message) (log other text) :=
  mirrors_of_told modest shy (within_log Told.kept _ _) (within_log Told.kept _ _)
    (fun _ fails => value?_log fails _ _) fun _ fails => value?_log fails _ _

end

theorem mirrors_callKernel {call : Kernel → α × Kernel}
    (agrees : ∀ k l, k.Beside l → (call l).1 = (call k).1 ∧ (call k).2.Beside (call l).2)
    (later : Within Later (callKernel call)) :
    Mirrors (muting m n may) (callKernel call) (callKernel call) := by
  refine .modifyGet fun after last beside => ?_
  obtain ⟨same, kernel⟩ := agrees _ _ beside.kernel
  exact ⟨same, beside.step kernel beside.heap (later after) (later last)⟩

theorem mirrors_changeMemory (change other : Memory → Memory) :
    Mirrors (muting m n may) (changeMemory change) (changeMemory other) :=
  fun _ _ beside => .returned (beside.memory _ _)

theorem mirrors_reserve (size : Nat) {align : Nat} (pos : 0 < align) :
    Mirrors (muting m n may) (reserve size align) (reserve size align) := by
  refine .modifyGet fun after last beside => ?_
  have later := within_reserve Later.maps.heap size pos
  refine ⟨?_, beside.step ?_ ?_ (later after) (later last)⟩
  all_goals
    simp only [beside.heap]
    split
  · rfl
  · cases after.heap.allocate? size align <;> rfl
  · exact beside.kernel
  · cases after.heap.allocate? size align <;> exact beside.kernel
  · exact beside.heap
  · cases after.heap.allocate? size align with
    | none => exact beside.heap
    | some room => rfl

theorem mirrors_failRange (aborts : may .aborted) (index : RangeEnd) (excess : Kernel.Overrun) :
    Mirrors (muting m n may) (failRange index excess : Program α) (failRange index excess) := by
  have ends (after : Machine) : (failRange index excess : Program α) after =
      .error .aborted ((failRange index excess : Program α).last after) := rfl
  have told : Within Told (failRange index excess : Program α) :=
    within_failRange Told.kept index excess
  intro after last beside
  rw [ends after, ends last]
  exact .ended aborts (beside.told (told after) (told last))

theorem mirrors_release (region : Region) :
    Mirrors (muting m n may) region.release region.release :=
  .bind (mirrors_callKernel (fun _ _ beside => beside.munmap region) fun after =>
    Later.munmap after region) fun _ => .pure _

/-- Fetching an interpreter is the same on both sides, up to what is written out. -/
theorem coupled_muting (aborts : may .aborted) (modest : m.kernel.OnlyFails .write)
    (shy : n.kernel.OnlyFails .write) : Coupled (muting m n may) where
  log level message := mirrors_log modest shy level level message message
  failRange := mirrors_failRange aborts
  openPath path := .bind (mirrors_callKernel (fun _ _ beside => beside.openat path)
    fun after => .of_kernel rfl (.openat after.kernel path)) fun _ => .pure _
  readFully file buffer offset := mirrors_callKernel
    (fun _ _ beside => beside.readFully file.descriptor buffer offset)
    (File.within_readFully (Later.kept.reads _) _ _)
  close file := .bind (mirrors_callKernel (fun _ _ beside => beside.close file.descriptor)
    fun after => .of_kernel rfl (.close after.kernel _)) fun _ => .pure _
  mmap request := .modifyGet fun _ _ beside => beside.mmap request
  release := mirrors_release
  changeMemory change := mirrors_changeMemory change change

end Program
end ElfRelay
