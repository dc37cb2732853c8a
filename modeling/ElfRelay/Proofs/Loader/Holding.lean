import ElfRelay.Proofs.Loader.Custody
import ElfRelay.Proofs.Loader.HeapLimit
/-! What a run holds when it asks for a block: the file and the region that its calls have
taken and not given back yet. This is read off the calls alone, however the system answers
them, and giving all of it back leaves nothing open and nothing reserved. -/
namespace ElfRelay

open Elf (Header ProgramHeader Object)
open Program (Ensures Within afterwards succeeded)

namespace Event

def taken? (event : Event) : Option Held :=
  (event.opened?.map fun descriptor => .file ⟨descriptor.toUInt32⟩).or (event.reserved?.map .image)

def givenBack? (event : Event) : Option Held :=
  (event.closed?.map fun descriptor => .file ⟨descriptor⟩).or (event.released?.map .image)

@[simp] theorem taken?_openat (path : Bytes) (result : UInt64) :
    (openat path result).taken? = ((Errno.ofResult result).map fun descriptor =>
      Held.file ⟨descriptor.toUInt32⟩).toOption := by
  cases answer : Errno.ofResult result <;>
    simp [taken?, opened?, reserved?, answer, Except.toOption, Except.map]

@[simp] theorem givenBack?_openat (path : Bytes) (result : UInt64) :
    (openat path result).givenBack? = none := rfl

@[simp] theorem taken?_close (descriptor : UInt32) (result : UInt64) :
    (close descriptor result).taken? = none := rfl

@[simp] theorem givenBack?_close (descriptor : UInt32) (result : UInt64) :
    (close descriptor result).givenBack? = some (.file ⟨descriptor⟩) := rfl

@[simp] theorem taken?_mmap (request : MapRequest) (result : UInt64) :
    (mmap request result).taken? = if request.isFixed then none
      else ((Errno.ofResult result).map fun place => Held.image ⟨place, request.length⟩).toOption := by
  cases answer : Errno.ofResult result <;>
    simp [taken?, opened?, reserved?, answer, Except.toOption, Except.map, apply_ite]

@[simp] theorem givenBack?_mmap (request : MapRequest) (result : UInt64) :
    (mmap request result).givenBack? = none := rfl

@[simp] theorem taken?_munmap (address length result : UInt64) :
    (munmap address length result).taken? = none := rfl

@[simp] theorem givenBack?_munmap (address length result : UInt64) :
    (munmap address length result).givenBack? = some (.image ⟨address, length⟩) := rfl

end Event

/-- Of what the calls between two machines have taken, they have given back all but what is
held. -/
def Took (held : List Held) (before after : Machine) : Prop :=
  ∃ events, after.kernel.trace = before.kernel.trace ++ events ∧
    (events.filterMap Event.taken?).Perm (events.filterMap Event.givenBack? ++ held)

namespace Took

variable {held kept : List Held} {start m n : Machine} {event : Event}

theorem refl (m : Machine) : Took [] m m := ⟨[], (List.append_nil _).symm, .refl _⟩

theorem trans (first : Took held start m) (second : Took kept m n) :
    Took (kept ++ held) start n := by
  obtain ⟨early, firstTrace, firstTaken⟩ := first
  obtain ⟨late, secondTrace, secondTaken⟩ := second
  refine ⟨early ++ late, by rw [secondTrace, firstTrace, List.append_assoc], ?_⟩
  rw [List.perm_iff_count] at *
  intro thing
  have := firstTaken thing
  have := secondTaken thing
  simp only [List.filterMap_append, List.count_append] at *
  omega

theorem history (took : Took held start m) : start.kernel.history <:+ m.kernel.history := by
  obtain ⟨events, trace, _⟩ := took
  refine ⟨events.reverse, ?_⟩
  rw [← List.reverse_inj, List.reverse_append, List.reverse_reverse]
  exact trace.symm

instance : IsPreorder Machine (Took []) where
  refl := refl
  trans _ _ _ first second := first.trans second

theorem quiet (same : n.kernel.history = m.kernel.history) : Took [] m n :=
  ⟨[], by rw [Kernel.trace, same, List.append_nil]; rfl, .refl _⟩

theorem call (took : Took held start m) (history : n.kernel.history = event :: m.kernel.history)
    (moves : (event.taken?.toList ++ held).Perm (event.givenBack?.toList ++ kept)) :
    Took kept start n := by
  obtain ⟨events, trace, taken⟩ := took
  refine ⟨events ++ [event], ?_, ?_⟩
  · rw [Kernel.trace, history, List.reverse_cons, ← List.append_assoc, ← trace]
    rfl
  · have single (part : Event → Option Held) : [event].filterMap part = (part event).toList := by
      cases found : part event <;> simp [found]
    rw [List.perm_iff_count] at *
    intro thing
    have := taken thing
    have := moves thing
    simp only [List.filterMap_append, List.count_append, single] at *
    omega

theorem idle (history : n.kernel.history = event :: m.kernel.history) (takes : event.taken? = none)
    (gives : event.givenBack? = none) : Took [] m n :=
  (refl m).call history (by rw [takes, gives])

theorem kept_edits : Machine.KeptByEdits (Took []) where
  answered _ _ _ := quiet rfl
  write m descriptor data := idle (m.kernel.history_write descriptor data) rfl rfl
  heap _ _ _ := quiet rfl
  memory _ _ := quiet rfl

theorem kept_reads (descriptor : UInt32) : Machine.KeptByReads (Took []) descriptor where
  toKeptByOutput := kept_edits.toKeptByOutput
  heap := kept_edits.heap
  pread m length offset := idle (m.kernel.history_pread descriptor length offset) rfl rfl

/-- A program that takes nothing leaves what is held alone. -/
theorem ensures {program : Program α} (within : Within (Took []) program) :
    Ensures (Took held start) program fun _ => Took held start :=
  .of_within within fun _ _ took step => took.trans step

end Took

variable {held : List Held} {start : Machine}

namespace File

theorem took_openPath (path : Bytes) :
    Ensures (Took held start) (openPath path) fun opened =>
      Took ((opened.map Held.file).toOption.toList ++ held) start := by
  intro m took opened returned
  obtain ⟨result, called, returned⟩ := Program.value?_bind_eq_some.mp returned
  cases called
  cases returned
  refine took.call (m.kernel.history_openat path) (.of_eq ?_)
  cases answer : Errno.ofResult (Kernel.openat path m.kernel).1 <;>
    simp [answer, Except.toOption, Except.map]

theorem took_close (file : File) :
    Ensures (Took (.file file :: held) start) file.close fun _ => Took held start :=
  fun m took _ _ => took.call (m.kernel.history_close file.descriptor) (.of_eq (by simp))

end File

namespace Elf.Object

theorem took_openTrimmed (path : Bytes) :
    Ensures (Took held start) (openTrimmed path) fun opened =>
      Took ((opened.map Held.file).toOption.toList ++ held) start := by
  refine .bind (File.took_openPath path) fun opened => ?_
  cases opened with
  | ok file => exact .pure fun _ => id
  | error errno =>
    dsimp only
    split
    · refine .bind (Took.ensures (Program.within_reserve Took.kept_edits.heap _ (by decide)))
        fun room => ?_
      cases room with
      | none => exact .pure fun _ => id
      | some address =>
        refine .bind (File.took_openPath _) fun retried => ?_
        cases retried <;> exact .pure fun _ => id
    · exact .pure fun _ => id

theorem took_openPath (path : Bytes) :
    Ensures (Took held start) (openPath path) fun opened =>
      Took ((opened.map fun object => Held.file object.file).toOption.toList ++ held) start := by
  refine .bind (took_openTrimmed path) fun opened => ?_
  cases opened with
  | error error => exact .pure fun _ => id
  | ok file =>
    have read : Ensures (Took (.file file :: held) start) (ofFile file) fun object after =>
        Took (.file file :: held) start after ∧ ∀ found, object = .ok found → found.file = file :=
      fun m took object returned =>
        ⟨Took.ensures (within_ofFile (Took.kept_reads _)) m took object returned,
          fun found ok => ofFile_file (ok ▸ returned)⟩
    refine .bind read fun object => ?_
    cases object with
    | ok object =>
      refine .pure fun m took => ?_
      obtain ⟨took, same⟩ := took
      have same := same object rfl
      subst same
      exact took
    | error error =>
      change Ensures _ (do file.close; return Except.error error) _
      refine .bind ((File.took_close file).mono (fun m took => took.1) fun _ _ => id) fun _ => ?_
      exact .pure fun m => id

end Elf.Object

namespace Image

variable {page : PageSize} {span : Span} {descriptor : UInt32} {loadBias : UInt64}

end Image

namespace Loader

end Loader

/-- Each block is asked for when exactly what is noted with it is held, besides `held`. -/
def Covers (start : Machine) (held : List Held) (needs : List Need) : Prop :=
  ∀ need ∈ needs, Took (need.held ++ held) start need.reached

namespace Covers

variable {m : Machine} {early late : List Need}

theorem nil : Covers start held [] := fun _ member => nomatch member

theorem cons {size align : Nat} (took : Took held start m) (rest : Covers start held late) :
    Covers start held (⟨size, align, m, []⟩ :: late) := by
  intro need member
  rcases List.mem_cons.mp member with rfl | member
  · exact took
  · exact rest need member

theorem append (first : Covers start held early) (rest : Covers start held late) :
    Covers start held (early ++ late) :=
  fun need member => (List.mem_append.mp member).elim (first need) (rest need)

theorem afterwards {program : Program α} {needs : α → Machine → List Need}
    {takes : α → Machine → Prop} (took : Took held start m)
    (ensures : Ensures (Took held start) program takes)
    (rest : ∀ value n, takes value n → Covers start held (needs value n)) :
    Covers start held (Program.afterwards program needs m) := by
  have reaches := ensures m took
  unfold Program.afterwards
  unfold Program.value? Program.last at reaches
  split
  · next value n returned =>
    rw [returned] at reaches
    exact rest value n (reaches value rfl)
  · exact nil

end Covers

namespace Elf.Object

variable {m : Machine}

end Elf.Object

namespace LibraryPath

variable {m : Machine}

end LibraryPath

namespace Loader

variable {m : Machine}

end Loader

end ElfRelay
