import ElfRelay.Proofs.Loader.Handover
/-! The path a run opens the interpreter by, and the path it asks the system to
execute. The second is always the one that was configured; the first is another when
only the path without its final newline names a file. -/
namespace ElfRelay

open Elf (Object)

def Event.opening? : Event → Option (Bytes × Except Errno UInt64)
  | .openat path result => some (path, Errno.ofResult result)
  | _ => none

def Kernel.openings (k : Kernel) : List (Bytes × Except Errno UInt64) :=
  k.trace.filterMap Event.opening?

namespace Machine

def KeepsOpenings (before after : Machine) : Prop :=
  after.kernel.openings = before.kernel.openings

instance : IsPreorder Machine KeepsOpenings where
  refl _ := rfl
  trans _ _ _ first second := second.trans first

theorem KeepsOpenings.record {before after : Machine} {event : Event}
    (history : after.kernel.history = event :: before.kernel.history)
    (other : event.opening? = none) : KeepsOpenings before after := by
  simp [KeepsOpenings, Kernel.openings, Kernel.trace, history, other]

theorem KeepsOpenings.maps : KeptByMaps KeepsOpenings where
  answered _ _ _ := rfl
  write m descriptor data := .record (m.kernel.history_write descriptor data) rfl
  heap _ _ _ := rfl
  memory _ _ := rfl
  mmap m request := .record (m.mmap_history request) rfl
  munmap _ _ := .record rfl rfl

theorem KeepsOpenings.reads (descriptor : UInt32) : KeptByReads KeepsOpenings descriptor where
  toKeptByOutput := KeepsOpenings.maps.toKeptByOutput
  pread _ _ _ := .record rfl rfl
  heap := KeepsOpenings.maps.heap

end Machine

open Machine (KeepsOpenings)
open Program (Within)

namespace File

variable {m : Machine}

theorem openings_close (file : File) : Within KeepsOpenings file.close :=
  .bind (fun m => .record (m.kernel.history_close file.descriptor) rfl) fun _ => .pure ()

theorem openPath_spec (path : Bytes) (m : Machine) :
    ∃ answer : Except Errno UInt64,
      (openPath path).value? m = some (answer.map fun descriptor => ⟨descriptor.toUInt32⟩) ∧
      ((openPath path).last m).kernel.openings = m.kernel.openings ++ [(path, answer)] := by
  refine ⟨Errno.ofResult (Kernel.openat path m.kernel).1, rfl, ?_⟩
  have history : ((openPath path).last m).kernel.history = _ := m.kernel.history_openat path
  simp [Kernel.openings, Kernel.trace, history, Event.opening?]

end File

namespace Elf.Object

/-- The tries by which a path is opened, and the path and the descriptor that are
opened in the end: the path itself, or, if nothing has this name, the path without
its newline. -/
inductive Opens (path : Bytes) : List (Bytes × Except Errno UInt64) → Bytes → UInt64 → Prop
  | exactly {descriptor : UInt64} : Opens path [(path, .ok descriptor)] path descriptor
  | trimmed {descriptor : UInt64} (ends : path.getLast? = some newline) :
    Opens path [(path, .error Errno.noSuchFile), (path.dropLast, .ok descriptor)] path.dropLast
      descriptor

variable {path opened : Bytes} {descriptor : UInt64} {m : Machine} {file : File}
  {tries : List (Bytes × Except Errno UInt64)}

theorem Opens.eq_iff (opens : Opens path tries opened descriptor) :
    opened = path ↔ tries = [(path, .ok descriptor)] := by
  cases opens with
  | exactly => simp
  | trimmed ends =>
    have shorter : path.dropLast ≠ path := by
      intro same
      have length := congrArg List.length same
      rw [List.length_dropLast] at length
      cases path with
      | nil => contradiction
      | cons first rest => simp at length
    simp [shorter]

theorem openTrimmed_opens (succeeds : (openTrimmed path).value? m = some (.ok file)) :
    ∃ tries opened descriptor, Opens path tries opened descriptor ∧
      file.descriptor = descriptor.toUInt32 ∧
      ((openTrimmed path).last m).kernel.openings = m.kernel.openings ++ tries := by
  rw [openTrimmed] at succeeds ⊢
  obtain ⟨answer, found, recorded⟩ := File.openPath_spec path m
  obtain ⟨_, first, succeeds⟩ := Program.value?_bind_eq_some.mp succeeds
  rw [Program.last_bind_of_value _ first]
  cases found.symm.trans first
  cases answer with
  | ok descriptor =>
    cases succeeds
    exact ⟨_, _, descriptor, .exactly, rfl, recorded⟩
  | error errno =>
    dsimp only [Except.map] at succeeds ⊢
    split at succeeds
    -- The path has no file, so it is tried again without its newline.
    · next missing =>
      obtain ⟨rfl, ends⟩ := missing
      obtain ⟨room, reserved, succeeds⟩ := Program.value?_bind_eq_some.mp succeeds
      rw [if_pos ⟨rfl, ends⟩, Program.last_bind_of_value _ reserved]
      have same := Program.within_reserve KeepsOpenings.maps.heap (path.dropLast.length + 1)
        (by decide : 0 < 1) ((File.openPath path).last m)
      cases room with
      | none => cases succeeds
      | some address =>
        obtain ⟨answer, found, retried⟩ := File.openPath_spec path.dropLast
          ((Program.reserve (path.dropLast.length + 1) 1).last ((File.openPath path).last m))
        obtain ⟨_, second, succeeds⟩ := Program.value?_bind_eq_some.mp succeeds
        dsimp only
        rw [Program.last_bind_of_value _ second]
        cases found.symm.trans second
        cases answer with
        | error errno => cases succeeds
        | ok descriptor =>
          cases succeeds
          refine ⟨_, _, descriptor, .trimmed ends, rfl, ?_⟩
          rw [Program.last_pure, retried, same, recorded, List.append_assoc]
          rfl
    · cases succeeds

/-- An object is read from the file that was opened, and no other is opened meanwhile. -/
theorem openPath_opens {object : Object}
    (succeeds : (openPath path).value? m = some (.ok object)) :
    ∃ tries opened descriptor, Opens path tries opened descriptor ∧
      object.file.descriptor = descriptor.toUInt32 ∧
      ((openPath path).last m).kernel.openings = m.kernel.openings ++ tries := by
  obtain ⟨outcome, found, succeeds⟩ := Program.value?_bind_eq_some.mp succeeds
  rw [openPath, Program.last_bind_of_value _ found]
  cases outcome with
  | error error => cases succeeds
  | ok file =>
    obtain ⟨tries, opened, descriptor, opens, named, recorded⟩ := openTrimmed_opens found
    obtain ⟨parsed, read, succeeds⟩ := Program.value?_bind_eq_some.mp succeeds
    have same := within_ofFile (KeepsOpenings.reads file.descriptor)
      ((openTrimmed path).last m)
    dsimp only
    rw [Program.last_bind_of_value _ read]
    cases parsed with
    | error error =>
      obtain ⟨_, _, succeeds⟩ := Program.value?_bind_eq_some.mp succeeds
      cases succeeds
    | ok parsed =>
      cases succeeds
      refine ⟨tries, opened, descriptor, opens, ?_, same.trans recorded⟩
      rw [ofFile_file read, named]

end Elf.Object

namespace Loader

variable {process : StartupView} {configuration : Configuration} {m : Machine}

/-- The file that a run maps is the one that it has opened. -/
theorem fetch_opens {image : Image} (fetched : (fetch configuration).value? m = some (.ok image)) :
    ∃ tries opened descriptor object,
      Object.Opens configuration.interpreter.value tries opened descriptor ∧
      object.file.descriptor = descriptor.toUInt32 ∧
      (Object.openPath configuration.interpreter.value).value?
        ((announce configuration).last m) = some (.ok object) ∧
      (Image.build object configuration.pageSize).value?
        ((Object.openPath configuration.interpreter.value).last
          ((announce configuration).last m)) = some (.ok image) ∧
      ((fetch configuration).last m).kernel.openings = m.kernel.openings ++ tries := by
  obtain ⟨object, found, built, last⟩ := fetch_succeeds fetched
  obtain ⟨tries, opened, descriptor, opens, named, recorded⟩ := Object.openPath_opens found
  refine ⟨tries, opened, descriptor, object, opens, named, found, built, ?_⟩
  have announces := within_announce KeepsOpenings.maps.toKeptByOutput (fun _ _ => rfl)
    configuration m
  have builds := Image.within_build KeepsOpenings.maps object configuration.pageSize
    ((Object.openPath configuration.interpreter.value).last ((announce configuration).last m))
  have closes := File.openings_close object.file ((Image.build object configuration.pageSize).last
    ((Object.openPath configuration.interpreter.value).last ((announce configuration).last m)))
  rw [last, closes, builds, recorded, announces]

/-- Carrying out an execution asks the system to execute the path that is carried. -/
theorem carryOut_execute (interpreter arguments environment : UInt64) (m : Machine) :
    ∃ result, ((Handover.execute interpreter arguments environment).carryOut.last m).kernel.trace =
      m.kernel.trace ++ [.execve (m.memory.string interpreter) (m.memory.strings arguments)
        (m.memory.strings environment) result] := by
  refine ⟨(Kernel.execve (m.memory.string interpreter) (m.memory.strings arguments)
    (m.memory.strings environment) m.kernel).1, ?_⟩
  have last : (Handover.execute interpreter arguments environment).carryOut.last m =
      { m with kernel := (Kernel.execve (m.memory.string interpreter) (m.memory.strings arguments)
        (m.memory.strings environment) m.kernel).2 } := by
    simp only [Handover.carryOut, Program.last_bind, Program.value?_inspect, Program.last_inspect,
      Program.value?_callKernel, Program.last_callKernel]
    split <;> rfl
  rw [last]
  simp [Kernel.trace, Kernel.execve, Kernel.record, Kernel.answered]

/-- A run that ends in an execution carries the path that was configured, and this is
the path of the file that was checked exactly when it was opened at the first try. -/
theorem load_executes {stackPointer interpreter arguments environment : UInt64}
    (returned : (load (.read m.memory stackPointer)).value? m =
      some (.ok (.execute interpreter arguments environment)))
    (sheltered : Sheltered m stackPointer) :
    let after := (load (.read m.memory stackPointer)).last m
    let handover := Handover.execute interpreter arguments environment
    ∃ configuration tries opened descriptor object image,
      Configuration.read m.memory (.read m.memory stackPointer) = .ok configuration ∧
      Object.Opens configuration.interpreter.value tries opened descriptor ∧
      after.kernel.openings = m.kernel.openings ++ tries ∧
      object.file.descriptor = descriptor.toUInt32 ∧
      (Object.openPath configuration.interpreter.value).value?
        ((announce configuration).last m) = some (.ok object) ∧
      (Image.build object configuration.pageSize).value?
        ((Object.openPath configuration.interpreter.value).last
          ((announce configuration).last m)) = some (.ok image) ∧
      handover.interpreterPath after.memory = some configuration.interpreter.value ∧
      (∃ result, (handover.carryOut.last after).kernel.trace = after.kernel.trace ++
        [.execve configuration.interpreter.value (after.memory.strings arguments)
          (after.memory.strings environment) result]) ∧
      (handover.interpreterPath after.memory = some opened ↔
        tries = [(configuration.interpreter.value, .ok descriptor)]) := by
  obtain ⟨configuration, image, slot, configured, fetched, last, different, framed, chosen⟩ :=
    load_kept returned sheltered
  obtain ⟨tries, opened, descriptor, object, opens, named, found, built, recorded⟩ :=
    fetch_opens fetched
  have settles := within_settle KeepsOpenings.maps (.read m.memory stackPointer) configuration
    image ((fetch configuration).last m)
  rw [← last] at settles
  have carried : ((load (.read m.memory stackPointer)).last m).memory.string interpreter =
      configuration.interpreter.value := by
    obtain ⟨_, same, _⟩ | ⟨_, other, _⟩ := chosen
    · cases same
      exact framed.string_valueAddress sheltered.unaliased
        (Configuration.sound_of_read configured).interpreter.1 different
    · cases other
  obtain ⟨result, executed⟩ := carryOut_execute interpreter arguments environment
    ((load (.read m.memory stackPointer)).last m)
  rw [carried] at executed
  refine ⟨configuration, tries, opened, descriptor, object, image, configured, opens,
    settles.trans recorded, named, found, built, congrArg some carried, ⟨result, executed⟩, ?_⟩
  rw [Handover.interpreterPath, carried, Option.some.injEq, eq_comm]
  exact opens.eq_iff

theorem load_executes_direct :
    let process := StartupView.read directMachine.memory 0x10100000
    let handover := Handover.execute 0x10101009 0x10100008 0x10100018
    let after := (load process).last directMachine
    (load process).value? directMachine = some (.ok handover) ∧
      ∃ configuration tries opened descriptor,
        Configuration.read directMachine.memory process = .ok configuration ∧
        Object.Opens configuration.interpreter.value tries opened descriptor ∧
        after.kernel.openings = tries ∧
        handover.interpreterPath after.memory = some configuration.interpreter.value ∧
        (handover.interpreterPath after.memory = some opened ↔
          tries = [(configuration.interpreter.value, .ok descriptor)]) := by
  have returned : (load (.read directMachine.memory 0x10100000)).value? directMachine =
      some (.ok (.execute 0x10101009 0x10100008 0x10100018)) := by decide +kernel
  have used : ((load (.read directMachine.memory 0x10100000)).last directMachine).heap.used = 60 := by
    decide +kernel
  have fits : directBlock.FitsAt 0x10100000 0x10101000 := by decide
  have lies : directBlock.LiesIn directMachine.memory 0x10100000 0x10101000 :=
    StartupBlock.liesIn_place fits .zero
  have sheltered : Sheltered directMachine 0x10100000 := by
    refine .of_liesIn lies (fun _ member => nomatch member) (by decide) (by decide +kernel)
      (by decide) ?_ ?_
    · rw [used]
      decide
    · rw [used]
      decide
  obtain ⟨configuration, tries, opened, descriptor, _, _, configured, opens, recorded, _, _, _,
    carried, _, same⟩ := load_executes returned sheltered
  exact ⟨returned, configuration, tries, opened, descriptor, configured, opens, recorded, carried, same⟩

/-- The path that is carried need not be the path of the file that was opened: where the
path without its final newline was opened, the newline is still carried. -/
theorem load_executes_unopened :
    ¬ ∀ (m : Machine) (stackPointer interpreter arguments environment : UInt64) (opened : Bytes)
        (descriptor : UInt64),
      (load (.read m.memory stackPointer)).value? m =
        some (.ok (.execute interpreter arguments environment)) →
      m.kernel.openings = [] →
      (opened, .ok descriptor) ∈ ((load (.read m.memory stackPointer)).last m).kernel.openings →
      (Handover.execute interpreter arguments environment).interpreterPath
        ((load (.read m.memory stackPointer)).last m).memory = some opened := by
  intro same
  have carried := same directMachine 0x10100000 0x10101009 0x10100008 0x10100018 (ascii "/ld") 3
    (by decide +kernel) rfl (by decide +kernel)
  exact absurd carried (by decide +kernel)

end Loader
end ElfRelay
