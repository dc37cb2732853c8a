import ElfRelay.Proofs.Elf.Opening
import ElfRelay.Proofs.Image.Steps
/-! Two runs side by side. Programs mirror each other if on related machines they come to
the same result, and to related machines again. For a program that consists of the same
parts on both sides this follows from its parts. -/
namespace ElfRelay

open Elf (ProgramHeader Object Header)

namespace Program

/-- What two runs side by side have in common: how their machines are related, and the ways
in which they may both end. -/
structure Bond where
  related : Machine → Machine → Prop
  mayEnd : Ending → Prop

inductive Alike (bond : Bond) :
    EStateM.Result Ending Machine α → EStateM.Result Ending Machine α → Prop
  | returned {value : α} {m n : Machine} (reached : bond.related m n) :
    Alike bond (.ok value m) (.ok value n)
  | ended {ending : Ending} {m n : Machine} (may : bond.mayEnd ending) (reached : bond.related m n) :
    Alike bond (.error ending m) (.error ending n)

theorem Alike.cases {bond : Bond} {program other : Program α} {m n : Machine}
    (alike : Alike bond (program m) (other n)) : bond.related (program.last m) (other.last n) ∧
      ((∃ value, program m = .ok value (program.last m) ∧ other n = .ok value (other.last n)) ∨
        ∃ ending, bond.mayEnd ending ∧ program m = .error ending (program.last m) ∧
          other n = .error ending (other.last n)) := by
  unfold last
  generalize program m = one at alike ⊢
  generalize other n = two at alike ⊢
  cases alike with
  | returned reached => exact ⟨reached, .inl ⟨_, rfl, rfl⟩⟩
  | ended may reached => exact ⟨reached, .inr ⟨_, may, rfl, rfl⟩⟩

theorem Alike.bind {bond : Bond} {program other : Program α} {next after : α → Program β}
    {m n : Machine} (alike : Alike bond (program m) (other n))
    (rest : ∀ value, bond.related (program.last m) (other.last n) →
      Alike bond (next value (program.last m)) (after value (other.last n))) :
    Alike bond ((program >>= next) m) ((other >>= after) n) := by
  obtain ⟨reached, ⟨value, one, two⟩ | ⟨ending, may, one, two⟩⟩ := alike.cases
  · rw [run_bind_ok one, run_bind_ok two]
    exact rest value reached
  · rw [run_bind_error one, run_bind_error two]
    exact .ended may reached

def Mirrors (bond : Bond) (program other : Program α) : Prop :=
  ∀ m n, bond.related m n → Alike bond (program m) (other n)

namespace Mirrors

variable {bond : Bond} {program other : Program α} {m n : Machine}

theorem value? (mirrors : Mirrors bond program other) (same : bond.related m n) :
    other.value? n = program.value? m := by
  obtain ⟨_, ⟨_, one, two⟩ | ⟨_, _, one, two⟩⟩ := (mirrors m n same).cases <;>
    rw [Program.value?, Program.value?, one, two]

theorem ending? (mirrors : Mirrors bond program other) (same : bond.related m n) :
    other.ending? n = program.ending? m := by
  obtain ⟨_, ⟨_, one, two⟩ | ⟨_, _, one, two⟩⟩ := (mirrors m n same).cases <;>
    rw [Program.ending?, Program.ending?, one, two]

theorem last (mirrors : Mirrors bond program other) (same : bond.related m n) :
    bond.related (program.last m) (other.last n) :=
  (mirrors m n same).cases.1

theorem pure (value : α) : Mirrors bond (Pure.pure value) (Pure.pure value) :=
  fun _ _ same => .returned same

theorem throw {ending : Ending} (may : bond.mayEnd ending) :
    Mirrors bond (MonadExcept.throw ending : Program α) (MonadExcept.throw ending) :=
  fun _ _ same => .ended may same

theorem bind {next after : α → Program β} (first : Mirrors bond program other)
    (rest : ∀ value, Mirrors bond (next value) (after value)) :
    Mirrors bond (program >>= next) (other >>= after) :=
  fun m n same => (first m n same).bind fun value => rest value _ _

theorem modifyGet {change : Machine → α × Machine}
    (agrees : ∀ m n, bond.related m n →
      (change n).1 = (change m).1 ∧ bond.related (change m).2 (change n).2) :
    Mirrors bond (MonadStateOf.modifyGet change : Program α) (MonadStateOf.modifyGet change) := by
  intro m n same
  obtain ⟨value, reached⟩ := agrees m n same
  change Alike bond (.ok (change m).1 (change m).2) (.ok (change n).1 (change n).2)
  rw [value]
  exact .returned reached

theorem inspect {view : Machine → α} (agrees : ∀ m n, bond.related m n → view n = view m) :
    Mirrors bond (Program.inspect view) (Program.inspect view) := by
  intro m n same
  change Alike bond (.ok (view m) m) (.ok (view n) n)
  rw [agrees m n same]
  exact .returned same

end Mirrors

/-- A bond that every single step of fetching an interpreter keeps. -/
structure Coupled (bond : Bond) : Prop where
  log : ∀ level message, Mirrors bond (log level message) (log level message)
  failRange : ∀ index excess,
    Mirrors bond (failRange index excess : Program Unit) (failRange index excess)
  openPath : ∀ path, Mirrors bond (File.openPath path) (File.openPath path)
  readFully : ∀ (file : File) buffer offset,
    Mirrors bond (file.readFully buffer offset) (file.readFully buffer offset)
  close : ∀ file : File, Mirrors bond file.close file.close
  mmap : ∀ request, Mirrors bond (MonadStateOf.modifyGet (Machine.mmap request) : Program UInt64)
    (MonadStateOf.modifyGet (Machine.mmap request))
  release : ∀ region : Region, Mirrors bond region.release region.release
  changeMemory : ∀ change, Mirrors bond (changeMemory change) (changeMemory change)

end Program

open Program (Bond Mirrors Coupled)

namespace Elf.Object

variable {bond : Bond} {file : File}
  (reads : ∀ buffer offset,
    Mirrors bond (file.readFully buffer offset) (file.readFully buffer offset))
  (reserves : ∀ size {align}, 0 < align →
    Mirrors bond (Program.reserve size align) (Program.reserve size align))
include reads reserves

theorem mirrors_readProgramHeaders (header : Header) :
    Mirrors bond (readProgramHeaders file header) (readProgramHeaders file header) := by
  rw [readProgramHeaders]
  dsimp only
  split
  · exact .pure _
  · refine .bind (reserves _ (by decide)) fun room => ?_
    cases room with
    | none => exact .pure _
    | some _ =>
      refine .bind (reads _ _) fun answer => ?_
      obtain ⟨count, table⟩ := answer
      cases count with
      | error errno => exact .pure _
      | ok count =>
        dsimp only
        split
        · exact .pure _
        · refine .bind ?_ fun room => ?_
          · rw [reserveHeaders]
            split
            · exact reserves _ (by decide)
            · exact .pure _
          · cases room with
            | none => exact .pure _
            | some _ => exact .pure _

theorem mirrors_ofFile (start : Mirrors bond (readHeader file) (readHeader file)) :
    Mirrors bond (ofFile file) (ofFile file) := by
  refine .bind start fun read => ?_
  cases read with
  | error error => exact .pure _
  | ok header => exact .bind (mirrors_readProgramHeaders reads reserves header) fun _ => .pure _

end Elf.Object

variable {bond : Bond} (coupled : Coupled bond)
include coupled

theorem Region.mirrors_ofFile (length protection : UInt64) (descriptor : UInt32) (offset : UInt64) :
    Mirrors bond (ofFile length protection descriptor offset)
      (ofFile length protection descriptor offset) :=
  .bind (coupled.mmap _) fun _ => .pure _

theorem Region.mirrors_replaceRange (address length protection : UInt64)
    (descriptor : Option UInt32) (offset : UInt64) :
    Mirrors bond (replaceRange address length protection descriptor offset)
      (replaceRange address length protection descriptor offset) :=
  .bind (coupled.mmap _) fun _ => .pure _

theorem Elf.Object.mirrors_readHeader (file : File) :
    Mirrors bond (readHeader file) (readHeader file) := by
  refine .bind (coupled.readFully _ _ _) fun answer => ?_
  obtain ⟨count, bytes⟩ := answer
  cases count with
  | error errno => exact .pure _
  | ok count =>
    dsimp only
    split
    · refine .bind (coupled.failRange _ _) fun _ => ?_
      split <;> exact .pure _
    · split <;> exact .pure _

namespace Image

variable {page : PageSize} {span : Span} {descriptor : UInt32} {loadBias : UInt64}

theorem mirrors_perform (one : Step) : Mirrors bond (one.perform page descriptor loadBias)
    (one.perform page descriptor loadBias) := by
  cases one with
  | overlay segment => exact .bind (Region.mirrors_replaceRange coupled _ _ _ _ _) fun _ => .pure _
  | report segment => exact .bind (coupled.log _ _) fun _ => .pure _
  | clear segment =>
    rw [Step.perform, clearTail]
    exact .bind (coupled.changeMemory _) fun _ => .pure _
  | extend segment =>
    rw [Step.perform, mapEmpty]
    split
    · exact .bind (Region.mirrors_replaceRange coupled _ _ _ _ _) fun _ => .pure _
    · exact .pure _

theorem mirrors_performAll (list : List Step) :
    Mirrors bond (performAll page descriptor loadBias list)
      (performAll page descriptor loadBias list) := by
  induction list with
  | nil => exact .pure _
  | cons one rest ih =>
    refine .bind (mirrors_perform coupled one) fun outcome => ?_
    cases outcome with
    | error error => exact .pure _
    | ok => exact ih

theorem mirrors_anchor (segment : ProgramHeader) :
    Mirrors bond (anchor page descriptor span segment) (anchor page descriptor span segment) := by
  rw [anchor]
  split
  · exact .pure _
  · refine .bind (Region.mirrors_ofFile coupled _ _ _ _) fun mapped => ?_
    cases mapped with
    | error errno => exact .pure _
    | ok region => exact .pure _

theorem mirrors_complete (object : Object) (first : ProgramHeader) (later : List ProgramHeader)
    (anchor : Anchor) : Mirrors bond (complete object page first later anchor)
      (complete object page first later anchor) := by
  rw [complete, fillIn_eq]
  refine .bind (mirrors_performAll coupled _) fun outcome => ?_
  cases outcome with
  | error error => exact .bind (coupled.release _) fun _ => .pure _
  | ok => exact .bind (coupled.log _ _) fun _ => .pure _

theorem mirrors_build (object : Object) (page : PageSize) :
    Mirrors bond (build object page) (build object page) := by
  rw [build]
  split
  · exact .pure _
  · refine .bind (coupled.log _ _) fun _ => ?_
    split
    · exact .pure _
    · refine .bind (mirrors_anchor coupled _) fun anchored => ?_
      cases anchored with
      | error error => exact .pure _
      | ok anchor => exact mirrors_complete coupled object _ _ anchor

end Image

namespace Elf.Object

-- A limit to the heap lets some requests fail, so opening a file asks for more than its calls.
variable (reserves : ∀ size {align}, 0 < align →
  Mirrors bond (Program.reserve size align) (Program.reserve size align))
include reserves

theorem mirrors_openTrimmed (path : Bytes) :
    Mirrors bond (openTrimmed path) (openTrimmed path) := by
  refine .bind (coupled.openPath path) fun opened => ?_
  cases opened with
  | ok file => exact .pure _
  | error errno =>
    dsimp only
    split
    · refine .bind (reserves _ (by decide)) fun room => ?_
      cases room with
      | none => exact .pure _
      | some _ => exact .bind (coupled.openPath _) fun _ => .pure _
    · exact .pure _

theorem mirrors_openPath (path : Bytes) : Mirrors bond (openPath path) (openPath path) := by
  refine .bind (mirrors_openTrimmed coupled reserves path) fun opened => ?_
  cases opened with
  | error error => exact .pure _
  | ok file =>
    refine .bind ?_ fun object => ?_
    · exact mirrors_ofFile (coupled.readFully file) reserves (mirrors_readHeader coupled file)
    · split
      · exact .pure _
      · exact .bind (coupled.close file) fun _ => .pure _

end Elf.Object
end ElfRelay
