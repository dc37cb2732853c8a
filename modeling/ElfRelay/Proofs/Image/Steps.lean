import ElfRelay.Proofs.Image.Placement
/-! Building an image as a sequence of steps. After the reservation nothing
happens but these steps, in an order read off the segments alone, up to the
first mapping call that fails. -/
namespace ElfRelay

open Elf (Header ProgramHeader Object)

namespace Region

@[simp] theorem value?_ofFile (length protection : UInt64) (descriptor : UInt32) (offset : UInt64)
    (m : Machine) : (ofFile length protection descriptor offset).value? m =
      some ((Errno.ofResult (m.mmap (.anywhere length protection descriptor offset)).1).map
        fun address => ⟨address, length⟩) := rfl

@[simp] theorem value?_replaceRange (address length protection : UInt64)
    (descriptor : Option UInt32) (offset : UInt64) (m : Machine) :
    (replaceRange address length protection descriptor offset).value? m =
      some ((Errno.ofResult (m.mmap (.inPlace address length protection descriptor offset)).1).map
        fun _ => ()) := rfl

end Region

theorem Region.replaceRange_succeeds {address length protection : UInt64}
    {descriptor : Option UInt32} {offset : UInt64} {m : Machine}
    (succeeds : Program.value? (do
      let outcome ← replaceRange address length protection descriptor offset
      return outcome.mapError LoadError.cannotMap) m = some (.ok ())) :
    ∃ place, Errno.ofResult
      (m.mmap (.inPlace address length protection descriptor offset)).1 = .ok place := by
  obtain ⟨outcome, answered, passed⟩ := Program.value?_bind_eq_some.mp succeeds
  rw [value?_replaceRange, Option.some.injEq] at answered
  subst answered
  cases result : Errno.ofResult (m.mmap _).1 with
  | error errno => rw [result] at passed; cases passed
  | ok place => exact ⟨place, rfl⟩

namespace Image

def reserveRequest (page : PageSize) (descriptor : UInt32) (span : Span)
    (segment : ProgramHeader) : MapRequest :=
  .anywhere (span.footprint page) segment.protection descriptor (page.floor segment.offset)

def overlayRequest (page : PageSize) (descriptor : UInt32) (loadBias : UInt64)
    (segment : ProgramHeader) : MapRequest :=
  .inPlace (loadBias + page.floor segment.vaddr)
    (page.ceil segment.memoryEnd - page.floor segment.vaddr) segment.protection (some descriptor)
    (page.floor segment.offset)

def emptyRequest (page : PageSize) (loadBias : UInt64) (segment : ProgramHeader) : MapRequest :=
  .inPlace (page.ceil (loadBias + segment.fileEnd))
    (loadBias + page.ceil segment.memoryEnd - page.ceil (loadBias + segment.fileEnd))
    segment.protection none 0

inductive Step
  | overlay (segment : ProgramHeader)
  | report (segment : ProgramHeader)
  | clear (segment : ProgramHeader)
  | extend (segment : ProgramHeader)
  deriving DecidableEq, Repr

def Step.perform (page : PageSize) (descriptor : UInt32) (loadBias : UInt64) :
    Step → Program (Except LoadError Unit)
  | overlay segment => overlaySegment page descriptor loadBias segment
  | report segment => do Image.report loadBias segment; return .ok ()
  | clear segment => do clearTail page loadBias segment; return .ok ()
  | extend segment => mapEmpty page loadBias segment

def performAll (page : PageSize) (descriptor : UInt32) (loadBias : UInt64) :
    List Step → Program (Except LoadError Unit)
  | [] => pure (.ok ())
  | step :: steps =>
    (step.perform page descriptor loadBias).andThen (performAll page descriptor loadBias steps)

def finishSteps (segment : ProgramHeader) : List Step :=
  .report segment :: if segment.hasZeroFill then [.clear segment, .extend segment] else []

/-- The steps that fill a reservation; the first segment is mapped by it. -/
def steps : List ProgramHeader → List Step
  | [] => []
  | first :: later =>
    finishSteps first ++ later.flatMap fun segment => .overlay segment :: finishSteps segment

/-- Whether a step is for one of some segments; memory is cleared only where it has to be zero. -/
def Step.Serves (segments : List ProgramHeader) : Step → Prop
  | overlay segment => segment ∈ segments
  | report segment => segment ∈ segments
  | clear segment => segment ∈ segments ∧ segment.hasZeroFill = true
  | extend segment => segment ∈ segments ∧ segment.hasZeroFill = true

theorem serves_of_mem_finishSteps {segments : List ProgramHeader} {segment : ProgramHeader}
    {step : Step} (listed : segment ∈ segments) (member : step ∈ finishSteps segment) :
    step.Serves segments := by
  rw [finishSteps] at member
  rcases List.mem_cons.mp member with rfl | member
  · exact listed
  · split at member
    · next zeroFill =>
      rcases List.mem_pair.mp member with rfl | rfl
      · exact ⟨listed, zeroFill⟩
      · exact ⟨listed, zeroFill⟩
    · nomatch member

theorem serves_of_mem_steps {segments : List ProgramHeader} {step : Step}
    (member : step ∈ steps segments) : step.Serves segments := by
  cases segments with
  | nil => nomatch member
  | cons first later =>
    rcases List.mem_append.mp member with early | late
    · exact serves_of_mem_finishSteps List.mem_cons_self early
    · obtain ⟨segment, listed, member⟩ := List.mem_flatMap.mp late
      have listed : segment ∈ first :: later := List.mem_cons_of_mem first listed
      rcases List.mem_cons.mp member with rfl | member
      · exact listed
      · exact serves_of_mem_finishSteps listed member

variable (page : PageSize) (descriptor : UInt32) (loadBias : UInt64)

theorem performAll_append (done rest : List Step) :
    performAll page descriptor loadBias (done ++ rest) =
      (performAll page descriptor loadBias done).andThen
        (performAll page descriptor loadBias rest) := by
  induction done with
  | nil => exact (Program.done_andThen _).symm
  | cons step done ih =>
    rw [List.cons_append, performAll, performAll, ih, Program.andThen_assoc]

theorem finishSegment_eq (segment : ProgramHeader) : finishSegment page loadBias segment =
    performAll page descriptor loadBias (finishSteps segment) := by
  rw [finishSegment, finishSteps]
  by_cases zeroFill : segment.hasZeroFill = true
  · simp only [zeroFill, if_true, performAll, Step.perform, Program.andThen_done]
    rw [Program.unit_andThen, Program.unit_andThen]
  · simp only [zeroFill, performAll, Step.perform]
    rw [Program.unit_andThen]
    rfl

theorem mapRest_eq (later : List ProgramHeader) : mapRest page descriptor loadBias later =
    performAll page descriptor loadBias
      (later.flatMap fun segment => .overlay segment :: finishSteps segment) := by
  induction later with
  | nil => rfl
  | cons segment later ih =>
    rw [List.flatMap_cons, performAll_append, performAll, ← ih,
      ← finishSegment_eq page descriptor loadBias segment, Program.andThen_assoc, mapRest,
      Program.andThen]
    congr 1
    funext overlaid
    cases overlaid with
    | error error => rfl
    | ok =>
      dsimp only
      rw [Program.andThen]
      congr 1
      funext finished
      cases finished <;> rfl

theorem fillIn_eq (first : ProgramHeader) (later : List ProgramHeader) :
    fillIn page descriptor loadBias first later =
      performAll page descriptor loadBias (steps (first :: later)) := by
  rw [steps, performAll_append, ← mapRest_eq, ← finishSegment_eq page descriptor loadBias first,
    fillIn, Program.andThen]
  congr 1
  funext outcome
  cases outcome <;> rfl

variable {page descriptor loadBias} {segment : ProgramHeader} {m : Machine}

theorem last_overlay : ((Step.overlay segment).perform page descriptor loadBias).last m =
    (m.mmap (overlayRequest page descriptor loadBias segment)).2 := rfl

theorem overlay_succeeds
    (succeeds : ((Step.overlay segment).perform page descriptor loadBias).value? m =
      some (.ok ())) :
    ∃ place, Errno.ofResult (m.mmap (overlayRequest page descriptor loadBias segment)).1 =
      .ok place :=
  Region.replaceRange_succeeds succeeds

theorem wrote_report :
    Program.Within Machine.Wrote ((Step.report segment).perform page descriptor loadBias) :=
  .bind (Program.wrote_log _ _) fun _ => .pure _

theorem last_clear : ((Step.clear segment).perform page descriptor loadBias).last m =
    let tail := tail page loadBias segment
    { m with memory := m.memory.fill tail.address 0 tail.length.toNat } := rfl

theorem last_extend : ((Step.extend segment).perform page descriptor loadBias).last m =
    if page.ceil (loadBias + segment.fileEnd) < loadBias + page.ceil segment.memoryEnd then
      (m.mmap (emptyRequest page loadBias segment)).2
    else m := by
  rw [Step.perform, mapEmpty]
  split <;> rfl

theorem extend_succeeds
    (before : page.ceil (loadBias + segment.fileEnd) < loadBias + page.ceil segment.memoryEnd)
    (succeeds : ((Step.extend segment).perform page descriptor loadBias).value? m =
      some (.ok ())) :
    ∃ place, Errno.ofResult (m.mmap (emptyRequest page loadBias segment)).1 = .ok place := by
  rw [Step.perform, mapEmpty] at succeeds
  rw [if_pos before] at succeeds
  exact Region.replaceRange_succeeds succeeds

@[simp] theorem last_performAll_nil : (performAll page descriptor loadBias []).last m = m := rfl

theorem performAll_succeeds {step : Step} {rest : List Step}
    (succeeds : (performAll page descriptor loadBias (step :: rest)).value? m = some (.ok ())) :
    (step.perform page descriptor loadBias).value? m = some (.ok ()) ∧
      (performAll page descriptor loadBias rest).value?
        ((step.perform page descriptor loadBias).last m) = some (.ok ()) ∧
      (performAll page descriptor loadBias (step :: rest)).last m =
        (performAll page descriptor loadBias rest).last
          ((step.perform page descriptor loadBias).last m) :=
  Program.andThen_succeeds succeeds

theorem performAll_append_succeeds {done rest : List Step}
    (succeeds : (performAll page descriptor loadBias (done ++ rest)).value? m = some (.ok ())) :
    (performAll page descriptor loadBias done).value? m = some (.ok ()) ∧
      (performAll page descriptor loadBias rest).value?
        ((performAll page descriptor loadBias done).last m) = some (.ok ()) ∧
      (performAll page descriptor loadBias (done ++ rest)).last m =
        (performAll page descriptor loadBias rest).last
          ((performAll page descriptor loadBias done).last m) := by
  rw [performAll_append] at succeeds ⊢
  exact Program.andThen_succeeds succeeds

/-- A relation that every step among some keeps is kept by performing them. -/
theorem within_performAll {step : Machine → Machine → Prop} [IsPreorder Machine step]
    {list : List Step}
    (each : ∀ one ∈ list, Program.Within step (one.perform page descriptor loadBias)) :
    Program.Within step (performAll page descriptor loadBias list) := by
  induction list with
  | nil => exact .pure _
  | cons one rest ih =>
    refine .andThen (each one List.mem_cons_self) (ih fun other member => ?_)
    exact each other (List.mem_cons_of_mem one member)

variable {span : Span}

theorem last_anchor : (anchor page descriptor span segment).last m =
    if segment.vaddr ≠ span.low then m
    else (m.mmap (reserveRequest page descriptor span segment)).2 := by
  rw [anchor]
  split
  · rfl
  · rw [Program.last_bind, Region.value?_ofFile, reserveRequest]
    cases Errno.ofResult (m.mmap _).1 <;> rfl

theorem value?_anchor : (anchor page descriptor span segment).value? m = some (
    if segment.vaddr ≠ span.low then .error .segmentOrder
    else
      match Errno.ofResult (m.mmap (reserveRequest page descriptor span segment)).1 with
      | .error errno => .error (.cannotMap errno)
      | .ok address =>
        .ok ⟨⟨address, span.footprint page⟩, address - page.floor segment.vaddr⟩) := by
  rw [anchor]
  split
  · rfl
  · rw [Program.value?_bind, Region.value?_ofFile, reserveRequest]
    cases Errno.ofResult (m.mmap _).1 <;> rfl

theorem anchor_succeeds {anchor : Anchor}
    (succeeds : (Image.anchor page descriptor span segment).value? m = some (.ok anchor)) :
    segment.vaddr = span.low ∧ anchor.region.length = span.footprint page ∧
      anchor.loadBias = anchor.region.address - page.floor span.low ∧
      Errno.ofResult (m.mmap (reserveRequest page descriptor span segment)).1 =
        .ok anchor.region.address := by
  rw [value?_anchor, Option.some.injEq] at succeeds
  split at succeeds
  · contradiction
  · next same =>
    have same : segment.vaddr = span.low := Decidable.not_not.mp same
    cases result : Errno.ofResult (m.mmap _).1 with
    | error errno => rw [result] at succeeds; cases succeeds
    | ok address =>
      rw [result] at succeeds
      cases succeeds
      exact ⟨same, rfl, by rw [same], rfl⟩

/-- A run that builds an image has made its reservation, and left a machine behind. -/
inductive Reserves (object : Object) (page : PageSize) (m : Machine) : Anchor → Machine → Prop
  | intro {span : Span} {first : ProgramHeader} {later : List ProgramHeader} {anchor : Anchor}
    (spanned : Span.of object.programHeaders = .ok span)
    (segments : object.segments = first :: later)
    (reported : (reportSpan span).value? m = some ())
    (anchored : (Image.anchor page object.file.descriptor span first).value?
      ((reportSpan span).last m) = some (.ok anchor)) :
    Reserves object page m anchor
      ((Image.anchor page object.file.descriptor span first).last ((reportSpan span).last m))

theorem wrote_reportSpan : Program.Within Machine.Wrote (reportSpan span) :=
  Program.wrote_log _ _

variable {object : Object} {anchor other : Anchor} {made after : Machine}

theorem Reserves.unique (one : Reserves object page m anchor made)
    (two : Reserves object page m other after) : anchor = other ∧ made = after := by
  obtain ⟨spanned, segments, reported, anchored⟩ := one
  obtain ⟨spanned', segments', reported', anchored'⟩ := two
  rw [spanned] at spanned'
  cases spanned'
  rw [segments] at segments'
  cases segments'
  rw [anchored] at anchored'
  cases anchored'
  exact ⟨rfl, rfl⟩

/-- A reservation is one mapping of the first segment, the lowest, over the whole span. -/
theorem Reserves.mapped (reserved : Reserves object page m anchor made) :
    ∃ span first later before, Span.of object.programHeaders = .ok span ∧
      object.segments = first :: later ∧ first.vaddr = span.low ∧
      anchor.region.length = span.footprint page ∧
      anchor.loadBias = anchor.region.address - page.floor span.low ∧
      Machine.Wrote m before ∧
      Errno.ofResult (before.mmap (reserveRequest page object.file.descriptor span first)).1 =
        .ok anchor.region.address ∧
      made = (before.mmap (reserveRequest page object.file.descriptor span first)).2 := by
  obtain ⟨spanned, segments, reported, anchored⟩ := reserved
  obtain ⟨lowest, length, bias, success⟩ := anchor_succeeds anchored
  refine ⟨_, _, _, _, spanned, segments, lowest, length, bias, wrote_reportSpan m, success, ?_⟩
  rw [last_anchor, if_neg (Decidable.not_not.mpr lowest)]

theorem complete_succeeds {image : Image} {first : ProgramHeader} {later : List ProgramHeader}
    (succeeds : (complete object page first later anchor).value? m = some (.ok image)) :
    (performAll page object.file.descriptor anchor.loadBias (steps (first :: later))).value? m =
        some (.ok ()) ∧
      image = ⟨anchor.region, anchor.loadBias, anchor.loadBias + object.header.entry⟩ ∧
      Machine.Wrote ((performAll page object.file.descriptor anchor.loadBias
        (steps (first :: later))).last m) ((complete object page first later anchor).last m) := by
  rw [complete, fillIn_eq] at succeeds ⊢
  obtain ⟨filled, outcome, succeeds⟩ := Program.value?_bind_eq_some.mp succeeds
  rw [Program.last_bind_of_value _ outcome]
  cases filled with
  | error error =>
    obtain ⟨_, _, succeeds⟩ := Program.value?_bind_eq_some.mp succeeds
    cases succeeds
  | ok =>
    dsimp only at succeeds ⊢
    obtain ⟨_, reported, succeeds⟩ := Program.value?_bind_eq_some.mp succeeds
    rw [Program.last_bind_of_value _ reported]
    cases succeeds
    exact ⟨outcome, rfl, Program.wrote_log _ _ _⟩

theorem build_succeeds {image : Image} (succeeds : (build object page).value? m = some (.ok image)) :
    ∃ anchor made, Reserves object page m anchor made ∧
      (performAll page object.file.descriptor anchor.loadBias (steps object.segments)).value? made =
        some (.ok ()) ∧
      image = ⟨anchor.region, anchor.loadBias, anchor.loadBias + object.header.entry⟩ ∧
      Machine.Wrote ((performAll page object.file.descriptor anchor.loadBias
        (steps object.segments)).last made) ((build object page).last m) := by
  rw [build] at succeeds ⊢
  cases spanned : Span.of object.programHeaders with
  | error error => rw [spanned] at succeeds; cases succeeds
  | ok span =>
    rw [spanned] at succeeds
    dsimp only at succeeds ⊢
    obtain ⟨⟨⟩, reported, succeeds⟩ := Program.value?_bind_eq_some.mp succeeds
    rw [Program.last_bind_of_value _ reported]
    cases segments : object.segments with
    | nil => rw [segments] at succeeds; cases succeeds
    | cons first later =>
      rw [segments] at succeeds
      dsimp only at succeeds ⊢
      obtain ⟨anchored, outcome, succeeds⟩ := Program.value?_bind_eq_some.mp succeeds
      rw [Program.last_bind_of_value _ outcome]
      cases anchored with
      | error error => cases succeeds
      | ok anchor =>
        refine ⟨anchor, _, .intro spanned segments reported outcome, ?_⟩
        exact complete_succeeds succeeds

/-- An image starts at the page of the lowest segment, and it is entered at the header's
entry point, both shifted by the load bias. -/
theorem build_anchored {image : Image}
    (succeeds : (build object page).value? m = some (.ok image)) :
    image.entryPoint = image.loadBias + object.header.entry ∧
      ∃ first ∈ object.segments, (∀ segment ∈ object.segments, first.vaddr ≤ segment.vaddr) ∧
        image.region.address = image.loadBias + page.floor first.vaddr := by
  obtain ⟨anchor, made, reserved, _, rfl, _⟩ := build_succeeds succeeds
  obtain ⟨span, first, later, _, spanned, segments, lowest, _, bias, _⟩ := reserved.mapped
  obtain ⟨_, held⟩ := Span.of_ok spanned
  refine ⟨rfl, first, segments ▸ List.mem_cons_self, fun segment member => ?_, ?_⟩
  · rw [lowest]
    exact (held segment member).low
  · rw [lowest]
    dsimp only
    rw [bias, UInt64.sub_add_cancel]

/-- How far a run gets that builds an image: nothing is mapped, or only the first
segment is tried, or a reservation is filled. -/
theorem build_cases (object : Object) (page : PageSize) (m : Machine) :
    Machine.Wrote m ((build object page).last m) ∨
    ∃ span first later before, Span.of object.programHeaders = .ok span ∧
      object.segments = first :: later ∧ Machine.Wrote m before ∧
      ((build object page).last m =
          (Image.anchor page object.file.descriptor span first).last before ∨
        ∃ anchor, (Image.anchor page object.file.descriptor span first).value? before =
            some (.ok anchor) ∧
          (build object page).last m = (complete object page first later anchor).last
            ((Image.anchor page object.file.descriptor span first).last before)) := by
  rw [build]
  cases spanned : Span.of object.programHeaders with
  | error error => exact .inl (refl_of _ m)
  | ok span =>
    have quiet : Machine.Wrote m ((reportSpan span).last m) := wrote_reportSpan m
    dsimp only
    cases reported : (reportSpan span).value? m with
    | none =>
      rw [Program.last_bind, reported]
      exact .inl quiet
    | some done =>
      rw [Program.last_bind_of_value _ reported]
      cases segments : object.segments with
      | nil => exact .inl quiet
      | cons first later =>
        refine .inr ⟨span, first, later, _, rfl, rfl, quiet, ?_⟩
        rw [Program.last_bind]
        split
        · next anchored value =>
          cases anchored with
          | error error => exact .inl rfl
          | ok anchor => exact .inr ⟨anchor, value, rfl⟩
        · exact .inl rfl

def smallPage : PageSize := ⟨0x1000, by decide⟩

def openMachine (contents : Array UInt8) : Machine where
  memory := .zero
  kernel := { Kernel.initial (fun _ => none) [] ⟨0x10000000, 0x100000⟩ with
    descriptors := [(3, .regular contents)] }
  heap := .empty 0 none
  logFilter := none

def openObject (segments : List ProgramHeader) : Object := ⟨⟨3⟩, Header.decode [], segments⟩

def textSegment : ProgramHeader := ⟨1, 5, 0, 0, 0, 0x10, 0x10, 0x1000⟩

def dataSegment : ProgramHeader := ⟨1, 6, 0x8, 0x1008, 0, 0x10, 0x2000, 0x1000⟩

end Image
end ElfRelay
