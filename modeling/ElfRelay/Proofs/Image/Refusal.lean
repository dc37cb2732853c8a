import ElfRelay.Proofs.Elf.Opening
import ElfRelay.Proofs.Image.Calls
/-! Why an image is refused, read off the mapping calls that were made for it. None is
made while the segments are only looked at. From the reservation on every call has
succeeded, up to the one whose error is reported. -/
namespace ElfRelay

open Elf (ProgramHeader Object)
open Program (Within)

def Event.mapping? : Event → Option (MapRequest × UInt64)
  | .mmap request result => some (request, result)
  | _ => none

def Kernel.mappings (k : Kernel) : List (MapRequest × UInt64) := k.trace.filterMap Event.mapping?

theorem Errno.eq_failure_of_error {result : UInt64} {errno : Errno}
    (failed : ofResult result = .error errno) : result = Kernel.failure errno.code.toUInt64 := by
  rw [ofResult] at failed
  split at failed
  · next negative =>
    obtain rfl := Except.error.inj failed
    have high : 0xfffffffffffff001 ≤ result.toNat := UInt64.le_iff_toNat_le.mp negative
    have bound := result.toNat_lt
    have zero : (0 : UInt64).toNat = 0 := rfl
    apply UInt64.toNat.inj
    rw [Kernel.failure, UInt64.toNat_sub, UInt32.toNat_toUInt64, UInt64.toNat_toUInt32,
      UInt64.toNat_sub, zero]
    omega
  · contradiction

namespace Machine

def KeepsMappings (before after : Machine) : Prop :=
  after.kernel.mappings = before.kernel.mappings

instance : IsPreorder Machine KeepsMappings where
  refl _ := rfl
  trans _ _ _ first second := second.trans first

theorem KeepsMappings.record {before after : Machine} {event : Event}
    (history : after.kernel.history = event :: before.kernel.history)
    (other : event.mapping? = none) : KeepsMappings before after := by
  simp [KeepsMappings, Kernel.mappings, Kernel.trace, history, other]

theorem KeepsMappings.edits : KeptByEdits KeepsMappings where
  answered _ _ _ := rfl
  write m descriptor data := .record (m.kernel.history_write descriptor data) rfl
  heap _ _ _ := rfl
  memory _ _ := rfl

theorem KeepsMappings.files : KeptByFiles KeepsMappings where
  reads _ :=
    { toKeptByOutput := KeepsMappings.edits.toKeptByOutput
      pread := fun _ _ _ => .record rfl rfl
      heap := KeepsMappings.edits.heap }
  openat m path := .record (m.kernel.history_openat path) rfl
  close m descriptor := .record (m.kernel.history_close descriptor) rfl

theorem KeepsMappings.release (region : Region) : Within KeepsMappings region.release :=
  .bind (fun _ => .record rfl rfl) fun _ => .pure ()

theorem mappings_mmap (m : Machine) (request : MapRequest) :
    (m.mmap request).2.kernel.mappings = m.kernel.mappings ++ [(request, (m.mmap request).1)] := by
  simp [Kernel.mappings, Kernel.trace, m.mmap_history request, Event.mapping?]

end Machine

open Machine (KeepsMappings)

def AllMapped (calls : List (MapRequest × UInt64)) : Prop :=
  ∀ call ∈ calls, ∃ place, Errno.ofResult call.2 = .ok place

/-- The mapping calls that an outcome comes from: all of them have succeeded, or the
last one has returned the error that is reported. -/
inductive Attempts : List (MapRequest × UInt64) → Except LoadError α → Prop
  | mapped {calls : List (MapRequest × UInt64)} {value : α} (all : AllMapped calls) :
    Attempts calls (.ok value)
  | refused {earlier : List (MapRequest × UInt64)} {request : MapRequest} {errno : Errno}
    (all : AllMapped earlier) :
    Attempts (earlier ++ [(request, Kernel.failure errno.code.toUInt64)])
      (.error (.cannotMap errno))

theorem Attempts.prepend {calls earlier : List (MapRequest × UInt64)}
    {outcome : Except LoadError α} (all : AllMapped earlier) (attempts : Attempts calls outcome) :
    Attempts (earlier ++ calls) outcome := by
  cases attempts with
  | mapped rest => exact .mapped (List.forall_mem_append.mpr ⟨all, rest⟩)
  | refused rest =>
    rw [← List.append_assoc]
    exact .refused (List.forall_mem_append.mpr ⟨all, rest⟩)

theorem Attempts.refused_first (request : MapRequest) (errno : Errno) :
    Attempts [(request, Kernel.failure errno.code.toUInt64)]
      (.error (.cannotMap errno) : Except LoadError α) :=
  @Attempts.refused α [] request errno nofun

theorem Attempts.single (request : MapRequest) (result : UInt64) (use : UInt64 → α) :
    Attempts [(request, result)] (((Errno.ofResult result).map use).mapError .cannotMap) := by
  cases answer : Errno.ofResult result with
  | ok place => exact .mapped (by simpa [AllMapped] using ⟨place, answer⟩)
  | error errno =>
    rw [Errno.eq_failure_of_error answer]
    exact .refused_first request errno

def Program.Attempting (program : Program (Except LoadError α)) : Prop :=
  ∀ m outcome, program.value? m = some outcome → ∃ calls,
    (program.last m).kernel.mappings = m.kernel.mappings ++ calls ∧ Attempts calls outcome

namespace Program

theorem Attempting.pure (value : α) : Attempting (Pure.pure (.ok value)) := by
  rintro m _ ⟨⟩
  exact ⟨[], (List.append_nil _).symm, .mapped nofun⟩

theorem Attempting.after {program : Program Unit} {rest : Program (Except LoadError α)}
    (silent : Within KeepsMappings program) (attempting : Attempting rest) :
    Attempting (do program; rest) := by
  intro m outcome returned
  obtain ⟨_, between, same, _, returned, last⟩ := silent.bind_succeeds returned
  obtain ⟨calls, made, attempts⟩ := attempting between outcome returned
  exact ⟨calls, by rw [last, made, same], attempts⟩

theorem Attempting.andThen {first : Program (Except LoadError Unit)}
    {rest : Program (Except LoadError α)} (head : Attempting first) (tail : Attempting rest) :
    Attempting (first.andThen rest) := by
  intro m outcome returned
  rw [value?_andThen] at returned
  rw [last_andThen]
  rcases done : first.value? m with _ | _ | _
  · rw [done] at returned
    contradiction
  · next error =>
    rw [done] at returned
    cases returned
    obtain ⟨calls, made, attempts⟩ := head m _ done
    cases attempts with
    | refused all => exact ⟨_, made, .refused all⟩
  · rw [done] at returned
    obtain ⟨earlier, made, attempts⟩ := head m _ done
    obtain ⟨calls, later, rest⟩ := tail _ outcome returned
    cases attempts with
    | mapped all => exact ⟨earlier ++ calls, by simp [later, made], rest.prepend all⟩

end Program

open Program (Attempting)

theorem Region.attempting_replaceRange (address length protection : UInt64)
    (descriptor : Option UInt32) (offset : UInt64) : Attempting (do
      let outcome ← replaceRange address length protection descriptor offset
      return outcome.mapError LoadError.cannotMap) := by
  rintro m _ ⟨⟩
  exact ⟨_, m.mappings_mmap (.inPlace address length protection descriptor offset), .single _ _ _⟩

theorem Span.low_of_ok {object : Object} {span : Span}
    (spanned : of object.programHeaders = .ok span) :
    ∃ segment ∈ object.segments, segment.vaddr = span.low := by
  have attained (segments : List ProgramHeader) (start : UInt64) :
      segments.foldl (fun low segment => min low segment.vaddr) start = start ∨
        ∃ segment ∈ segments, segment.vaddr =
          segments.foldl (fun low segment => min low segment.vaddr) start := by
    induction segments generalizing start with
    | nil => exact .inl rfl
    | cons segment segments ih =>
      rw [List.foldl_cons]
      have least : min start segment.vaddr = start ∨ min start segment.vaddr = segment.vaddr := by
        change (if start ≤ segment.vaddr then start else segment.vaddr) = start ∨
          (if start ≤ segment.vaddr then start else segment.vaddr) = segment.vaddr
        split <;> simp
      rcases ih (min start segment.vaddr) with same | ⟨other, member, same⟩
      · rw [same]
        rcases least with first | second
        · exact .inl first
        · exact .inr ⟨segment, List.mem_cons_self, second.symm⟩
      · exact .inr ⟨other, List.mem_cons_of_mem _ member, same⟩
  unfold of at spanned
  dsimp only at spanned
  split at spanned
  · contradiction
  · next proper =>
    obtain rfl := Except.ok.inj spanned
    rcases attained (object.programHeaders.filter ProgramHeader.occupiesMemory)
      0xffffffffffffffff with none | ⟨segment, member, same⟩
    -- No end of a segment is above the highest address, so the start has been lowered.
    · rw [none, UInt64.not_le, UInt64.lt_iff_toNat_lt] at proper
      have highest : (0xffffffffffffffff : UInt64).toNat = 0xffffffffffffffff := rfl
      rw [highest] at proper
      exact absurd (UInt64.toNat_lt _) (Nat.not_lt.mpr proper)
    · exact ⟨segment, member, same⟩

namespace Image

variable {page : PageSize} {descriptor : UInt32} {loadBias : UInt64} {object : Object}
  {m : Machine}

theorem attempting_perform (one : Step) : Attempting (one.perform page descriptor loadBias) := by
  cases one with
  | overlay segment => exact Region.attempting_replaceRange _ _ _ _ _
  | report segment =>
    exact .after (Program.within_log KeepsMappings.edits.toKeptByOutput _ _) (.pure ())
  | clear segment => exact .after (fun _ => rfl) (.pure ())
  | extend segment =>
    rw [Step.perform, mapEmpty]
    split
    · exact Region.attempting_replaceRange _ _ _ _ _
    · exact .pure ()

theorem attempting_performAll (list : List Step) :
    Attempting (performAll page descriptor loadBias list) := by
  induction list with
  | nil => exact .pure ()
  | cons one rest ih => exact .andThen (attempting_perform one) ih

theorem attempting_complete (first : ProgramHeader) (later : List ProgramHeader)
    (anchor : Anchor) : Attempting (complete object page first later anchor) := by
  intro m outcome returned
  rw [complete, fillIn_eq] at returned ⊢
  obtain ⟨filled, found, returned⟩ := Program.value?_bind_eq_some.mp returned
  obtain ⟨calls, made, attempts⟩ := attempting_performAll _ m _ found
  rw [Program.last_bind_of_value _ found]
  cases attempts with
  | mapped all =>
    obtain ⟨_, _, same, _, returned, last⟩ :=
      (Program.within_log KeepsMappings.edits.toKeptByOutput _ _).bind_succeeds returned
    cases returned
    dsimp only
    exact ⟨calls, by rw [last]; exact same.trans made, .mapped all⟩
  | refused all =>
    obtain ⟨_, _, same, _, returned, last⟩ :=
      (KeepsMappings.release anchor.region).bind_succeeds returned
    cases returned
    dsimp only
    exact ⟨_, by rw [last]; exact same.trans made, .refused all⟩

/-- The first segment in table order is not the lowest. -/
def Misordered (object : Object) : Prop :=
  ∃ first later, object.segments = first :: later ∧
    ∃ segment ∈ object.segments, segment.vaddr < first.vaddr

theorem misordered_iff {span : Span} {first : ProgramHeader} {later : List ProgramHeader}
    (spanned : Span.of object.programHeaders = .ok span)
    (segments : object.segments = first :: later) :
    Misordered object ↔ first.vaddr ≠ span.low := by
  obtain ⟨_, held⟩ := Span.of_ok spanned
  constructor
  · rintro ⟨_, _, same, segment, member, lower⟩ lowest
    obtain ⟨rfl, rfl⟩ := List.cons.inj (segments.symm.trans same)
    rw [lowest] at lower
    exact UInt64.not_le.mpr lower (held segment member).low
  · intro apart
    obtain ⟨segment, member, lowest⟩ := Span.low_of_ok spanned
    have first_le := (held first (segments ▸ List.mem_cons_self)).low
    refine ⟨first, later, segments, segment, member, ?_⟩
    rw [lowest]
    exact UInt64.lt_of_le_of_ne first_le apart.symm

/-- What an image is judged by: there is nothing to load, the order of the segments is
wrong, or it depends on the mapping calls, which are made in no other case. -/
inductive Judged (object : Object) (m after : Machine) : Except LoadError Image → Prop
  | empty (spanned : Span.of object.programHeaders = .error .noLoadableSegments)
    (silent : KeepsMappings m after) : Judged object m after (.error .noLoadableSegments)
  | misordered {span : Span} (spanned : Span.of object.programHeaders = .ok span)
    (order : Misordered object) (silent : KeepsMappings m after) :
    Judged object m after (.error .segmentOrder)
  | attempted {span : Span} {calls : List (MapRequest × UInt64)} {outcome : Except LoadError Image}
    (spanned : Span.of object.programHeaders = .ok span) (order : ¬ Misordered object)
    (made : after.kernel.mappings = m.kernel.mappings ++ calls) (attempts : Attempts calls outcome) :
    Judged object m after outcome

theorem segments_ne_nil {span : Span} (spanned : Span.of object.programHeaders = .ok span) :
    object.segments ≠ [] := by
  obtain ⟨segment, member, _⟩ := Span.low_of_ok spanned
  exact List.ne_nil_of_mem member

theorem anchor_judged {span : Span} {first : ProgramHeader} {later : List ProgramHeader}
    {outcome : Except LoadError Image} (spanned : Span.of object.programHeaders = .ok span)
    (segments : object.segments = first :: later)
    (returned : Program.value? (do
      match ← anchor page object.file.descriptor span first with
      | .error error => return .error error
      | .ok anchor => complete object page first later anchor) m = some outcome) :
    Judged object m (Program.last (do
      match ← anchor page object.file.descriptor span first with
      | .error error => return .error error
      | .ok anchor => complete object page first later anchor) m) outcome := by
  obtain ⟨anchored, found, returned⟩ := Program.value?_bind_eq_some.mp returned
  rw [Program.last_bind_of_value _ found, last_anchor]
  rw [last_anchor] at returned
  rw [value?_anchor, Option.some.injEq] at found
  by_cases lowest : first.vaddr = span.low
  · have ordered : ¬ Misordered object := fun order =>
      (misordered_iff spanned segments).mp order lowest
    simp only [lowest, ne_eq, not_true_eq_false, if_false] at found returned ⊢
    have reserved := m.mappings_mmap (reserveRequest page object.file.descriptor span first)
    cases answer : Errno.ofResult
        (m.mmap (reserveRequest page object.file.descriptor span first)).1 with
    | error errno =>
      rw [answer] at found
      cases found
      cases returned
      rw [Errno.eq_failure_of_error answer] at reserved
      exact .attempted spanned ordered reserved (.refused_first _ errno)
    | ok address =>
      rw [answer] at found
      cases found
      obtain ⟨calls, made, attempts⟩ := attempting_complete _ _ _ _ _ returned
      have mapped : AllMapped [(reserveRequest page object.file.descriptor span first,
          (m.mmap (reserveRequest page object.file.descriptor span first)).1)] := by
        simpa [AllMapped] using ⟨address, answer⟩
      refine .attempted spanned ordered ?_ (attempts.prepend mapped)
      rw [made, reserved, List.append_assoc]
  · simp only [lowest, ne_eq, not_false_eq_true, if_true] at found returned ⊢
    cases found
    cases returned
    exact .misordered spanned ((misordered_iff spanned segments).mpr lowest) (refl_of _ m)

theorem build_judged {outcome : Except LoadError Image}
    (returned : (build object page).value? m = some outcome) :
    Judged object m ((build object page).last m) outcome := by
  rw [build] at returned ⊢
  cases spanned : Span.of object.programHeaders with
  | error error =>
    rw [spanned] at returned
    cases returned
    have only : error = .noLoadableSegments := by
      unfold Span.of at spanned
      dsimp only at spanned
      split at spanned
      · exact (Except.error.inj spanned).symm
      · contradiction
    subst only
    exact .empty spanned (refl_of _ m)
  | ok span =>
    rw [spanned] at returned
    dsimp only at returned ⊢
    obtain ⟨_, between, same, _, returned, last⟩ :=
      (Program.within_log KeepsMappings.edits.toKeptByOutput _ _).bind_succeeds returned
    rw [reportSpan, last]
    cases segments : object.segments with
    | nil => exact absurd segments (segments_ne_nil spanned)
    | cons first later =>
      rw [segments] at returned
      cases anchor_judged spanned segments returned with
      | empty none => exact absurd (spanned.symm.trans none) (by simp)
      | misordered _ order silent => exact .misordered spanned order (trans_of _ same silent)
      | attempted _ order made attempts =>
        exact .attempted spanned order (by rw [← same]; exact made) attempts

theorem build_ne_noLoadableSegments {span : Span} (page : PageSize) (m : Machine)
    (spanned : Span.of object.programHeaders = .ok span) :
    (build object page).value? m ≠ some (.error .noLoadableSegments) := by
  intro returned
  cases build_judged returned with
  | empty none => exact absurd (spanned.symm.trans none) (by simp)
  | attempted _ _ _ attempts => nomatch attempts

end Image
end ElfRelay
