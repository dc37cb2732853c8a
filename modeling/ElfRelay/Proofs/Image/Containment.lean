import ElfRelay.Proofs.Image.Steps
/-! The mapping calls of a run that builds an image. The first reserves a range
wherever there is room; all others name their address, and it is in that range
whatever the program headers say. -/
namespace ElfRelay

open Elf (ProgramHeader Object)

def Event.mapCall? : Event → Option (MapRequest × UInt64)
  | .mmap request result => some (request, result)
  | _ => none

namespace Kernel

def mapCalls (k : Kernel) : List (MapRequest × UInt64) := k.trace.filterMap Event.mapCall?

theorem mapCalls_eq (k : Kernel) : k.mapCalls = (k.history.filterMap Event.mapCall?).reverse := by
  rw [mapCalls, trace, List.filterMap_reverse]

theorem Wrote.mapCalls {before after : Kernel} (wrote : before.Wrote after) :
    after.mapCalls = before.mapCalls := by
  obtain ⟨events, history, writes⟩ := wrote.history
  have none : events.filterMap Event.mapCall? = [] := by
    rw [List.filterMap_eq_nil_iff]
    intro event member
    obtain ⟨_, _, _, rfl⟩ := writes event member
    rfl
  rw [mapCalls_eq, mapCalls_eq, history, List.filterMap_append, none, List.nil_append]

theorem mapCalls_munmap (k : Kernel) (region : Region) :
    (munmap region k).2.mapCalls = k.mapCalls := by
  rw [mapCalls_eq, mapCalls_eq]
  rfl

end Kernel

namespace Machine

theorem mapCalls_mmap (m : Machine) (request : MapRequest) :
    (m.mmap request).2.kernel.mapCalls =
      m.kernel.mapCalls ++ [(request, (m.mmap request).1)] := by
  rw [Kernel.mapCalls_eq, Kernel.mapCalls_eq, mmap_history, List.filterMap_cons]
  simp only [Event.mapCall?, List.reverse_cons]

/-- The machine after further mapping calls, all of them allowed. -/
def Maps (allowed : MapRequest → Prop) (before after : Machine) : Prop :=
  ∃ calls, after.kernel.mapCalls = before.kernel.mapCalls ++ calls ∧
    ∀ call ∈ calls, allowed call.1

variable {allowed : MapRequest → Prop} {before after : Machine}

theorem Maps.of_same (same : after.kernel.mapCalls = before.kernel.mapCalls) :
    Maps allowed before after :=
  ⟨[], by rw [same, List.append_nil], fun _ member => nomatch member⟩

instance : IsPreorder Machine (Maps allowed) where
  refl _ := .of_same rfl
  trans a b c := by
    rintro ⟨early, first, earlyAllowed⟩ ⟨late, second, lateAllowed⟩
    refine ⟨early ++ late, by rw [second, first, List.append_assoc], ?_⟩
    intro call member
    rcases List.mem_append.mp member with member | member
    · exact earlyAllowed call member
    · exact lateAllowed call member

theorem Maps.mmap {request : MapRequest} (m : Machine) (allows : allowed request) :
    Maps allowed m (m.mmap request).2 := by
  refine ⟨_, m.mapCalls_mmap request, ?_⟩
  intro call member
  obtain rfl := List.mem_singleton.mp member
  exact allows

end Machine

theorem Program.within_maps_of_wrote {allowed : MapRequest → Prop} {program : Program α}
    (wrote : Within Machine.Wrote program) : Within (Machine.Maps allowed) program :=
  wrote.mono fun _ _ wrote => .of_same wrote.kernel.mapCalls

theorem Region.within_maps_release {allowed : MapRequest → Prop} (region : Region) :
    Program.Within (Machine.Maps allowed) region.release := by
  refine .bind (fun m => .of_same ?_) fun _ => .pure _
  exact m.kernel.mapCalls_munmap region

theorem Region.encloses_of_contains {region : Region} {start length : UInt64}
    (low : region.InUserSpace) (contains : region.contains start length = true) :
    region.encloses start length = true := by
  have stop : (region.address + region.length).toNat =
      region.address.toNat + region.length.toNat := by
    rw [UInt64.toNat_add, Nat.mod_eq_of_lt]
    exact Nat.lt_trans low (by decide)
  rw [Region.contains, Bool.and_eq_true, decide_eq_true_eq, decide_eq_true_eq,
    UInt64.le_iff_toNat_le, UInt64.le_iff_toNat_le, toNat_saturatingAdd, stop] at contains
  rw [Region.encloses_iff]
  unfold InUserSpace at low
  simp only [UInt64.size] at contains
  omega

namespace Image

/-- A fixed mapping inside a region, if the region is aligned and in the lower half. -/
def Inside (page : PageSize) (region : Region) (request : MapRequest) : Prop :=
  request.isFixed = true ∧
    (page.Aligned region.address → region.InUserSpace →
      region.contains request.address request.length = true ∧
        region.encloses request.address request.length = true)

/-- A mapping without a fixed address, and then, only if it has succeeded, fixed
ones inside the region it has made. -/
def Confined (page : PageSize) : List (MapRequest × UInt64) → Prop
  | [] => True
  | (reserve, result) :: fixed =>
    reserve.isFixed = false ∧ ∀ call ∈ fixed, ∃ address,
      Errno.ofResult result = .ok address ∧ Inside page ⟨address, reserve.length⟩ call.1

variable {page : PageSize} {span : Span} {region : Region} {descriptor : UInt32}
  {loadBias : UInt64} {segments : List ProgramHeader}

theorem inside_of_placed {request : MapRequest} (fixed : request.isFixed = true)
    (contains : page.Aligned region.address → region.InUserSpace →
      region.contains request.address request.length = true) : Inside page region request :=
  ⟨fixed, fun aligned low =>
    ⟨contains aligned low, Region.encloses_of_contains low (contains aligned low)⟩⟩

theorem within_maps_perform {step : Step}
    (placement : page.Aligned region.address → region.InUserSpace →
      Placement page span region loadBias)
    (held : ∀ segment ∈ segments, span.Holds segment) (serves : step.Serves segments) :
    Program.Within (Machine.Maps (Inside page region)) (step.perform page descriptor loadBias) := by
  cases step with
  | overlay segment =>
    intro m
    rw [last_overlay]
    refine .mmap m (inside_of_placed (by simp [overlayRequest]) fun aligned low => ?_)
    simpa [overlayRequest] using (placement aligned low).contains_overlay (held segment serves)
  | report segment => exact Program.within_maps_of_wrote wrote_report
  | clear segment => exact fun m => .of_same rfl
  | extend segment =>
    intro m
    rw [last_extend]
    split
    · next before =>
      refine .mmap m (inside_of_placed (by simp [emptyRequest]) fun aligned low => ?_)
      simpa [emptyRequest] using
        (placement aligned low).contains_empty (held segment serves.1) serves.2 before
    · exact refl_of _ m

theorem within_maps_complete {object : Object} {first : ProgramHeader}
    {later : List ProgramHeader} {anchor : Anchor}
    (placement : page.Aligned anchor.region.address → anchor.region.InUserSpace →
      Placement page span anchor.region anchor.loadBias)
    (held : ∀ segment ∈ first :: later, span.Holds segment) :
    Program.Within (Machine.Maps (Inside page anchor.region))
      (complete object page first later anchor) := by
  refine .bind ?_ fun outcome => ?_
  · rw [fillIn_eq]
    exact within_performAll fun step member =>
      within_maps_perform placement held (serves_of_mem_steps member)
  · cases outcome with
    | error error => exact .bind (Region.within_maps_release _) fun _ => .pure _
    | ok => exact .bind (Program.within_maps_of_wrote (Program.wrote_log _ _)) fun _ => .pure _

theorem confined_of_maps {before reserved after : Machine} {reserve : MapRequest} {result : UInt64}
    {address : UInt64} (unfixed : reserve.isFixed = false)
    (made : reserved.kernel.mapCalls = before.kernel.mapCalls ++ [(reserve, result)])
    (success : Errno.ofResult result = .ok address)
    (maps : Machine.Maps (Inside page ⟨address, reserve.length⟩) reserved after) :
    ∃ calls, after.kernel.mapCalls = before.kernel.mapCalls ++ calls ∧ Confined page calls := by
  obtain ⟨fixed, mapped, inside⟩ := maps
  refine ⟨(reserve, result) :: fixed, ?_, unfixed, ?_⟩
  · rw [mapped, made, List.append_assoc, List.singleton_append]
  · exact fun call member => ⟨address, success, inside call member⟩

theorem confined_anchor (page : PageSize) (descriptor : UInt32) (span : Span)
    (segment : ProgramHeader) (m : Machine) :
    ∃ calls, ((anchor page descriptor span segment).last m).kernel.mapCalls =
      m.kernel.mapCalls ++ calls ∧ Confined page calls := by
  rw [last_anchor]
  split
  · exact ⟨[], by rw [List.append_nil], trivial⟩
  · refine ⟨_, m.mapCalls_mmap _, ?_, fun _ member => nomatch member⟩
    simp [reserveRequest]

theorem confined_complete {object : Object} {m : Machine} {first : ProgramHeader}
    {later : List ProgramHeader} {anchor : Anchor}
    (spanned : Span.of object.programHeaders = .ok span) (segments : object.segments = first :: later)
    (anchored : (Image.anchor page object.file.descriptor span first).value? m = some (.ok anchor)) :
    ∃ calls, ((complete object page first later anchor).last
        ((Image.anchor page object.file.descriptor span first).last m)).kernel.mapCalls =
      m.kernel.mapCalls ++ calls ∧ Confined page calls := by
  obtain ⟨proper, held⟩ := Span.of_ok spanned
  obtain ⟨lowest, length, bias, success⟩ := anchor_succeeds anchored
  rw [segments] at held
  have maps : Program.Within (Machine.Maps (Inside page anchor.region))
      (complete object page first later anchor) :=
    within_maps_complete
      (fun aligned low => Placement.of_aligned proper length bias aligned low) held
  rw [last_anchor, if_neg (Decidable.not_not.mpr lowest)]
  refine confined_of_maps (by simp [reserveRequest]) (m.mapCalls_mmap _) success ?_
  rw [show (reserveRequest page object.file.descriptor span first).length =
    anchor.region.length from length.symm]
  exact maps _

/-- However a run ends and whatever its mapping calls are answered, fixed
mappings are made only inside the range that the run has reserved. -/
theorem build_confined (object : Object) (page : PageSize) (m : Machine) :
    ∃ calls, ((build object page).last m).kernel.mapCalls = m.kernel.mapCalls ++ calls ∧
      Confined page calls := by
  rcases build_cases object page m with quiet | ⟨span, first, later, before, spanned, segments,
    quiet, mapped⟩
  · exact ⟨[], by rw [quiet.kernel.mapCalls, List.append_nil], trivial⟩
  · rw [← quiet.kernel.mapCalls]
    rcases mapped with last | ⟨anchor, anchored, last⟩
    · rw [last]
      exact confined_anchor page _ span first before
    · rw [last]
      exact confined_complete spanned segments anchored

example : ((build (openObject [textSegment, dataSegment]) smallPage).last
      (openMachine #[])).kernel.mapCalls.map (fun call => (call.1.address, call.1.length)) =
    [(0, 0x4000), (0x10001000, 0x3000), (0x10002000, 0x2000)] := by
  rfl

end Image
end ElfRelay
