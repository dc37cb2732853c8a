import ElfRelay.Proofs.Image.Containment
import ElfRelay.Proofs.Image.Coverage
/-! What building an image leaves alone, however it ends. It writes to the reservation and to
what it clears behind file data, which is in the reservation too, unless file data ends in the
last page of the address space: then clearing goes on in the page behind the reservation. -/
namespace ElfRelay

open Elf (ProgramHeader Object)

/-- The arena, the place of the next mapping and the answers to mapping calls are as they were. -/
structure Kernel.KeepsMaps (before after : Kernel) : Prop where
  arena : after.arena = before.arena
  nextFree : after.nextFree = before.nextFree
  pending : after.pending .mmap = before.pending .mmap

namespace Kernel.KeepsMaps

variable {before after : Kernel}

theorem answered (k : Kernel) {call : SystemCall} (other : call ≠ .mmap) :
    k.KeepsMaps (k.answered call) :=
  ⟨rfl, rfl, by rw [pending_answered, if_neg other.symm]⟩

theorem onlyFails (keeps : before.KeepsMaps after) (fails : before.OnlyFails .mmap) :
    after.OnlyFails .mmap := by
  intro result member
  rw [keeps.pending] at member
  exact fails result member

theorem munmap (k : Kernel) (region : Region) : k.KeepsMaps (Kernel.munmap region k).2 := by
  have used : k.KeepsMaps (k.answered .munmap) := answered k (by decide)
  exact ⟨used.arena, used.nextFree, used.pending⟩

end Kernel.KeepsMaps

theorem Kernel.Wrote.keepsMaps {before after : Kernel} (wrote : before.Wrote after) :
    before.KeepsMaps after :=
  ⟨wrote.arena, wrote.nextFree, wrote.pending .mmap (by decide)⟩

namespace Machine

structure MapsNothing (before after : Machine) : Prop where
  memory : after.memory = before.memory
  kernel : before.kernel.KeepsMaps after.kernel

instance : IsPreorder Machine MapsNothing where
  refl _ := ⟨rfl, rfl, rfl, rfl⟩
  trans _ _ _ first second :=
    ⟨second.memory.trans first.memory, second.kernel.arena.trans first.kernel.arena,
      second.kernel.nextFree.trans first.kernel.nextFree,
      second.kernel.pending.trans first.kernel.pending⟩

theorem Wrote.mapsNothing {before after : Machine} (wrote : before.Wrote after) :
    MapsNothing before after :=
  ⟨wrote.memory, wrote.kernel.keepsMaps⟩

/-- Memory is as it was outside what may be written to, and mapping calls still only fail or
succeed. -/
structure Spared (written : UInt64 → Prop) (before after : Machine) : Prop where
  fails : after.kernel.OnlyFails .mmap
  memory : ∀ address, ¬ written address →
    after.memory.read address = before.memory.read address

def Spares (written : UInt64 → Prop) (before after : Machine) : Prop :=
  before.kernel.OnlyFails .mmap → Spared written before after

variable {written : UInt64 → Prop} {before after : Machine}

instance : IsPreorder Machine (Spares written) where
  refl _ := fun fails => ⟨fails, fun _ _ => rfl⟩
  trans a b c := by
    intro first second fails
    have one := first fails
    have two := second one.fails
    exact ⟨two.fails, fun address outside =>
      (two.memory address outside).trans (one.memory address outside)⟩

theorem MapsNothing.spares (same : MapsNothing before after) : Spares written before after :=
  fun fails => ⟨same.kernel.onlyFails fails, fun _ _ => by rw [same.memory]⟩

/-- What a mapping call replaces, if anything, is its range. -/
theorem mmap_spares (m : Machine) {request : MapRequest} (fixed : request.isFixed = true)
    (inside : ∀ address, (Region.mk request.address request.length).Covers address →
      written address) : Spares written m (m.mmap request).2 := by
  intro fails
  refine ⟨m.mmap_onlyFails request fails, fun address outside => ?_⟩
  rcases m.mmap_cases request fails with ⟨same, _⟩ | ⟨source, _, _, _, memory⟩
  · rw [same]
  · rw [memory, mapAddress, if_pos fixed, Memory.read_overlay, if_neg]
    exact fun covers => outside (inside address covers)

end Machine

theorem Program.spares_of_wrote {written : UInt64 → Prop} {program : Program α}
    (wrote : Within Machine.Wrote program) : Within (Machine.Spares written) program :=
  wrote.mono fun _ _ wrote => wrote.mapsNothing.spares

theorem Region.spares_release {written : UInt64 → Prop} (region : Region) :
    Program.Within (Machine.Spares written) region.release :=
  .bind (fun m => Machine.MapsNothing.spares ⟨rfl, .munmap m.kernel region⟩) fun _ => .pure ()

namespace Image

def Writes (page : PageSize) (region : Region) (loadBias : UInt64) (segments : List ProgramHeader)
    (address : UInt64) : Prop :=
  region.Covers address ∨ ∃ segment ∈ segments, segment.hasZeroFill = true ∧
    (tail page loadBias segment).Covers address

/-- Whether building the image of an object may write to an address: nothing is written
unless there is room in the arena for all the pages of the object's span. -/
def Reaches (k : Kernel) (object : Object) (page : PageSize) (address : UInt64) : Prop :=
  ∃ span, Span.of object.programHeaders = .ok span ∧ span.footprint page ≠ 0 ∧
    k.arena.encloses k.nextFree (span.footprint page) = true ∧
    Writes page ⟨k.nextFree, span.footprint page⟩ (k.nextFree - page.floor span.low)
      object.segments address

theorem reaches_congr {before after : Kernel} (keeps : before.KeepsMaps after) {object : Object}
    {page : PageSize} {address : UInt64} :
    Reaches after object page address ↔ Reaches before object page address := by
  rw [Reaches, keeps.arena, keeps.nextFree, Reaches]

variable {page : PageSize} {span : Span} {region : Region} {loadBias : UInt64}
  {descriptor : UInt32} {segments : List ProgramHeader} {m : Machine}

theorem spares_perform {step : Step} (low : region.InUserSpace)
    (placed : Placement page span region loadBias)
    (held : ∀ segment ∈ segments, span.Holds segment) (serves : step.Serves segments) :
    Program.Within (Machine.Spares (Writes page region loadBias segments))
      (step.perform page descriptor loadBias) := by
  have covered {start length address : UInt64} (contains : region.contains start length = true)
      (covers : (Region.mk start length).Covers address) :
      Writes page region loadBias segments address :=
    .inl (Region.covers_of_encloses (Region.encloses_of_contains low contains) covers)
  cases step with
  | overlay segment =>
    refine fun m => m.mmap_spares (MapRequest.inPlace_isFixed _ _ _ _ _) fun address covers => ?_
    exact covered (by simpa [overlayRequest] using placed.contains_overlay (held segment serves)) covers
  | report segment => exact Program.spares_of_wrote wrote_report
  | clear segment =>
    intro m fails
    refine ⟨fails, fun address outside => ?_⟩
    rw [last_clear]
    dsimp only
    rw [Memory.fill, Memory.read_overlay, if_neg]
    exact fun covers => outside (.inr ⟨segment, serves.1, serves.2, covers⟩)
  | extend segment =>
    intro m
    rw [last_extend]
    split
    · next before =>
      refine m.mmap_spares (by simp [emptyRequest]) fun address covers => covered ?_ covers
      simpa [emptyRequest] using placed.contains_empty (held segment serves.1) serves.2 before
    · exact refl_of _ m

theorem spares_complete {object : Object} {first : ProgramHeader} {later : List ProgramHeader}
    {anchor : Anchor} (low : anchor.region.InUserSpace)
    (placed : Placement page span anchor.region anchor.loadBias)
    (held : ∀ segment ∈ first :: later, span.Holds segment) :
    Program.Within
      (Machine.Spares (Writes page anchor.region anchor.loadBias (first :: later)))
      (complete object page first later anchor) := by
  refine .bind ?_ fun outcome => ?_
  · rw [fillIn_eq]
    exact within_performAll fun step member =>
      spares_perform low placed held (serves_of_mem_steps member)
  · cases outcome with
    | error error => exact .bind (Region.spares_release _) fun _ => .pure _
    | ok => exact .bind (Program.spares_of_wrote (Program.wrote_log _ _)) fun _ => .pure _

theorem mapAddress_reserve {first : ProgramHeader} :
    m.mapAddress (reserveRequest page descriptor span first) = m.kernel.nextFree := by
  rw [Machine.mapAddress, reserveRequest, MapRequest.anywhere_isFixed, if_neg Bool.false_ne_true]

/-- A reservation that was made is where the next mapping was to go. It is not empty and lies
in the arena. -/
theorem anchor_lands {first : ProgramHeader} {anchor : Anchor} (fails : m.kernel.OnlyFails .mmap)
    (anchored : (Image.anchor page descriptor span first).value? m = some (.ok anchor)) :
    anchor = ⟨⟨m.kernel.nextFree, span.footprint page⟩,
        m.kernel.nextFree - page.floor span.low⟩ ∧
      span.footprint page ≠ 0 ∧
      m.kernel.arena.encloses m.kernel.nextFree (span.footprint page) = true := by
  obtain ⟨_, length, bias, success⟩ := anchor_succeeds anchored
  obtain ⟨source, found, place, inside, _⟩ := m.mmap_placed _ fails success
  have nonempty := m.length_ne_zero_of_file _ (by simp [reserveRequest]) found
  have place : anchor.region.address = m.kernel.nextFree := by
    rw [place, mapAddress_reserve]
  rw [place] at inside bias
  obtain ⟨⟨address, size⟩, loadBias⟩ := anchor
  obtain rfl : address = m.kernel.nextFree := place
  obtain rfl : size = span.footprint page := length
  obtain rfl : loadBias = m.kernel.nextFree - page.floor span.low := bias
  exact ⟨rfl, nonempty, inside⟩

theorem placement_of_reserved {first : ProgramHeader} {anchor : Anchor}
    (proper : span.low < span.high) (low : m.kernel.arena.InUserSpace)
    (fails : m.kernel.OnlyFails .mmap)
    (anchored : (Image.anchor page descriptor span first).value? m = some (.ok anchor)) :
    Placement page span anchor.region anchor.loadBias ∧
      m.kernel.arena.encloses anchor.region.address anchor.region.length = true := by
  obtain ⟨rfl, nonempty, inside⟩ := anchor_lands fails anchored
  exact ⟨.of_nonempty proper rfl rfl nonempty (low.of_encloses inside), inside⟩

theorem anchor_keeps {first : ProgramHeader} (fails : m.kernel.OnlyFails .mmap) {address : UInt64}
    (outside : span.footprint page ≠ 0 →
      m.kernel.arena.encloses m.kernel.nextFree (span.footprint page) = true →
        ¬ (Region.mk m.kernel.nextFree (span.footprint page)).Covers address) :
    ((anchor page descriptor span first).last m).memory.read address = m.memory.read address := by
  rw [last_anchor]
  split
  · rfl
  · rcases m.mmap_cases _ fails with ⟨same, _⟩ | ⟨source, found, inside, _, memory⟩
    · rw [same]
    · have nonempty := m.length_ne_zero_of_file _ (by simp [reserveRequest]) found
      rw [mapAddress_reserve] at inside memory
      rw [memory, Memory.read_overlay, if_neg]
      exact outside nonempty inside

/-- However building an image ends, memory is unchanged where it does not reach. -/
theorem build_keeps {object : Object} (fails : m.kernel.OnlyFails .mmap)
    (low : m.kernel.arena.InUserSpace) {address : UInt64}
    (outside : ¬ Reaches m.kernel object page address) :
    ((build object page).last m).memory.read address = m.memory.read address := by
  rcases build_cases object page m with quiet | ⟨span, first, later, before, spanned, listed,
    quiet, mapped⟩
  · rw [quiet.memory]
  · rw [← reaches_congr quiet.kernel.keepsMaps] at outside
    have fails := quiet.kernel.keepsMaps.onlyFails fails
    -- The reservation is made, or nothing is: either way nothing else has been written to.
    have anchors : ((anchor page object.file.descriptor span first).last before).memory.read
        address = m.memory.read address := by
      rw [anchor_keeps fails fun nonempty inside covers =>
        outside ⟨span, spanned, nonempty, inside, .inl covers⟩, quiet.memory]
    rcases mapped with last | ⟨anchor, anchored, last⟩
    · rw [last, anchors]
    · obtain ⟨proper, held⟩ := Span.of_ok spanned
      have low : before.kernel.arena.InUserSpace := quiet.kernel.arena ▸ low
      obtain ⟨placed, inside⟩ := placement_of_reserved proper low fails anchored
      obtain ⟨rfl, nonempty, _⟩ := anchor_lands fails anchored
      have still : ((Image.anchor page object.file.descriptor span first).last
          before).kernel.OnlyFails .mmap := by
        rw [last_anchor]
        split
        · exact fails
        · exact before.mmap_onlyFails _ fails
      have fills : Program.Within (Machine.Spares (Writes page _ _ (first :: later)))
          (complete object page first later _) :=
        spares_complete (low.of_encloses inside) placed (listed ▸ held)
      have outside : ¬ Writes page _ _ (first :: later) address := fun writes =>
        outside ⟨span, spanned, nonempty, inside, listed ▸ writes⟩
      rw [last, (fills _ still).memory address outside, anchors]

/-- Whether the file data of a segment that is cleared behind ends in the last page of the
address space. -/
def Overruns (object : Object) (page : PageSize) : Prop :=
  ∃ segment ∈ object.segments, segment.hasZeroFill = true ∧
    UInt64.size < segment.fileEnd.toNat + page.bytes.toNat

instance (object : Object) (page : PageSize) : Decidable (Overruns object page) :=
  inferInstanceAs (Decidable (∃ segment ∈ object.segments, _))

/-- How far behind its reservation the image of an object may be written to. -/
def overrun (object : Object) (page : PageSize) : Nat :=
  if Overruns object page then page.bytes.toNat else 0

section
variable {segment : ProgramHeader} (placed : Placement page span region loadBias)
  (held : span.Holds segment) (zeroFill : segment.hasZeroFill = true)
include placed held zeroFill

theorem covers_tail_bounds {address : UInt64} (covers : (tail page loadBias segment).Covers address) :
    (loadBias + segment.fileEnd).toNat ≤ address.toNat ∧
      address.toNat < (page.ceil (loadBias + segment.fileEnd)).toNat := by
  have first := (placed.tail_bounds held zeroFill).1
  have last := (page.ceil (loadBias + segment.fileEnd)).toNat_lt
  have length : (tail page loadBias segment).length.toNat =
      (page.ceil (loadBias + segment.fileEnd)).toNat - (loadBias + segment.fileEnd).toNat :=
    UInt64.toNat_sub_of_le _ _ (UInt64.le_iff_toNat_le.mpr first)
  have start : (tail page loadBias segment).address = loadBias + segment.fileEnd := rfl
  have bounds := covers.bounds (by rw [start, length]; simp only [UInt64.size]; omega)
  rw [start, length] at bounds
  omega

/-- What is cleared for a segment ends with the page behind the reservation at the latest. -/
theorem toNat_ceil_tail_le (aligned : page.Aligned region.address) :
    (page.ceil (loadBias + segment.fileEnd)).toNat ≤
      region.address.toNat + region.length.toNat + page.bytes.toNat := by
  have whole : page.bytes.toNat ∣ region.length.toNat :=
    placed.length ▸ dvd_footprint page placed.proper
  refine le_of_dvd_of_lt_add (page.dvd_ceil _)
    (Nat.dvd_add (Nat.dvd_add aligned whole) (Nat.dvd_refl _)) ?_
  obtain ⟨low, high⟩ := held.fileEnd_bounds page zeroFill
  obtain ⟨below, length⟩ := placed.toNat_length
  have start := placed.toNat_tail held zeroFill
  have near := page.ceil_lt_add (loadBias + segment.fileEnd)
  omega

end

theorem reaches_bounds {k : Kernel} {object : Object} (low : k.arena.InUserSpace)
    (aligned : page.Aligned k.nextFree) {address : UInt64} (reaches : Reaches k object page address) :
    k.arena.address.toNat ≤ address.toNat ∧
      address.toNat < k.arena.address.toNat + k.arena.length.toNat + overrun object page := by
  obtain ⟨span, spanned, _, inside, writes⟩ := reaches
  obtain ⟨proper, held⟩ := Span.of_ok spanned
  have below : Region.InUserSpace ⟨k.nextFree, span.footprint page⟩ := low.of_encloses inside
  have placed : Placement page span ⟨k.nextFree, span.footprint page⟩
    (k.nextFree - page.floor span.low) := .of_aligned proper rfl rfl aligned below
  have arena {inner : Region} (here : k.arena.encloses inner.address inner.length = true)
      (covers : inner.Covers address) : k.arena.address.toNat ≤ address.toNat ∧
        address.toNat < k.arena.address.toNat + k.arena.length.toNat + overrun object page := by
    have bounds := (Region.covers_of_encloses here covers).bounds (Nat.le_of_lt
      (Nat.lt_trans low (by decide)))
    omega
  rcases writes with covers | ⟨segment, listed, zeroFill, covers⟩
  · exact arena inside covers
  · have held := held segment listed
    have bounds := Region.encloses_iff.mp inside
    -- Clearing stays in the reservation unless the file data ends in the last page.
    by_cases ends : segment.fileEnd.toNat + page.bytes.toNat ≤ UInt64.size
    · have whole := (tail_encloses_iff placed aligned held zeroFill).mpr ends
      exact arena inside (Region.covers_of_encloses whole covers)
    · have overruns : Overruns object page := ⟨segment, listed, zeroFill, Nat.not_le.mp ends⟩
      have stop := toNat_ceil_tail_le placed held zeroFill aligned
      have start := placed.toNat_tail held zeroFill
      have covered := covers_tail_bounds placed held zeroFill covers
      rw [overrun, if_pos overruns]
      dsimp only at *
      omega

end Image
end ElfRelay
