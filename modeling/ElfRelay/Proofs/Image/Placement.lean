import ElfRelay.Image
import ElfRelay.Proofs.MappingCalls
import ElfRelay.Proofs.PageRounding
/-! Where segments lie in a reservation. The load bias is a wrapping difference
and ends of segments saturate, so every address is first turned into a distance
from the reservation's start; two free pages behind it keep the sums in range. -/
namespace ElfRelay

open Elf (ProgramHeader Object)

namespace Elf.ProgramHeader

variable (segment : ProgramHeader)

theorem vaddr_le_memoryEnd : segment.vaddr ≤ segment.memoryEnd := by
  have := segment.vaddr.toNat_lt
  rw [UInt64.le_iff_toNat_le, memoryEnd, toNat_saturatingAdd]
  simp only [UInt64.size]
  omega

theorem vaddr_le_fileEnd : segment.vaddr ≤ segment.fileEnd := by
  have := segment.vaddr.toNat_lt
  rw [UInt64.le_iff_toNat_le, fileEnd, toNat_saturatingAdd]
  simp only [UInt64.size]
  omega

theorem filesz_lt_memsz (zeroFill : segment.hasZeroFill = true) : segment.filesz < segment.memsz := by
  rw [hasZeroFill, Bool.and_eq_true, decide_eq_true_eq] at zeroFill
  exact zeroFill.1

theorem isWritable_of_hasZeroFill (zeroFill : segment.hasZeroFill = true) :
    segment.isWritable = true := by
  rw [hasZeroFill, Bool.and_eq_true] at zeroFill
  exact zeroFill.2

theorem fileEnd_le_memoryEnd (zeroFill : segment.hasZeroFill = true) :
    segment.fileEnd ≤ segment.memoryEnd := by
  have shorter := UInt64.lt_iff_toNat_lt.mp (segment.filesz_lt_memsz zeroFill)
  rw [UInt64.le_iff_toNat_le, fileEnd, memoryEnd, toNat_saturatingAdd, toNat_saturatingAdd]
  omega

end Elf.ProgramHeader

namespace Span

structure Holds (span : Span) (segment : ProgramHeader) : Prop where
  low : span.low ≤ segment.vaddr
  high : segment.memoryEnd ≤ span.high

theorem Holds.floor_le {span : Span} {segment : ProgramHeader} (held : span.Holds segment)
    (page : PageSize) : (page.floor span.low).toNat ≤ (page.floor segment.vaddr).toNat :=
  page.floor_mono held.low

theorem Holds.ceil_le {span : Span} {segment : ProgramHeader} (held : span.Holds segment)
    (page : PageSize) : (page.ceil segment.memoryEnd).toNat ≤ (page.ceil span.high).toNat :=
  page.ceil_mono held.high

/-- The end of the file data may lie in the last page, behind every page boundary. -/
theorem Holds.fileEnd_bounds {span : Span} {segment : ProgramHeader} (held : span.Holds segment)
    (page : PageSize) (zeroFill : segment.hasZeroFill = true) :
    (page.floor span.low).toNat ≤ segment.fileEnd.toNat ∧
      segment.fileEnd.toNat < (page.ceil span.high).toNat + page.bytes.toNat := by
  have := UInt64.le_iff_toNat_le.mp held.low
  have := UInt64.le_iff_toNat_le.mp held.high
  have := UInt64.le_iff_toNat_le.mp segment.vaddr_le_fileEnd
  have := UInt64.le_iff_toNat_le.mp (segment.fileEnd_le_memoryEnd zeroFill)
  have := page.floor_le span.low
  have := page.lt_ceil_add span.high
  omega

theorem foldl_min_le (segments : List ProgramHeader) (start : UInt64) :
    segments.foldl (fun low segment => min low segment.vaddr) start ≤ start ∧
      ∀ segment ∈ segments,
        segments.foldl (fun low segment => min low segment.vaddr) start ≤ segment.vaddr := by
  induction segments generalizing start with
  | nil => exact ⟨UInt64.le_refl start, fun _ member => nomatch member⟩
  | cons segment segments ih =>
    obtain ⟨below, each⟩ := ih (min start segment.vaddr)
    refine ⟨UInt64.le_trans below Std.min_le_left, ?_⟩
    intro other member
    rcases List.mem_cons.mp member with rfl | member
    · exact UInt64.le_trans below Std.min_le_right
    · exact each other member

theorem le_max (a b : UInt64) : a ≤ max a b ∧ b ≤ max a b := by
  change a ≤ (if a ≤ b then b else a) ∧ b ≤ (if a ≤ b then b else a)
  split
  · next le => exact ⟨le, UInt64.le_refl b⟩
  · next above => exact ⟨UInt64.le_refl a, UInt64.le_of_lt (UInt64.not_le.mp above)⟩

theorem le_foldl_max (segments : List ProgramHeader) (start : UInt64) :
    start ≤ segments.foldl (fun high segment => max high segment.memoryEnd) start ∧
      ∀ segment ∈ segments,
        segment.memoryEnd ≤ segments.foldl (fun high segment => max high segment.memoryEnd) start := by
  induction segments generalizing start with
  | nil => exact ⟨UInt64.le_refl start, fun _ member => nomatch member⟩
  | cons segment segments ih =>
    obtain ⟨above, each⟩ := ih (max start segment.memoryEnd)
    refine ⟨UInt64.le_trans (le_max _ _).1 above, ?_⟩
    intro other member
    rcases List.mem_cons.mp member with rfl | member
    · exact UInt64.le_trans (le_max _ _).2 above
    · exact each other member

theorem of_ok {object : Object} {span : Span} (spanned : of object.programHeaders = .ok span) :
    span.low < span.high ∧ ∀ segment ∈ object.segments, span.Holds segment := by
  unfold of at spanned
  dsimp only at spanned
  split at spanned
  · contradiction
  · next proper =>
    obtain rfl := Except.ok.inj spanned
    refine ⟨UInt64.not_le.mp proper, fun segment member => ⟨?_, ?_⟩⟩
    · exact (foldl_min_le _ _).2 segment member
    · exact (le_foldl_max _ _).2 segment member

end Span

/-- Whether a region ends in the lower half of the address space; the upper
half belongs to the system. -/
def Region.InUserSpace (region : Region) : Prop :=
  region.address.toNat + region.length.toNat < 0x8000000000000000
  deriving Decidable

namespace Region

theorem InUserSpace.of_encloses {outer inner : Region} (low : outer.InUserSpace)
    (inside : outer.encloses inner.address inner.length = true) : inner.InUserSpace := by
  rw [encloses_iff] at inside
  unfold InUserSpace at low ⊢
  omega

theorem covers_shift (loadBias v : UInt64) {low high : UInt64} (ordered : low ≤ high) :
    (Region.mk (loadBias + low) (high - low)).Covers (loadBias + v) ↔ low ≤ v ∧ v < high := by
  have := UInt64.le_iff_toNat_le.mp ordered
  have := v.toNat_lt
  have := high.toNat_lt
  have apart : loadBias + v - (loadBias + low) = v - low := by grind
  rw [Covers, apart, UInt64.toNat_sub_of_le _ _ ordered, UInt64.toNat_sub, UInt64.le_iff_toNat_le,
    UInt64.lt_iff_toNat_lt]
  omega

end Region

namespace Image

/-- A reservation for a span and its load bias, with two pages of the address
space behind it. -/
structure Placement (page : PageSize) (span : Span) (region : Region) (loadBias : UInt64) :
    Prop where
  proper : span.low < span.high
  length : region.length = span.footprint page
  bias : loadBias = region.address - page.floor span.low
  room : region.address.toNat + region.length.toNat + 2 * page.bytes.toNat ≤ UInt64.size

variable {page : PageSize} {span : Span} {region : Region} {loadBias : UInt64}
  {segment : ProgramHeader}

theorem toNat_footprint (page : PageSize) (proper : span.low < span.high) :
    (span.footprint page).toNat = (page.ceil span.high).toNat - (page.floor span.low).toNat := by
  refine UInt64.toNat_sub_of_le _ _ (UInt64.le_iff_toNat_le.mpr (page.floor_le_ceil ?_))
  exact UInt64.le_of_lt proper

theorem dvd_footprint (page : PageSize) (proper : span.low < span.high) :
    page.bytes.toNat ∣ (span.footprint page).toNat := by
  rw [toNat_footprint page proper]
  exact Nat.dvd_sub (page.dvd_ceil _) (page.dvd_floor _)

/-- Two pages fit behind a stop in the lower half that is zero or at least a page. -/
theorem two_pages_le (page : PageSize) {stop : Nat} (small : stop < 0x8000000000000000)
    (apart : stop = 0 ∨ page.bytes.toNat ≤ stop) :
    stop + 2 * page.bytes.toNat ≤ UInt64.size := by
  obtain ⟨k, eq⟩ := page.isPowerOfTwo
  have fits := page.bytes.toNat_lt
  rw [eq] at fits apart ⊢
  have bound : k < 64 := (Nat.pow_lt_pow_iff_right (by decide)).mp fits
  rcases Nat.lt_or_ge k 63 with low | high
  · have := Nat.pow_le_pow_right (n := 2) (by decide) (Nat.le_of_lt_succ low)
    simp only [UInt64.size]
    omega
  · obtain rfl : k = 63 := by omega
    simp only [UInt64.size]
    omega

theorem Placement.of_aligned (proper : span.low < span.high)
    (length : region.length = span.footprint page)
    (bias : loadBias = region.address - page.floor span.low)
    (aligned : page.Aligned region.address) (low : region.InUserSpace) :
    Placement page span region loadBias := by
  refine ⟨proper, length, bias, two_pages_le page low ?_⟩
  have whole : page.bytes.toNat ∣ region.address.toNat + region.length.toNat :=
    Nat.dvd_add aligned (length ▸ dvd_footprint page proper)
  rcases Nat.eq_zero_or_pos (region.address.toNat + region.length.toNat) with zero | pos
  · exact .inl zero
  · exact .inr (Nat.le_of_dvd pos whole)

theorem Placement.of_nonempty (proper : span.low < span.high)
    (length : region.length = span.footprint page)
    (bias : loadBias = region.address - page.floor span.low)
    (nonempty : region.length ≠ 0) (low : region.InUserSpace) :
    Placement page span region loadBias := by
  refine ⟨proper, length, bias, two_pages_le page low (.inr ?_)⟩
  have whole : page.bytes.toNat ∣ region.length.toNat := length ▸ dvd_footprint page proper
  have pos : 0 < region.length.toNat :=
    Nat.pos_of_ne_zero fun zero => nonempty (UInt64.toNat_inj.mp zero)
  have := Nat.le_of_dvd pos whole
  omega

theorem contains_of_le {start length : UInt64} (above : region.address.toNat ≤ start.toNat)
    (below : start.toNat + length.toNat ≤ region.address.toNat + region.length.toNat)
    (fits : region.address.toNat + region.length.toNat < UInt64.size) :
    region.contains start length = true := by
  have stop : (region.address + region.length).toNat =
      region.address.toNat + region.length.toNat := by
    rw [UInt64.toNat_add, Nat.mod_eq_of_lt fits]
  rw [Region.contains, Bool.and_eq_true, decide_eq_true_eq, decide_eq_true_eq,
    UInt64.le_iff_toNat_le, UInt64.le_iff_toNat_le, toNat_saturatingAdd, stop]
  omega

namespace Placement

variable (placed : Placement page span region loadBias)
include placed

theorem toNat_length : (page.floor span.low).toNat ≤ (page.ceil span.high).toNat ∧
    region.length.toNat = (page.ceil span.high).toNat - (page.floor span.low).toNat :=
  ⟨page.floor_le_ceil (UInt64.le_of_lt placed.proper),
    placed.length ▸ toNat_footprint page placed.proper⟩

theorem fits : region.address.toNat + region.length.toNat < UInt64.size := by
  have := placed.room
  have := page.pos
  omega

/-- The run-time address of a link-time one, up to the page behind the reservation. -/
theorem toNat_bias_add {x : UInt64} (low : (page.floor span.low).toNat ≤ x.toNat)
    (high : x.toNat < (page.ceil span.high).toNat + page.bytes.toNat) :
    (loadBias + x).toNat = region.address.toNat + (x.toNat - (page.floor span.low).toNat) := by
  obtain ⟨below, length⟩ := placed.toNat_length
  have room := placed.room
  rw [placed.bias, UInt64.toNat_add, UInt64.toNat_sub]
  have := (page.floor span.low).toNat_lt
  have := page.pos
  simp only [UInt64.size] at room
  omega

theorem toNat_start (held : span.Holds segment) :
    (loadBias + page.floor segment.vaddr).toNat =
      region.address.toNat + ((page.floor segment.vaddr).toNat - (page.floor span.low).toNat) := by
  have := page.floor_le_ceil segment.vaddr_le_memoryEnd
  have := held.ceil_le page
  have := page.pos
  exact placed.toNat_bias_add (held.floor_le page) (by omega)

theorem toNat_stop (held : span.Holds segment) :
    (loadBias + page.ceil segment.memoryEnd).toNat =
      region.address.toNat + ((page.ceil segment.memoryEnd).toNat - (page.floor span.low).toNat) := by
  have := page.floor_le_ceil segment.vaddr_le_memoryEnd
  have := held.floor_le page
  have := held.ceil_le page
  have := page.pos
  exact placed.toNat_bias_add (by omega) (by omega)

theorem toNat_tail (held : span.Holds segment) (zeroFill : segment.hasZeroFill = true) :
    (loadBias + segment.fileEnd).toNat =
      region.address.toNat + (segment.fileEnd.toNat - (page.floor span.low).toNat) :=
  placed.toNat_bias_add (held.fileEnd_bounds page zeroFill).1 (held.fileEnd_bounds page zeroFill).2

theorem tail_bounds (held : span.Holds segment) (zeroFill : segment.hasZeroFill = true) :
    (loadBias + segment.fileEnd).toNat ≤ (page.ceil (loadBias + segment.fileEnd)).toNat ∧
      (page.ceil (loadBias + segment.fileEnd)).toNat <
        (loadBias + segment.fileEnd).toNat + page.bytes.toNat := by
  obtain ⟨low, high⟩ := held.fileEnd_bounds page zeroFill
  obtain ⟨below, length⟩ := placed.toNat_length
  have room := placed.room
  have top := page.lastPage_add
  refine ⟨page.le_ceil ?_, page.ceil_lt_add _⟩
  rw [placed.toNat_tail held zeroFill]
  omega

theorem aligned_bias (aligned : page.Aligned region.address) : page.Aligned loadBias := by
  rw [placed.bias]
  exact aligned.sub (page.aligned_floor _)

theorem covers_iff (v : UInt64) : region.Covers (loadBias + v) ↔
    page.floor span.low ≤ v ∧ v < page.ceil span.high := by
  have ordered := UInt64.le_iff_toNat_le.mpr placed.toNat_length.1
  have start : region.address = loadBias + page.floor span.low := by
    have bias := placed.bias
    grind
  have whole : region =
      ⟨loadBias + page.floor span.low, page.ceil span.high - page.floor span.low⟩ := by
    rw [← start, show page.ceil span.high - page.floor span.low = region.length from
      placed.length.symm]
  rw [whole]
  exact Region.covers_shift loadBias v ordered

/-- Unless the file data ends in the last page of the address space, the page
boundary behind it is the one it has at link time. -/
theorem ceil_tail (aligned : page.Aligned region.address) (held : span.Holds segment)
    (zeroFill : segment.hasZeroFill = true) (below : segment.fileEnd.toNat ≤ page.lastPage) :
    page.ceil (loadBias + segment.fileEnd) = loadBias + page.ceil segment.fileEnd := by
  refine PageSize.ceil_add (placed.aligned_bias aligned) below ?_
  obtain ⟨low, high⟩ := held.fileEnd_bounds page zeroFill
  obtain ⟨_, length⟩ := placed.toNat_length
  have room := placed.room
  have top := page.lastPage_add
  rw [placed.toNat_tail held zeroFill]
  omega

theorem tail_eq (aligned : page.Aligned region.address) (held : span.Holds segment)
    (zeroFill : segment.hasZeroFill = true) (below : segment.fileEnd.toNat ≤ page.lastPage) :
    tail page loadBias segment =
      ⟨loadBias + segment.fileEnd, page.ceil segment.fileEnd - segment.fileEnd⟩ := by
  rw [tail, placed.ceil_tail aligned held zeroFill below]
  congr 1
  grind

theorem contains_overlay (held : span.Holds segment) :
    region.contains (loadBias + page.floor segment.vaddr)
      (page.ceil segment.memoryEnd - page.floor segment.vaddr) = true := by
  obtain ⟨below, length⟩ := placed.toNat_length
  have low := held.floor_le page
  have high := held.ceil_le page
  have ordered := page.floor_le_ceil segment.vaddr_le_memoryEnd
  have size := UInt64.toNat_sub_of_le _ _ (UInt64.le_iff_toNat_le.mpr ordered)
  have start := placed.toNat_start held
  exact contains_of_le (by omega) (by omega) placed.fits

theorem contains_empty (held : span.Holds segment) (zeroFill : segment.hasZeroFill = true)
    (before : page.ceil (loadBias + segment.fileEnd) < loadBias + page.ceil segment.memoryEnd) :
    region.contains (page.ceil (loadBias + segment.fileEnd))
      (loadBias + page.ceil segment.memoryEnd - page.ceil (loadBias + segment.fileEnd)) = true := by
  obtain ⟨below, length⟩ := placed.toNat_length
  have low := held.fileEnd_bounds page zeroFill
  have high := held.ceil_le page
  have size := UInt64.toNat_sub_of_le _ _ (UInt64.le_of_lt before)
  have start := placed.toNat_tail held zeroFill
  have bounds := placed.tail_bounds held zeroFill
  have stop := placed.toNat_stop held
  have ordered := UInt64.lt_iff_toNat_lt.mp before
  exact contains_of_le (by omega) (by omega) placed.fits

end Placement
end Image
end ElfRelay
