import ElfRelay.Proofs.Image.Steps
/-! What a built image holds. Each step is described by what it makes of one
address, given as the link-time address that the load bias moves there; then a
segment, as the steps done for it; then the image, as all segments in their
order, of which the last that has a page there decides. -/
namespace ElfRelay

open Elf (Header ProgramHeader Object)

namespace Elf.ProgramHeader

def Occupies (segment : ProgramHeader) (page : PageSize) (v : UInt64) : Prop :=
  page.floor segment.vaddr ≤ v ∧ v < page.ceil segment.memoryEnd
  deriving Decidable

/-- The byte of the file that is mapped to a link-time address, zero behind the file's end. -/
def fileByte (segment : ProgramHeader) (page : PageSize) (contents : Array UInt8) (v : UInt64) :
    UInt8 :=
  contents.getD ((page.floor segment.offset).toNat + (v - page.floor segment.vaddr).toNat) 0

/-- The byte a segment has at a link-time address of its pages. -/
def byteAt (segment : ProgramHeader) (page : PageSize) (contents : Array UInt8) (v : UInt64) :
    UInt8 :=
  if segment.hasZeroFill ∧ segment.fileEnd ≤ v then 0 else segment.fileByte page contents v

end Elf.ProgramHeader

/-- What is found at an address: its byte, and the protection it was last mapped with. -/
structure Look where
  byte : UInt8
  protection : Option UInt64
  deriving DecidableEq, Repr

def Machine.look (m : Machine) (address : UInt64) : Look :=
  ⟨m.memory.read address, m.kernel.protectionAt address⟩

theorem Machine.Wrote.look {before after : Machine} (wrote : before.Wrote after)
    (address : UInt64) : after.look address = before.look address := by
  rw [Machine.look, Machine.look, wrote.memory, wrote.kernel.protectionAt]

theorem Machine.look_mmap {m : Machine} {request : MapRequest} {place : UInt64}
    (fails : m.kernel.OnlyFails .mmap)
    (success : Errno.ofResult (m.mmap request).1 = .ok place) :
    ∃ source, m.mapSource request = .ok source ∧ place = m.mapAddress request ∧
      ∀ address, (m.mmap request).2.look address =
        if (Region.mk place request.length).Covers address then
          ⟨source (address - place).toNat, some request.protection⟩
        else m.look address := by
  obtain ⟨source, found, placed, _, memory⟩ := m.mmap_placed request fails success
  refine ⟨source, found, placed, fun address => ?_⟩
  have range : request.range place = ⟨place, request.length⟩ := by
    rw [MapRequest.range]
    split
    · next fixed => rw [placed, mapAddress, if_pos fixed]
    · rfl
  rw [look, memory, Memory.read_overlay, m.mmap_protectionAt request address success, range]
  by_cases covers : (Region.mk place request.length).Covers address
  · rw [if_pos covers, if_pos covers, if_pos]
    exact covers
  · rw [if_neg covers, if_neg covers, if_neg]
    · rfl
    · exact covers

namespace Image

/-- An interpreter's file is open, and no mapping call is answered by an invented success. -/
structure Backed (descriptor : UInt32) (contents : Array UInt8) (m : Machine) : Prop where
  fails : m.kernel.OnlyFails .mmap
  file : m.kernel.node? descriptor = some (.regular contents)

theorem Backed.wrote {descriptor : UInt32} {contents : Array UInt8} {before after : Machine}
    (backed : Backed descriptor contents before) (wrote : before.Wrote after) :
    Backed descriptor contents after :=
  ⟨wrote.kernel.onlyFails (by decide) backed.fails, by rw [wrote.kernel.node?, backed.file]⟩

theorem Backed.mmap {descriptor : UInt32} {contents : Array UInt8} {m : Machine}
    (backed : Backed descriptor contents m) (request : MapRequest) :
    Backed descriptor contents (m.mmap request).2 :=
  ⟨m.mmap_onlyFails request backed.fails, by rw [m.mmap_node?, backed.file]⟩

variable {page : PageSize} {span : Span} {region : Region} {loadBias : UInt64}
  {segment : ProgramHeader} {descriptor : UInt32} {contents : Array UInt8} {m : Machine}
  {v : UInt64}

theorem Backed.perform (backed : Backed descriptor contents m) (step : Step) :
    Backed descriptor contents ((step.perform page descriptor loadBias).last m) := by
  cases step with
  | overlay segment => exact backed.mmap _
  | report segment => exact backed.wrote (wrote_report m)
  | clear segment => exact ⟨backed.fails, backed.file⟩
  | extend segment =>
    rw [last_extend]
    split
    · exact backed.mmap _
    · exact backed

theorem Backed.performAll (backed : Backed descriptor contents m) {list : List Step}
    (done : (performAll page descriptor loadBias list).value? m = some (.ok ())) :
    Backed descriptor contents ((Image.performAll page descriptor loadBias list).last m) := by
  induction list generalizing m with
  | nil => exact backed
  | cons step rest ih =>
    obtain ⟨_, done, last⟩ := performAll_succeeds done
    rw [last]
    exact ih (backed.perform step) done

theorem look_overlay (backed : Backed descriptor contents m)
    (succeeds : ((Step.overlay segment).perform page descriptor loadBias).value? m =
      some (.ok ())) :
    (((Step.overlay segment).perform page descriptor loadBias).last m).look (loadBias + v) =
      if segment.Occupies page v then ⟨segment.fileByte page contents v, some segment.protection⟩
      else m.look (loadBias + v) := by
  obtain ⟨place, success⟩ := overlay_succeeds succeeds
  obtain ⟨source, found, placed, look⟩ := Machine.look_mmap backed.fails success
  obtain ⟨other, node, _, rfl⟩ := m.mapSource_file _ (by simp [overlayRequest]) found
  rw [show (overlayRequest page descriptor loadBias segment).descriptor = descriptor from rfl,
    backed.file] at node
  cases node
  have start : place = loadBias + page.floor segment.vaddr := by
    rw [placed, Machine.mapAddress, if_pos (by simp [overlayRequest])]
    simp [overlayRequest]
  have ordered := UInt64.le_iff_toNat_le.mpr (page.floor_le_ceil segment.vaddr_le_memoryEnd)
  have covers : (Region.mk place (overlayRequest page descriptor loadBias segment).length).Covers
      (loadBias + v) ↔ segment.Occupies page v := by
    rw [start, overlayRequest, MapRequest.inPlace_length]
    exact Region.covers_shift loadBias v ordered
  have apart : loadBias + v - place = v - page.floor segment.vaddr := by
    rw [start]
    grind
  rw [last_overlay, look]
  simp only [covers, apart]
  simp [overlayRequest, ProgramHeader.fileByte, MapRequest.inPlace]

theorem look_report : (((Step.report segment).perform page descriptor loadBias).last m).look
    (loadBias + v) = m.look (loadBias + v) :=
  (wrote_report m).look _

theorem tail_covers_iff (placed : Placement page span region loadBias)
    (aligned : page.Aligned region.address) (held : span.Holds segment)
    (zeroFill : segment.hasZeroFill = true) (inside : region.Covers (loadBias + v)) :
    (tail page loadBias segment).Covers (loadBias + v) ↔
      segment.fileEnd ≤ v ∧ v < page.ceil segment.fileEnd := by
  by_cases below : segment.fileEnd.toNat ≤ page.lastPage
  · rw [placed.tail_eq aligned held zeroFill below]
    exact Region.covers_shift loadBias v (UInt64.le_iff_toNat_le.mpr (page.le_ceil below))
  · obtain ⟨low, high⟩ := (placed.covers_iff v).mp inside
    have low := UInt64.le_iff_toNat_le.mp low
    have high := UInt64.lt_iff_toNat_lt.mp high
    have last := page.ceil_le_lastPage span.high
    have before := page.ceil_le_lastPage segment.fileEnd
    have start := placed.toNat_tail held zeroFill
    have bounds := placed.tail_bounds held zeroFill
    have address := placed.toNat_bias_add low (by omega)
    have top := (page.ceil (loadBias + segment.fileEnd)).toNat_lt
    have length := UInt64.toNat_sub_of_le _ _ (UInt64.le_iff_toNat_le.mpr bounds.1)
    -- The distance from the tail's start wraps, and is longer than what is left of the space.
    constructor
    · intro covers
      rw [Region.Covers, tail, UInt64.toNat_sub, length, start, address] at covers
      omega
    · rintro ⟨behind, near⟩
      have behind := UInt64.le_iff_toNat_le.mp behind
      have near := UInt64.lt_iff_toNat_lt.mp near
      omega

theorem look_clear (placed : Placement page span region loadBias)
    (aligned : page.Aligned region.address) (held : span.Holds segment)
    (zeroFill : segment.hasZeroFill = true) (inside : region.Covers (loadBias + v)) :
    (((Step.clear segment).perform page descriptor loadBias).last m).look (loadBias + v) =
      if segment.fileEnd ≤ v ∧ v < page.ceil segment.fileEnd then
        { m.look (loadBias + v) with byte := 0 }
      else m.look (loadBias + v) := by
  have covers := tail_covers_iff placed aligned held zeroFill inside
  rw [last_clear]
  dsimp only
  rw [Machine.look, Memory.fill, Memory.read_overlay]
  by_cases cleared : segment.fileEnd ≤ v ∧ v < page.ceil segment.fileEnd
  · rw [if_pos cleared, if_pos]
    · rfl
    · exact covers.mpr cleared
  · rw [if_neg cleared, if_neg]
    · rfl
    · exact fun covered => cleared (covers.mp covered)

/-- Empty memory is mapped just when there are whole pages behind the file data. -/
theorem extends_iff (placed : Placement page span region loadBias)
    (aligned : page.Aligned region.address) (held : span.Holds segment)
    (zeroFill : segment.hasZeroFill = true) :
    page.ceil (loadBias + segment.fileEnd) < loadBias + page.ceil segment.memoryEnd ↔
      page.ceil segment.fileEnd < page.ceil segment.memoryEnd := by
  obtain ⟨low, high⟩ := held.fileEnd_bounds page zeroFill
  obtain ⟨_, length⟩ := placed.toNat_length
  have stop := placed.toNat_stop held
  have last := held.ceil_le page
  have most := page.ceil_le_lastPage segment.memoryEnd
  rw [UInt64.lt_iff_toNat_lt, UInt64.lt_iff_toNat_lt]
  by_cases below : segment.fileEnd.toNat ≤ page.lastPage
  · have up := page.le_ceil below
    have behind := page.ceil_mono (segment.fileEnd_le_memoryEnd zeroFill)
    have pos := page.pos
    have start := placed.toNat_bias_add (x := page.ceil segment.fileEnd) (by omega) (by omega)
    rw [placed.ceil_tail aligned held zeroFill below, start, stop]
    omega
  · have start := placed.toNat_tail held zeroFill
    have bounds := placed.tail_bounds held zeroFill
    have final := page.lastPage_le_ceil (Nat.lt_of_not_le below)
    have first := held.floor_le page
    have ordered := page.floor_le_ceil segment.vaddr_le_memoryEnd
    omega

theorem look_extend (backed : Backed descriptor contents m)
    (placed : Placement page span region loadBias)
    (aligned : page.Aligned region.address) (held : span.Holds segment)
    (zeroFill : segment.hasZeroFill = true)
    (succeeds : ((Step.extend segment).perform page descriptor loadBias).value? m =
      some (.ok ())) :
    (((Step.extend segment).perform page descriptor loadBias).last m).look (loadBias + v) =
      if page.ceil segment.fileEnd ≤ v ∧ v < page.ceil segment.memoryEnd then
        ⟨0, some segment.protection⟩
      else m.look (loadBias + v) := by
  have guard := extends_iff placed aligned held zeroFill
  rw [last_extend]
  by_cases before : page.ceil segment.fileEnd < page.ceil segment.memoryEnd
  · have moved := guard.mpr before
    rw [if_pos moved]
    obtain ⟨place, success⟩ := extend_succeeds moved succeeds
    obtain ⟨source, found, start, look⟩ := Machine.look_mmap backed.fails success
    obtain rfl := m.mapSource_anonymous _ (by simp [emptyRequest]) found
    have below : segment.fileEnd.toNat ≤ page.lastPage := by
      have last := page.ceil_le_lastPage segment.memoryEnd
      have before := UInt64.lt_iff_toNat_lt.mp before
      by_contra above
      have final := page.lastPage_le_ceil (Nat.lt_of_not_le above)
      omega
    have start : place = loadBias + page.ceil segment.fileEnd := by
      rw [start, Machine.mapAddress, if_pos (by simp [emptyRequest]), emptyRequest,
        MapRequest.inPlace_address, placed.ceil_tail aligned held zeroFill below]
    have length : (emptyRequest page loadBias segment).length =
        page.ceil segment.memoryEnd - page.ceil segment.fileEnd := by
      rw [emptyRequest, MapRequest.inPlace_length, placed.ceil_tail aligned held zeroFill below]
      grind
    rw [look, start, length]
    simp only [Region.covers_shift loadBias v (UInt64.le_of_lt before)]
    simp [emptyRequest]
  · rw [if_neg (fun moved => before (guard.mp moved)), if_neg]
    rintro ⟨low, high⟩
    exact before (UInt64.lt_of_le_of_lt low high)

/-- What a segment makes of an address: its own if it has a page there. -/
def paint (page : PageSize) (contents : Array UInt8) (v : UInt64) (look : Look)
    (segment : ProgramHeader) : Look :=
  if segment.Occupies page v then ⟨segment.byteAt page contents v, some segment.protection⟩
  else look

theorem paint_zeroFill {look : Look} (zeroFill : segment.hasZeroFill = true)
    (mapped : segment.Occupies page v →
      look = ⟨segment.fileByte page contents v, some segment.protection⟩) :
    paint page contents v look segment =
      if page.ceil segment.fileEnd ≤ v ∧ v < page.ceil segment.memoryEnd then
        ⟨0, some segment.protection⟩
      else if segment.fileEnd ≤ v ∧ v < page.ceil segment.fileEnd then { look with byte := 0 }
      else look := by
  have down := UInt64.le_trans (UInt64.le_iff_toNat_le.mpr (page.floor_le _)) segment.vaddr_le_fileEnd
  have behind := page.ceil_mono (segment.fileEnd_le_memoryEnd zeroFill)
  rw [paint]
  by_cases occupies : segment.Occupies page v
  · rw [if_pos occupies, mapped occupies, ProgramHeader.byteAt]
    by_cases filled : segment.fileEnd ≤ v
    -- Zeros come from the cleared tail up to a page boundary, from empty memory behind it.
    · rw [if_pos ⟨zeroFill, filled⟩]
      by_cases whole : page.ceil segment.fileEnd ≤ v
      · rw [if_pos ⟨whole, occupies.2⟩]
      · rw [if_neg (fun inside => whole inside.1), if_pos ⟨filled, UInt64.not_le.mp whole⟩]
    · rw [if_neg (fun both => filled both.2), if_neg, if_neg (fun inside => filled inside.1)]
      rintro ⟨low, high⟩
      -- A boundary in front of the file's end is the last one there is.
      have low := UInt64.le_iff_toNat_le.mp low
      have high := UInt64.lt_iff_toNat_lt.mp high
      have last := page.ceil_le_lastPage segment.memoryEnd
      have ends := UInt64.lt_iff_toNat_lt.mp (UInt64.not_le.mp filled)
      rcases Nat.lt_or_ge page.lastPage segment.fileEnd.toNat with above | below
      · have final := page.lastPage_le_ceil above
        omega
      · have up := page.le_ceil below
        omega
  · rw [if_neg occupies, if_neg, if_neg]
    · rintro ⟨low, high⟩
      have high := UInt64.lt_of_lt_of_le high (UInt64.le_iff_toNat_le.mpr behind)
      exact occupies ⟨UInt64.le_trans down low, high⟩
    · rintro ⟨low, high⟩
      have start := UInt64.le_iff_toNat_le.mpr (page.floor_le_ceil segment.vaddr_le_fileEnd)
      exact occupies ⟨UInt64.le_trans start low, high⟩

theorem look_finish (backed : Backed descriptor contents m)
    (placed : Placement page span region loadBias)
    (aligned : page.Aligned region.address) (held : span.Holds segment)
    (inside : region.Covers (loadBias + v))
    (mapped : segment.Occupies page v →
      m.look (loadBias + v) = ⟨segment.fileByte page contents v, some segment.protection⟩)
    (succeeds : (performAll page descriptor loadBias (finishSteps segment)).value? m =
      some (.ok ())) :
    ((performAll page descriptor loadBias (finishSteps segment)).last m).look (loadBias + v) =
      paint page contents v (m.look (loadBias + v)) segment := by
  rw [finishSteps] at succeeds ⊢
  obtain ⟨_, succeeds, last⟩ := performAll_succeeds succeeds
  have backed : Backed descriptor contents
      (((Step.report segment).perform page descriptor loadBias).last m) := backed.perform _
  rw [last]
  by_cases zeroFill : segment.hasZeroFill = true
  · rw [if_pos zeroFill] at succeeds ⊢
    obtain ⟨_, succeeds, last⟩ := performAll_succeeds succeeds
    obtain ⟨extended, _, final⟩ := performAll_succeeds succeeds
    have backed : Backed descriptor contents (((Step.clear segment).perform page descriptor
      loadBias).last (((Step.report segment).perform page descriptor loadBias).last m)) :=
      backed.perform _
    rw [last, final, last_performAll_nil,
      look_extend backed placed aligned held zeroFill extended,
      look_clear placed aligned held zeroFill inside, look_report, paint_zeroFill zeroFill mapped]
  · rw [if_neg zeroFill, last_performAll_nil, look_report, paint]
    split
    · next occupies =>
      rw [mapped occupies, ProgramHeader.byteAt, if_neg]
      rintro ⟨fill, _⟩
      exact zeroFill fill
    · rfl

theorem look_segment (backed : Backed descriptor contents m)
    (placed : Placement page span region loadBias)
    (aligned : page.Aligned region.address) (held : span.Holds segment)
    (inside : region.Covers (loadBias + v))
    (succeeds : (performAll page descriptor loadBias
      (.overlay segment :: finishSteps segment)).value? m = some (.ok ())) :
    ((performAll page descriptor loadBias (.overlay segment :: finishSteps segment)).last m).look
        (loadBias + v) = paint page contents v (m.look (loadBias + v)) segment := by
  obtain ⟨overlaid, finished, last⟩ := performAll_succeeds succeeds
  have mapped := look_overlay (v := v) backed overlaid
  rw [last, look_finish (backed.perform _) placed aligned held inside ?_ finished, mapped]
  · rw [paint, paint]
    split <;> rfl
  · intro occupies
    rw [mapped, if_pos occupies]

theorem look_later {later : List ProgramHeader} (backed : Backed descriptor contents m)
    (placed : Placement page span region loadBias) (aligned : page.Aligned region.address)
    (held : ∀ segment ∈ later, span.Holds segment) (inside : region.Covers (loadBias + v))
    (succeeds : (performAll page descriptor loadBias
      (later.flatMap fun segment => .overlay segment :: finishSteps segment)).value? m =
        some (.ok ())) :
    ((performAll page descriptor loadBias
      (later.flatMap fun segment => .overlay segment :: finishSteps segment)).last m).look
        (loadBias + v) = later.foldl (paint page contents v) (m.look (loadBias + v)) := by
  -- On the segments still to come, from whatever the earlier ones have left at the address.
  induction later generalizing m with
  | nil => rfl
  | cons segment later ih =>
    rw [List.flatMap_cons] at succeeds ⊢
    obtain ⟨first, rest, last⟩ := performAll_append_succeeds succeeds
    have painted := look_segment backed placed aligned (held segment List.mem_cons_self) inside first
    rw [last, ih (backed.performAll first) (fun other member => held other
      (List.mem_cons_of_mem segment member)) rest, painted, List.foldl_cons]

theorem foldl_paint (segments : List ProgramHeader) (look : Look) :
    segments.foldl (paint page contents v) look =
      match segments.reverse.find? fun segment => segment.Occupies page v with
      | some segment => ⟨segment.byteAt page contents v, some segment.protection⟩
      | none => look := by
  induction segments generalizing look with
  | nil => rfl
  | cons segment segments ih =>
    rw [List.foldl_cons, ih, List.reverse_cons, List.find?_append]
    cases segments.reverse.find? fun segment => segment.Occupies page v with
    | some later => rfl
    | none =>
      rw [Option.none_or, List.find?_singleton, paint]
      by_cases occupies : segment.Occupies page v
      · simp [occupies]
      · simp [occupies]

/-- Before anything else the reservation shows the first segment's file everywhere. -/
theorem look_reserved {first : ProgramHeader} (backed : Backed descriptor contents m)
    (lowest : first.vaddr = span.low) (length : region.length = span.footprint page)
    (bias : loadBias = region.address - page.floor span.low)
    (success : Errno.ofResult (m.mmap (reserveRequest page descriptor span first)).1 =
      .ok region.address)
    (inside : region.Covers (loadBias + v)) :
    (m.mmap (reserveRequest page descriptor span first)).2.look (loadBias + v) =
      ⟨first.fileByte page contents v, some first.protection⟩ := by
  obtain ⟨source, found, _, look⟩ := Machine.look_mmap backed.fails success
  obtain ⟨other, node, _, rfl⟩ := m.mapSource_file _ (by simp [reserveRequest]) found
  rw [show (reserveRequest page descriptor span first).descriptor = descriptor from rfl,
    backed.file] at node
  cases node
  have apart : loadBias + v - region.address = v - page.floor first.vaddr := by
    rw [bias, lowest]
    grind
  rw [look, if_pos, apart]
  · rfl
  · rw [show (reserveRequest page descriptor span first).length = region.length from length.symm]
    exact inside

theorem look_steps {first : ProgramHeader} {later : List ProgramHeader}
    (backed : Backed descriptor contents m)
    (placed : Placement page span region loadBias) (aligned : page.Aligned region.address)
    (held : ∀ segment ∈ first :: later, span.Holds segment)
    (inside : region.Covers (loadBias + v))
    (reserved : m.look (loadBias + v) =
      ⟨first.fileByte page contents v, some first.protection⟩)
    (succeeds : (performAll page descriptor loadBias (steps (first :: later))).value? m =
      some (.ok ())) :
    ((performAll page descriptor loadBias (steps (first :: later))).last m).look (loadBias + v) =
      match (first :: later).reverse.find? fun segment => segment.Occupies page v with
      | some segment => ⟨segment.byteAt page contents v, some segment.protection⟩
      | none => ⟨first.fileByte page contents v, some first.protection⟩ := by
  rw [steps] at succeeds ⊢
  obtain ⟨finished, rest, last⟩ := performAll_append_succeeds succeeds
  have painted := look_finish backed placed aligned (held first List.mem_cons_self) inside
    (fun _ => reserved) finished
  rw [last, look_later (backed.performAll finished) placed aligned
    (fun segment member => held segment (List.mem_cons_of_mem first member)) inside rest, painted,
    reserved, ← List.foldl_cons, foldl_paint]

/-- What a built image holds at every address, and how that was last mapped: the
last segment with a page there decides; where no segment has one, it is what the
first segment's file holds at that distance. -/
theorem build_contents {object : Object} {image : Image}
    (built : (build object page).value? m = some (.ok image))
    (fails : m.kernel.OnlyFails .mmap) (aligned : page.Aligned image.region.address)
    (low : image.region.InUserSpace) :
    ∃ contents first later,
      m.kernel.node? object.file.descriptor = some (.regular contents) ∧
      object.segments = first :: later ∧
      (∀ segment ∈ object.segments, first.vaddr ≤ segment.vaddr) ∧
      image.loadBias = image.region.address - page.floor first.vaddr ∧
      image.entryPoint = image.loadBias + object.header.entry ∧
      ∀ v, image.region.Covers (image.loadBias + v) →
        ((build object page).last m).look (image.loadBias + v) =
          match object.segments.reverse.find? fun segment => segment.Occupies page v with
          | some segment => ⟨segment.byteAt page contents v, some segment.protection⟩
          | none => ⟨first.fileByte page contents v, some first.protection⟩ := by
  obtain ⟨anchor, made, reserved, succeeds, rfl, wrote⟩ := build_succeeds built
  obtain ⟨span, first, later, before, spanned, segments, lowest, length, bias, quiet, success,
    rfl⟩ := reserved.mapped
  obtain ⟨proper, held⟩ := Span.of_ok spanned
  have placed := Placement.of_aligned proper length bias aligned low
  have fails := quiet.kernel.onlyFails (by decide) fails
  obtain ⟨source, found, _, _⟩ := Machine.look_mmap fails success
  obtain ⟨contents, node, _, _⟩ := before.mapSource_file _ (by simp [reserveRequest]) found
  have backed : Backed object.file.descriptor contents before := ⟨fails, node⟩
  refine ⟨contents, first, later, ?_, segments, ?_, ?_, rfl, fun v inside => ?_⟩
  · rw [← quiet.kernel.node?]
    exact node
  · intro segment listed
    rw [lowest]
    exact (held segment listed).low
  · rw [lowest]
    exact bias
  · have start := look_reserved backed lowest length bias success inside
    rw [segments] at succeeds wrote held ⊢
    rw [wrote.look]
    exact look_steps (backed.mmap _) placed aligned held inside start succeeds

/-- The file goes on behind the data of its writable segment, where the image is zero. -/
theorem build_contents_dataSegment :
    let m := openMachine (.replicate 40 7)
    let object := openObject [textSegment, dataSegment]
    ∃ image, (build object smallPage).value? m = some (.ok image) ∧
      smallPage.Aligned image.region.address ∧ image.region.InUserSpace ∧
      ((build object smallPage).last m).look (image.loadBias + 0x18) = ⟨7, some 5⟩ ∧
      ((build object smallPage).last m).look (image.loadBias + 0x1017) = ⟨7, some 3⟩ ∧
      ((build object smallPage).last m).look (image.loadBias + 0x1018) = ⟨0, some 3⟩ := by
  intro m object
  have built : (build object smallPage).value? m =
      some (.ok ⟨⟨0x10000000, 0x4000⟩, 0x10000000, 0x10000000⟩) := by
    decide +kernel
  have fails : m.kernel.OnlyFails .mmap := fun _ member => nomatch member
  obtain ⟨contents, first, later, node, segments, _, _, _, look⟩ :=
    build_contents built fails (by decide) (by decide)
  cases node
  cases segments
  refine ⟨_, built, by decide, by decide, ?_, ?_, ?_⟩
  · rw [look 0x18 (by decide)]
    decide
  · rw [look 0x1017 (by decide)]
    decide
  · rw [look 0x1018 (by decide)]
    decide

end Image
end ElfRelay
