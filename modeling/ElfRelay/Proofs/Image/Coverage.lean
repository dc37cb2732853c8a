import ElfRelay.Proofs.Image.Steps
/-! What of a segment lies in the reservation. Rounding up saturates at the
start of the last page, so nothing is reserved for the part of a segment there:
the image does not hold it, and clearing memory behind file data that ends
there writes behind the reservation. Every other segment is covered. -/
namespace ElfRelay

open Elf (ProgramHeader Object)

theorem Elf.ProgramHeader.protection_writable {segment : ProgramHeader}
    (writable : segment.isWritable = true) : segment.protection &&& 2 ≠ 0 := by
  rw [protection, if_pos writable]
  cases segment.isReadable <;> cases segment.isExecutable <;> decide

namespace Image

structure Writable (outer inner : Region) (m : Machine) : Prop where
  inside : outer.encloses inner.address inner.length = true
  granted : ∀ address, inner.Covers address →
    ∃ protection, m.kernel.protectionAt address = some protection ∧ protection &&& 2 ≠ 0

/-- A clearing step after the report of a segment is that segment's, or comes later. -/
theorem clear_split {segment other : ProgramHeader} {list done rest : List Step}
    (split : (if segment.hasZeroFill then [.clear segment, .extend segment] else []) ++ list =
      done ++ .clear other :: rest) :
    (done = [] ∧ other = segment) ∨
      ∃ early late, done = early ++ late ∧ list = late ++ .clear other :: rest := by
  by_cases zeroFill : segment.hasZeroFill = true
  · rw [if_pos zeroFill] at split
    rcases done with _ | ⟨one, _ | ⟨two, late⟩⟩
    · simp only [List.cons_append, List.nil_append, List.cons.injEq, Step.clear.injEq] at split
      exact .inl ⟨rfl, split.1.symm⟩
    · simp at split
    · simp only [List.cons_append, List.nil_append, List.cons.injEq] at split
      obtain ⟨rfl, rfl, split⟩ := split
      exact .inr ⟨[.clear segment, .extend segment], late, rfl, split⟩
  · rw [if_neg zeroFill, List.nil_append] at split
    exact .inr ⟨[], done, rfl, split⟩

/-- A clearing step comes right behind the mapping of the file data it continues. -/
theorem overlay_before_clear {later : List ProgramHeader} {done rest : List Step}
    {segment : ProgramHeader}
    (split : (later.flatMap fun segment => .overlay segment :: finishSteps segment) =
      done ++ .clear segment :: rest) :
    ∃ before, done = before ++ [.overlay segment, .report segment] := by
  -- The steps for the next segment are used up from the front of `done`.
  induction later generalizing done with
  | nil => simp at split
  | cons next later ih =>
    rw [List.flatMap_cons, finishSteps] at split
    rcases done with _ | ⟨one, _ | ⟨two, done⟩⟩
    · simp at split
    · simp at split
    · simp only [List.cons_append, List.cons.injEq] at split
      obtain ⟨rfl, rfl, split⟩ := split
      rcases clear_split split with ⟨rfl, rfl⟩ | ⟨early, late, rfl, behind⟩
      · exact ⟨[], rfl⟩
      · obtain ⟨before, rfl⟩ := ih behind
        exact ⟨.overlay next :: .report next :: early ++ before, by simp⟩

theorem mapped_before_clear {first : ProgramHeader} {later : List ProgramHeader}
    {done rest : List Step} {segment : ProgramHeader}
    (split : steps (first :: later) = done ++ .clear segment :: rest) :
    (done = [.report segment] ∧ segment = first) ∨
      ∃ before, done = before ++ [.overlay segment, .report segment] := by
  rw [steps, finishSteps] at split
  rcases done with _ | ⟨one, done⟩
  · simp at split
  · simp only [List.cons_append, List.cons.injEq] at split
    obtain ⟨rfl, split⟩ := split
    rcases clear_split split with ⟨rfl, rfl⟩ | ⟨early, late, rfl, behind⟩
    · exact .inl ⟨rfl, rfl⟩
    · obtain ⟨before, rfl⟩ := overlay_before_clear behind
      exact .inr ⟨.report first :: early ++ before, by simp⟩

variable {page : PageSize} {span : Span} {region : Region} {loadBias : UInt64}
  {segment : ProgramHeader} {descriptor : UInt32} {m : Machine}

/-- Clearing stays in the reservation just when the file data ends before the last page. -/
theorem tail_encloses_iff (placed : Placement page span region loadBias)
    (aligned : page.Aligned region.address) (held : span.Holds segment)
    (zeroFill : segment.hasZeroFill = true) :
    region.encloses (tail page loadBias segment).address (tail page loadBias segment).length = true ↔
      segment.fileEnd.toNat + page.bytes.toNat ≤ UInt64.size := by
  have start := placed.toNat_tail held zeroFill
  obtain ⟨low, high⟩ := held.fileEnd_bounds page zeroFill
  obtain ⟨below, length⟩ := placed.toNat_length
  have top := page.lastPage_add
  have last := page.ceil_le_lastPage span.high
  rw [Region.encloses_iff]
  constructor
  · rintro ⟨_, inside⟩
    rw [tail, start] at inside
    omega
  · intro below
    have before : segment.fileEnd.toNat ≤ page.lastPage := by omega
    have up := page.le_ceil before
    have behind := page.ceil_mono (segment.fileEnd_le_memoryEnd zeroFill)
    have stop := held.ceil_le page
    rw [placed.tail_eq aligned held zeroFill before]
    dsimp only
    rw [start, UInt64.toNat_sub_of_le _ _ (UInt64.le_iff_toNat_le.mpr up)]
    omega

theorem overlay_covers_tail (placed : Placement page span region loadBias)
    (aligned : page.Aligned region.address) (held : span.Holds segment)
    (zeroFill : segment.hasZeroFill = true) (below : segment.fileEnd.toNat ≤ page.lastPage)
    {address place : UInt64} (covers : (tail page loadBias segment).Covers address) :
    ((overlayRequest page descriptor loadBias segment).range place).Covers address := by
  have up := UInt64.le_iff_toNat_le.mpr (page.le_ceil below)
  have behind := UInt64.le_iff_toNat_le.mpr
    (page.ceil_mono (segment.fileEnd_le_memoryEnd zeroFill))
  have ordered := UInt64.le_iff_toNat_le.mpr (page.floor_le_ceil segment.vaddr_le_memoryEnd)
  have start : page.floor segment.vaddr ≤ segment.fileEnd :=
    UInt64.le_trans (UInt64.le_iff_toNat_le.mpr (page.floor_le _)) segment.vaddr_le_fileEnd
  rw [placed.tail_eq aligned held zeroFill below,
    show address = loadBias + (address - loadBias) by grind, Region.covers_shift _ _ up] at covers
  rw [MapRequest.range, overlayRequest, MapRequest.inPlace_isFixed, if_pos rfl,
    MapRequest.inPlace_address, MapRequest.inPlace_length,
    show address = loadBias + (address - loadBias) by grind, Region.covers_shift _ _ ordered]
  exact ⟨UInt64.le_trans start covers.1, UInt64.lt_of_lt_of_le covers.2 behind⟩

/-- The last mapping of a tail, when it is cleared, is that of its segment. -/
theorem protectionAt_tail {later : List ProgramHeader} {first : ProgramHeader} {made : Machine}
    {done rest : List Step} (placed : Placement page span region loadBias)
    (aligned : page.Aligned region.address) (held : span.Holds segment)
    (zeroFill : segment.hasZeroFill = true) (below : segment.fileEnd.toNat ≤ page.lastPage)
    (reserved : ∀ address, region.Covers address →
      made.kernel.protectionAt address = some first.protection)
    (split : steps (first :: later) = done ++ .clear segment :: rest)
    (reached : (performAll page descriptor loadBias done).value? made = some (.ok ()))
    {address : UInt64} (covers : (tail page loadBias segment).Covers address) :
    ((performAll page descriptor loadBias done).last made).kernel.protectionAt address =
      some segment.protection := by
  rcases mapped_before_clear split with ⟨rfl, rfl⟩ | ⟨before, rfl⟩
  · obtain ⟨_, _, last⟩ := performAll_succeeds reached
    have top := page.lastPage_add
    have inside := (tail_encloses_iff placed aligned held zeroFill).mpr (by omega)
    rw [last, last_performAll_nil, (wrote_report made).kernel.protectionAt]
    exact reserved address (Region.covers_of_encloses inside covers)
  -- Between the overlay and the clearing only a report is written, which maps nothing.
  · obtain ⟨_, reached, last⟩ := performAll_append_succeeds reached
    obtain ⟨mapped, reached, again⟩ := performAll_succeeds reached
    obtain ⟨_, _, reported⟩ := performAll_succeeds reached
    obtain ⟨place, success⟩ := overlay_succeeds mapped
    rw [last, again, reported, last_performAll_nil, (wrote_report _).kernel.protectionAt,
      last_overlay, Machine.mmap_protectionAt _ _ _ success,
      if_pos (overlay_covers_tail placed aligned held zeroFill below covers)]
    simp [overlayRequest]

/-- The part of the image a segment takes, if the segment does not reach into the last page. -/
theorem encloses_segment_iff (placed : Placement page span region loadBias)
    (held : span.Holds segment) :
    region.encloses (loadBias + segment.vaddr) segment.memsz = true ↔
      segment.vaddr.toNat + segment.memsz.toNat + page.bytes.toNat ≤ UInt64.size := by
  obtain ⟨below, length⟩ := placed.toNat_length
  have low := UInt64.le_iff_toNat_le.mp held.low
  have high := UInt64.le_iff_toNat_le.mp held.high
  have inside := UInt64.le_iff_toNat_le.mp segment.vaddr_le_memoryEnd
  have down := page.floor_le span.low
  have near := page.lt_ceil_add span.high
  have last := page.ceil_le_lastPage span.high
  have top := page.lastPage_add
  have start := placed.toNat_bias_add (x := segment.vaddr) (by omega) (by omega)
  rw [Region.encloses_iff, start]
  constructor
  · rintro ⟨_, stop⟩
    omega
  · intro below
    have pos := page.pos
    have whole : segment.memoryEnd.toNat = segment.vaddr.toNat + segment.memsz.toNat := by
      rw [ProgramHeader.memoryEnd, toNat_saturatingAdd, Nat.min_eq_left (by omega)]
    have up := page.le_ceil (a := segment.memoryEnd) (by omega)
    have stop := held.ceil_le page
    omega

theorem protectionAt_reserved {first : ProgramHeader}
    (success : Errno.ofResult (m.mmap (reserveRequest page descriptor span first)).1 =
      .ok region.address)
    (length : region.length = span.footprint page) {address : UInt64}
    (covers : region.Covers address) :
    (m.mmap (reserveRequest page descriptor span first)).2.kernel.protectionAt address =
      some first.protection := by
  have whole : (reserveRequest page descriptor span first).range region.address = region := by
    rw [MapRequest.range, reserveRequest, MapRequest.anywhere_isFixed, if_neg Bool.false_ne_true]
    exact congrArg (Region.mk region.address) length.symm
  rw [Machine.mmap_protectionAt _ _ _ success, whole, if_pos covers]
  rfl

theorem writable_tail_iff {later : List ProgramHeader} {first : ProgramHeader} {made : Machine}
    {done rest : List Step} (placed : Placement page span region loadBias)
    (aligned : page.Aligned region.address)
    (held : ∀ segment ∈ first :: later, span.Holds segment)
    (reserved : ∀ address, region.Covers address →
      made.kernel.protectionAt address = some first.protection)
    (split : steps (first :: later) = done ++ .clear segment :: rest)
    (reached : (performAll page descriptor loadBias done).value? made = some (.ok ())) :
    Writable region (tail page loadBias segment)
        ((performAll page descriptor loadBias done).last made) ↔
      segment.fileEnd.toNat + page.bytes.toNat ≤ UInt64.size := by
  have member : Step.clear segment ∈ steps (first :: later) := by
    rw [split]
    exact List.mem_append_right _ List.mem_cons_self
  obtain ⟨listed, zeroFill⟩ := serves_of_mem_steps member
  have inside := tail_encloses_iff placed aligned (held segment listed) zeroFill
  constructor
  · intro writable
    exact inside.mp writable.inside
  · intro below
    refine ⟨inside.mpr below, fun address covers => ⟨segment.protection, ?_, ?_⟩⟩
    · have top := page.lastPage_add
      exact protectionAt_tail placed aligned (held segment listed) zeroFill (by omega) reserved
        split reached covers
    · exact segment.protection_writable (segment.isWritable_of_hasZeroFill zeroFill)

/-- Where a run that builds an image clears memory, and what of the segments the
image holds: all of it is in the reservation and writable, except for what lies
in the last page of the address space. -/
theorem coverage_iff {object : Object} {anchor : Anchor} {made : Machine}
    (reserved : Reserves object page m anchor made)
    (aligned : page.Aligned anchor.region.address) (low : anchor.region.InUserSpace) :
    (∀ done segment rest, steps object.segments = done ++ .clear segment :: rest →
      (performAll page object.file.descriptor anchor.loadBias done).value? made = some (.ok ()) →
      (Writable anchor.region (tail page anchor.loadBias segment)
          ((performAll page object.file.descriptor anchor.loadBias done).last made) ↔
        segment.fileEnd.toNat + page.bytes.toNat ≤ UInt64.size)) ∧
    ∀ image, (build object page).value? m = some (.ok image) →
      image.region = anchor.region ∧ ∀ segment ∈ object.segments,
        (image.region.encloses (image.loadBias + segment.vaddr) segment.memsz = true ↔
          segment.vaddr.toNat + segment.memsz.toNat + page.bytes.toNat ≤ UInt64.size) := by
  obtain ⟨span, first, later, before, spanned, segments, lowest, length, bias, _, success, rfl⟩ :=
    reserved.mapped
  obtain ⟨proper, held⟩ := Span.of_ok spanned
  have placed := Placement.of_aligned proper length bias aligned low
  constructor
  · intro done segment rest split reached
    rw [segments] at split held
    refine writable_tail_iff placed aligned held (fun address covers => ?_) split reached
    exact protectionAt_reserved success length covers
  · intro image built
    obtain ⟨other, after, again, _, rfl, _⟩ := build_succeeds built
    obtain ⟨rfl, _⟩ := again.unique reserved
    exact ⟨rfl, fun segment listed => encloses_segment_iff placed (held segment listed)⟩

theorem coverage_iff_dataSegment : ∃ anchor made image,
    Reserves (openObject [textSegment, dataSegment]) smallPage (openMachine #[]) anchor made ∧
      smallPage.Aligned anchor.region.address ∧ anchor.region.InUserSpace ∧
      Writable anchor.region (tail smallPage anchor.loadBias dataSegment)
        ((performAll smallPage 3 anchor.loadBias
          [.report textSegment, .overlay dataSegment, .report dataSegment]).last made) ∧
      (build (openObject [textSegment, dataSegment]) smallPage).value? (openMachine #[]) =
        some (.ok image) ∧
      image.region.encloses (image.loadBias + dataSegment.vaddr) dataSegment.memsz = true := by
  have reserved : Reserves (openObject [textSegment, dataSegment]) smallPage (openMachine #[])
      ⟨⟨0x10000000, 0x4000⟩, 0x10000000⟩ _ := .intro rfl rfl rfl rfl
  obtain ⟨clears, covers⟩ := coverage_iff reserved (by decide) (by decide)
  refine ⟨_, _, ⟨⟨0x10000000, 0x4000⟩, 0x10000000, 0x10000000⟩, reserved, by decide, by decide, ?_,
    rfl, ?_⟩
  · exact (clears _ dataSegment [.extend dataSegment] rfl rfl).mpr (by decide)
  · exact ((covers _ rfl).2 dataSegment (by decide)).mpr (by decide)

/-- The file data ends in the last page of the address space. -/
def lastPageSegment : ProgramHeader := ⟨1, 6, 0, 0xffffffffffffe000, 0, 0x1005, 0x1fff, 0x1000⟩

theorem last_page_uncovered :
    ¬ ∀ (object : Object) (page : PageSize) (m : Machine) (anchor : Anchor) (made : Machine),
      Reserves object page m anchor made → page.Aligned anchor.region.address →
      anchor.region.InUserSpace →
      (∀ done segment rest, steps object.segments = done ++ .clear segment :: rest →
        (performAll page object.file.descriptor anchor.loadBias done).value? made =
          some (.ok ()) →
        Writable anchor.region (tail page anchor.loadBias segment)
          ((performAll page object.file.descriptor anchor.loadBias done).last made)) ∧
      ∀ image, (build object page).value? m = some (.ok image) → ∀ segment ∈ object.segments,
        image.region.encloses (image.loadBias + segment.vaddr) segment.memsz = true := by
  intro covered
  obtain ⟨_, covers⟩ := covered (openObject [lastPageSegment]) smallPage (openMachine #[])
    ⟨⟨0x10000000, 0x1000⟩, 0x10002000⟩ _ (.intro rfl rfl rfl rfl) (by decide) (by decide)
  have inside := covers ⟨⟨0x10000000, 0x1000⟩, 0x10002000, 0x10002000⟩ rfl lastPageSegment (by decide)
  exact absurd inside (by decide)

end Image
end ElfRelay
