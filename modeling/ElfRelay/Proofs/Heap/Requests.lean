import ElfRelay.Proofs.Heap
/-! Requests to a heap, one after the other. All blocks that have been handed out lie below
what is used of the arena, and the next one starts above it, so no two of them meet. -/
namespace ElfRelay.Heap

inductive Request
  | block (size align : Nat)
  | release (offset : Nat)
  deriving DecidableEq, Repr

def Request.Valid : Request → Prop
  | block size align => 0 < size ∧ align.isPowerOfTwo
  | release _ => True

structure Block where
  address : UInt64
  size : Nat
  deriving DecidableEq, Repr

namespace Block

/-- Whether two blocks have no byte in common: one of them ends before the other starts. -/
def Disjoint (block other : Block) : Prop :=
  block.address.toNat + block.size ≤ other.address.toNat ∨
    other.address.toNat + other.size ≤ block.address.toNat

def Inside (block : Block) (base : UInt64) (length : Nat) : Prop :=
  base.toNat ≤ block.address.toNat ∧ block.address.toNat + block.size ≤ base.toNat + length

theorem Inside.mono {block : Block} {base : UInt64} {length longer : Nat}
    (inside : block.Inside base length) (le : length ≤ longer) : block.Inside base longer :=
  ⟨inside.1, Nat.le_trans inside.2 (Nat.add_le_add_left le _)⟩

end Block

def answer (heap : Heap) : Request → Option Block × Heap
  | .block size align =>
    match heap.allocate? size align with
    | some (start, after) => (some ⟨heap.base + start.toUInt64, size⟩, after)
    | none => (none, heap)
  | .release offset => (none, heap.release offset)

def answerAll : List Request → Heap → List Block × Heap
  | [], heap => ([], heap)
  | request :: later, heap =>
    let next := heap.answer request
    let rest := answerAll later next.2
    (next.1.toList ++ rest.1, rest.2)

/-- The offset at which a block starts is the first one whose address is aligned. -/
theorem isLeast_start (heap : Heap) {align : Nat} (pos : 0 < align) :
    IsLeast { offset | heap.used ≤ offset ∧ align ∣ heap.base.toNat + offset }
      (heap.start align) := by
  have rounded := roundUp_bounds (heap.base.toNat + heap.used) pos
  have whole : heap.base.toNat + heap.start align =
      roundUp (heap.base.toNat + heap.used) align := by
    rw [start]
    omega
  refine ⟨⟨heap.used_le_start pos, whole ▸ dvd_roundUp _ _⟩, fun other bounds => ?_⟩
  obtain ⟨behind, aligned⟩ := bounds
  have near := le_of_dvd_of_lt_add (whole ▸ dvd_roundUp _ _) aligned (by omega)
  omega

/-- A heap that has handed out some blocks of an arena. -/
structure Issued (base : UInt64) (capacity : Nat) (blocks : List Block) (heap : Heap) : Prop where
  based : heap.base = base
  limited : heap.capacity = some capacity
  within : heap.used ≤ capacity
  inside : ∀ block ∈ blocks, block.Inside base heap.used
  disjoint : blocks.Pairwise Block.Disjoint

variable {base : UInt64} {capacity size align : Nat} {blocks : List Block} {heap : Heap}

theorem Issued.empty (base : UInt64) (capacity : Nat) :
    Issued base capacity [] (.empty base (some capacity)) :=
  ⟨rfl, rfl, Nat.zero_le _, fun _ member => (nomatch member), .nil⟩

namespace Issued

variable (issued : Issued base capacity blocks heap)
include issued

theorem fits_iff (stop : Nat) : heap.fits stop = true ↔ stop ≤ capacity := by
  rw [fits, issued.limited]
  exact decide_eq_true_iff

theorem answer_refused (lacking : capacity < heap.start align + size) :
    heap.answer (.block size align) = (none, heap) := by
  have refused : heap.allocate? size align = none :=
    if_neg fun fits => Nat.not_le.mpr lacking ((issued.fits_iff _).mp fits)
  rw [answer, refused]

/-- A block that fits starts at the first aligned address behind what is used. -/
theorem answer_handed (room : heap.start align + size ≤ capacity) :
    heap.answer (.block size align) =
      (some ⟨base + (heap.start align).toUInt64, size⟩,
        { heap with used := heap.start align + size }) := by
  have handed : heap.allocate? size align =
      some (heap.start align, { heap with used := heap.start align + size }) :=
    if_pos ((issued.fits_iff _).mpr room)
  rw [answer, handed, issued.based]

section
variable (fits : base.toNat + capacity ≤ UInt64.size) (nonempty : 0 < size)
  (room : heap.start align + size ≤ capacity)
include fits nonempty room

omit issued in
theorem toNat_address : (base + (heap.start align).toUInt64).toNat =
    base.toNat + heap.start align := by
  have below : base.toNat + heap.start align < UInt64.size := by omega
  have narrow : (heap.start align).toUInt64.toNat = heap.start align :=
    Nat.mod_eq_of_lt (Nat.lt_of_le_of_lt (Nat.le_add_left _ _) below)
  rw [UInt64.toNat_add, narrow]
  exact Nat.mod_eq_of_lt below

/-- The next block is inside the arena and meets none of those before. -/
theorem hand (pos : 0 < align) :
    Issued base capacity (blocks ++ [⟨base + (heap.start align).toUInt64, size⟩])
      { heap with used := heap.start align + size } := by
  have address := toNat_address fits nonempty room
  have above := heap.used_le_start pos
  refine ⟨issued.based, issued.limited, room, fun block member => ?_, ?_⟩
  · rcases List.mem_append.mp member with early | new
    · exact (issued.inside block early).mono (Nat.le_trans above (Nat.le_add_right _ _))
    · cases List.mem_singleton.mp new
      exact ⟨by dsimp only; omega, by dsimp only; omega⟩
  · refine List.pairwise_append.mpr ⟨issued.disjoint, List.pairwise_singleton _ _, ?_⟩
    intro block early new member
    cases List.mem_singleton.mp member
    have below := (issued.inside block early).2
    exact .inl (by dsimp only; omega)

end

/-- Whatever is asked for, what has been handed out remains so. -/
theorem answer (fits : base.toNat + capacity ≤ UInt64.size) {request : Request}
    (valid : request.Valid) : Issued base capacity (blocks ++ (heap.answer request).1.toList)
      (heap.answer request).2 := by
  cases request with
  | release offset => rwa [Heap.answer, release, Option.toList_none, List.append_nil]
  | block size align =>
    obtain ⟨nonempty, power⟩ := valid
    rcases Nat.lt_or_ge capacity (heap.start align + size) with lacking | room
    · rwa [issued.answer_refused lacking, Option.toList_none, List.append_nil]
    · rw [issued.answer_handed room]
      exact issued.hand fits nonempty room (Nat.pos_of_isPowerOfTwo power)

theorem answerAll (fits : base.toNat + capacity ≤ UInt64.size) {requests : List Request}
    (valid : ∀ request ∈ requests, request.Valid) :
    Issued base capacity (blocks ++ (Heap.answerAll requests heap).1)
      (Heap.answerAll requests heap).2 := by
  induction requests generalizing blocks heap with
  | nil => rwa [Heap.answerAll, List.append_nil]
  | cons request later ih =>
    have next := issued.answer fits (valid request List.mem_cons_self)
    have rest := ih next fun request member => valid request (List.mem_cons_of_mem _ member)
    rwa [List.append_assoc] at rest

end Issued

/-- Whatever has been asked of a heap before, its blocks lie in the arena and do not meet, and
what is used of it does not go beyond its end. A block is refused just when it does not fit
behind the first aligned address there is, and then nothing has changed, as when a block is
taken back. A block that is handed out is aligned, lies in the arena and meets none before. -/
theorem answerAll_sound (fits : base.toNat + capacity ≤ UInt64.size) {requests : List Request}
    (valid : ∀ request ∈ requests, request.Valid) :
    let blocks := (answerAll requests (empty base (some capacity))).1
    let heap := (answerAll requests (empty base (some capacity))).2
    heap.used ≤ capacity ∧ blocks.Pairwise Block.Disjoint ∧
      (∀ block ∈ blocks, block.Inside base capacity) ∧
      (∀ offset, heap.answer (.release offset) = (none, heap)) ∧
      ∀ size align, (Request.block size align).Valid →
        IsLeast { offset | heap.used ≤ offset ∧ align ∣ base.toNat + offset } (heap.start align) ∧
        ((heap.answer (.block size align)).1 = none ↔ capacity < heap.start align + size) ∧
        ((heap.answer (.block size align)).1 = none →
          (heap.answer (.block size align)).2 = heap) ∧
        ∀ block after, heap.answer (.block size align) = (some block, after) →
          block.size = size ∧ align ∣ block.address.toNat ∧ block.Inside base capacity ∧
            (∀ earlier ∈ blocks, earlier.Disjoint block) ∧
            heap.used ≤ after.used ∧ after.used ≤ capacity := by
  intro blocks heap
  -- What holds of any history of requests is carried by one invariant of the heap.
  have issued : Issued base capacity blocks heap := (Issued.empty base capacity).answerAll fits valid
  refine ⟨issued.within, issued.disjoint, fun block member =>
    (issued.inside block member).mono issued.within, fun _ => rfl, fun size align valid => ?_⟩
  obtain ⟨nonempty, power⟩ := valid
  have pos := Nat.pos_of_isPowerOfTwo power
  have least := heap.isLeast_start pos
  rw [issued.based] at least
  refine ⟨least, ?_⟩
  rcases Nat.lt_or_ge capacity (heap.start align + size) with lacking | room
  · rw [issued.answer_refused lacking]
    exact ⟨iff_of_true rfl lacking, fun _ => rfl, nofun⟩
  · have next := issued.hand fits nonempty room pos
    rw [issued.answer_handed room]
    refine ⟨iff_of_false nofun (Nat.not_lt.mpr room), nofun, fun block after handed => ?_⟩
    cases handed
    have member := List.mem_append_right blocks
      (List.mem_singleton_self (⟨base + (heap.start align).toUInt64, size⟩ : Block))
    refine ⟨rfl, ?_, (next.inside _ member).mono next.within, ?_, ?_, room⟩
    · dsimp only
      rw [Issued.toNat_address fits nonempty room]
      exact least.1.2
    · have apart := (List.pairwise_append.mp next.disjoint).2.2
      exact fun earlier early => apart earlier early _ (List.mem_singleton_self _)
    · exact Nat.le_trans (heap.used_le_start pos) (Nat.le_add_right _ _)

/-- Requests one of which fails, while a smaller one behind it fits, at an alignment that is
greater than that of the arena. -/
def mixedRequests : List Request :=
  [.block 1 1, .block 8 8, .block 0x1010 1, .release 0, .block 8 0x2000]

/-- The block after them fills the arena. -/
theorem answerAll_sound_mixed :
    let blocks := (answerAll mixedRequests (empty 0x1000 (some 0x1010))).1
    let heap := (answerAll mixedRequests (empty 0x1000 (some 0x1010))).2
    let last : Block := ⟨0x2008, 8⟩
    (0x1000 : UInt64).toNat + 0x1010 ≤ UInt64.size ∧
      (∀ request ∈ mixedRequests, request.Valid) ∧
      blocks = [⟨0x1000, 1⟩, ⟨0x1008, 8⟩, ⟨0x2000, 8⟩] ∧
      heap.answer (.block 8 8) = (some last, ⟨0x1000, some 0x1010, 0x1010⟩) ∧
      blocks.Pairwise Block.Disjoint ∧ 8 ∣ last.address.toNat ∧ last.Inside 0x1000 0x1010 ∧
      ∀ earlier ∈ blocks, earlier.Disjoint last := by
  intro blocks heap last
  have fits : (0x1000 : UInt64).toNat + 0x1010 ≤ UInt64.size := by decide
  have valid : ∀ request ∈ mixedRequests, request.Valid := by
    simp only [mixedRequests, List.forall_mem_cons, List.not_mem_nil, Request.Valid]
    exact ⟨⟨by decide, 0, rfl⟩, ⟨by decide, 3, rfl⟩, ⟨by decide, 0, rfl⟩, trivial,
      ⟨by decide, 13, rfl⟩, nofun⟩
  have filled : heap.answer (.block 8 8) = (some last, ⟨0x1000, some 0x1010, 0x1010⟩) := by
    decide +kernel
  obtain ⟨_, disjoint, _, _, answered⟩ := answerAll_sound fits valid
  obtain ⟨_, _, _, handed⟩ := answered 8 8 ⟨by decide, 3, rfl⟩
  obtain ⟨_, aligned, inside, apart, _⟩ := handed last _ filled
  exact ⟨fits, valid, by decide +kernel, filled, disjoint, aligned, inside, apart⟩

end ElfRelay.Heap
