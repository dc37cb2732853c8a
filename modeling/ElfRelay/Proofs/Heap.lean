import ElfRelay.Proofs.PageRounding
import ElfRelay.Proofs.Run
/-! What a request takes from the heap: room behind everything handed out before,
and within the arena. Nothing else of the machine changes. -/
namespace ElfRelay

namespace Heap

/-- Whether an address is in what was handed out, or skipped, between two states of a heap. -/
def HandedOut (before after : Heap) (address : UInt64) : Prop :=
  ∃ offset, before.used ≤ offset ∧ offset < after.used ∧ address = before.base + offset.toUInt64

structure Later (before after : Heap) : Prop where
  base : after.base = before.base
  capacity : after.capacity = before.capacity
  used : before.used ≤ after.used

theorem Later.refl (heap : Heap) : heap.Later heap := ⟨rfl, rfl, Nat.le_refl _⟩

theorem Later.trans {a b c : Heap} (first : a.Later b) (second : b.Later c) : a.Later c :=
  ⟨second.base.trans first.base, second.capacity.trans first.capacity,
    Nat.le_trans first.used second.used⟩

theorem HandedOut.mono {first before after last : Heap} {address : UInt64}
    (early : first.Later before) (late : after.Later last) (handed : before.HandedOut after address) :
    first.HandedOut last address := by
  obtain ⟨offset, low, high, rfl⟩ := handed
  have := early.used
  have := late.used
  exact ⟨offset, by omega, by omega, by rw [early.base]⟩

theorem HandedOut.of_inside {before after : Heap} {start length : Nat} {address : UInt64}
    (low : before.used ≤ start) (high : start + length ≤ after.used)
    (inside : (address - (before.base + start.toUInt64)).toNat < length) :
    before.HandedOut after address := by
  refine ⟨start + (address - (before.base + start.toUInt64)).toNat, by omega, by omega, ?_⟩
  have split (i j : Nat) : (i + j).toUInt64 = i.toUInt64 + j.toUInt64 := UInt64.ofNat_add i j
  rw [split, show (address - (before.base + start.toUInt64)).toNat.toUInt64 =
    address - (before.base + start.toUInt64) from UInt64.ofNat_toNat]
  grind

theorem HandedOut.bounds {before after : Heap} {address : UInt64}
    (fits : before.base.toNat + after.used ≤ UInt64.size) (handed : before.HandedOut after address) :
    before.base.toNat ≤ address.toNat ∧ address.toNat < before.base.toNat + after.used := by
  obtain ⟨offset, _, high, rfl⟩ := handed
  have below : before.base.toNat + offset < UInt64.size := by omega
  have small : offset < UInt64.size := by omega
  have narrow : offset.toUInt64.toNat = offset := Nat.mod_eq_of_lt small
  rw [UInt64.toNat_add, narrow, Nat.mod_eq_of_lt below]
  omega

theorem used_le_start (heap : Heap) {align : Nat} (pos : 0 < align) :
    heap.used ≤ heap.start align := by
  have above := (roundUp_bounds (heap.base.toNat + heap.used) pos).1
  rw [start]
  omega

theorem start_le (heap : Heap) {align : Nat} (pos : 0 < align) :
    heap.start align ≤ heap.used + (align - 1) := by
  have below := (roundUp_bounds (heap.base.toNat + heap.used) pos).2
  rw [start]
  omega

theorem start_one (heap : Heap) : heap.start 1 = heap.used := by simp [start, roundUp]

theorem fits_of_le {heap : Heap} {stop later : Nat} (le : stop ≤ later)
    (fits : heap.fits later = true) : heap.fits stop = true := by
  unfold Heap.fits at fits ⊢
  split at fits
  · simp only [decide_eq_true_eq] at fits ⊢
    exact Nat.le_trans le fits
  · rfl

theorem not_fits_of_le {heap other : Heap} {stop later : Nat}
    (same : other.capacity = heap.capacity) (le : stop ≤ later)
    (lacking : heap.fits stop = false) : other.fits later = false := by
  unfold Heap.fits at lacking ⊢
  rw [same]
  split at lacking
  · simp only [decide_eq_false_iff_not, Nat.not_le] at lacking ⊢
    exact Nat.lt_of_lt_of_le lacking le
  · contradiction

end Heap

/-- The machine after a request: nothing but the heap has changed. -/
def Machine.Requested (before after : Machine) : Prop :=
  ∃ heap, before.heap.Later heap ∧ after = { before with heap := heap }

namespace Program

variable {size align : Nat} {m : Machine}

theorem reserve_cases (size align : Nat) (m : Machine) :
    (size = 0 ∧ (reserve size align).value? m = some (some m.heap.base) ∧
      (reserve size align).last m = m) ∨
    (size ≠ 0 ∧
      (reserve size align).value? m =
        some (some (m.heap.base + (m.heap.start align).toUInt64)) ∧
      (reserve size align).last m =
        { m with heap := { m.heap with used := m.heap.start align + size } }) ∨
    ((reserve size align).value? m = some none ∧ (reserve size align).last m = m) := by
  rw [reserve, value?_modifyGet, last_modifyGet]
  by_cases empty : size = 0
  · exact .inl ⟨empty, by rw [if_pos empty], by rw [if_pos empty]⟩
  · rw [if_neg empty, Heap.allocate?]
    dsimp only
    by_cases fits : m.heap.fits (m.heap.start align + size) = true
    · rw [if_pos fits]
      exact .inr (.inl ⟨empty, rfl, rfl⟩)
    · rw [if_neg fits]
      exact .inr (.inr ⟨rfl, rfl⟩)

theorem requested_reserve (size : Nat) (pos : 0 < align) :
    Within Machine.Requested (reserve size align) := by
  intro m
  have above := m.heap.used_le_start pos
  rcases reserve_cases size align m with ⟨_, _, last⟩ | ⟨_, _, last⟩ | ⟨_, last⟩
  · exact ⟨m.heap, .refl _, last⟩
  · refine ⟨{ m.heap with used := m.heap.start align + size }, ⟨rfl, rfl, ?_⟩, last⟩
    exact Nat.le_trans above (Nat.le_add_right _ _)
  · exact ⟨m.heap, .refl _, last⟩

theorem within_reserve {step : Machine → Machine → Prop}
    (heap : ∀ (m : Machine) (heap : Heap), m.heap.Later heap → step m { m with heap := heap })
    (size : Nat) (pos : 0 < align) : Within step (reserve size align) := by
  intro m
  obtain ⟨after, later, last⟩ := requested_reserve size pos m
  rw [last]
  exact heap m after later

theorem reserve_succeeds {address : UInt64} (nonempty : size ≠ 0)
    (reserved : (reserve size align).value? m = some (some address)) :
    address = m.heap.base + (m.heap.start align).toUInt64 ∧
      (reserve size align).last m =
        { m with heap := { m.heap with used := m.heap.start align + size } } := by
  rcases reserve_cases size align m with ⟨empty, _⟩ | ⟨_, value, last⟩ | ⟨value, _⟩
  · contradiction
  · rw [value] at reserved
    cases reserved
    exact ⟨rfl, last⟩
  · rw [value] at reserved
    cases reserved

theorem reserve_of_fits (fits : m.heap.fits (m.heap.used + size) = true) :
    ∃ address, (reserve size 1).value? m = some (some address) ∧
      (reserve size 1).last m =
        { m with heap := { m.heap with used := m.heap.used + size } } := by
  rw [reserve, value?_modifyGet, last_modifyGet]
  by_cases empty : size = 0
  · subst empty
    exact ⟨_, rfl, rfl⟩
  · rw [if_neg empty, Heap.allocate?, Heap.start_one]
    dsimp only
    rw [if_pos fits]
    exact ⟨_, rfl, rfl⟩

theorem run_reserve (size : Nat) (pos : 0 < align) :
    ∃ room heap, reserve size align m = .ok room { m with heap := heap } ∧
      heap.capacity = m.heap.capacity ∧ heap.used ≤ m.heap.start align + size ∧
      (room = none → m.heap.fits (m.heap.start align + size) = false) := by
  have above := m.heap.used_le_start pos
  have ran {room : Option UInt64} {heap : Heap} (value : (reserve size align).value? m = some room)
      (last : (reserve size align).last m = { m with heap := heap }) :
      reserve size align m = .ok room { m with heap := heap } := by
    rw [eq_ok_of_value? value, last]
  rcases reserve_cases size align m with ⟨_, value, last⟩ | ⟨_, value, last⟩ | ⟨value, last⟩
  · exact ⟨_, m.heap, ran value last, rfl, by omega, nofun⟩
  · exact ⟨_, _, ran value last, rfl, Nat.le_refl _, nofun⟩
  · refine ⟨_, m.heap, ran value last, rfl, by omega, fun _ => ?_⟩
    refine Bool.eq_false_of_not_eq_true fun fits => ?_
    rw [reserve, value?_modifyGet, Heap.allocate?] at value
    rw [if_pos fits] at value
    by_cases empty : size = 0
    · rw [if_pos empty] at value
      cases value
    · rw [if_neg empty] at value
      cases value

theorem value?_reserve (size align : Nat) (m : Machine) :
    ∃ room, (reserve size align).value? m = some room := by
  rcases reserve_cases size align m with ⟨_, value, _⟩ | ⟨_, value, _⟩ | ⟨value, _⟩ <;>
    exact ⟨_, value⟩

end Program
end ElfRelay
