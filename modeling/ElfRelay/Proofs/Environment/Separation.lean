import ElfRelay.Proofs.Environment
/-! Environments each of whose strings has memory of its own. Writing a text over a string
within its memory and pointing a slot at a string that is apart from the environment set one
entry, and the strings have memory of their own again; the memory of a string that was
written over ends where its text now ends. -/
namespace ElfRelay

open Memory (Agree Apart)

namespace Environment

/-- Whether the slots point at strings and end in a null pointer, and no string shares memory
with another one or with the pointers. -/
structure Separate (environment : Environment) (m : Memory) : Prop where
  fits : 8 * (environment.count + 1) ≤ UInt64.size
  present : ∀ slot < environment.count, environment.entryAddress m slot ≠ 0
  null : environment.entryAddress m environment.count = 0
  slots : ∀ slot < environment.count,
    Apart environment.slots (8 * (environment.count + 1)) (environment.entryAddress m slot)
      (m.textSize (environment.entryAddress m slot))
  entries : ∀ slot < environment.count, ∀ other < environment.count, other ≠ slot →
    Apart (environment.entryAddress m slot) (m.textSize (environment.entryAddress m slot))
      (environment.entryAddress m other) (m.textSize (environment.entryAddress m other))

structure Spare (environment : Environment) (m : Memory) (start : UInt64) : Prop where
  present : start ≠ 0
  slots : Apart environment.slots (8 * (environment.count + 1)) start (m.textSize start)
  entries : ∀ slot < environment.count,
    Apart (environment.entryAddress m slot) (m.textSize (environment.entryAddress m slot))
      start (m.textSize start)

def Occupies (environment : Environment) (m : Memory) (address : UInt64) : Prop :=
  environment.Contains m address ∨
    (address - environment.slotAddress environment.count).toNat < 8

namespace Separate

variable {environment : Environment} {m n : Memory} {slot other : Nat} {start address : UInt64}
  {text : Bytes} (separate : environment.Separate m)
include separate

theorem viewed : ofAddress m environment.slots = environment := by
  have fits := separate.fits
  have count : m.pointerCount environment.slots = environment.count := by
    apply firstIndex_eq
    · simp only [UInt64.size] at fits ⊢
      omega
    · exact beq_iff_eq.mpr separate.null
    · intro slot listed
      exact beq_eq_false_iff_ne.mpr (separate.present slot listed)
  rw [ofAddress, count]

theorem unaliased : environment.Unaliased m where
  fits := by
    have := separate.fits
    omega
  slots slot listed := (separate.slots slot listed).shrink (by omega) (Nat.le_refl _)
  entries := separate.entries

theorem inside_slots (listed : slot ≤ environment.count)
    (pointer : (address - environment.slotAddress slot).toNat < 8) :
    (address - environment.slots).toNat < 8 * (environment.count + 1) := by
  have place := Memory.distance_word separate.fits (Nat.lt_succ_of_le listed) pointer
  rw [slotAddress] at pointer
  omega

theorem slot_unique (listed : slot ≤ environment.count) (listed' : other ≤ environment.count)
    (pointer : (address - environment.slotAddress slot).toNat < 8)
    (pointer' : (address - environment.slotAddress other).toNat < 8) : slot = other := by
  have place := Memory.distance_word separate.fits (Nat.lt_succ_of_le listed) pointer
  have place' := Memory.distance_word separate.fits (Nat.lt_succ_of_le listed') pointer'
  rw [slotAddress] at pointer pointer'
  omega

theorem not_text (listed : slot ≤ environment.count) (listed' : other < environment.count)
    (pointer : (address - environment.slotAddress slot).toNat < 8) :
    ¬ (address - environment.entryAddress m other).toNat <
      m.textSize (environment.entryAddress m other) := fun inside =>
  (separate.slots other listed').not_both inside (separate.inside_slots listed pointer)

/-- Strings that take no more memory than they did are as far from each other as they were. -/
theorem shrink
    (pointers : ∀ slot ≤ environment.count,
      environment.entryAddress n slot = environment.entryAddress m slot)
    (sizes : ∀ slot < environment.count, n.textSize (environment.entryAddress m slot) ≤
      m.textSize (environment.entryAddress m slot)) : environment.Separate n where
  fits := separate.fits
  present slot listed := by
    rw [pointers slot (Nat.le_of_lt listed)]
    exact separate.present slot listed
  null := by
    rw [pointers _ (Nat.le_refl _)]
    exact separate.null
  slots slot listed := by
    rw [pointers slot (Nat.le_of_lt listed)]
    exact (separate.slots slot listed).shrink (Nat.le_refl _) (sizes slot listed)
  entries slot listed other listed' different := by
    rw [pointers slot (Nat.le_of_lt listed), pointers other (Nat.le_of_lt listed')]
    exact (separate.entries slot listed other listed' different).shrink (sizes slot listed)
      (sizes other listed')

theorem kept (same : ∀ address, environment.Occupies m address → n.read address = m.read address) :
    environment.Separate n ∧ environment.entries n = environment.entries m := by
  have pointers : ∀ slot ≤ environment.count,
      environment.entryAddress n slot = environment.entryAddress m slot := by
    intro slot listed
    apply Agree.readWord
    intro address inside
    apply same
    rcases Nat.lt_or_eq_of_le listed with before | rfl
    · exact .inl ⟨slot, before, .inl inside⟩
    · exact .inr inside
  have texts : ∀ slot < environment.count, Agree m n (environment.entryAddress m slot)
      (m.textSize (environment.entryAddress m slot)) := by
    intro slot listed address inside
    exact same address (.inl ⟨slot, listed, .inr inside⟩)
  constructor
  · apply separate.shrink pointers
    intro slot listed
    exact Nat.le_of_eq (texts slot listed).textSize
  · apply List.map_congr_left
    intro slot member
    have listed := List.mem_range.mp member
    rw [entry, entry, pointers slot (Nat.le_of_lt listed)]
    exact (texts slot listed).string

/-- A text that is no longer than the string it is written over takes its place, up to its
first NUL. -/
theorem overwritten (listed : slot < environment.count)
    (fits : text.length ≤ (environment.entry m slot).length) :
    environment.Separate (m.writeString (environment.entryAddress m slot) text) ∧
      environment.entries (m.writeString (environment.entryAddress m slot) text) =
        (environment.entries m).set slot (text.takeWhile (· != 0)) := by
  have ends := separate.unaliased.stringLength_lt listed
  rw [entry, Memory.length_string] at fits
  have size : text.length < m.textSize (environment.entryAddress m slot) := Nat.lt_succ_of_le fits
  have outside : ∀ address, ¬ (address - environment.entryAddress m slot).toNat <
      m.textSize (environment.entryAddress m slot) →
      (m.writeString (environment.entryAddress m slot) text).read address = m.read address :=
    fun address => Memory.read_writeString_outside m size
  have pointers : ∀ other ≤ environment.count, environment.entryAddress
      (m.writeString (environment.entryAddress m slot) text) other =
        environment.entryAddress m other := by
    intro other inCount
    exact Agree.readWord fun address pointer =>
      outside address (separate.not_text inCount listed pointer)
  have small : text.length < UInt64.size := Nat.lt_of_le_of_lt fits ends
  constructor
  · apply separate.shrink pointers
    intro other inCount
    by_cases here : other = slot
    · subst here
      exact Nat.le_trans (Memory.textSize_writeString_le m _ small) size
    · have apart := separate.entries slot listed other inCount here
      exact Nat.le_of_eq (Agree.textSize fun address inside =>
        outside address (apart.not_both inside))
  · refine (Replaced.of_kept listed (fun address other different holds => ?_) ?_).entries
    · apply outside
      intro inside
      exact different (separate.unaliased.holds_unique holds ⟨listed, .inr inside⟩)
    · rw [entry, pointers slot (Nat.le_of_lt listed)]
      exact Memory.string_writeString_takeWhile m _ small

theorem moved (listed : slot < environment.count) (spare : environment.Spare m start)
    (here : environment.entryAddress n slot = start) (size : n.textSize start = m.textSize start)
    (pointers : ∀ other ≤ environment.count, other ≠ slot →
      environment.entryAddress n other = environment.entryAddress m other)
    (sizes : ∀ other < environment.count, other ≠ slot →
      n.textSize (environment.entryAddress m other) =
        m.textSize (environment.entryAddress m other)) : environment.Separate n where
  fits := separate.fits
  present other inCount := by
    by_cases changed : other = slot
    · rw [changed, here]
      exact spare.present
    · rw [pointers other (Nat.le_of_lt inCount) changed]
      exact separate.present other inCount
  null := by
    rw [pointers _ (Nat.le_refl _) (Nat.ne_of_gt listed)]
    exact separate.null
  slots other inCount := by
    by_cases changed : other = slot
    · rw [changed, here, size]
      exact spare.slots
    · rw [pointers other (Nat.le_of_lt inCount) changed, sizes other inCount changed]
      exact separate.slots other inCount
  entries first inCount second inCount' different := by
    by_cases changed : first = slot
    · have other := changed ▸ different
      rw [changed, here, size, pointers second (Nat.le_of_lt inCount') other,
        sizes second inCount' other]
      exact (spare.entries second inCount').symm
    · rw [pointers first (Nat.le_of_lt inCount) changed, sizes first inCount changed]
      by_cases changed' : second = slot
      · rw [changed', here, size]
        exact spare.entries first inCount
      · rw [pointers second (Nat.le_of_lt inCount') changed', sizes second inCount' changed']
        exact separate.entries first inCount second inCount' different

theorem replaced (listed : slot < environment.count) (spare : environment.Spare m start) :
    environment.Separate (m.writeWord (environment.slotAddress slot) start) ∧
      environment.entries (m.writeWord (environment.slotAddress slot) start) =
        (environment.entries m).set slot (m.string start) := by
  have outside : ∀ address, ¬ (address - environment.slotAddress slot).toNat < 8 →
      (m.writeWord (environment.slotAddress slot) start).read address = m.read address :=
    fun address => Memory.read_writeWord_outside m
  have here : environment.entryAddress (m.writeWord (environment.slotAddress slot) start) slot =
      start := Memory.readWord_writeWord m _ start
  have text : Agree m (m.writeWord (environment.slotAddress slot) start) start
      (m.textSize start) := fun address inside => outside address fun changed =>
    spare.slots.not_both inside (separate.inside_slots (Nat.le_of_lt listed) changed)
  constructor
  · apply separate.moved listed spare here text.textSize
    · intro other inCount different
      exact Agree.readWord fun address pointer => outside address fun changed =>
        different (separate.slot_unique inCount (Nat.le_of_lt listed) pointer changed)
    · intro other inCount _
      exact Agree.textSize fun address inside => outside address fun changed =>
        separate.not_text (Nat.le_of_lt listed) inCount changed inside
  · refine (Replaced.of_kept listed (fun address other different holds => ?_) ?_).entries
    · apply outside
      intro changed
      exact different (separate.unaliased.holds_unique holds ⟨listed, .inl changed⟩)
    · rw [entry, here]
      exact text.string

end Separate
end Environment

theorem StartupView.Unaliased.separate {m : Memory} {stackPointer : UInt64}
    (unaliased : (read m stackPointer).Unaliased m) :
    (read m stackPointer).environment.Separate m where
  fits := by
    have fits := unaliased.fits
    rw [Fits, wordCount] at fits
    omega
  present slot listed := entryAddress_ne_zero listed
  null := by
    have fits := unaliased.fits
    have found : m.pointerCount (read m stackPointer).environment.slots < UInt64.size / 8 := by
      change (read m stackPointer).environment.count < _
      rw [Fits, wordCount] at fits
      simp only [UInt64.size] at fits ⊢
      omega
    exact eq_of_beq (firstIndex_stops _ found)
  slots _ listed := unaliased.apart_slots (laid_read m stackPointer) listed
  entries := unaliased.entries

end ElfRelay
