import ElfRelay.Memory.Bulk
import ElfRelay.Memory.Laws
/-! Copies of ranges that may overlap. A copy in one direction gives every byte that the
source held before if it never comes to a byte that it has replaced, which depends on the
distance from one range to the other alone. -/
namespace ElfRelay.Memory

variable {destination source address : UInt64} {length : Nat}

theorem read_set (m : Memory) (place address : UInt64) (byte : UInt8) :
    (m.set place byte).read address = if address = place then byte else m.read address := by
  have here : (address - place).toNat < 1 ↔ address = place := by
    rw [Nat.lt_one_iff]
    constructor
    · intro zero
      have none : address - place = 0 := UInt64.toNat_inj.mp zero
      grind
    · rintro rfl
      rw [UInt64.sub_self, UInt64.toNat_zero]
  rw [set, fill, read_overlay]
  exact if_congr here rfl rfl

/-- An address that is not the first one of a range is one closer to the second one. -/
theorem distance_next (other : address ≠ destination) :
    (address - destination).toNat = (address - (destination + 1)).toNat + 1 := by
  have apart : address.toNat ≠ destination.toNat := fun same => other (UInt64.toNat_inj.mp same)
  have := address.toNat_lt
  have := destination.toNat_lt
  simp only [UInt64.toNat_sub, UInt64.toNat_add, UInt64.toNat_one]
  omega

/-- Upwards, a copy gives what the source held before, unless the destination starts within
the source, behind its first byte. -/
theorem read_copyUp (clear : destination = source ∨ length ≤ (destination - source).toNat)
    (small : length ≤ UInt64.size) (m : Memory) (address : UInt64) :
    (m.copyUp destination source length).read address =
      if (address - destination).toNat < length then m.read (source + (address - destination))
      else m.read address := by
  induction length generalizing m destination source with
  | zero => rfl
  | succ length ih =>
    have onwards : destination + 1 = source + 1 ∨
        length ≤ (destination + 1 - (source + 1)).toNat := by
      rw [show destination + 1 - (source + 1) = destination - source by grind]
      exact clear.imp (congrArg (· + 1)) fun far => by omega
    rw [copyUp, ih onwards (by omega), read_set, read_set]
    by_cases first : address = destination
    · subst first
      have last : (address - (address + 1)).toNat = UInt64.size - 1 := by
        rw [show address - (address + 1) = 0 - 1 by grind]
        rfl
      rw [last, if_neg (by omega), if_pos rfl, UInt64.sub_self, UInt64.toNat_zero,
        if_pos (Nat.succ_pos length), UInt64.add_zero]
    · have nearer := distance_next first
      -- The byte that is read next is behind the one that has been replaced.
      have intact (inside : (address - destination).toNat < length + 1) :
          source + (address - destination) ≠ destination := by
        intro replaced
        have same : address - destination = destination - source := by grind
        rcases clear with rfl | far
        · exact first (by grind)
        · rw [same] at inside
          omega
      rw [show source + 1 + (address - (destination + 1)) = source + (address - destination) by
        grind, if_neg first]
      by_cases inside : (address - destination).toNat < length + 1
      · rw [if_pos (by omega), if_neg (intact inside), if_pos inside]
      · rw [if_neg (by omega), if_neg inside]

/-- Downwards, a copy gives what the source held before, unless the source starts within the
destination, behind its first byte. -/
theorem read_copyDown (clear : destination = source ∨ length ≤ (source - destination).toNat)
    (small : length ≤ UInt64.size) (m : Memory) (address : UInt64) :
    (m.copyDown destination source length).read address =
      if (address - destination).toNat < length then m.read (source + (address - destination))
      else m.read address := by
  induction length generalizing m with
  | zero => rfl
  | succ length ih =>
    have place : (destination + length.toUInt64 - destination).toNat = length :=
      toNat_offset destination (by omega)
    have last : address = destination + length.toUInt64 ↔
        (address - destination).toNat = length := by
      constructor
      · rintro rfl
        exact place
      · intro far
        have same : address - destination = destination + length.toUInt64 - destination :=
          UInt64.toNat_inj.mp (far.trans place.symm)
        grind
    dsimp only [copyDown]
    rw [ih (clear.imp_right fun far => by omega) (by omega), read_set, read_set]
    by_cases within : (address - destination).toNat < length
    · -- The byte that is read next is before the one that has been replaced.
      have intact : source + (address - destination) ≠ destination + length.toUInt64 := by
        intro replaced
        rcases clear with rfl | far
        · have := last.mp (by grind)
          omega
        · have same : source - destination =
              destination + length.toUInt64 - destination - (address - destination) := by grind
          rw [same, UInt64.toNat_sub_of_le _ _ (UInt64.le_iff_toNat_le.mpr (by omega))] at far
          omega
      rw [if_pos within, if_neg intact, if_pos (by omega)]
    · rw [if_neg within]
      by_cases here : address = destination + length.toUInt64
      · have distance := last.mp here
        rw [if_pos here, if_pos (by omega), here]
        congr 1
        grind
      · have other := mt last.mpr here
        rw [if_neg here, if_neg (by omega)]

section
variable (sourceFits : source.toNat + length ≤ UInt64.size)
  (destinationFits : destination.toNat + length ≤ UInt64.size) (m : Memory)
include sourceFits destinationFits

/-- The direction that a move takes never comes to a byte that it has replaced. -/
theorem read_move (address : UInt64) :
    (m.move destination source length).2.read address =
      if (address - destination).toNat < length then m.read (source + (address - destination))
      else m.read address := by
  have small : length ≤ UInt64.size := by omega
  have := source.toNat_lt
  have := destination.toNat_lt
  simp only [UInt64.size] at sourceFits destinationFits
  rw [move]
  split
  · next upwards =>
    refine read_copyUp ?_ small m address
    rw [← UInt64.toNat_inj, UInt64.toNat_sub]
    have := UInt64.le_iff_toNat_le.mp upwards
    omega
  · next downwards =>
    refine read_copyDown (.inr ?_) small m address
    rw [UInt64.toNat_sub]
    have := mt UInt64.le_iff_toNat_le.mpr downwards
    omega

/-- A move copies as if through a buffer, whether or not the ranges overlap. Every byte of
the destination is the one that the source held before, every other byte is left alone, and
the destination is given back. Where the ranges are apart, or the destination is at or below
the source, copying upwards is the same. -/
theorem move_copies :
    (m.move destination source length).1 = destination ∧
    (∀ i < length, (m.move destination source length).2.read (destination + i.toUInt64) =
      m.read (source + i.toUInt64)) ∧
    (∀ address : UInt64,
      address.toNat < destination.toNat ∨ destination.toNat + length ≤ address.toNat →
      (m.move destination source length).2.read address = m.read address) ∧
    (Apart destination length source length ∨ destination ≤ source →
      (m.copy destination source length).1 = (m.move destination source length).1 ∧
      ∀ address, (m.copy destination source length).2.read address =
        (m.move destination source length).2.read address) := by
  have moved := read_move sourceFits destinationFits m
  have given : (m.move destination source length).1 = destination := by
    rw [move]
    split <;> rfl
  refine ⟨given, fun i inside => ?_, fun address outside => ?_, fun agree => ⟨given.symm, ?_⟩⟩
  · have place := toNat_offset destination (i := i) (by omega)
    rw [moved, if_pos (by omega)]
    congr 1
    grind
  · have := address.toNat_lt
    have := destination.toNat_lt
    simp only [UInt64.size] at destinationFits
    rw [moved, UInt64.toNat_sub, if_neg (by omega)]
  · intro address
    rcases agree with apart | upwards
    · rw [moved]
      exact read_copyUp (.inr apart.symm.1) (by omega) m address
    · rw [move, if_pos upwards]

end

/-- Some text that is moved upwards by less than its length, where a copy would repeat it. -/
theorem move_copies_overlapping :
    let m := zero.writeBytes 0x2000 (ascii "abcdefgh")
    (0x2000 : UInt64).toNat + 4 ≤ UInt64.size ∧ (0x2002 : UInt64).toNat + 4 ≤ UInt64.size ∧
      (m.move 0x2002 0x2000 4).1 = 0x2002 ∧
      (∀ i < 4, (m.move 0x2002 0x2000 4).2.read (0x2002 + i.toUInt64) =
        m.read (0x2000 + i.toUInt64)) ∧
      (∀ address : UInt64, address.toNat < 0x2002 ∨ 0x2002 + 4 ≤ address.toNat →
        (m.move 0x2002 0x2000 4).2.read address = m.read address) ∧
      (m.move 0x2002 0x2000 4).2.readBytes 0x2000 8 = ascii "ababcdgh" ∧
      (m.copy 0x2002 0x2000 4).2.readBytes 0x2000 8 = ascii "abababgh" := by
  intro m
  have sourceFits : (0x2000 : UInt64).toNat + 4 ≤ UInt64.size := by decide
  have destinationFits : (0x2002 : UInt64).toNat + 4 ≤ UInt64.size := by decide
  obtain ⟨given, inside, outside, _⟩ := move_copies sourceFits destinationFits m
  exact ⟨sourceFits, destinationFits, given, inside, outside, by decide +kernel, by decide +kernel⟩

end ElfRelay.Memory
