/-! Ranges of addresses, each given by its first address and its length, that
wrap around the end of the address space. Whether one range is part of another
or apart from it is read off the distances between their first addresses. -/
namespace ElfRelay.Memory

theorem toNat_offset (start : UInt64) {i : Nat} (small : i < UInt64.size) :
    (start + i.toUInt64 - start).toNat = i := by
  rw [UInt64.add_comm, UInt64.add_sub_cancel]
  exact Nat.mod_eq_of_lt small

theorem add_offset (start : UInt64) (i j : Nat) :
    start + i.toUInt64 + j.toUInt64 = start + (i + j).toUInt64 := by
  rw [UInt64.add_assoc]
  exact congrArg (start + ·) (UInt64.ofNat_add i j).symm

/-- Whether the `length` bytes at `start` are among the `size` bytes at `first`. -/
def Covers (first : UInt64) (size : Nat) (start : UInt64) (length : Nat) : Prop :=
  (start - first).toNat + length ≤ size ∧ (start - first).toNat + length ≤ UInt64.size
  deriving Decidable

/-- Whether two ranges have no address in common: neither starts in the other. -/
def Apart (first : UInt64) (size : Nat) (start : UInt64) (length : Nat) : Prop :=
  size ≤ (start - first).toNat ∧ length ≤ (first - start).toNat
  deriving Decidable

theorem Covers.inside {first start address : UInt64} {size length : Nat}
    (covers : Covers first size start length) (inside : (address - start).toNat < length) :
    (address - first).toNat = (start - first).toNat + (address - start).toNat := by
  have bound := covers.2
  have := first.toNat_lt
  have := start.toNat_lt
  have := address.toNat_lt
  simp only [UInt64.toNat_sub, UInt64.size] at *
  omega

theorem Covers.outside {first start address : UInt64} {size length : Nat}
    (covers : Covers first size start length) (outside : ¬ (address - start).toNat < length) :
    (address - first).toNat < (start - first).toNat ∨
      (start - first).toNat + length ≤ (address - first).toNat := by
  have bound := covers.2
  have := first.toNat_lt
  have := start.toNat_lt
  have := address.toNat_lt
  simp only [UInt64.toNat_sub, UInt64.size] at *
  omega

theorem Apart.symm {first start : UInt64} {size length : Nat}
    (apart : Apart first size start length) : Apart start length first size :=
  ⟨apart.2, apart.1⟩

theorem Apart.not_both {first start address : UInt64} {size length : Nat}
    (apart : Apart first size start length) (inside : (address - start).toNat < length) :
    ¬ (address - first).toNat < size := by
  have below := apart.1
  have above := apart.2
  have := first.toNat_lt
  have := start.toNat_lt
  have := address.toNat_lt
  simp only [UInt64.toNat_sub] at *
  omega

theorem Apart.shrink {first start : UInt64} {size length count width : Nat}
    (apart : Apart first size start length) (smaller : count ≤ size) (narrower : width ≤ length) :
    Apart first count start width :=
  ⟨Nat.le_trans smaller apart.1, Nat.le_trans narrower apart.2⟩

theorem Apart.part {first start : UInt64} {size length count offset width : Nat}
    (apart : Apart first size start length) (smaller : count ≤ size)
    (inside : offset + width ≤ length) (nonempty : 0 < width) :
    Apart first count (start + offset.toUInt64) width := by
  obtain ⟨above, below⟩ := apart
  have narrow : offset.toUInt64.toNat = offset := by
    refine Nat.mod_eq_of_lt (Nat.lt_of_lt_of_le ?_ (Nat.le_of_lt (first - start).toNat_lt))
    omega
  have := first.toNat_lt
  have := start.toNat_lt
  simp only [Apart, UInt64.toNat_sub, UInt64.toNat_add, narrow] at *
  omega

theorem apart_behind (base : UInt64) {i j size width : Nat} (behind : i + size ≤ j)
    (inside : j + width ≤ UInt64.size) (first : 0 < size) (second : 0 < width) :
    Apart (base + i.toUInt64) size (base + j.toUInt64) width := by
  simp only [UInt64.size] at inside
  have low : i.toUInt64.toNat = i := Nat.mod_eq_of_lt (by omega)
  have high : j.toUInt64.toNat = j := Nat.mod_eq_of_lt (by omega)
  have := base.toNat_lt
  simp only [Apart, UInt64.toNat_sub, UInt64.toNat_add, low, high] at *
  omega

/-- Where an address is that is in one of some words, which do not run into each other
around the address space. -/
theorem distance_word {start address : UInt64} {count k : Nat} (fits : 8 * count ≤ UInt64.size)
    (listed : k < count) (inside : (address - (start + 8 * k.toUInt64)).toNat < 8) :
    (address - start).toNat = 8 * k + (address - (start + 8 * k.toUInt64)).toNat := by
  have place : (8 * k.toUInt64).toNat = 8 * k := by
    have bound : k < UInt64.size := by omega
    have small : k.toUInt64.toNat = k := Nat.mod_eq_of_lt bound
    rw [UInt64.toNat_mul, small]
    exact Nat.mod_eq_of_lt (Nat.lt_of_lt_of_le (Nat.mul_lt_mul_of_pos_left listed (by decide)) fits)
  have := address.toNat_lt
  have := start.toNat_lt
  simp only [UInt64.toNat_sub, UInt64.toNat_add, place, UInt64.size] at *
  omega

end ElfRelay.Memory
