import ElfRelay.Address
import Mathlib
/-! Rounding to page boundaries as arithmetic on natural numbers. Down, it gives
the greatest multiple of the page size; up, the least one, or the start of the
last page when the address space ends before. Everything else follows from
multiples of the page size being no closer together than a page. -/
namespace ElfRelay

theorem le_of_dvd_of_lt_add {p x y : Nat} (left : p ∣ x) (right : p ∣ y) (near : x < y + p) :
    x ≤ y := by
  obtain ⟨i, rfl⟩ := left
  obtain ⟨j, rfl⟩ := right
  rw [← Nat.mul_succ] at near
  exact Nat.mul_le_mul_left p (Nat.lt_succ_iff.mp (Nat.lt_of_mul_lt_mul_left near))

theorem dvd_roundUp (value align : Nat) : align ∣ roundUp value align :=
  Nat.dvd_mul_left align _

theorem roundUp_bounds (value : Nat) {align : Nat} (pos : 0 < align) :
    value ≤ roundUp value align ∧ roundUp value align < value + align := by
  have split := Nat.div_add_mod (value + align - 1) align
  have rest := Nat.mod_lt (value + align - 1) pos
  rw [roundUp, Nat.mul_comm]
  omega

theorem roundUp_mono {a b : Nat} (align : Nat) (le : a ≤ b) : roundUp a align ≤ roundUp b align :=
  Nat.mul_le_mul_right align (Nat.div_le_div_right (by omega))

namespace PageSize

variable (page : PageSize) {a b : UInt64}

theorem toNat_and_pred {size : UInt64} (pos : 0 < size.toNat) :
    (size &&& (size - 1)).toNat = size.toNat &&& (size.toNat - 1) := by
  have one : (1 : UInt64) ≤ size := UInt64.le_iff_toNat_le.mpr pos
  rw [UInt64.toNat_and, UInt64.toNat_sub_of_le _ _ one, UInt64.toNat_one]

/-- The test that a page size passes is that it is a power of two. -/
theorem powerOfTwo_iff {size : UInt64} :
    size ≠ 0 ∧ size &&& (size - 1) = 0 ↔ size.toNat.isPowerOfTwo := by
  constructor
  · rintro ⟨nonzero, clear⟩
    have positive : size.toNat ≠ 0 := fun zero => nonzero (UInt64.toNat_inj.mp zero)
    refine (Nat.and_sub_one_eq_zero_iff_isPowerOfTwo positive).mp ?_
    rw [← toNat_and_pred (Nat.pos_of_ne_zero positive), clear, UInt64.toNat_zero]
  · intro power
    have pos := Nat.pos_of_isPowerOfTwo power
    refine ⟨fun zero => by simp [zero] at pos, UInt64.toNat_inj.mp ?_⟩
    rw [toNat_and_pred pos]
    exact (Nat.and_sub_one_eq_zero_iff_isPowerOfTwo (Nat.ne_of_gt pos)).mpr power

theorem isPowerOfTwo : page.bytes.toNat.isPowerOfTwo := powerOfTwo_iff.mp page.powerOfTwo

theorem map_bytes_ofWord? (size : UInt64) :
    (ofWord? size).map bytes = Option.guard (·.toNat.isPowerOfTwo) size := by
  rw [ofWord?, Option.guard]
  by_cases accepted : size ≠ 0 ∧ size &&& (size - 1) = 0
  · simp [accepted, powerOfTwo_iff.mp accepted]
  · simp [accepted, mt powerOfTwo_iff.mpr accepted]

theorem pos : 0 < page.bytes.toNat := Nat.pos_of_isPowerOfTwo page.isPowerOfTwo

/-- The start of the last page of the address space. -/
def lastPage : Nat := UInt64.size - page.bytes.toNat

theorem lastPage_add : page.lastPage + page.bytes.toNat = UInt64.size :=
  Nat.sub_add_cancel (Nat.le_of_lt page.bytes.toNat_lt)

theorem dvd_size : page.bytes.toNat ∣ UInt64.size := by
  obtain ⟨k, eq⟩ := page.isPowerOfTwo
  have small := page.bytes.toNat_lt
  rw [eq] at small ⊢
  exact Nat.pow_dvd_pow 2 (Nat.le_of_lt ((Nat.pow_lt_pow_iff_right (by decide)).mp small))

theorem dvd_lastPage : page.bytes.toNat ∣ page.lastPage :=
  Nat.dvd_sub page.dvd_size (Nat.dvd_refl _)

theorem toNat_floor (a : UInt64) :
    (page.floor a).toNat = a.toNat / page.bytes.toNat * page.bytes.toNat := by
  obtain ⟨k, eq⟩ := page.isPowerOfTwo
  have one : (1 : UInt64) ≤ page.bytes := UInt64.le_iff_toNat_le.mpr page.pos
  have small := page.bytes.toNat_lt
  have bound : k < 64 := (Nat.pow_lt_pow_iff_right (by decide)).mp (eq ▸ small)
  rw [floor, UInt64.toNat_and, UInt64.toNat_not, UInt64.toNat_sub_of_le _ _ one, eq]
  apply Nat.eq_of_testBit_eq
  intro i
  have mask : (UInt64.size - 1 - (2 ^ k - (1 : UInt64).toNat)).testBit i =
      (decide (i < 64) && !decide (i < k)) := by
    rw [show UInt64.size - 1 - (2 ^ k - (1 : UInt64).toNat) = 2 ^ 64 - ((2 ^ k - 1) + 1) by
        simp [UInt64.size],
      Nat.testBit_two_pow_sub_succ (by have := Nat.pow_lt_pow_right (a := 2) (by decide) bound; omega),
      Nat.testBit_two_pow_sub_one]
  have high : 64 ≤ i → a.toNat.testBit i = false := fun le =>
    Nat.testBit_lt_two_pow (Nat.lt_of_lt_of_le a.toNat_lt (Nat.pow_le_pow_right (by decide) le))
  rw [Nat.testBit_and, mask, Nat.testBit_mul_two_pow, Nat.testBit_div_two_pow]
  by_cases low : i < k
  · simp [low, Nat.not_le.mpr low]
  · by_cases inside : i < 64
    · simp [low, inside, Nat.le_of_not_lt low]
    · have place : i - k + k = i := Nat.sub_add_cancel (Nat.le_of_not_lt low)
      simp [inside, place, high (Nat.le_of_not_lt inside)]

theorem toNat_ceil (a : UInt64) :
    (page.ceil a).toNat = min (roundUp a.toNat page.bytes.toNat) page.lastPage := by
  have one : (1 : UInt64) ≤ page.bytes := UInt64.le_iff_toNat_le.mpr page.pos
  have pos := page.pos
  have top := page.lastPage_add
  have unit : (1 : UInt64).toNat = 1 := rfl
  rw [ceil, toNat_floor, toNat_saturatingAdd, UInt64.toNat_sub_of_le _ _ one, unit]
  by_cases fits : a.toNat ≤ page.lastPage
  · rw [Nat.min_eq_left (by omega), roundUp, Nat.min_eq_left]
    · rw [show a.toNat + (page.bytes.toNat - 1) = a.toNat + page.bytes.toNat - 1 by omega]
    · exact le_of_dvd_of_lt_add (dvd_roundUp _ _) page.dvd_lastPage
        (by have := (roundUp_bounds a.toNat pos).2; rw [roundUp] at this; omega)
  · have above := (roundUp_bounds a.toNat pos).1
    rw [Nat.min_eq_right (by omega), Nat.min_eq_right (by omega)]
    have split := Nat.div_add_mod (UInt64.size - 1) page.bytes.toNat
    have rest := Nat.mod_lt (UInt64.size - 1) pos
    rw [Nat.mul_comm] at split
    apply Nat.le_antisymm
    · exact le_of_dvd_of_lt_add (Nat.dvd_mul_left _ _) page.dvd_lastPage (by omega)
    · exact le_of_dvd_of_lt_add page.dvd_lastPage (Nat.dvd_mul_left _ _) (by omega)

theorem dvd_floor (a : UInt64) : page.bytes.toNat ∣ (page.floor a).toNat := by
  rw [toNat_floor]; exact Nat.dvd_mul_left _ _

theorem floor_le (a : UInt64) : (page.floor a).toNat ≤ a.toNat := by
  rw [toNat_floor]; exact Nat.div_mul_le_self _ _

theorem lt_floor_add (a : UInt64) : a.toNat < (page.floor a).toNat + page.bytes.toNat := by
  have split := Nat.div_add_mod a.toNat page.bytes.toNat
  have rest := Nat.mod_lt a.toNat page.pos
  rw [toNat_floor, Nat.mul_comm]
  omega

theorem floor_mono (le : a ≤ b) : (page.floor a).toNat ≤ (page.floor b).toNat := by
  rw [toNat_floor, toNat_floor]
  exact Nat.mul_le_mul_right _ (Nat.div_le_div_right (UInt64.le_iff_toNat_le.mp le))

theorem dvd_ceil (a : UInt64) : page.bytes.toNat ∣ (page.ceil a).toNat := by
  rw [toNat_ceil]
  rcases Nat.le_total (roundUp a.toNat page.bytes.toNat) page.lastPage with le | le
  · rw [Nat.min_eq_left le]; exact dvd_roundUp _ _
  · rw [Nat.min_eq_right le]; exact page.dvd_lastPage

theorem ceil_le_lastPage (a : UInt64) : (page.ceil a).toNat ≤ page.lastPage := by
  rw [toNat_ceil]; exact Nat.min_le_right _ _

theorem ceil_lt_add (a : UInt64) : (page.ceil a).toNat < a.toNat + page.bytes.toNat := by
  rw [toNat_ceil]
  exact Nat.lt_of_le_of_lt (Nat.min_le_left _ _) (roundUp_bounds a.toNat page.pos).2

theorem le_ceil (fits : a.toNat ≤ page.lastPage) : a.toNat ≤ (page.ceil a).toNat := by
  rw [toNat_ceil]
  exact Nat.le_min.mpr ⟨(roundUp_bounds a.toNat page.pos).1, fits⟩

theorem lt_ceil_add (a : UInt64) : a.toNat < (page.ceil a).toNat + page.bytes.toNat := by
  have up := (roundUp_bounds a.toNat page.pos).1
  have top := page.lastPage_add
  have pos := page.pos
  have small : a.toNat < UInt64.size := a.toNat_lt
  rw [toNat_ceil]
  omega

/-- In the last page no boundary is left but its start. -/
theorem lastPage_le_ceil (above : page.lastPage < a.toNat) :
    page.lastPage ≤ (page.ceil a).toNat := by
  apply le_of_dvd_of_lt_add page.dvd_lastPage (page.dvd_ceil a)
  have := page.lt_ceil_add a
  omega

theorem ceil_mono (le : a ≤ b) : (page.ceil a).toNat ≤ (page.ceil b).toNat := by
  have := roundUp_mono page.bytes.toNat (UInt64.le_iff_toNat_le.mp le)
  rw [toNat_ceil, toNat_ceil]
  omega

theorem floor_le_ceil (le : a ≤ b) : (page.floor a).toNat ≤ (page.ceil b).toNat := by
  apply le_of_dvd_of_lt_add (page.dvd_floor a) (page.dvd_ceil b)
  have := page.floor_le a
  have := page.lt_ceil_add b
  have := UInt64.le_iff_toNat_le.mp le
  omega

def Aligned (page : PageSize) (address : UInt64) : Prop :=
  page.bytes.toNat ∣ address.toNat
  deriving Decidable

theorem aligned_floor (a : UInt64) : page.Aligned (page.floor a) := page.dvd_floor a

theorem Aligned.sub {page : PageSize} (left : page.Aligned a) (right : page.Aligned b) :
    page.Aligned (a - b) := by
  rw [Aligned, UInt64.toNat_sub]
  refine (Nat.dvd_mod_iff page.dvd_size).mpr (Nat.dvd_add ?_ left)
  exact Nat.dvd_sub page.dvd_size right

/-- Moving by whole pages commutes with rounding, also around the end of the address space. -/
theorem floor_add {page : PageSize} (aligned : page.Aligned a) (b : UInt64) :
    page.floor (a + b) = a + page.floor b := by
  obtain ⟨i, whole⟩ := aligned
  obtain ⟨n, size⟩ := page.dvd_size
  apply UInt64.toNat_inj.mp
  rw [toNat_floor, UInt64.toNat_add, UInt64.toNat_add, toNat_floor, whole,
    show 2 ^ 64 = page.bytes.toNat * n from size, Nat.mod_mul_right_div_self,
    Nat.mul_add_div page.pos, Nat.mul_comm (b.toNat / _), ← Nat.mul_add, Nat.mul_mod_mul_left,
    Nat.mul_comm]

theorem ceil_add {page : PageSize} (aligned : page.Aligned a) (fits : b.toNat ≤ page.lastPage)
    (moved : (a + b).toNat ≤ page.lastPage) : page.ceil (a + b) = a + page.ceil b := by
  have one : (1 : UInt64) ≤ page.bytes := UInt64.le_iff_toNat_le.mpr page.pos
  have less := UInt64.toNat_sub_of_le _ _ one
  have unit : (1 : UInt64).toNat = 1 := rfl
  have pos := page.pos
  have top := page.lastPage_add
  rw [ceil, ceil, saturatingAdd, saturatingAdd, if_pos (by omega), if_pos (by omega),
    UInt64.add_assoc, floor_add aligned]

/-- A boundary in the address space is at or below the start of the last page. -/
theorem le_lastPage {x : Nat} (dvd : page.bytes.toNat ∣ x) (small : x < UInt64.size) :
    x ≤ page.lastPage :=
  le_of_dvd_of_lt_add dvd page.dvd_lastPage (by rw [lastPage_add]; exact small)

theorem isGreatest_floor (a : UInt64) :
    IsGreatest { x | page.bytes.toNat ∣ x ∧ x ≤ a.toNat } (page.floor a).toNat := by
  refine ⟨⟨page.dvd_floor a, page.floor_le a⟩, fun x ⟨dvd, le⟩ => ?_⟩
  exact le_of_dvd_of_lt_add dvd (page.dvd_floor a) (Nat.lt_of_le_of_lt le (page.lt_floor_add a))

theorem isLeast_ceil (fits : a.toNat ≤ page.lastPage) :
    IsLeast { x | page.bytes.toNat ∣ x ∧ a.toNat ≤ x } (page.ceil a).toNat := by
  refine ⟨⟨page.dvd_ceil a, page.le_ceil fits⟩, fun x ⟨dvd, le⟩ => ?_⟩
  have near := page.ceil_lt_add a
  exact le_of_dvd_of_lt_add (page.dvd_ceil a) dvd (by omega)

theorem isGreatest_ceil (above : page.lastPage < a.toNat) :
    IsGreatest { x | page.bytes.toNat ∣ x ∧ x < UInt64.size } (page.ceil a).toNat := by
  refine ⟨⟨page.dvd_ceil a, (page.ceil a).toNat_lt⟩, fun x ⟨dvd, small⟩ => ?_⟩
  exact Nat.le_trans (page.le_lastPage dvd small) (page.lastPage_le_ceil above)

theorem floor_of_aligned {page : PageSize} (aligned : page.Aligned a) : page.floor a = a :=
  UInt64.toNat_inj.mp (Nat.le_antisymm (page.floor_le a)
    ((page.isGreatest_floor a).2 ⟨aligned, Nat.le_refl _⟩))

theorem ceil_of_aligned {page : PageSize} (aligned : page.Aligned a) : page.ceil a = a := by
  have least := page.isLeast_ceil (page.le_lastPage aligned a.toNat_lt)
  exact UInt64.toNat_inj.mp (Nat.le_antisymm (least.2 ⟨aligned, Nat.le_refl _⟩) least.1.2)

/-- The page sizes are the powers of two. Rounding down gives the greatest multiple of the
page size that is not above an address, rounding up the least one that is not below it or,
where the address space ends before that, the greatest one there is. Both keep the order and
leave multiples alone, and no address is rounded up to less than a lower one is rounded down
to. Away from the end of the address space both commute with moving by whole pages. -/
theorem rounds_to_multiples :
    (∀ size : UInt64,
      (ofWord? size).map bytes = if size.toNat.isPowerOfTwo then some size else none) ∧
    ∀ page : PageSize,
      (∀ a, IsGreatest { x | page.bytes.toNat ∣ x ∧ x ≤ a.toNat } (page.floor a).toNat) ∧
      (∀ a, (∃ x < UInt64.size, page.bytes.toNat ∣ x ∧ a.toNat ≤ x) →
        IsLeast { x | page.bytes.toNat ∣ x ∧ a.toNat ≤ x } (page.ceil a).toNat) ∧
      (∀ a, (¬ ∃ x < UInt64.size, page.bytes.toNat ∣ x ∧ a.toNat ≤ x) →
        IsGreatest { x | page.bytes.toNat ∣ x ∧ x < UInt64.size } (page.ceil a).toNat) ∧
      (∀ a b, a ≤ b →
        page.floor a ≤ page.floor b ∧ page.ceil a ≤ page.ceil b ∧ page.floor a ≤ page.ceil b) ∧
      (∀ a, page.floor (page.floor a) = page.floor a ∧ page.ceil (page.ceil a) = page.ceil a) ∧
      (∀ a b, page.Aligned b → a.toNat + b.toNat + page.bytes.toNat < UInt64.size →
        page.floor (a + b) = page.floor a + b ∧ page.ceil (a + b) = page.ceil a + b) := by
  refine ⟨fun size => ?_, fun page => ⟨page.isGreatest_floor, fun a => ?_, fun a past => ?_,
    fun a b le => ⟨?_, ?_, ?_⟩, fun a => ⟨?_, ?_⟩, fun a b aligned small => ?_⟩⟩
  · rw [map_bytes_ofWord?, Option.guard]
    simp only [decide_eq_true_eq]
  · rintro ⟨x, small, dvd, le⟩
    exact page.isLeast_ceil (Nat.le_trans le (page.le_lastPage dvd small))
  · refine page.isGreatest_ceil (Nat.lt_of_not_le fun le => past ?_)
    have top := page.lastPage_add
    have pos := page.pos
    exact ⟨page.lastPage, by omega, page.dvd_lastPage, le⟩
  · exact UInt64.le_iff_toNat_le.mpr (page.floor_mono le)
  · exact UInt64.le_iff_toNat_le.mpr (page.ceil_mono le)
  · exact UInt64.le_iff_toNat_le.mpr (page.floor_le_ceil le)
  · exact floor_of_aligned (page.dvd_floor a)
  · exact ceil_of_aligned (page.dvd_ceil a)
  · have top := page.lastPage_add
    have sum : (b + a).toNat = b.toNat + a.toNat :=
      Nat.mod_eq_of_lt (show b.toNat + a.toNat < UInt64.size by omega)
    rw [UInt64.add_comm a, UInt64.add_comm _ b, UInt64.add_comm _ b]
    exact ⟨floor_add aligned a, ceil_add aligned (by omega) (by omega)⟩

/-- An address space of two pages, and an address in the upper one. -/
theorem rounds_to_multiples_half :
    ∃ page, ofWord? 0x8000000000000000 = some page ∧
      (¬ ∃ x < UInt64.size, page.bytes.toNat ∣ x ∧ (0x8000000000000001 : UInt64).toNat ≤ x) ∧
      IsGreatest { x | page.bytes.toNat ∣ x ∧ x < UInt64.size }
        (page.ceil 0x8000000000000001).toNat ∧
      page.ceil 0x8000000000000001 = 0x8000000000000000 := by
  have past : ¬ ∃ x < UInt64.size, 0x8000000000000000 ∣ x ∧ 0x8000000000000001 ≤ x := by
    rintro ⟨_, small, ⟨i, rfl⟩, le⟩
    rw [UInt64.size] at small
    omega
  refine ⟨⟨0x8000000000000000, by decide⟩, rfl, past, ?_, by decide⟩
  exact (rounds_to_multiples.2 _).2.2.1 0x8000000000000001 past

end PageSize
end ElfRelay
