import ElfRelay.Bytes
import Mathlib
/-! Little-endian words and parts of byte strings. Writing a number in `width` bytes and
reading it back gives the number modulo `256 ^ width`. A part of a part is a part, parts that
follow each other are one part together, and a part of two strings in a row that lies in one
of them is a part of it. -/
namespace ElfRelay

theorem littleEndian_toLittleEndian (width value : Nat) :
    littleEndian (toLittleEndian width value) = value % 256 ^ width := by
  induction width generalizing value with
  | zero => simp [toLittleEndian, littleEndian, Nat.mod_one]
  | succ width ih =>
    simp only [toLittleEndian, littleEndian, ih]
    rw [Nat.pow_succ, Nat.mul_comm (256 ^ width) 256, Nat.mod_mul]
    simp [UInt8.toNat_ofNat']

theorem littleEndian_lt (bytes : Bytes) : littleEndian bytes < 256 ^ bytes.length := by
  induction bytes with
  | nil => simp [littleEndian]
  | cons byte rest ih =>
    have := byte.toNat_lt
    simp only [littleEndian, List.length_cons, Nat.pow_succ]
    omega

theorem toLittleEndian_littleEndian (bytes : Bytes) :
    toLittleEndian bytes.length (littleEndian bytes) = bytes := by
  induction bytes with
  | nil => rfl
  | cons byte rest ih =>
    have small := byte.toNat_lt
    have quotient : (byte.toNat + 256 * littleEndian rest) / 256 = littleEndian rest := by omega
    simp only [List.length_cons, littleEndian, toLittleEndian, quotient, ih]
    congr 1
    apply UInt8.toNat_inj.1
    simp

variable {bytes first second : Bytes} {start length width offset : Nat}

theorem length_slice (bytes : Bytes) (start length : Nat) :
    (slice bytes start length).length = min length (bytes.length - start) := by
  rw [slice, List.length_take, List.length_drop]

theorem length_slice_of_inside (inside : start + length ≤ bytes.length) :
    (slice bytes start length).length = length := by
  rw [length_slice]
  omega

theorem slice_min (bytes : Bytes) (start length : Nat) :
    slice bytes start (min length (bytes.length - start)) = slice bytes start length := by
  rw [slice, slice, ← List.length_drop, List.take_eq_take_iff]
  omega

theorem slice_add (bytes : Bytes) (start length width : Nat) :
    slice bytes start (length + width) =
      slice bytes start length ++ slice bytes (start + length) width := by
  rw [slice, slice, slice, List.take_add, List.drop_drop]

theorem slice_join {next : Nat} (behind : start + length = next) (bytes : Bytes) (width : Nat) :
    slice bytes start length ++ slice bytes next width = slice bytes start (length + width) := by
  rw [← behind, slice_add]

theorem slice_slice (inside : offset + width ≤ length) :
    slice (slice bytes start length) offset width = slice bytes (start + offset) width := by
  rw [slice, slice, slice, List.drop_take, List.take_take, List.drop_drop,
    Nat.min_eq_left (by omega)]

theorem field_slice (inside : offset + width ≤ length) :
    field (slice bytes start length) offset width = field bytes (start + offset) width := by
  rw [field, field, slice_slice inside]

theorem slice_append_right (behind : first.length ≤ start) :
    slice (first ++ second) start width = slice second (start - first.length) width := by
  rw [slice, slice, List.drop_append, List.drop_eq_nil_of_le behind, List.nil_append]

theorem slice_append_left (inside : start + width ≤ first.length) :
    slice (first ++ second) start width = slice first start width := by
  rw [slice, slice, List.drop_append_of_le_length (by omega),
    List.take_append_of_le_length (by rw [List.length_drop]; omega)]

theorem slice_self (size : bytes.length = width) : slice bytes 0 width = bytes := by
  rw [slice, List.drop_zero, List.take_of_length_le (Nat.le_of_eq size)]

section
variable {items : List α} {form : α → Bytes} (wide : ∀ item ∈ items, (form item).length = width)
include wide

theorem length_flatMap_of_width : (items.flatMap form).length = items.length * width := by
  rw [List.length_flatMap, List.map_congr_left wide]
  simp

/-- The parts of a string that is put together from parts of one length. -/
theorem slice_flatMap {i : Nat} (within : i < items.length) :
    slice (items.flatMap form) (i * width) width = form items[i] := by
  induction items generalizing i with
  | nil => contradiction
  | cons first items ih =>
    have size : (form first).length = width := wide first List.mem_cons_self
    rw [List.flatMap_cons]
    cases i with
    | zero => rw [Nat.zero_mul, slice_append_left (by omega), slice_self size, List.getElem_cons_zero]
    | succ i =>
      have rest := ih (fun item member => wide item (List.mem_cons_of_mem _ member))
        (Nat.lt_of_succ_lt_succ within)
      rw [Nat.succ_mul, slice_append_right (by omega), size, Nat.add_sub_cancel, rest,
        List.getElem_cons_succ]

end

theorem splice_append (first data second : Bytes) (inside : data.length ≤ second.length) :
    splice (first ++ second) first.length data =
      first ++ (data ++ second.drop data.length) := by
  rw [splice, List.take_left, List.drop_append, List.take_of_length_le]
  · simp
  · simp
    omega

theorem field_lt (bytes : Bytes) (start width : Nat) : field bytes start width < 256 ^ width := by
  refine Nat.lt_of_lt_of_le (littleEndian_lt _) (Nat.pow_le_pow_right (by decide) ?_)
  rw [length_slice]
  exact Nat.min_le_left _ _

theorem toLittleEndian_field (inside : start + width ≤ bytes.length) :
    toLittleEndian width (field bytes start width) = slice bytes start width := by
  have written := toLittleEndian_littleEndian (slice bytes start width)
  rwa [length_slice_of_inside inside] at written

end ElfRelay
