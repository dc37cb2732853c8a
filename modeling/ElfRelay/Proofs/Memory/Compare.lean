import ElfRelay.Memory.Bulk
import ElfRelay.Memory.Laws
/-! What a comparison of two ranges finds. The flags of one comparison give the order of the
two bytes as unsigned numbers, and equal bytes leave the flags with which the comparison
started, so the number for two ranges is that of the lexicographic order of their bytes. Its
laws are those of this order. -/
namespace ElfRelay

open Std (OrientedCmp TransCmp)

def orderNumber : Ordering → Int32
  | .lt => -1
  | .eq => 0
  | .gt => 1

section
variable {order : Ordering}

theorem orderNumber_swap (order : Ordering) : orderNumber order.swap = -orderNumber order := by
  cases order <;> rfl

theorem orderNumber_eq_zero : orderNumber order = 0 ↔ order = .eq := by
  cases order <;> decide

theorem orderNumber_neg : orderNumber order < 0 ↔ order = .lt := by
  cases order <;> decide

theorem orderNumber_nonpos : orderNumber order ≤ 0 ↔ order.isLE := by
  cases order <;> decide

end

/-- Of lists of bytes the lesser one in the lexicographic order is the one that compares as
less. -/
theorem compare_eq_lt_iff {left right : Bytes} : compare left right = .lt ↔ left < right := by
  induction left generalizing right with
  | nil => cases right <;> simp
  | cons first left ih =>
    cases right with
    | nil => simp
    | cons other right =>
      rw [List.compare_cons_cons, List.cons_lt_cons_iff, Ordering.then_eq_lt, ih,
        Std.compare_eq_lt, Std.compare_eq_iff_eq]

theorem orderNumber_of_ne {left right : UInt8} (different : left ≠ right) :
    orderNumber (compare left right) = if right < left then 1 else -1 := by
  cases compared : compare left right with
  | lt =>
    have less : left < right := Std.compare_eq_lt.mp compared
    rw [if_neg (UInt8.not_lt.mpr (UInt8.le_of_lt less)), orderNumber]
  | eq => exact absurd (Std.compare_eq_iff_eq.mp compared) different
  | gt => rw [if_pos (Std.compare_eq_gt.mp compared), orderNumber]

namespace ConditionFlags

variable {left right : UInt8}

theorem subtracted_zero_iff : (subtracted left right).zero = true ↔ left = right := by
  rw [subtracted, beq_iff_eq, sub_eq_zero]

theorem subtracted_self (byte : UInt8) : subtracted byte byte = cleared := by
  simp [subtracted, cleared]

/-- Two bytes that differ leave a borrow exactly when the left one is smaller. -/
theorem subtracted_of_ne (different : left ≠ right) :
    subtracted left right = ⟨false, left < right⟩ := by
  simp [subtracted, sub_eq_zero, different]

theorem order_subtracted (left right : UInt8) :
    (subtracted left right).order = orderNumber (compare left right) := by
  cases compared : compare left right with
  | lt =>
    have less : left < right := Std.compare_eq_lt.mp compared
    rw [subtracted_of_ne (UInt8.ne_of_lt less), decide_eq_true less]
    rfl
  | eq =>
    have same : left = right := Std.compare_eq_iff_eq.mp compared
    rw [same, subtracted_self]
    rfl
  | gt =>
    have greater : right < left := Std.compare_eq_gt.mp compared
    rw [subtracted_of_ne (UInt8.ne_of_lt greater).symm,
      decide_eq_false (UInt8.not_lt.mpr (UInt8.le_of_lt greater))]
    rfl

end ConditionFlags

namespace Memory

variable (m : Memory) {left right : UInt64} {length : Nat}

theorem add_next (start : UInt64) (i : Nat) :
    start + 1 + i.toUInt64 = start + (i + 1).toUInt64 := by
  rw [Nat.add_comm i]
  exact add_offset start 1 i

theorem readBytes_succ (start : UInt64) (length : Nat) :
    m.readBytes start (length + 1) = m.read start :: m.readBytes (start + 1) length := by
  rw [readBytes_eq, readBytes_eq, List.range_succ_eq_map, List.map_cons, List.map_map]
  refine congrArg₂ List.cons (by simp) (List.map_congr_left fun i _ => ?_)
  exact congrArg m.read (add_next start i).symm

def SameBytes (m : Memory) (left right : UInt64) (length : Nat) : Prop :=
  ∀ i < length, m.read (left + i.toUInt64) = m.read (right + i.toUInt64)

theorem readBytes_eq_iff :
    m.readBytes left length = m.readBytes right length ↔ m.SameBytes left right length := by
  simp only [readBytes_eq, List.map_inj_left, List.mem_range, SameBytes]

theorem compareBytes_zero (left right : UInt64) : m.compareBytes left right 0 = 0 := by
  rw [compareBytes, compareWhileEqual]
  rfl

/-- A pair of equal bytes leaves the comparison to the pairs behind it, one that differs
decides it. -/
theorem compareBytes_succ (left right : UInt64) (length : Nat) :
    m.compareBytes left right (length + 1) =
      if m.read left = m.read right then m.compareBytes (left + 1) (right + 1) length
      else orderNumber (compare (m.read left) (m.read right)) := by
  rw [compareBytes, compareWhileEqual]
  by_cases same : m.read left = m.read right
  · rw [if_pos (ConditionFlags.subtracted_zero_iff.mpr same), if_pos same, same,
      ConditionFlags.subtracted_self, compareBytes]
  · rw [if_neg (mt ConditionFlags.subtracted_zero_iff.mp same), if_neg same,
      ConditionFlags.order_subtracted]

/-- Two ranges compare as the lists of their bytes do in the lexicographic order. -/
theorem compareBytes_eq (left right : UInt64) (length : Nat) :
    m.compareBytes left right length =
      orderNumber (compare (m.readBytes left length) (m.readBytes right length)) := by
  induction length generalizing left right with
  | zero =>
    rw [compareBytes_zero, readBytes_eq, readBytes_eq, List.range_zero, List.map_nil,
      List.map_nil, List.compare_nil_nil]
    rfl
  | succ length ih =>
    rw [compareBytes_succ, readBytes_succ, readBytes_succ, List.compare_cons_cons]
    by_cases same : m.read left = m.read right
    · rw [if_pos same, ih, Std.compare_eq_iff_eq.mpr same, Ordering.eq_then]
    · rw [if_neg same]
      cases decided : compare (m.read left) (m.read right) with
      | lt => rfl
      | eq => exact absurd (Std.compare_eq_iff_eq.mp decided) same
      | gt => rfl

theorem compareBytes_of_first {i : Nat} (inside : i < length)
    (same : m.SameBytes left right i)
    (different : m.read (left + i.toUInt64) ≠ m.read (right + i.toUInt64)) :
    m.compareBytes left right length =
      orderNumber (compare (m.read (left + i.toUInt64)) (m.read (right + i.toUInt64))) := by
  induction i generalizing left right length with
  | zero =>
    obtain ⟨length, rfl⟩ := Nat.exists_eq_add_one.mpr inside
    have here (start : UInt64) : start + (0 : Nat).toUInt64 = start := UInt64.add_zero start
    rw [here, here] at different ⊢
    rw [compareBytes_succ, if_neg different]
  | succ i ih =>
    obtain ⟨length, rfl⟩ := Nat.exists_eq_add_one.mpr (Nat.zero_lt_of_lt inside)
    have first : m.read left = m.read right := by simpa using same 0 (Nat.succ_pos i)
    rw [← add_next, ← add_next] at different ⊢
    rw [compareBytes_succ, if_pos first]
    refine ih (Nat.lt_of_succ_lt_succ inside) (fun j before => ?_) different
    rw [add_next, add_next]
    exact same (j + 1) (Nat.succ_lt_succ before)

theorem compareBytes_eq_zero_iff :
    m.compareBytes left right length = 0 ↔ m.SameBytes left right length := by
  rw [compareBytes_eq, orderNumber_eq_zero, Std.compare_eq_iff_eq, readBytes_eq_iff]

theorem compareBytes_neg_iff :
    m.compareBytes left right length < 0 ↔
      m.readBytes left length < m.readBytes right length := by
  rw [compareBytes_eq, orderNumber_neg, compare_eq_lt_iff]

theorem compareBytes_swap (left right : UInt64) (length : Nat) :
    m.compareBytes right left length = -m.compareBytes left right length := by
  rw [compareBytes_eq, compareBytes_eq, ← orderNumber_swap, ← OrientedCmp.eq_swap]

theorem compareBytes_trans {third : UInt64} (low : m.compareBytes left right length ≤ 0)
    (high : m.compareBytes right third length ≤ 0) :
    m.compareBytes left third length ≤ 0 ∧
      (m.compareBytes left right length < 0 ∨ m.compareBytes right third length < 0 →
        m.compareBytes left third length < 0) := by
  simp only [compareBytes_eq, orderNumber_nonpos, orderNumber_neg] at low high ⊢
  refine ⟨TransCmp.isLE_trans low high, ?_⟩
  rintro (strict | strict)
  · exact TransCmp.lt_of_lt_of_isLE strict high
  · exact TransCmp.lt_of_isLE_of_lt low strict

/-- A comparison gives the lexicographic order of two ranges as unsigned bytes. It is zero
exactly when all bytes are the same; otherwise the first byte in which they differ decides,
by 1 or -1. Swapping the ranges negates it, and it is transitive, strictly if one of the two
steps is strict. Ranges differ unless all bytes are the same. -/
theorem compareBytes_lexicographic (left right : UInt64) (length : Nat) :
    (m.compareBytes left right length = 0 ↔ m.SameBytes left right length) ∧
    (∀ i < length, m.SameBytes left right i →
      m.read (left + i.toUInt64) ≠ m.read (right + i.toUInt64) →
      m.compareBytes left right length =
        if m.read (right + i.toUInt64) < m.read (left + i.toUInt64) then 1 else -1) ∧
    (m.compareBytes left right length < 0 ↔
      m.readBytes left length < m.readBytes right length) ∧
    m.compareBytes right left length = -m.compareBytes left right length ∧
    (∀ third : UInt64, m.compareBytes left right length ≤ 0 →
      m.compareBytes right third length ≤ 0 →
      m.compareBytes left third length ≤ 0 ∧
        (m.compareBytes left right length < 0 ∨ m.compareBytes right third length < 0 →
          m.compareBytes left third length < 0)) ∧
    (m.differ left right length = 0 ↔ m.SameBytes left right length) := by
  refine ⟨m.compareBytes_eq_zero_iff, fun i inside same different => ?_,
    m.compareBytes_neg_iff, m.compareBytes_swap left right length,
    fun third low high => m.compareBytes_trans low high, m.compareBytes_eq_zero_iff⟩
  rw [m.compareBytes_of_first inside same different, orderNumber_of_ne different]

/-- Three ranges, one behind the other. The first two differ in their last byte alone, where
signed numbers would be in the other order; the third one is above both from its first byte on. -/
theorem compareBytes_lexicographic_high :
    let m := zero.writeBytes 0x2000 [0x61, 0x7f, 0x61, 0x80, 0x62, 0x00]
    m.SameBytes 0x2000 0x2002 1 ∧ m.read 0x2001 ≠ m.read 0x2003 ∧
      m.compareBytes 0x2000 0x2002 2 = -1 ∧ m.compareBytes 0x2002 0x2000 2 = 1 ∧
      m.compareBytes 0x2002 0x2004 2 = -1 ∧ m.compareBytes 0x2000 0x2004 2 < 0 := by
  intro m
  have same : m.SameBytes 0x2000 0x2002 1 := fun i inside => by
    rw [Nat.lt_one_iff.mp inside]
    decide +kernel
  have different : m.read 0x2001 ≠ m.read 0x2003 := by decide +kernel
  obtain ⟨_, first, _, swapped, trans, _⟩ := m.compareBytes_lexicographic 0x2000 0x2002 2
  have low : m.compareBytes 0x2000 0x2002 2 = -1 := by
    rw [first 1 (by decide) same different]
    decide +kernel
  have high : m.compareBytes 0x2002 0x2004 2 = -1 := by
    rw [(m.compareBytes_lexicographic 0x2002 0x2004 2).2.1 0 (by decide)
      (fun i none => absurd none (Nat.not_lt_zero i)) (by decide +kernel)]
    decide +kernel
  refine ⟨same, different, low, ?_, high, ?_⟩
  · rw [swapped, low]
    rfl
  · exact (trans 0x2004 (by rw [low]; decide) (by rw [high]; decide)).2 (.inl (by rw [low]; decide))

end Memory
end ElfRelay
