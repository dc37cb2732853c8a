/-! Byte strings: ASCII text, numbers in decimal and hexadecimal digits, little-endian
words, and arrays of bytes of which a part is replaced in place. -/
namespace ElfRelay

abbrev Bytes := List UInt8

def ascii (text : String) : Bytes := text.toList.map fun c => c.toNat.toUInt8

def digits (base value : Nat) : Bytes := (Nat.toDigits base value).map fun c => c.toNat.toUInt8

def decimal (value : Nat) : Bytes := digits 10 value

/-- Lower-case hexadecimal digits without leading zeros; zero is one digit. -/
def hexadecimal (value : Nat) : Bytes := digits 16 value

def littleEndian : Bytes → Nat
  | [] => 0
  | byte :: rest => byte.toNat + 256 * littleEndian rest

def toLittleEndian : Nat → Nat → Bytes
  | 0, _ => []
  | width + 1, value => value.toUInt8 :: toLittleEndian width (value / 256)

@[simp] theorem length_toLittleEndian (width value : Nat) :
    (toLittleEndian width value).length = width := by
  induction width generalizing value with
  | zero => rfl
  | succ width ih => simp [toLittleEndian, ih]

/-- The `length` bytes from `start` on, fewer when the string ends before. -/
def slice (bytes : Bytes) (start length : Nat) : Bytes := (bytes.drop start).take length

/-- The little-endian number in the `width` bytes at `start`. -/
def field (bytes : Bytes) (start width : Nat) : Nat := littleEndian (slice bytes start width)

/-- `bytes` with `data` in place of what stood from `start` on; what does not
fit is dropped. -/
def splice (bytes : Bytes) (start : Nat) (data : Bytes) : Bytes :=
  (bytes.take start ++ data ++ bytes.drop (start + data.length)).take bytes.length

/-- `bytes` with the byte at `offset + i` replaced by `source i` for every `i`
below `length`. -/
def patch (bytes : Array UInt8) (offset length : Nat) (source : Nat → UInt8) : Array UInt8 :=
  length.fold (fun i _ patched => patched.setIfInBounds (offset + i) (source i)) bytes

@[simp] theorem size_patch (bytes : Array UInt8) (offset length : Nat) (source : Nat → UInt8) :
    (patch bytes offset length source).size = bytes.size := by
  induction length with
  | zero => rfl
  | succ length ih => rw [patch, Nat.fold_succ, ← patch, Array.size_setIfInBounds, ih]

theorem getD_patch (bytes : Array UInt8) (offset length : Nat) (source : Nat → UInt8) {i : Nat}
    (bound : i < bytes.size) :
    (patch bytes offset length source).getD i 0 =
      if offset ≤ i ∧ i < offset + length then source (i - offset) else bytes.getD i 0 := by
  induction length with
  | zero => rw [if_neg (by omega)]; rfl
  | succ length ih =>
    have size := size_patch bytes offset length source
    rw [patch, Nat.fold_succ, ← patch]
    by_cases here : offset + length = i
    · subst here
      rw [if_pos (by omega), Nat.add_sub_cancel_left]
      simp [Array.getD, size, bound]
    · have same : ((patch bytes offset length source).setIfInBounds (offset + length)
          (source length)).getD i 0 = (patch bytes offset length source).getD i 0 := by
        simp [Array.getD, size, bound, here]
      rw [same, ih]
      by_cases within : offset ≤ i ∧ i < offset + length
      · rw [if_pos within, if_pos (by omega)]
      · rw [if_neg within, if_neg (by omega)]

end ElfRelay
