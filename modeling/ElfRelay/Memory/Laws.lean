import ElfRelay.Bytes.Laws
import ElfRelay.Memory.Terminated
import Mathlib
/-! What reads find after writes. A byte inside a written range is the byte
written there, one outside is as before; the same follows for words and
strings, whose ranges may lie anywhere as long as they are apart. -/
namespace ElfRelay.Memory

theorem read_overlay_inside (m : Memory) (start : UInt64) {length i : Nat}
    (source : Nat → UInt8) (inside : i < length) (small : i < UInt64.size) :
    (m.overlay start length source).read (start + i.toUInt64) = source i := by
  rw [read_overlay, toNat_offset start small, if_pos inside]

theorem read_overlay_outside (m : Memory) {start : UInt64} {length : Nat}
    (source : Nat → UInt8) {address : UInt64} (outside : ¬ (address - start).toNat < length) :
    (m.overlay start length source).read address = m.read address := by
  rw [read_overlay, if_neg outside]

theorem readBytes_congr {m n : Memory} {start : UInt64} {length : Nat}
    (same : ∀ i, i < length → m.read (start + i.toUInt64) = n.read (start + i.toUInt64)) :
    m.readBytes start length = n.readBytes start length := by
  rw [readBytes_eq, readBytes_eq]
  exact List.map_congr_left fun i member => same i (List.mem_range.1 member)

theorem readBytes_overlay_apart (m : Memory) {start other : UInt64} {length count : Nat}
    (source : Nat → UInt8) (apart : Apart other count start length) :
    (m.overlay start length source).readBytes other count = m.readBytes other count := by
  have small : count < UInt64.size := Nat.lt_of_le_of_lt apart.1 (UInt64.toNat_lt _)
  refine readBytes_congr fun i bound => read_overlay_outside m source (apart.symm.not_both ?_)
  rw [toNat_offset other (by omega)]
  exact bound

theorem read_writeBytes_inside (m : Memory) (start : UInt64) {bytes : Bytes} {i : Nat}
    (inside : i < bytes.length) (small : i < UInt64.size) :
    (m.writeBytes start bytes).read (start + i.toUInt64) = bytes[i] := by
  have size : i < bytes.toArray.size := by simpa using inside
  rw [writeBytes, store, read_overlay_inside m start _ size small]
  simp [Array.getD, inside]

theorem read_writeBytes_outside (m : Memory) {start : UInt64} {bytes : Bytes} {address : UInt64}
    (outside : ¬ (address - start).toNat < bytes.length) :
    (m.writeBytes start bytes).read address = m.read address :=
  read_overlay_outside m _ (by simpa using outside)

theorem readBytes_writeBytes (m : Memory) (start : UInt64) {bytes : Bytes}
    (small : bytes.length ≤ UInt64.size) :
    (m.writeBytes start bytes).readBytes start bytes.length = bytes := by
  apply List.ext_getElem
  · simp
  · intro i left right
    simpa [readBytes_eq] using read_writeBytes_inside m start right (by omega)

theorem readBytes_writeBytes_apart (m : Memory) {start other : UInt64} {bytes : Bytes}
    {count : Nat} (apart : Apart other count start bytes.length) :
    (m.writeBytes start bytes).readBytes other count = m.readBytes other count :=
  readBytes_overlay_apart m _ (by simpa using apart)

theorem read_writeWord_outside (m : Memory) {start value address : UInt64}
    (outside : ¬ (address - start).toNat < 8) :
    (m.writeWord start value).read address = m.read address :=
  read_writeBytes_outside m (by rw [length_toLittleEndian]; exact outside)

theorem read_writeString_outside (m : Memory) {start address : UInt64} {text : Bytes} {size : Nat}
    (fits : text.length < size) (outside : ¬ (address - start).toNat < size) :
    (m.writeString start text).read address = m.read address :=
  read_writeBytes_outside m (by rw [List.length_append, List.length_singleton]; omega)

theorem readWord_writeWord (m : Memory) (address value : UInt64) :
    (m.writeWord address value).readWord address = value := by
  have stored := readBytes_writeBytes m address
    (show (toLittleEndian 8 value.toNat).length ≤ UInt64.size by
      rw [length_toLittleEndian]; decide)
  simp only [length_toLittleEndian] at stored
  rw [readWord, writeWord, stored, littleEndian_toLittleEndian]
  apply UInt64.toNat_inj.1
  have := value.toNat_lt
  simp

theorem readWord_writeWord_apart (m : Memory) {address other value : UInt64}
    (apart : Apart other 8 address 8) :
    (m.writeWord address value).readWord other = m.readWord other := by
  rw [readWord, writeWord, readBytes_writeBytes_apart m (by simpa using apart), readWord]

theorem readBytes_writeBytes_slice (m : Memory) (start : UInt64) {bytes : Bytes} {i count : Nat}
    (inside : i + count ≤ bytes.length) (small : bytes.length ≤ UInt64.size) :
    (m.writeBytes start bytes).readBytes (start + i.toUInt64) count = slice bytes i count := by
  apply List.ext_getElem
  · simp [slice]; omega
  · intro j left right
    have bound : j < count := by simpa using left
    simp only [readBytes_eq, slice, List.getElem_map, List.getElem_range, add_offset, List.getElem_take,
      List.getElem_drop]
    exact read_writeBytes_inside m start (by omega) (by omega)

theorem length_flatMap_words (words : List UInt64) :
    (words.flatMap fun word => toLittleEndian 8 word.toNat).length = 8 * words.length := by
  induction words with
  | nil => rfl
  | cons word words ih =>
    simp only [List.flatMap_cons, List.length_append, ih, length_toLittleEndian, List.length_cons]
    omega

theorem slice_flatMap_words (words : List UInt64) {i : Nat} (inside : i < words.length) :
    slice (words.flatMap fun word => toLittleEndian 8 word.toNat) (8 * i) 8 =
      toLittleEndian 8 words[i].toNat := by
  induction words generalizing i with
  | nil => simp at inside
  | cons word words ih =>
    have width := length_toLittleEndian 8 word.toNat
    cases i with
    | zero => simp [slice, width]
    | succ i =>
      have rest := ih (by simpa using inside)
      rw [slice, List.flatMap_cons, show 8 * (i + 1) = 8 + 8 * i by omega, ← List.drop_drop,
        List.drop_left' width, ← slice, rest, List.getElem_cons_succ]

theorem wordAt_writeWords (m : Memory) (start : UInt64) {words : List UInt64} {i : Nat}
    (inside : i < words.length) (small : 8 * words.length ≤ UInt64.size) :
    (m.writeWords start words).wordAt start i = words[i] := by
  have place : start + 8 * i.toUInt64 = start + (8 * i).toUInt64 := by
    simp [Nat.toUInt64, UInt64.ofNat_mul]
  have stored := readBytes_writeBytes_slice m start
    (show 8 * i + 8 ≤ (words.flatMap fun word => toLittleEndian 8 word.toNat).length by
      rw [length_flatMap_words]; omega)
    (by rw [length_flatMap_words]; omega)
  rw [wordAt, place, readWord, writeWords, stored, slice_flatMap_words words inside,
    littleEndian_toLittleEndian]
  apply UInt64.toNat_inj.1
  have := words[i].toNat_lt
  simp

/-- A string ends at its first NUL. -/
theorem stringLength_eq {m : Memory} {start : UInt64} {length : Nat} (small : length < UInt64.size)
    (ends : m.read (start + length.toUInt64) = 0)
    (earlier : ∀ i, i < length → m.read (start + i.toUInt64) ≠ 0) :
    m.stringLength start = length :=
  firstIndex_eq _ small (by simpa using ends) fun i bound => by simpa using earlier i bound

theorem string_of_stored {m : Memory} {start : UInt64} {text : Bytes}
    (small : text.length < UInt64.size) (clean : 0 ∉ text)
    (stored : ∀ {i : Nat} (bound : i < (text ++ [0]).length),
      m.read (start + i.toUInt64) = (text ++ [0])[i]) : m.string start = text := by
  have length : m.stringLength start = text.length := by
    apply stringLength_eq small
    · rw [stored (by simp)]; simp
    · intro i bound
      rw [stored (by simp; omega), List.getElem_append_left bound]
      exact fun zero => clean (zero ▸ List.getElem_mem bound)
  rw [string, length]
  apply List.ext_getElem
  · simp
  · intro i left right
    have here := stored (i := i) (by simp; omega)
    rw [List.getElem_append_left right] at here
    simpa [readBytes_eq] using here

theorem starts_takeWhile_append_zero (text : Bytes) :
    text.takeWhile (· != 0) ++ [0] <+: text ++ [0] := by
  have split := List.takeWhile_append_dropWhile (p := (· != (0 : UInt8))) (l := text)
  cases rest : text.dropWhile (· != 0) with
  | nil =>
    rw [rest, List.append_nil] at split
    rw [split]
  | cons first behind =>
    have stops := List.head_dropWhile_not (· != (0 : UInt8)) (l := text) (by simp [rest])
    simp only [rest, List.head_cons, bne_eq_false_iff_eq] at stops
    refine ⟨behind ++ [0], ?_⟩
    conv_rhs => rw [← split, rest, stops]
    simp

/-- Of a text that is stored with a NUL behind it, what is before its first NUL is read. -/
theorem string_writeString_takeWhile (m : Memory) (start : UInt64) {text : Bytes}
    (small : text.length < UInt64.size) :
    (m.writeString start text).string start = text.takeWhile (· != 0) := by
  have shorter := (List.takeWhile_prefix (l := text) (· != (0 : UInt8))).length_le
  apply string_of_stored (Nat.lt_of_le_of_lt shorter small)
  · intro member
    simpa using List.mem_takeWhile_imp member
  · intro i bound
    have inside := Nat.lt_of_lt_of_le bound (starts_takeWhile_append_zero text).length_le
    rw [(starts_takeWhile_append_zero text).getElem bound]
    exact read_writeBytes_inside m start inside (by simp at inside; omega)

theorem string_writeString (m : Memory) (start : UInt64) {text : Bytes}
    (small : text.length < UInt64.size) (clean : 0 ∉ text) :
    (m.writeString start text).string start = text := by
  have whole : text.takeWhile (· != 0) = text := by
    apply List.takeWhile_eq_self_iff.mpr
    intro byte member
    simp only [bne_iff_ne, ne_eq]
    rintro rfl
    exact clean member
  rw [string_writeString_takeWhile m start small, whole]

def Agree (m n : Memory) (start : UInt64) (length : Nat) : Prop :=
  ∀ address, (address - start).toNat < length → n.read address = m.read address

variable {m n : Memory} {start : UInt64} {length : Nat}

theorem Agree.readBytes (agree : Agree m n start length) (small : length ≤ UInt64.size) :
    n.readBytes start length = m.readBytes start length :=
  readBytes_congr fun i bound => agree _ (by rw [toNat_offset start (by omega)]; exact bound)

theorem Agree.readWord (agree : Agree m n start 8) : n.readWord start = m.readWord start := by
  rw [Memory.readWord, Memory.readWord, agree.readBytes (by decide)]

theorem stringLength_le (m : Memory) (start : UInt64) : m.stringLength start ≤ UInt64.size :=
  firstIndex_le _ _

theorem Agree.stringLength (agree : Agree m n start (m.stringLength start + 1)) :
    n.stringLength start = m.stringLength start :=
  firstIndex_congr fun i small bound => by
    have inside : (start + i.toUInt64 - start).toNat < m.stringLength start + 1 := by
      rw [toNat_offset start small]
      exact Nat.lt_succ_of_le bound
    rw [agree _ inside]

theorem Agree.string (agree : Agree m n start (m.stringLength start + 1)) :
    n.string start = m.string start := by
  rw [Memory.string, Memory.string, agree.stringLength]
  exact Agree.readBytes (fun address inside => agree address (Nat.lt_succ_of_lt inside))
    (stringLength_le m start)

@[simp] theorem length_string (m : Memory) (start : UInt64) :
    (m.string start).length = m.stringLength start := length_readBytes m start _

theorem read_stringLength (ends : m.stringLength start < UInt64.size) :
    m.read (start + (m.stringLength start).toUInt64) = 0 := by
  have stops := firstIndex_stops _ ends
  exact eq_of_beq stops

theorem read_ne_zero {i : Nat} (inside : i < m.stringLength start) :
    m.read (start + i.toUInt64) ≠ 0 := by
  have earlier := firstIndex_earlier _ inside
  exact ne_of_beq_false earlier

theorem zero_not_mem_string (m : Memory) (start : UInt64) : 0 ∉ m.string start := by
  rw [string, readBytes_eq]
  intro member
  obtain ⟨i, inside, zero⟩ := List.mem_map.mp member
  exact read_ne_zero (List.mem_range.mp inside) zero

theorem string_drop {count : Nat} (ends : m.stringLength start < UInt64.size)
    (inside : count ≤ m.stringLength start) :
    m.string (start + count.toUInt64) = (m.string start).drop count := by
  have length : m.stringLength (start + count.toUInt64) = m.stringLength start - count := by
    refine stringLength_eq (by omega) ?_ fun i bound => ?_
    · rw [add_offset, Nat.add_sub_cancel' inside]
      exact read_stringLength ends
    · rw [add_offset]
      exact read_ne_zero (by omega)
  rw [Memory.string, Memory.string, length, readBytes_eq, readBytes_eq, ← List.map_drop]
  apply List.ext_getElem
  · simp
  · intro i left right
    simp [add_offset]

end ElfRelay.Memory
