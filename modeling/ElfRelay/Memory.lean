import ElfRelay.Bytes
import ElfRelay.Memory.Range
/-! Byte-addressed memory. An address is a 64-bit word and every address can
be read; ranges wrap around the end of the address space. Every change is one
`overlay`, so what a change leaves alone is read off `read_overlay`. -/
namespace ElfRelay

/-- Memory that is all zero at first. A block holds the bytes from `start` on
and hides what earlier blocks hold there. -/
inductive Memory
  | zero
  | block (earlier : Memory) (start : UInt64) (bytes : Array UInt8)

namespace Memory

def read : Memory → UInt64 → UInt8
  | zero, _ => 0
  | block earlier start bytes, address =>
    if (address - start).toNat < bytes.size then bytes.getD (address - start).toNat 0
    else earlier.read address

@[simp] theorem read_zero (address : UInt64) : zero.read address = 0 := rfl

theorem read_block (earlier : Memory) (start : UInt64) (bytes : Array UInt8) (address : UInt64) :
    (earlier.block start bytes).read address =
      if (address - start).toNat < bytes.size then bytes.getD (address - start).toNat 0
      else earlier.read address := rfl

/-- Replaces the `length` bytes from `start` on, the one at `start + i` by
`source i`. A range that is part of a block changes that block. -/
def overlay (m : Memory) (start : UInt64) (length : Nat) (source : Nat → UInt8) : Memory :=
  match m with
  | zero => zero.block start (Array.ofFn fun i : Fin length => source i)
  | block earlier first bytes =>
    if Covers first bytes.size start length then
      earlier.block first (patch bytes (start - first).toNat length source)
    else if Apart first bytes.size start length then
      (earlier.overlay start length source).block first bytes
    else (earlier.block first bytes).block start (Array.ofFn fun i : Fin length => source i)

theorem read_block_ofFn (m : Memory) (start : UInt64) (length : Nat) (source : Nat → UInt8)
    (address : UInt64) :
    (m.block start (Array.ofFn fun i : Fin length => source i)).read address =
      if (address - start).toNat < length then source (address - start).toNat
      else m.read address := by
  rw [read_block, Array.size_ofFn]
  by_cases inside : (address - start).toNat < length
  · simp [inside, Array.getD]
  · simp only [if_neg inside]

theorem read_overlay (m : Memory) (start : UInt64) (length : Nat) (source : Nat → UInt8)
    (address : UInt64) :
    (m.overlay start length source).read address =
      if (address - start).toNat < length then source (address - start).toNat
      else m.read address := by
  induction m with
  | zero => exact read_block_ofFn zero start length source address
  | block earlier first bytes ih =>
    rw [overlay]
    split
    · next covers =>
      rw [read_block, read_block, size_patch]
      have bound := covers.1
      by_cases inside : (address - start).toNat < length
      · have place := covers.inside inside
        rw [if_pos inside, if_pos (by omega), getD_patch _ _ _ _ (by omega), if_pos (by omega),
          place, Nat.add_sub_cancel_left]
      · have place := covers.outside inside
        rw [if_neg inside]
        by_cases held : (address - first).toNat < bytes.size
        · rw [if_pos held, if_pos held, getD_patch _ _ _ _ held, if_neg (by omega)]
        · rw [if_neg held, if_neg held]
    · split
      · next apart =>
        rw [read_block, read_block, ih]
        by_cases inside : (address - start).toNat < length
        · rw [if_neg (apart.not_both inside), if_pos inside, if_pos inside]
        · rw [if_neg inside, if_neg inside]
      · exact read_block_ofFn _ start length source address

def fill (m : Memory) (start : UInt64) (byte : UInt8) (length : Nat) : Memory :=
  m.overlay start length fun _ => byte

def set (m : Memory) (address : UInt64) (byte : UInt8) : Memory := m.fill address byte 1

def store (m : Memory) (start : UInt64) (data : Array UInt8) : Memory :=
  m.overlay start data.size fun i => data.getD i 0

def writeBytes (m : Memory) (start : UInt64) (bytes : Bytes) : Memory :=
  m.store start bytes.toArray

/-- The `length` bytes from `start` on. A range that is part of a block is read
at once. -/
def readBytes (m : Memory) (start : UInt64) (length : Nat) : Bytes :=
  match m with
  | zero => List.replicate length 0
  | block earlier first bytes =>
    if Covers first bytes.size start length then
      (bytes.extract (start - first).toNat ((start - first).toNat + length)).toList
    else if Apart first bytes.size start length then earlier.readBytes start length
    else (List.range length).map fun i => (earlier.block first bytes).read (start + i.toUInt64)

theorem readBytes_eq (m : Memory) (start : UInt64) (length : Nat) :
    m.readBytes start length =
      (List.range length).map fun i => m.read (start + i.toUInt64) := by
  induction m with
  | zero =>
    apply List.ext_getElem
    · simp [readBytes]
    · intro i left right
      simp [readBytes]
  | block earlier first bytes ih =>
    rw [readBytes]
    split
    · next covers =>
      have bound := covers.1
      have small := covers.2
      apply List.ext_getElem
      · simp; omega
      · intro i left right
        have inside : i < length := by simpa using right
        have place := toNat_offset start (i := i) (by omega)
        have found : _ = (start - first).toNat + (start + i.toUInt64 - start).toNat :=
          covers.inside (by omega)
        have held : (start - first).toNat + i < bytes.size := by omega
        simp only [List.getElem_map, List.getElem_range, read_block, found, place, if_pos held]
        simp [Array.getD, held]
    · split
      · next apart =>
        rw [ih]
        refine List.map_congr_left fun i member => ?_
        have inside : i < length := List.mem_range.1 member
        have small : length < UInt64.size := Nat.lt_of_le_of_lt apart.2 (UInt64.toNat_lt _)
        rw [read_block, if_neg (apart.not_both _)]
        rw [toNat_offset start (by omega)]
        exact inside
      · rfl

@[simp] theorem length_readBytes (m : Memory) (start : UInt64) (length : Nat) :
    (m.readBytes start length).length = length := by simp [readBytes_eq]

/-- The little-endian 64-bit word at an address of any alignment. -/
def readWord (m : Memory) (address : UInt64) : UInt64 :=
  UInt64.ofNat (littleEndian (m.readBytes address 8))

def writeWord (m : Memory) (address value : UInt64) : Memory :=
  m.writeBytes address (toLittleEndian 8 value.toNat)

def writeWords (m : Memory) (start : UInt64) (words : List UInt64) : Memory :=
  m.writeBytes start (words.flatMap fun word => toLittleEndian 8 word.toNat)

end Memory
end ElfRelay
