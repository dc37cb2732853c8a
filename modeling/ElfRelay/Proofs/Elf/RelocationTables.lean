import ElfRelay.Elf.Header
import ElfRelay.Elf.SelfRelocation
import ElfRelay.Memory.Laws
/-! What an image that is in memory says of its relocations: its program headers, the items of
its dynamic array, and the entries of the two tables that these name. -/
namespace ElfRelay

theorem Memory.slice_readBytes (m : Memory) (start : UInt64) {length i count : Nat}
    (inside : i + count ≤ length) :
    slice (m.readBytes start length) i count = m.readBytes (start + i.toUInt64) count := by
  apply List.ext_getElem
  · simp [slice]
    omega
  · intro j left right
    simp [slice, Memory.readBytes_eq, Memory.add_offset]

namespace Elf

theorem field_readBytes (m : Memory) (start : UInt64) {length i count : Nat}
    (inside : i + count ≤ length) :
    field (m.readBytes start length) i count =
      littleEndian (m.readBytes (start + i.toUInt64) count) := by
  rw [field, m.slice_readBytes start inside]

def ownHeader (m : Memory) (base : UInt64) : Header := Header.decode (m.readBytes base Header.size)

def ownProgramHeaders (m : Memory) (base : UInt64) : List ProgramHeader :=
  let header := ownHeader m base
  (List.range header.phnum.toNat).map fun i =>
    ProgramHeader.decode (m.readBytes
      (base + header.phoff + (i * header.phentsize.toNat).toUInt64) ProgramHeader.size)

/-- The address of the dynamic array: of its program headers the last one counts. -/
def lastDynamic (m : Memory) (base : UInt64) : Option UInt64 :=
  ((ownProgramHeaders m base).filter (·.type = ProgramHeader.dynamic)).getLast?.map
    fun header => base + header.vaddr

theorem foldl_last (list : List α) (found : α → Bool) (use : α → β) (start : Option β) :
    list.foldl (fun last item => if found item then some (use item) else last) start =
      ((list.filter found).getLast?.map use).or start := by
  induction list generalizing start with
  | nil => rfl
  | cons item list ih =>
    rw [List.foldl_cons, ih, List.filter_cons]
    split
    · cases list.filter found <;> simp [List.getLast?_cons]
    · rfl

theorem dynamicAddress_eq (m : Memory) (base : UInt64) :
    dynamicAddress m base = lastDynamic m base := by
  have narrow {i : Nat} (inside : i + 2 ≤ Header.size) :
      (field (m.readBytes base Header.size) i 2).toUInt16.toNat =
        littleEndian (m.readBytes (base + i.toUInt64) 2) := by
    have bound := littleEndian_lt (m.readBytes (base + i.toUInt64) 2)
    rw [Memory.length_readBytes] at bound
    rw [field_readBytes m base inside]
    exact Nat.mod_eq_of_lt bound
  have offset : (ownHeader m base).phoff = m.readWord (base + 32) :=
    congrArg UInt64.ofNat (field_readBytes m base (by decide))
  have stride : (ownHeader m base).phentsize.toNat = littleEndian (m.readBytes (base + 54) 2) :=
    narrow (by decide)
  have count : (ownHeader m base).phnum.toNat = littleEndian (m.readBytes (base + 56) 2) :=
    narrow (by decide)
  have type (start : UInt64) : (ProgramHeader.decode (m.readBytes start ProgramHeader.size)).type =
      (littleEndian (m.readBytes start 4)).toUInt32 := by
    rw [ProgramHeader.decode, field_readBytes m start (by decide)]
    simp
  have vaddr (start : UInt64) : (ProgramHeader.decode (m.readBytes start ProgramHeader.size)).vaddr =
      m.readWord (start + 16) :=
    congrArg UInt64.ofNat (field_readBytes m start (by decide))
  have last := foldl_last (ownProgramHeaders m base) (·.type = ProgramHeader.dynamic)
    (fun header => base + header.vaddr) none
  rw [Option.or_none] at last
  rw [lastDynamic, ← last, ownProgramHeaders, List.foldl_map, dynamicAddress]
  simp only [offset, stride, count, type, vaddr, decide_eq_true_eq]

/-- The items of a dynamic array: none of them is null, and the one behind them is. -/
structure HoldsItems (m : Memory) (dynamic : UInt64) (items : List (UInt64 × UInt64)) : Prop where
  small : items.length < UInt64.size / 16
  item : ∀ i (listed : i < items.length),
    (m.wordAt dynamic (2 * i), m.wordAt dynamic (2 * i + 1)) = items[i]
  proper : ∀ item ∈ items, item.1 ≠ 0
  ends : m.wordAt dynamic (2 * items.length) = 0

def lastValue (items : List (UInt64 × UInt64)) (tag default : UInt64) : UInt64 :=
  ((items.filter (·.1 = tag)).getLast?.map Prod.snd).getD default

namespace DynamicTables

def named (items : List (UInt64 × UInt64)) : DynamicTables where
  rela := lastValue items 7 0
  relaSize := lastValue items 8 0
  relaStride := lastValue items 9 24
  relr := lastValue items 36 0
  relrSize := lastValue items 35 0
  hasUnsupported := items.any (·.1 = 17)

theorem lastValue_concat (items : List (UInt64 × UInt64)) (item : UInt64 × UInt64)
    (tag default : UInt64) : lastValue (items ++ [item]) tag default =
      if item.1 = tag then item.2 else lastValue items tag default := by
  unfold lastValue
  by_cases same : item.1 = tag <;> simp [same]

theorem named_concat (items : List (UInt64 × UInt64)) (item : UInt64 × UInt64) :
    named (items ++ [item]) = (named items).consider item := by
  have tagged {tag : Nat} (small : tag < UInt64.size) (same : item.1.toNat = tag) :
      item.1 = UInt64.ofNat tag := by
    apply UInt64.toNat.inj
    rw [same, UInt64.toNat_ofNat_of_lt' small]
  unfold consider
  split
  all_goals
    first
      | next same => simp [named, lastValue_concat, tagged (by decide) same]
      | next seven eight nine six five seventeen =>
        have other (tag : UInt64) (different : item.1.toNat = tag.toNat → False) : item.1 ≠ tag :=
          fun same => different (congrArg UInt64.toNat same)
        simp [named, lastValue_concat, other 7 seven, other 8 eight, other 9 nine, other 36 six,
          other 35 five, other 17 seventeen]

theorem foldl_consider (items : List (UInt64 × UInt64)) :
    items.foldl consider none = named items := by
  induction items using List.reverseRecOn with
  | nil => rfl
  | append_singleton items item ih => rw [List.foldl_concat, ih, named_concat]

end DynamicTables

theorem HoldsItems.read {m : Memory} {dynamic : UInt64} {items : List (UInt64 × UInt64)}
    (holds : HoldsItems m dynamic items) : DynamicTables.read m dynamic = .named items := by
  have count : firstIndex (fun i => m.wordAt dynamic (2 * i) == 0) (UInt64.size / 16) =
      items.length := by
    refine firstIndex_eq _ holds.small (by simp [holds.ends]) fun i listed => ?_
    have item : m.wordAt dynamic (2 * i) = items[i].1 := congrArg Prod.fst (holds.item i listed)
    have proper := holds.proper _ (List.getElem_mem listed)
    rw [← item] at proper
    simpa using proper
  have listed : (List.range items.length).map (fun i =>
      (m.wordAt dynamic (2 * i), m.wordAt dynamic (2 * i + 1))) = items := by
    apply List.ext_getElem
    · simp
    · intro i left right
      simpa using holds.item i right
  rw [DynamicTables.read, count, ← DynamicTables.foldl_consider]
  conv => rhs; rw [← listed]
  rw [List.foldl_map]

structure RelaEntry where
  offset : UInt64
  info : UInt64
  addend : UInt64
  deriving DecidableEq, Repr

namespace RelaEntry

def stored (m : Memory) (place : UInt64) : RelaEntry :=
  ⟨m.readWord place, m.readWord (place + 8), m.readWord (place + 16)⟩

def size : Nat := 24

def isRelative (entry : RelaEntry) : Bool := relocationType entry.info == relativeType

def target (base : UInt64) (entry : RelaEntry) : UInt64 := base + entry.offset

def value (base : UInt64) (entry : RelaEntry) : UInt64 := base + entry.addend

theorem stored_congr {m n : Memory} {place : UInt64} (agree : Memory.Agree m n place size) :
    stored n place = stored m place := by
  have word {i : Nat} (inside : i + 8 ≤ size) :
      n.readWord (place + i.toUInt64) = m.readWord (place + i.toUInt64) := by
    refine Memory.Agree.readWord fun address within => agree address ?_
    have low : i.toUInt64.toNat = i := Nat.mod_eq_of_lt (by simp [size] at inside ⊢; omega)
    have := address.toNat_lt
    have := place.toNat_lt
    simp only [size, UInt64.toNat_sub, UInt64.toNat_add, low] at *
    omega
  have first := word (i := 0) (by decide)
  rw [show place + (0 : Nat).toUInt64 = place from UInt64.add_zero place] at first
  rw [stored, stored, first]
  exact congrArg₂ (RelaEntry.mk _) (word (i := 8) (by decide)) (word (i := 16) (by decide))

end RelaEntry

namespace DynamicTables

def relaPlace (tables : DynamicTables) (base : UInt64) (index : Nat) : UInt64 :=
  base + tables.rela + (index * tables.relaStride.toNat).toUInt64

/-- How many multiples of the entry size are below the size of the table. -/
def relaCount (tables : DynamicTables) : Nat :=
  (tables.relaSize.toNat + tables.relaStride.toNat - 1) / tables.relaStride.toNat

theorem lt_relaCount {tables : DynamicTables} (nonzero : tables.relaStride ≠ 0) (index : Nat) :
    index < tables.relaCount ↔ index * tables.relaStride.toNat < tables.relaSize.toNat := by
  have positive : 0 < tables.relaStride.toNat :=
    Nat.pos_of_ne_zero fun zero => nonzero (UInt64.toNat.inj zero)
  rw [relaCount, ← Nat.succ_le_iff, Nat.le_div_iff_mul_le positive, Nat.succ_mul]
  omega

def relaEntries (tables : DynamicTables) (base : UInt64) (m : Memory) : List RelaEntry :=
  if tables.rela = 0 then []
  else (List.range tables.relaCount).map fun i => .stored m (tables.relaPlace base i)

def relrWords (tables : DynamicTables) (base : UInt64) (m : Memory) : List UInt64 :=
  if tables.relr = 0 then []
  else (List.range (tables.relrSize.toNat / 8)).map fun i => m.wordAt (base + tables.relr) i

end DynamicTables

/-- The words that a bitmap names, the first of which would be at `position`. -/
def bitmapTargets (position entry : UInt64) : List UInt64 :=
  ((List.range bitmapWords).filter fun i => entry.toNat.testBit (i + 1)).map fun i =>
    position + 8 * i.toUInt64

/-- The words that the entries of a packed table name, in their order and as often as they
are named. An even entry names the word at its distance from the base; a bitmap is over the
words behind those that the entry before is about. -/
def packedTargets (base : UInt64) : UInt64 → List UInt64 → List UInt64
  | _, [] => []
  | position, entry :: entries =>
    if entry &&& 1 = 0 then
      (base + entry) :: packedTargets base (base + entry + 8) entries
    else
      bitmapTargets position entry ++
        packedTargets base (position + 8 * bitmapWords.toUInt64) entries

end Elf
end ElfRelay
