import ElfRelay.Elf.ProgramHeader
import ElfRelay.Memory.Terminated
/-! Applying the relative relocations of an image that is already in memory.
The dynamic array names two tables: in one, each entry says which word becomes
the base plus an addend; in the other, packed one, entries name words to which
the base is added. -/
namespace ElfRelay.Elf

def relativeType : UInt32 := 8

def relocationSymbol (info : UInt64) : UInt32 := (info >>> 32).toUInt32

def relocationType (info : UInt64) : UInt32 := info.toUInt32

/-- The relocation tables of an image, at addresses relative to its base; an
address of 0 stands for no table. -/
structure DynamicTables where
  rela : UInt64
  relaSize : UInt64
  relaStride : UInt64
  relr : UInt64
  relrSize : UInt64
  hasUnsupported : Bool
  deriving DecidableEq, Repr

namespace DynamicTables

def none : DynamicTables := ⟨0, 0, 24, 0, 0, false⟩

/-- Takes an item of the dynamic array into account; later ones replace
earlier ones. -/
def consider (tables : DynamicTables) (item : UInt64 × UInt64) : DynamicTables :=
  match item.1.toNat with
  | 7 => { tables with rela := item.2 }
  | 8 => { tables with relaSize := item.2 }
  | 9 => { tables with relaStride := item.2 }
  | 36 => { tables with relr := item.2 }
  | 35 => { tables with relrSize := item.2 }
  | 17 => { tables with hasUnsupported := true }
  | _ => tables

def read (m : Memory) (dynamic : UInt64) : DynamicTables :=
  let count := firstIndex (fun i => m.wordAt dynamic (2 * i) == 0) (UInt64.size / 16)
  (List.range count).foldl
    (fun tables i => tables.consider (m.wordAt dynamic (2 * i), m.wordAt dynamic (2 * i + 1)))
    none

end DynamicTables

/-- The address of the dynamic array of the image at `base`: the last program
header of its type counts. -/
def dynamicAddress (m : Memory) (base : UInt64) : Option UInt64 :=
  let phoff := m.readWord (base + 32)
  let phentsize := littleEndian (m.readBytes (base + 54) 2)
  let phnum := littleEndian (m.readBytes (base + 56) 2)
  (List.range phnum).foldl
    (fun found i =>
      let header := base + phoff + (i * phentsize).toUInt64
      if (littleEndian (m.readBytes header 4)).toUInt32 = ProgramHeader.dynamic then
        some (base + m.readWord (header + 16))
      else found)
    none

/-- Memory after relocating, and whether all of it could be done. -/
structure Relocated where
  memory : Memory
  complete : Bool

/-- Applies the entries of the table at `table` from `offset` on, up to the
first that is not relative. There are no more of them than `bound`. -/
def applyRelaFrom (base table : UInt64) (tables : DynamicTables) :
    Nat → UInt64 → Memory → Relocated
  | 0, _, m => ⟨m, true⟩
  | bound + 1, offset, m =>
    if offset < tables.relaSize then
      let entry := table + offset
      if relocationType (m.readWord (entry + 8)) = relativeType then
        applyRelaFrom base table tables bound (offset + tables.relaStride)
          (m.writeWord (base + m.readWord entry) (base + m.readWord (entry + 16)))
      else ⟨m, false⟩
    else ⟨m, true⟩

def applyRela (base : UInt64) (tables : DynamicTables) (m : Memory) : Relocated :=
  if tables.relaStride = 0 then ⟨m, false⟩
  else applyRelaFrom base (base + tables.rela) tables tables.relaSize.toNat 0 m

def addBase (base : UInt64) (m : Memory) (address : UInt64) : Memory :=
  m.writeWord address (m.readWord address + base)

/-- The bits that name words in an entry of a packed table; the lowest bit only
says that the entry is such a bitmap. -/
def bitmapWords : Nat := 63

/-- Adds the base to the word `where + 8 * i` for every bit `i + 1` of a bitmap. -/
def applyBitmap (base position entry : UInt64) (m : Memory) : Memory :=
  (List.range bitmapWords).foldl
    (fun m i =>
      if entry.toNat.testBit (i + 1) then addBase base m (position + 8 * i.toUInt64) else m)
    m

/-- Applies `count` entries of a packed table. An even entry is the address of
a word, an odd one a bitmap over the words that follow `position`. -/
def applyRelrFrom (base : UInt64) : Nat → UInt64 → UInt64 → Memory → Memory
  | 0, _, _, m => m
  | count + 1, table, position, m =>
    let entry := m.readWord table
    if entry &&& 1 = 0 then
      applyRelrFrom base count (table + 8) (base + entry + 8) (addBase base m (base + entry))
    else
      applyRelrFrom base count (table + 8) (position + 8 * bitmapWords.toUInt64)
        (applyBitmap base position entry m)

/-- A part of a word at the end of the table is not an entry. -/
def applyRelr (base : UInt64) (tables : DynamicTables) (m : Memory) : Memory :=
  applyRelrFrom base (tables.relrSize.toNat / 8) (base + tables.relr) 0 m

/-- Applies the relocations of the image at `base`. An image without a dynamic
array has none; one with entries that are not relative cannot be relocated. -/
def relocate (base : UInt64) (m : Memory) : Relocated :=
  match dynamicAddress m base with
  | none => ⟨m, true⟩
  | some dynamic =>
    if dynamic = 0 then ⟨m, true⟩
    else
      let tables := DynamicTables.read m dynamic
      if tables.hasUnsupported then ⟨m, false⟩
      else
        let applied := if tables.rela = 0 then ⟨m, true⟩ else applyRela base tables m
        if applied.complete && tables.relr != 0 then
          ⟨applyRelr base tables applied.memory, true⟩
        else applied

end ElfRelay.Elf
