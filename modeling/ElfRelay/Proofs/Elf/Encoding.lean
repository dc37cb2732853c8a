import ElfRelay.Bytes.Laws
import ElfRelay.Elf.Header
import ElfRelay.Elf.ProgramHeader
/-! Headers as bytes and back. A header that was written out is read as it was, and the
bytes that one was read from are those that it is written as. -/
namespace ElfRelay

variable {bytes : Bytes}

theorem field_toLittleEndian {width value : Nat} (small : value < 256 ^ width) (rest : Bytes) :
    field (toLittleEndian width value ++ rest) 0 width = value := by
  rw [field, slice_append_left (by simp), slice_self (by simp), littleEndian_toLittleEndian,
    Nat.mod_eq_of_lt small]

theorem field_append {first : Bytes} {start width : Nat} (behind : first.length ≤ start)
    (rest : Bytes) :
    field (first ++ rest) start width = field rest (start - first.length) width := by
  rw [field, field, slice_append_right behind]

theorem field_word16 (word : UInt16) (rest : Bytes) :
    field (toLittleEndian 2 word.toNat ++ rest) 0 2 = word.toNat :=
  field_toLittleEndian word.toNat_lt rest

theorem field_word32 (word : UInt32) (rest : Bytes) :
    field (toLittleEndian 4 word.toNat ++ rest) 0 4 = word.toNat :=
  field_toLittleEndian word.toNat_lt rest

theorem field_word64 (word : UInt64) (rest : Bytes) :
    field (toLittleEndian 8 word.toNat ++ rest) 0 8 = word.toNat :=
  field_toLittleEndian word.toNat_lt rest

theorem toNat_field_16 (bytes : Bytes) (start : Nat) :
    (field bytes start 2).toUInt16.toNat = field bytes start 2 :=
  Nat.mod_eq_of_lt (field_lt bytes start 2)

theorem toNat_field_32 (bytes : Bytes) (start : Nat) :
    (field bytes start 4).toUInt32.toNat = field bytes start 4 :=
  Nat.mod_eq_of_lt (field_lt bytes start 4)

theorem toNat_field_64 (bytes : Bytes) (start : Nat) :
    (field bytes start 8).toUInt64.toNat = field bytes start 8 :=
  Nat.mod_eq_of_lt (field_lt bytes start 8)

namespace Elf

namespace ProgramHeader

@[simp] theorem length_encode (header : ProgramHeader) : header.encode.length = size := by
  simp [encode, size]

theorem decode_encode (header : ProgramHeader) (rest : Bytes) :
    decode (header.encode ++ rest) = header := by
  simp [decode, encode, field_append, field_word32, field_word64]

theorem encode_decode (inside : size ≤ bytes.length) :
    (decode bytes).encode = slice bytes 0 size := by
  have written {start width : Nat} (held : start + width ≤ 56) :
      toLittleEndian width (field bytes start width) = slice bytes start width :=
    toLittleEndian_field (Nat.le_trans held inside)
  simp only [encode, decode, toNat_field_32, toNat_field_64, written, slice_join, Nat.reduceAdd,
    Nat.reduceLeDiff]
  rfl

theorem decode_slice (start : Nat) {length : Nat} (wide : size ≤ length) :
    decode (slice bytes start length) = decode (slice bytes start size) := by
  have read {offset width : Nat} (held : offset + width ≤ 56) :
      field (slice bytes start length) offset width = field (slice bytes start size) offset width :=
    (field_slice (Nat.le_trans held wide)).trans (field_slice held).symm
  simp only [decode, read, Nat.reduceAdd, Nat.reduceLeDiff]

end ProgramHeader

namespace Header

theorem length_encode {header : Header} (ident : header.ident.length = 16) :
    header.encode.length = size := by
  simp [encode, size, ident]

theorem decode_encode {header : Header} (ident : header.ident.length = 16) (rest : Bytes) :
    decode (header.encode ++ rest) = header := by
  simp [decode, encode, ident, slice_append_left, slice_self, field_append, field_word16,
    field_word32, field_word64]

theorem encode_decode (inside : size ≤ bytes.length) :
    (decode bytes).encode = slice bytes 0 size := by
  have written {start width : Nat} (held : start + width ≤ 64) :
      toLittleEndian width (field bytes start width) = slice bytes start width :=
    toLittleEndian_field (Nat.le_trans held inside)
  simp only [encode, decode, toNat_field_16, toNat_field_32, toNat_field_64, written, slice_join,
    Nat.reduceAdd, Nat.reduceLeDiff]
  rfl

theorem decode_slice {length : Nat} (wide : size ≤ length) :
    decode (slice bytes 0 length) = decode bytes := by
  have read {offset width : Nat} (held : offset + width ≤ 64) :
      field (slice bytes 0 length) offset width = field bytes offset width := by
    rw [field_slice (Nat.le_trans held wide), Nat.zero_add]
  have ident : slice (slice bytes 0 length) 0 16 = slice bytes 0 16 :=
    slice_slice (Nat.le_trans (by decide) wide)
  simp only [decode, read, ident, Nat.reduceAdd, Nat.reduceLeDiff]

end Header

def fileOf (rows : List ProgramHeader) : Array UInt8 :=
  let header : Header :=
    ⟨magic ++ [2, 1, 1, 0, 0, 0, 0, 0, 0, 0, 0, 0], dynamicObject, nativeMachine, 1, 0, 64, 0, 0,
      64, 56, rows.length.toUInt16, 0, 0, 0⟩
  (header.encode ++ rows.flatMap ProgramHeader.encode).toArray

end Elf
end ElfRelay
