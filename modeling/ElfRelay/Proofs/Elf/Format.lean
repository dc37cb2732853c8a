import ElfRelay.Elf.Object
import ElfRelay.Proofs.Elf.Encoding
/-! The format of an object, said of the bytes of its file at their offsets. Every file has a
verdict: the first of the faults that rule it out, or the header and the table it holds. A
file is accepted if and only if the parts of it that matter are the encoding of what is read,
and laying out a header and a table gives such a file. -/
namespace ElfRelay.Elf

def checked (fault : Option LoadError) (value : α) : Except LoadError α :=
  match fault with
  | some fault => .error fault
  | none => .ok value

/-- Where the program header table of an object is, and how many rows of which length. -/
structure Table where
  start : Nat
  count : Nat
  stride : Nat
  deriving DecidableEq, Repr

namespace Table

def size (table : Table) : Nat := table.count * table.stride

def announced (contents : Bytes) : Table :=
  ⟨field contents 32 8, field contents 56 2, field contents 54 2⟩

/-- The rows of a table, each from the first 56 bytes of its place in the file. -/
def rows (table : Table) (contents : Bytes) : List ProgramHeader :=
  (List.range table.count).map fun i =>
    ProgramHeader.decode (slice contents (table.start + i * table.stride) 56)

def sizeFault? (table : Table) : Option LoadError :=
  if table.size = 0 ∨ 65536 < table.size ∨ table.stride < 56 then
    some (.programHeaderSize table.size)
  else none

def placeFault? (table : Table) (length : Nat) : Option LoadError :=
  if 0x7fffffffffffffff < table.start then some (.unreadableProgramHeaders ⟨22⟩)
  else if length < table.start + table.size then some .truncatedProgramHeaders
  else none

end Table

/-- Why the header of a file rules it out, by the first of the reasons. -/
def headerFault? (contents : Bytes) : Option LoadError :=
  if slice contents 0 4 ≠ [0x7f, 0x45, 0x4c, 0x46] then some .notElf
  else if contents.length < 64 then some .truncatedHeader
  else if contents.getD 4 0 ≠ 2 then some (.unsupportedClass (contents.getD 4 0))
  else if contents.getD 5 0 ≠ 1 then some (.unsupportedEncoding (contents.getD 5 0))
  else if field contents 18 2 ≠ 62 then some (.wrongMachine 62 (field contents 18 2).toUInt16)
  else if field contents 16 2 ≠ 3 then some (.notDynamic (field contents 16 2).toUInt16)
  else none

/-- Why a file is ruled out before its table is looked for. -/
def earlyFault? (contents : Bytes) : Option LoadError :=
  (headerFault? contents).or (Table.announced contents).sizeFault?

/-- The first fault of a file, or what it holds. -/
def verdict (contents : Bytes) : Except LoadError (Header × List ProgramHeader) :=
  let table := Table.announced contents
  checked ((earlyFault? contents).or (table.placeFault? contents.length))
    (Header.decode contents, table.rows contents)

structure Acceptable (header : Header) (rows : List ProgramHeader) : Prop where
  ident : header.ident.length = 16
  magic : header.ident.take 4 = magic
  valid : header.validate = .ok ()
  count : rows.length = header.phnum.toNat
  nonempty : rows ≠ []
  stride : ProgramHeader.size ≤ header.phentsize.toNat
  bound : header.tableSize ≤ Object.maxTableSize

/-- A file that holds the encoding of a header at its start, and of the rows at the places
that the header names. -/
structure Describes (contents : Bytes) (header : Header) (rows : List ProgramHeader) : Prop where
  acceptable : Acceptable header rows
  start : slice contents 0 Header.size = header.encode
  reach : header.phoff.toNat ≤ Kernel.maxOffset
  inside : header.phoff.toNat + header.tableSize ≤ contents.length
  row : ∀ i (within : i < rows.length),
    slice contents (header.phoff.toNat + i * header.phentsize.toNat) ProgramHeader.size =
      rows[i].encode

/-- The header, the rows at its offset and in its stride, and zeros between them. -/
def layOut (header : Header) (rows : List ProgramHeader) : Bytes :=
  header.encode ++ List.replicate (header.phoff.toNat - Header.size) 0 ++
    rows.flatMap fun row =>
      row.encode ++ List.replicate (header.phentsize.toNat - ProgramHeader.size) 0

namespace Header

def table (header : Header) : Table :=
  ⟨header.phoff.toNat, header.phnum.toNat, header.phentsize.toNat⟩

theorem table_decode (contents : Bytes) : (decode contents).table = .announced contents := by
  rw [table, Table.announced, Table.mk.injEq]
  exact ⟨toNat_field_64 _ _, toNat_field_16 _ _, toNat_field_16 _ _⟩

theorem fileClass_decode (contents : Bytes) : (decode contents).fileClass = contents.getD 4 0 := by
  simp [fileClass, decode, slice]

theorem dataEncoding_decode (contents : Bytes) :
    (decode contents).dataEncoding = contents.getD 5 0 := by
  simp [dataEncoding, decode, slice]

theorem machine_decode (contents : Bytes) :
    (decode contents).machine ≠ nativeMachine ↔ field contents 18 2 ≠ 62 := by
  rw [Ne, ← UInt16.toNat_inj, decode, toNat_field_16]
  rfl

theorem type_decode (contents : Bytes) :
    (decode contents).type ≠ dynamicObject ↔ field contents 16 2 ≠ 3 := by
  rw [Ne, ← UInt16.toNat_inj, decode, toNat_field_16]
  rfl

/-- What is found wrong with the first bytes of a file is its header's fault. -/
theorem parse_validate (contents : Bytes) :
    (parse (slice contents 0 size)).bind (fun header => header.validate.map fun _ => header) =
      checked (headerFault? contents) (decode contents) := by
  have first : (slice contents 0 size).take magic.length = slice contents 0 4 := by
    simp only [slice, List.drop_zero, List.take_take]
    rfl
  have short : (slice contents 0 size).length < size ↔ contents.length < 64 := by
    rw [length_slice, size]
    omega
  rw [parse, first, decode_slice (Nat.le_refl size), headerFault?,
    show ([0x7f, 0x45, 0x4c, 0x46] : Bytes) = magic from rfl]
  by_cases marked : slice contents 0 4 = magic
  · rw [if_neg (not_not.mpr marked), if_neg (not_not.mpr marked)]
    by_cases incomplete : contents.length < 64
    · rw [if_pos (short.mpr incomplete), if_pos incomplete]
      rfl
    · rw [if_neg (mt short.mp incomplete), if_neg incomplete, Except.bind]
      simp only [validate, fileClass_decode, dataEncoding_decode, machine_decode, type_decode,
        wideClass, littleEndianData]
      split_ifs <;> rfl
  · rw [if_pos marked, if_pos marked]
    rfl

theorem validate_decode {contents : Bytes} : (decode contents).validate = .ok () ↔
    contents.getD 4 0 = 2 ∧ contents.getD 5 0 = 1 ∧ field contents 18 2 = 62 ∧
      field contents 16 2 = 3 := by
  simp only [validate, fileClass_decode, dataEncoding_decode, machine_decode, type_decode,
    wideClass, littleEndianData]
  split_ifs <;> simp_all

/-- A file has no header fault if it begins with a header that is accepted. -/
theorem headerFault?_eq_none {contents : Bytes} : headerFault? contents = none ↔
    size ≤ contents.length ∧ (decode contents).ident.take 4 = magic ∧
      (decode contents).validate = .ok () := by
  have marked : (decode contents).ident.take 4 = slice contents 0 4 := by
    simp only [decode, slice, List.drop_zero, List.take_take]
    rfl
  rw [validate_decode, marked, headerFault?, size, magic]
  split_ifs with unmarked short
  · simp [unmarked]
  · simp [Nat.not_le.mpr short]
  all_goals simp_all

theorem decode_eq_iff {contents : Bytes} {header : Header} (ident : header.ident.length = 16) :
    size ≤ contents.length ∧ decode contents = header ↔ slice contents 0 size = header.encode := by
  constructor
  · rintro ⟨whole, rfl⟩
    exact (encode_decode whole).symm
  · intro encoded
    have full : (slice contents 0 size).length = size := by rw [encoded, length_encode ident]
    have same := decode_encode ident []
    rw [List.append_nil, ← encoded, decode_slice (Nat.le_refl _)] at same
    refine ⟨?_, same⟩
    rw [length_slice] at full
    omega

end Header

namespace ProgramHeader

theorem decode_eq_iff {bytes : Bytes} {header : ProgramHeader} (size : bytes.length = size) :
    decode bytes = header ↔ bytes = header.encode := by
  constructor
  · rintro rfl
    rw [encode_decode (Nat.le_of_eq size.symm), slice_self size]
  · rintro rfl
    have same := decode_encode header []
    rwa [List.append_nil] at same

end ProgramHeader

namespace Table

variable {table : Table} {contents : Bytes}

theorem sizeFault?_eq_none : table.sizeFault? = none ↔
    table.size ≠ 0 ∧ table.size ≤ Object.maxTableSize ∧ ProgramHeader.size ≤ table.stride := by
  rw [sizeFault?, ite_eq_right_iff]
  simp only [reduceCtorEq, imp_false, not_or, Object.maxTableSize, ProgramHeader.size]
  omega

theorem placeFault?_of_high (high : Kernel.maxOffset < table.start) (length : Nat) :
    table.placeFault? length = some (.unreadableProgramHeaders Errno.invalidArgument) :=
  if_pos high

theorem placeFault?_of_short {length : Nat} (low : table.start ≤ Kernel.maxOffset)
    (short : length < table.start + table.size) :
    table.placeFault? length = some .truncatedProgramHeaders :=
  (if_neg (Nat.not_lt.mpr low)).trans (if_pos short)

theorem placeFault?_eq_none {length : Nat} : table.placeFault? length = none ↔
    table.start ≤ Kernel.maxOffset ∧ table.start + table.size ≤ length := by
  rw [placeFault?]
  split_ifs with high short
  · simp [Kernel.maxOffset]; omega
  · simp; omega
  · simp [Kernel.maxOffset]; omega

theorem row_inside (wide : ProgramHeader.size ≤ table.stride) {i : Nat} (named : i < table.count) :
    i * table.stride + ProgramHeader.size ≤ table.size := by
  have rows : (i + 1) * table.stride ≤ table.size := Nat.mul_le_mul_right _ named
  rw [Nat.succ_mul] at rows
  omega

theorem decodeTable_slice (wide : ProgramHeader.size ≤ table.stride) :
    Object.decodeTable (slice contents table.start table.size) table.stride table.count =
      table.rows contents := by
  refine List.map_congr_left fun i named => ?_
  have named := List.mem_range.mp named
  have rows : (i + 1) * table.stride ≤ table.size := Nat.mul_le_mul_right _ named
  rw [slice_slice (by rw [Nat.succ_mul] at rows; exact rows), ProgramHeader.decode_slice _ wide]
  rfl

/-- The rows of a table that a file has room for are those that it holds encoded. -/
theorem rows_eq_iff {rows : List ProgramHeader} (wide : ProgramHeader.size ≤ table.stride)
    (inside : table.start + table.size ≤ contents.length) :
    table.rows contents = rows ↔ rows.length = table.count ∧ ∀ i (within : i < rows.length),
      slice contents (table.start + i * table.stride) ProgramHeader.size = rows[i].encode := by
  have held {i : Nat} (named : i < table.count) :
      (slice contents (table.start + i * table.stride) ProgramHeader.size).length =
        ProgramHeader.size := by
    have := row_inside wide named
    exact length_slice_of_inside (by omega)
  constructor
  · rintro rfl
    refine ⟨by simp [Table.rows], fun i within => ?_⟩
    have named : i < table.count := by simpa [Table.rows] using within
    apply (ProgramHeader.decode_eq_iff (held named)).mp
    simp [Table.rows, ProgramHeader.size]
  · rintro ⟨count, encoded⟩
    refine List.ext_getElem (by simp [Table.rows, count]) fun i named within => ?_
    rw [← (ProgramHeader.decode_eq_iff (held (count ▸ within))).mpr (encoded i within)]
    simp [Table.rows, ProgramHeader.size]

end Table

/-- A file is accepted if and only if it is described by what is read from it. -/
theorem verdict_eq_ok_iff {contents : Bytes} {header : Header} {rows : List ProgramHeader} :
    verdict contents = .ok (header, rows) ↔ Describes contents header rows := by
  have accepted : verdict contents = .ok (header, rows) ↔
      (headerFault? contents = none ∧ (Table.announced contents).sizeFault? = none ∧
        (Table.announced contents).placeFault? contents.length = none) ∧
      Header.decode contents = header ∧ (Table.announced contents).rows contents = rows := by
    rw [verdict, earlyFault?]
    cases headerFault? contents <;> cases (Table.announced contents).sizeFault? <;>
      cases (Table.announced contents).placeFault? contents.length <;> simp [checked]
  rw [accepted, Header.headerFault?_eq_none, Table.sizeFault?_eq_none, Table.placeFault?_eq_none,
    ← Header.table_decode]
  constructor
  · rintro ⟨⟨⟨whole, magic, valid⟩, ⟨nonempty, bound, stride⟩, reach, inside⟩, rfl, encoded⟩
    have ident : (Header.decode contents).ident.length = 16 := by
      rw [Header.size] at whole
      exact length_slice_of_inside (by omega)
    obtain ⟨count, row⟩ := (Table.rows_eq_iff stride inside).mp encoded
    refine ⟨⟨ident, magic, valid, count, ?_, stride, bound⟩, (Header.encode_decode whole).symm, reach,
      inside, row⟩
    rintro rfl
    apply nonempty
    rw [Table.size, ← count, List.length_nil, Nat.zero_mul]
  · rintro ⟨⟨ident, magic, valid, count, nonempty, stride, bound⟩, start, reach, inside, row⟩
    obtain ⟨whole, rfl⟩ := (Header.decode_eq_iff ident).mpr start
    refine ⟨⟨⟨whole, magic, valid⟩, ⟨?_, bound, stride⟩, reach, inside⟩, rfl,
      (Table.rows_eq_iff stride inside).mpr ⟨count, row⟩⟩
    have some : 0 < rows.length := List.length_pos_of_ne_nil nonempty
    rw [count] at some
    exact Nat.mul_ne_zero (Nat.ne_of_gt some) (Nat.ne_of_gt (Nat.lt_of_lt_of_le (by decide) stride))

/-- Laying out a header, whose table does not overlap it, and rows gives a file that they
describe. -/
theorem describes_layOut {header : Header} {rows : List ProgramHeader}
    (acceptable : Acceptable header rows) (apart : Header.size ≤ header.phoff.toNat)
    (small : (layOut header rows).length ≤ Kernel.maxOffset) :
    Describes (layOut header rows) header rows := by
  have ident := Header.length_encode acceptable.ident
  have front : (header.encode ++ List.replicate (header.phoff.toNat - Header.size) 0).length =
      header.phoff.toNat := by
    rw [List.length_append, ident, List.length_replicate]
    omega
  have wide : ∀ row ∈ rows, (row.encode ++
      List.replicate (header.phentsize.toNat - ProgramHeader.size) 0).length =
        header.phentsize.toNat := by
    intro row _
    have := acceptable.stride
    rw [List.length_append, ProgramHeader.length_encode, List.length_replicate]
    omega
  have total : (layOut header rows).length = header.phoff.toNat + header.tableSize := by
    rw [layOut, List.length_append, front, length_flatMap_of_width wide, acceptable.count]
    rfl
  have first (bytes : Bytes) (start : Nat) : slice bytes start ProgramHeader.size =
      slice (slice bytes start header.phentsize.toNat) 0 ProgramHeader.size :=
    (slice_slice ((Nat.zero_add _).trans_le acceptable.stride)).symm
  refine ⟨acceptable, ?_, ?_, Nat.le_of_eq total.symm, fun i within => ?_⟩
  · rw [layOut, List.append_assoc, slice_append_left (by omega), slice_self ident]
  · exact Nat.le_trans (Nat.le.intro total.symm) small
  · rw [layOut, slice_append_right (by omega), front, Nat.add_sub_cancel_left, first,
      slice_flatMap wide within, slice_append_left (by simp),
      slice_self (ProgramHeader.length_encode _)]

end ElfRelay.Elf
