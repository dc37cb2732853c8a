import ElfRelay.Proofs.Elf.Format
import ElfRelay.Proofs.Heap
import ElfRelay.Proofs.Reading
/-! Reading an object follows its format. What is read of a file is the verdict on its bytes,
whatever they are: the first fault that they have, found without a look at the table where it
does not take one, or the header and the rows that they encode. -/
namespace ElfRelay

variable {m : Machine} {file : File} {contents : Array UInt8}

theorem File.run_readFully {buffer : Bytes} {offset : UInt64} {after : Kernel}
    {answer : Except Errno Nat × Bytes}
    (called : Kernel.readFully file.descriptor buffer offset m.kernel = (answer, after)) :
    file.readFully buffer offset m = .ok answer { m with kernel := after } :=
  Program.run_callKernel called

namespace Elf.Object

/-- Reading the header polls the first bytes of the file, and finds the header or its fault. -/
theorem run_readHeader (provides : m.kernel.Provides file.descriptor contents) :
    ∃ after, readHeader file m = .ok
        (checked (headerFault? contents.toList) (Header.decode contents.toList))
        { m with kernel := after } ∧
      after.Provides file.descriptor contents ∧
      ∃ events, after.history = events ++ m.kernel.history ∧
        ∀ event ∈ events, event.Polls file.descriptor Header.size 0 := by
  obtain ⟨read, still⟩ := Kernel.readFully_provides provides
    (by decide : (0 : UInt64).toNat ≤ Kernel.maxOffset) (List.replicate Header.size 0)
  have polls := (Kernel.readFully_reads provides.onlyFails file.descriptor
    (by decide : (List.replicate Header.size (0 : UInt8)).length ≤ Kernel.maxOffset) 0).polls
  rw [List.length_replicate] at read polls
  rcases called : Kernel.readFully file.descriptor (List.replicate Header.size 0) 0 m.kernel with
    ⟨answer, after⟩
  rw [called] at read still polls
  dsimp only at read still polls
  subst read
  refine ⟨after, ?_, still, polls⟩
  rw [readHeader, Program.run_bind_ok (File.run_readFully called)]
  dsimp only
  rw [if_neg (by simp), List.take_left, ← Header.parse_validate, UInt64.toNat_zero]
  cases Header.parse (slice contents.toList 0 Header.size) <;> rfl

theorem run_readProgramHeaders_of_sizeFault {header : Header} {fault : LoadError}
    (refused : header.table.sizeFault? = some fault) :
    readProgramHeaders file header m = .ok (.error fault) m := by
  rw [Table.sizeFault?] at refused
  split at refused
  · next outside =>
    cases refused
    rw [readProgramHeaders]
    exact congrFun (if_pos outside) m
  · contradiction

/-- The memory that reading a table takes: for its bytes, and for the rows unless they are few. -/
def roomFor (table : Table) : Nat :=
  table.size + if inlineHeaders < table.count then 7 + table.count * ProgramHeader.size else 0

def HasRoom (heap : Heap) (table : Table) : Prop := heap.fits (heap.used + roomFor table) = true

theorem not_hasRoom {heap other : Heap} {table : Table} {stop : Nat}
    (same : heap.capacity = other.capacity) (inside : stop ≤ other.used + roomFor table)
    (lacking : heap.fits stop = false) : ¬ HasRoom other table := by
  rw [HasRoom, Heap.not_fits_of_le same.symm inside lacking]
  exact Bool.false_ne_true

theorem run_reserveHeaders (count : Nat) :
    ∃ room heap, reserveHeaders count m = .ok room { m with heap := heap } ∧
      (room = none → inlineHeaders < count ∧
        m.heap.fits (m.heap.used + 7 + count * ProgramHeader.size) = false) := by
  rw [reserveHeaders]
  split
  · next many =>
    obtain ⟨room, heap, ran, _, _, lacking⟩ :=
      Program.run_reserve (m := m) (count * ProgramHeader.size) (by decide : 0 < 8)
    refine ⟨room, heap, ran, fun none => ⟨many, Heap.not_fits_of_le rfl ?_ (lacking none)⟩⟩
    have := m.heap.start_le (by decide : 0 < 8)
    omega
  · exact ⟨_, m.heap, rfl, nofun⟩

/-- How the bytes of a table are read: not at all, not all of them, or all. -/
theorem readFully_table {k : Kernel} (provides : k.Provides file.descriptor contents)
    {header : Header} (nonempty : header.tableSize ≠ 0) :
    ∃ answer after, k.readFully file.descriptor (List.replicate header.tableSize 0) header.phoff =
        (answer, after) ∧
      ((answer.1 = .error Errno.invalidArgument ∧ header.table.placeFault? contents.size =
          some (.unreadableProgramHeaders Errno.invalidArgument)) ∨
        (∃ count ≠ header.tableSize, answer.1 = .ok count ∧
          header.table.placeFault? contents.size = some .truncatedProgramHeaders) ∨
        (answer = (.ok header.tableSize,
            slice contents.toList header.phoff.toNat header.tableSize) ∧
          header.table.placeFault? contents.size = none)) := by
  rcases called : k.readFully file.descriptor (List.replicate header.tableSize 0) header.phoff with
    ⟨answer, after⟩
  refine ⟨answer, after, rfl, ?_⟩
  have extent : (slice contents.toList header.phoff.toNat header.tableSize).length =
      min header.tableSize (contents.size - header.phoff.toNat) := by
    rw [length_slice, Array.length_toList]
  by_cases low : header.phoff.toNat ≤ Kernel.maxOffset
  · obtain ⟨read, _⟩ := Kernel.readFully_provides provides low (List.replicate header.tableSize 0)
    rw [called, List.length_replicate] at read
    dsimp only at read
    by_cases short : contents.size < header.phoff.toNat + header.tableSize
    · refine .inr (.inl ⟨_, ?_, congrArg Prod.fst read, Table.placeFault?_of_short low short⟩)
      rw [extent]
      omega
    · have full : min header.tableSize (contents.size - header.phoff.toNat) = header.tableSize := by
        omega
      rw [extent, full, List.drop_of_length_le (by simp), List.append_nil] at read
      exact .inr (.inr ⟨read, Table.placeFault?_eq_none.mpr ⟨low, Nat.not_lt.mp short⟩⟩)
  · have high := Nat.not_le.mp low
    obtain ⟨refused, _⟩ := Kernel.readFully_beyond provides high
      (by simpa using nonempty : List.replicate header.tableSize (0 : UInt8) ≠ [])
    rw [called] at refused
    exact .inl ⟨congrArg Prod.fst refused, Table.placeFault?_of_high high _⟩

theorem run_readProgramHeaders (provides : m.kernel.Provides file.descriptor contents)
    {header : Header} (accepted : header.table.sizeFault? = none) :
    ∃ outcome after, readProgramHeaders file header m = .ok outcome after ∧
      (outcome = checked (header.table.placeFault? contents.size)
        (header.table.rows contents.toList) ∨
      outcome = .error .outOfMemory ∧ ¬ HasRoom m.heap header.table) := by
  obtain ⟨nonempty, bound, wide⟩ := Table.sizeFault?_eq_none.mp accepted
  have inside : ¬ (header.tableSize = 0 ∨ maxTableSize < header.tableSize ∨
      header.phentsize.toNat < ProgramHeader.size) := by
    rintro (empty | large | narrow)
    · exact nonempty empty
    · exact Nat.not_lt.mpr bound large
    · exact Nat.not_lt.mpr wide narrow
  obtain ⟨room, heap, reserved, capacity, used, lacking⟩ :=
    Program.run_reserve (m := m) header.tableSize (by decide : 0 < 1)
  rw [Heap.start_one] at used lacking
  rw [readProgramHeaders]
  dsimp only
  rw [if_neg inside, Program.run_bind_ok reserved]
  cases room with
  | none =>
    refine ⟨_, _, rfl, .inr ⟨rfl, not_hasRoom rfl ?_ (lacking rfl)⟩⟩
    exact Nat.add_le_add_left (Nat.le_add_right _ _) _
  | some _ =>
    obtain ⟨⟨count, bytes⟩, after, called, cases⟩ := readFully_table provides nonempty
    dsimp only
    rw [Program.run_bind_ok (File.run_readFully (m := { m with heap := heap }) called)]
    -- The offset is refused, the file ends within the table, or the table is there.
    rcases cases with ⟨rfl, fault⟩ | ⟨read, part, rfl, fault⟩ | ⟨whole, fault⟩
    · exact ⟨_, _, rfl, .inl (by rw [fault]; rfl)⟩
    · dsimp only
      rw [if_pos part]
      exact ⟨_, _, rfl, .inl (by rw [fault]; rfl)⟩
    · cases whole
      obtain ⟨room, rest, reserved, lacking⟩ :=
        run_reserveHeaders (m := ⟨m.memory, after, heap, m.logFilter⟩) header.phnum.toNat
      dsimp only
      rw [if_neg (not_not.mpr rfl), Program.run_bind_ok reserved]
      cases room with
      | none =>
        obtain ⟨many, lacking⟩ := lacking rfl
        refine ⟨_, _, rfl, .inr ⟨rfl, not_hasRoom capacity ?_ lacking⟩⟩
        have many : inlineHeaders < header.table.count := many
        have size : header.table.size = header.tableSize := rfl
        rw [roomFor, if_pos many, size, Header.table]
        dsimp only
        omega
      | some _ =>
        refine ⟨_, _, rfl, .inl ?_⟩
        rw [fault]
        exact congrArg Except.ok (Table.decodeTable_slice wide)

/-- What a file with a fault in its header or in the size of its table gives, after no more
than a read of the header. -/
theorem ofFile_of_earlyFault (provides : m.kernel.Provides file.descriptor contents)
    {fault : LoadError} (faulty : earlyFault? contents.toList = some fault) :
    (ofFile file).value? m = some (.error fault) ∧
      ∃ events, ((ofFile file).last m).kernel.history = events ++ m.kernel.history ∧
        ∀ event ∈ events, event.Polls file.descriptor Header.size 0 := by
  obtain ⟨after, read, _, polls⟩ := run_readHeader provides
  have ran : ofFile file m = .ok (.error fault) { m with kernel := after } := by
    rw [ofFile, Program.run_bind_ok read]
    rw [earlyFault?] at faulty
    cases start : headerFault? contents.toList with
    | some found =>
      rw [start] at faulty
      cases faulty
      rfl
    | none =>
      rw [start, Option.none_or, ← Header.table_decode] at faulty
      dsimp only [checked]
      rw [Program.run_bind_ok (run_readProgramHeaders_of_sizeFault faulty)]
      rfl
  rw [Program.value?_of_eq_ok ran, Program.last, ran]
  exact ⟨rfl, polls⟩

theorem ofFile_verdict (provides : m.kernel.Provides file.descriptor contents) :
    ∃ outcome, (ofFile file).value? m = some outcome ∧
      (outcome = (verdict contents.toList).map (fun held => ⟨file, held.1, held.2⟩) ∨
        outcome = .error .outOfMemory ∧
          ¬ HasRoom m.heap (Table.announced contents.toList)) := by
  cases faulty : earlyFault? contents.toList with
  | some fault =>
    refine ⟨_, (ofFile_of_earlyFault provides faulty).1, .inl ?_⟩
    rw [verdict, faulty]
    rfl
  | none =>
    obtain ⟨after, read, still, _⟩ := run_readHeader provides
    rw [earlyFault?, Option.or_eq_none_iff, ← Header.table_decode] at faulty
    obtain ⟨outcome, _, ran, given⟩ :=
      run_readProgramHeaders (m := { m with kernel := after }) still faulty.2
    rw [faulty.1] at read
    have whole : (ofFile file).value? m =
        some (outcome.map fun programHeaders =>
          ⟨file, Header.decode contents.toList, programHeaders⟩) := by
      apply Program.value?_of_eq_ok
      rw [ofFile, Program.run_bind_ok read]
      dsimp only [checked]
      rw [Program.run_bind_ok ran]
      rfl
    refine ⟨_, whole, given.imp ?_ ?_⟩
    · rintro rfl
      have size : contents.toList.length = contents.size := Array.length_toList
      rw [verdict, earlyFault?, faulty.1, ← Header.table_decode, faulty.2, size]
      cases (Header.decode contents.toList).table.placeFault? contents.size <;> rfl
    · rintro ⟨rfl, lacking⟩
      exact ⟨rfl, Header.table_decode contents.toList ▸ lacking⟩

/-- Reading a file follows the format. Whatever the file holds, what is read is its verdict,
or memory has run out; a fault that is found early is found by the read of the header alone.
With room, a header and rows are read if and only if the file holds their encoding, so they
are read back from the file that they are laid out in. -/
theorem ofFile_follows_format (provides : m.kernel.Provides file.descriptor contents) :
    (∀ fault, earlyFault? contents.toList = some fault →
      (ofFile file).value? m = some (.error fault) ∧
      ∃ events, ((ofFile file).last m).kernel.history = events ++ m.kernel.history ∧
        ∀ event ∈ events, event.Polls file.descriptor Header.size 0) ∧
    (∃ outcome, (ofFile file).value? m = some outcome ∧
      (outcome = (verdict contents.toList).map (fun held => ⟨file, held.1, held.2⟩) ∨
        outcome = .error .outOfMemory ∧
          ¬ HasRoom m.heap (Table.announced contents.toList))) ∧
    (HasRoom m.heap (Table.announced contents.toList) → ∀ header rows,
      ((ofFile file).value? m = some (.ok ⟨file, header, rows⟩) ↔
        Describes contents.toList header rows)) ∧
    ∀ header rows, HasRoom m.heap header.table → Acceptable header rows →
      Header.size ≤ header.phoff.toNat → contents.toList = layOut header rows →
      (ofFile file).value? m = some (.ok ⟨file, header, rows⟩) := by
  have accepts (room : HasRoom m.heap (Table.announced contents.toList)) (header : Header) (rows : List ProgramHeader) :
      (ofFile file).value? m = some (.ok ⟨file, header, rows⟩) ↔
        Describes contents.toList header rows := by
    obtain ⟨outcome, returned, given | ⟨_, lacking⟩⟩ := ofFile_verdict provides
    · rw [returned, given, ← verdict_eq_ok_iff]
      rcases verdict contents.toList with fault | ⟨_, _⟩ <;> simp [Except.map]
    · exact absurd room lacking
  refine ⟨fun _ => ofFile_of_earlyFault provides, ofFile_verdict provides, accepts, ?_⟩
  intro header rows room acceptable apart laid
  have described : Describes contents.toList header rows := by
    rw [laid]
    refine describes_layOut acceptable apart ?_
    rw [← laid, Array.length_toList]
    exact provides.small
  obtain ⟨_, decoded⟩ := (Header.decode_eq_iff acceptable.ident).mpr described.start
  refine (accepts ?_ header rows).mpr described
  rwa [← Header.table_decode, decoded]

/-- A header whose table starts behind a gap, with a gap behind each row. -/
def gappedHeader : Header :=
  ⟨magic ++ [2, 1, 1, 0, 0, 0, 0, 0, 0, 0, 0, 0], dynamicObject, nativeMachine, 1, 0x40, 80, 0, 0,
    64, 60, 2, 0, 0, 0⟩

def gappedRows : List ProgramHeader :=
  [⟨1, 5, 0, 0, 0, 0x78, 0x78, 0x1000⟩, ⟨2, 6, 0x40, 0x2040, 0, 0x20, 0x30, 8⟩]

/-- A machine with the file of that header open, where the first read is interrupted and the
second one is short. -/
def gappedMachine : Machine where
  memory := .zero
  kernel := { Kernel.initial (fun _ => none) [(.pread, [.fixed (Kernel.failure 4), .atMost 10])]
      ⟨0x10000000, 0x1000⟩ with
    descriptors := [(3, .regular (layOut gappedHeader gappedRows).toArray)] }
  heap := .empty 0x100000 (some 120)
  logFilter := none

theorem ofFile_reads_gapped :
    gappedMachine.kernel.Provides 3 (layOut gappedHeader gappedRows).toArray ∧
      (ofFile ⟨3⟩).value? gappedMachine = some (.ok ⟨⟨3⟩, gappedHeader, gappedRows⟩) := by
  have provides : gappedMachine.kernel.Provides (File.mk 3).descriptor
      (layOut gappedHeader gappedRows).toArray := by
    refine ⟨rfl, ?_, by decide +kernel⟩
    intro answer member
    have pending : gappedMachine.kernel.pending .pread =
        [.fixed (Kernel.failure 4), .atMost 10] := rfl
    rw [pending] at member
    rcases List.mem_pair.mp member with rfl | rfl
    · exact (rfl : Errno.ofResult (Kernel.failure 4) = .error Errno.interrupted)
    · exact (by decide : 0 < 10)
  obtain ⟨_, _, _, reads⟩ := ofFile_follows_format provides
  exact ⟨provides, reads gappedHeader gappedRows rfl
    ⟨rfl, rfl, rfl, rfl, by decide, by decide, by decide⟩ (by decide) rfl⟩

end Elf.Object
end ElfRelay
