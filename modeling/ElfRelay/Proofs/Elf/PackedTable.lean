import ElfRelay.Proofs.Elf.SelfRelocation
/-! The packed relocation table, entry by entry. What an entry names depends on the entries
before it only through the nearest even one and the number of bitmaps since, so each word
that a table names can be told without going through the table. -/
namespace ElfRelay.Elf

open Memory (Apart Spaced)

/-- An odd entry is a bitmap, an even one the address of a word. -/
def isBitmap (entry : UInt64) : Bool := entry.toNat % 2 == 1

def nearestEven? (before : List UInt64) : Option UInt64 :=
  before.reverse.find? fun entry => !isBitmap entry

def bitmapsSince (before : List UInt64) : Nat := (before.reverse.takeWhile isBitmap).length

/-- A word behind the one at distance `even` from the base. Each of the `count` bitmaps
before is about 63 of them; `i` counts on from there. -/
def wordBehind (base even : UInt64) (count i : Nat) : UInt64 :=
  base + even + 8 * (1 + 63 * count + i).toUInt64

def namedBy (base : UInt64) (before : List UInt64) (entry : UInt64) : List UInt64 :=
  if isBitmap entry then
    match nearestEven? before with
    | none => []
    | some even => ((List.range 63).filter fun i => entry.toNat.testBit (i + 1)).map
        (wordBehind base even (bitmapsSince before))
  else [base + entry]

/-- The words that a table names, each as often as it is named. -/
def named (base : UInt64) (words : List UInt64) : List UInt64 :=
  words.zipIdx.flatMap fun (entry, index) => namedBy base (words.take index) entry

theorem isBitmap_eq_false_iff (entry : UInt64) : isBitmap entry = false ↔ entry &&& 1 = 0 := by
  have low : (entry &&& 1).toNat = entry.toNat % 2 := by
    rw [UInt64.toNat_and]
    exact Nat.and_one_is_mod _
  constructor
  · intro even
    have parity : entry.toNat % 2 ≠ 1 := by simpa [isBitmap] using even
    apply UInt64.toNat.inj
    rw [low, UInt64.toNat_zero]
    omega
  · intro even
    rw [even, UInt64.toNat_zero] at low
    simp [isBitmap, ← low]

@[simp] theorem nearestEven?_concat (before : List UInt64) (entry : UInt64) :
    nearestEven? (before ++ [entry]) =
      if isBitmap entry then nearestEven? before else some entry := by
  by_cases bitmap : isBitmap entry = true <;> simp [nearestEven?, bitmap]

@[simp] theorem bitmapsSince_concat (before : List UInt64) (entry : UInt64) :
    bitmapsSince (before ++ [entry]) =
      if isBitmap entry then bitmapsSince before + 1 else 0 := by
  by_cases bitmap : isBitmap entry = true <;> simp [bitmapsSince, bitmap]

theorem nearestEven?_isSome {first : UInt64} (even : isBitmap first = false)
    (before : List UInt64) : (nearestEven? (first :: before)).isSome := by
  simp [nearestEven?, even]

variable {base : UInt64}

theorem wordBehind_add (base even : UInt64) (count i : Nat) :
    wordBehind base even count i = wordBehind base even count 0 + 8 * i.toUInt64 := by
  simp only [wordBehind, Nat.toUInt64, UInt64.ofNat_add]
  grind

/-- Where a table is about to go on: at the word behind those that the last entry is about. -/
def positionBehind (base : UInt64) (before : List UInt64) : UInt64 :=
  match nearestEven? before with
  | none => 0
  | some even => wordBehind base even (bitmapsSince before) 0

theorem positionBehind_even {entry : UInt64} (even : isBitmap entry = false)
    (before : List UInt64) : positionBehind base (before ++ [entry]) = base + entry + 8 := by
  simp [positionBehind, even, wordBehind]

theorem positionBehind_bitmap {entry anchor : UInt64} {before : List UInt64}
    (bitmap : isBitmap entry = true) (anchored : nearestEven? before = some anchor) :
    positionBehind base (before ++ [entry]) =
      positionBehind base before + 8 * bitmapWords.toUInt64 := by
  simp only [positionBehind, nearestEven?_concat, bitmapsSince_concat, bitmap, if_true, anchored]
  rw [← wordBehind_add, wordBehind, wordBehind, bitmapWords]
  congr 3

theorem bitmapTargets_eq {entry anchor : UInt64} {before : List UInt64}
    (bitmap : isBitmap entry = true) (anchored : nearestEven? before = some anchor) :
    bitmapTargets (positionBehind base before) entry = namedBy base before entry := by
  simp only [bitmapTargets, namedBy, bitmap, if_true, positionBehind, anchored, bitmapWords]
  apply List.map_congr_left
  intro i _
  exact (wordBehind_add base anchor _ i).symm

/-- Going through the rest of a table names what its entries name by themselves. -/
theorem packedTargets_eq (before words : List UInt64)
    (even : ∀ first ∈ (before ++ words).head?, isBitmap first = false) :
    packedTargets base (positionBehind base before) words =
      (words.zipIdx before.length).flatMap fun (entry, index) =>
        namedBy base ((before ++ words).take index) entry := by
  induction words generalizing before with
  | nil => rfl
  | cons entry words ih =>
    have split : before ++ entry :: words = (before ++ [entry]) ++ words := by simp
    have next := ih (before ++ [entry]) (by rw [← split]; exact even)
    rw [← split, List.length_append, List.length_singleton] at next
    simp only [List.zipIdx_cons, List.flatMap_cons, packedTargets, List.take_left]
    by_cases bitmap : isBitmap entry = true
    · have odd : entry &&& 1 ≠ 0 := by
        intro zero
        simp [(isBitmap_eq_false_iff entry).mpr zero] at bitmap
      -- The first entry is even, so it is not this one and stands before it.
      obtain ⟨anchor, anchored⟩ : ∃ anchor, nearestEven? before = some anchor := by
        cases before with
        | nil => simp [even entry rfl] at bitmap
        | cons first before =>
          exact Option.isSome_iff_exists.mp (nearestEven?_isSome (even first rfl) before)
      rw [if_neg odd, bitmapTargets_eq bitmap anchored, ← positionBehind_bitmap bitmap anchored,
        next]
    · have zero := (isBitmap_eq_false_iff entry).mp (by simpa using bitmap)
      have single : namedBy base before entry = [base + entry] := by simp [namedBy, bitmap]
      rw [if_pos zero, single, ← positionBehind_even (by simpa using bitmap) before, next]
      rfl

/-- A packed table adds the base to each word that its entries name, as often as it is named,
and changes nothing else. A part of a word at its end is no entry. -/
theorem applyRelr_decodes {m : Memory} {tables : DynamicTables} {words : List UInt64} {rest : Nat}
    (size : tables.relrSize.toNat = 8 * words.length + rest) (short : rest < 8)
    (stored : ∀ i (listed : i < words.length), m.wordAt (base + tables.relr) i = words[i])
    (even : ∀ first ∈ words.head?, isBitmap first = false)
    (apart : ∀ target ∈ named base words, ∀ i < words.length,
      Apart target 8 (base + tables.relr + 8 * i.toUInt64) 8)
    (spaced : ∀ address ∈ named base words, Spaced (named base words) address) :
    (∀ address ∈ named base words, (applyRelr base tables m).readWord address =
      m.readWord address + base * ((named base words).count address).toUInt64) ∧
    ∀ address, (∀ target ∈ named base words, ¬ (address - target).toNat < 8) →
      (applyRelr base tables m).read address = m.read address := by
  have targets : packedTargets base 0 words = named base words := by
    exact packedTargets_eq [] words even
  have count : tables.relrSize.toNat / 8 = words.length := by omega
  have applied : applyRelr base tables m =
      m.changeWords ((named base words).map (addChange base)) := by
    rw [applyRelr, count, ← targets]
    apply applyRelrFrom_eq stored
    rw [targets]
    exact apart
  have relocates := relocates_changeWords base [] (named base words) m (by simpa using spaced)
  simp only [List.map_nil, List.nil_append, ← applied] at relocates
  constructor
  · intro address member
    simpa using relocates.target address (by simpa using member)
  · intro address outside
    exact relocates.other address (by simpa using outside)

/-- A table with two bitmaps in a row, a word that is named twice, and half an entry. -/
def packedMemory : Memory := Memory.zero
  |>.writeWords 0x10300 [0x400, 5, 3, 0x400, 0xffffffff]
  |>.writeWords 0x10400 [1, 2, 3]

def packedTables : DynamicTables := { DynamicTables.none with relr := 0x300, relrSize := 36 }

theorem applyRelr_decodes_twice :
    let after := applyRelr 0x10000 packedTables packedMemory
    after.readWord 0x10400 = 1 + 0x10000 + 0x10000 ∧ after.readWord 0x10410 = 3 + 0x10000 ∧
      after.readWord 0x10600 = 0x10000 ∧ after.read 0x10408 = 2 := by
  have names : named 0x10000 [0x400, 5, 3, 0x400] = [0x10400, 0x10410, 0x10600, 0x10400] := by
    decide +kernel
  have size : packedTables.relrSize.toNat = 8 * [0x400, 5, 3, (0x400 : UInt64)].length + 4 := rfl
  have clear : ∀ target ∈ named 0x10000 [0x400, 5, 3, 0x400], ∀ i < 4,
      Apart target 8 (0x10000 + packedTables.relr + 8 * i.toUInt64) 8 := by
    rw [names]
    exact List.forall_iff_forall_mem.mp (by decide +kernel)
  have spaced : ∀ address ∈ named 0x10000 [0x400, 5, 3, 0x400],
      Spaced (named 0x10000 [0x400, 5, 3, 0x400]) address := by
    rw [names]
    simp [Spaced, Apart]
  obtain ⟨target, other⟩ := applyRelr_decodes (m := packedMemory) size (by decide)
    (by decide +kernel) (by rintro _ ⟨⟩; rfl) clear spaced
  rw [names] at target other
  refine ⟨?_, ?_, ?_, ?_⟩
  · rw [target 0x10400 (by decide)]
    decide +kernel
  · rw [target 0x10410 (by decide)]
    decide +kernel
  · rw [target 0x10600 (by decide)]
    decide +kernel
  · rw [other 0x10408 (List.forall_iff_forall_mem.mp (by decide))]
    decide +kernel

end ElfRelay.Elf
