import ElfRelay.Proofs.Startup
/-! What is read of a start-up block whose words are in memory, wherever its strings are.
Each part is found behind the one before it, which ends in a null word: the arguments, the
environment, and the pairs of the auxiliary vector up to the first key 0. -/
namespace ElfRelay
namespace StartupBlock

def wordCount (block : StartupBlock) : Nat :=
  block.arguments.length + block.environment.length + 2 * block.auxiliary.length + 5

/-- How many pairs of the auxiliary vector are found in it: those before a key 0. -/
def pairCount (block : StartupBlock) : Nat := block.auxiliary.findIdx (·.1 == 0)

section
variable (arguments environment : List UInt64) (auxiliary : List (UInt64 × UInt64))

theorem length_flatMap_pairs :
    (auxiliary.flatMap fun pair => [pair.1, pair.2]).length = 2 * auxiliary.length := by
  induction auxiliary with
  | nil => rfl
  | cons pair rest ih => simp; omega

theorem flatMap_pairs_key {i : Nat} (listed : i < auxiliary.length) :
    (auxiliary.flatMap fun pair => [pair.1, pair.2])[2 * i]? = some auxiliary[i].1 := by
  induction auxiliary generalizing i with
  | nil => contradiction
  | cons pair rest ih =>
    cases i with
    | zero => rfl
    | succ i => exact ih (Nat.lt_of_succ_lt_succ listed)

theorem flatMap_pairs_value {i : Nat} (listed : i < auxiliary.length) :
    (auxiliary.flatMap fun pair => [pair.1, pair.2])[2 * i + 1]? = some auxiliary[i].2 := by
  induction auxiliary generalizing i with
  | nil => contradiction
  | cons pair rest ih =>
    cases i with
    | zero => rfl
    | succ i => exact ih (Nat.lt_of_succ_lt_succ listed)

theorem length_words : (words arguments environment auxiliary).length =
    arguments.length + environment.length + 2 * auxiliary.length + 5 := by
  grind [words, length_flatMap_pairs]

theorem words_count : (words arguments environment auxiliary)[0]? =
    some arguments.length.toUInt64 := rfl

theorem words_argument {i : Nat} (listed : i < arguments.length) :
    (words arguments environment auxiliary)[1 + i]? = arguments[i]? := by
  grind [words]

theorem words_arguments_end :
    (words arguments environment auxiliary)[1 + arguments.length]? = some 0 := by
  grind [words]

theorem words_slot {slot : Nat} (listed : slot < environment.length) :
    (words arguments environment auxiliary)[arguments.length + 2 + slot]? = environment[slot]? := by
  grind [words]

theorem words_slots_end :
    (words arguments environment auxiliary)[arguments.length + 2 + environment.length]? =
      some 0 := by
  grind [words]

theorem words_behind (i : Nat) :
    (words arguments environment auxiliary)[arguments.length + environment.length + 3 + i]? =
      (auxiliary.flatMap (fun pair => [pair.1, pair.2]) ++ [0, 0])[i]? := by
  have split : words arguments environment auxiliary =
      (arguments.length.toUInt64 :: arguments ++ 0 :: environment ++ [0]) ++
        (auxiliary.flatMap (fun pair => [pair.1, pair.2]) ++ [0, 0]) := by
    simp [words]
  have length : (arguments.length.toUInt64 :: arguments ++ 0 :: environment ++ [0]).length =
      arguments.length + environment.length + 3 := by
    simp
    omega
  rw [split, List.getElem?_append_right (by omega), length, Nat.add_sub_cancel_left]

theorem words_key {i : Nat} (listed : i < auxiliary.length) :
    (words arguments environment auxiliary)[arguments.length + environment.length + 3 + 2 * i]? =
      some auxiliary[i].1 := by
  rw [words_behind, List.getElem?_append_left, flatMap_pairs_key _ listed]
  rw [length_flatMap_pairs]
  omega

theorem words_value {i : Nat} (listed : i < auxiliary.length) :
    (words arguments environment auxiliary)[arguments.length + environment.length + 3 +
      (2 * i + 1)]? = some auxiliary[i].2 := by
  rw [words_behind, List.getElem?_append_left, flatMap_pairs_value _ listed]
  rw [length_flatMap_pairs]
  omega

theorem words_pairs_end :
    (words arguments environment auxiliary)[arguments.length + environment.length + 3 +
      2 * auxiliary.length]? = some 0 := by
  rw [words_behind, List.getElem?_append_right (Nat.le_of_eq (length_flatMap_pairs _)),
    length_flatMap_pairs, Nat.sub_self]
  rfl

end

/-- Whether a pointer is null or points at a string, as the string is missing or not. -/
def ReadsAs (m : Memory) (pointer : UInt64) : Option Bytes → Prop
  | none => pointer = 0
  | some text => pointer ≠ 0 ∧ m.string pointer = text

@[simp] theorem readsAs_none {m : Memory} {pointer : UInt64} :
    ReadsAs m pointer none ↔ pointer = 0 := Iff.rfl

@[simp] theorem readsAs_some {m : Memory} {pointer : UInt64} {text : Bytes} :
    ReadsAs m pointer (some text) ↔ pointer ≠ 0 ∧ m.string pointer = text := Iff.rfl

/-- Whether the words of a block are in memory from an address on, with the strings of the
block where the pointers among them point. -/
structure StandsAt (block : StartupBlock) (m : Memory) (stackPointer : UInt64)
    (arguments environment : List UInt64) : Prop where
  fits : 8 * block.wordCount ≤ UInt64.size
  words : ∀ {i : Nat} {value : UInt64},
    (words arguments environment block.auxiliary)[i]? = some value → m.wordAt stackPointer i = value
  arguments : List.Forall₂ (ReadsAs m) arguments block.arguments
  environment : List.Forall₂ (ReadsAs m) environment (block.environment.map some)

namespace StandsAt

open StartupView (read)

variable {block : StartupBlock} {m : Memory} {stackPointer : UInt64}
  {arguments environment : List UInt64}
  (stands : block.StandsAt m stackPointer arguments environment)
include stands

theorem length_arguments : arguments.length = block.arguments.length := stands.arguments.length_eq

theorem length_environment : environment.length = block.environment.length := by
  simpa using stands.environment.length_eq

theorem argumentCount : (read m stackPointer).argumentCount.toNat = block.arguments.length := by
  have fits := stands.fits
  have start : m.readWord stackPointer = m.wordAt stackPointer 0 := by simp [Memory.wordAt]
  change (m.readWord stackPointer).toNat = _
  rw [start, stands.words (words_count _ _ _), stands.length_arguments]
  apply Nat.mod_eq_of_lt
  simp only [wordCount, UInt64.size] at fits
  omega

theorem argument {i : Nat} (listed : i < arguments.length) :
    m.wordAt (read m stackPointer).arguments i = arguments[i] := by
  rw [StartupView.wordAt_arguments]
  apply stands.words
  rw [words_argument _ _ _ listed, List.getElem?_eq_getElem listed]

theorem argument_reads {i : Nat} (listed : i < block.arguments.length) :
    ReadsAs m (m.wordAt (read m stackPointer).arguments i) block.arguments[i] := by
  have inside := stands.length_arguments ▸ listed
  rw [stands.argument inside]
  exact stands.arguments.get inside listed

theorem argument_eq_zero {i : Nat} (listed : i < block.arguments.length) :
    m.wordAt (read m stackPointer).arguments i = 0 ↔ block.arguments[i] = none := by
  have reads := stands.argument_reads listed
  cases entry : block.arguments[i] with
  | none =>
    rw [entry] at reads
    simpa using reads
  | some text =>
    rw [entry] at reads
    simpa using reads.1

theorem argument_text {i : Nat} {text : Bytes} (listed : i < block.arguments.length)
    (entry : block.arguments[i] = some text) :
    m.string (m.wordAt (read m stackPointer).arguments i) = text := by
  have reads := stands.argument_reads listed
  rw [entry] at reads
  exact reads.2

theorem arguments_end : m.wordAt (read m stackPointer).arguments
    (read m stackPointer).argumentCount.toNat = 0 := by
  rw [StartupView.wordAt_arguments, stands.argumentCount, ← stands.length_arguments]
  exact stands.words (words_arguments_end _ _ _)

theorem argumentPointers : (List.range (read m stackPointer).argumentCount.toNat).map
    (m.wordAt (read m stackPointer).arguments) = arguments := by
  rw [stands.argumentCount, ← stands.length_arguments]
  apply List.ext_getElem
  · simp
  · intro i left right
    simpa using stands.argument right

theorem slot_word {slot : Nat} : (read m stackPointer).environment.entryAddress m slot =
    m.wordAt stackPointer (arguments.length + 2 + slot) := by
  rw [(StartupView.laid_read m stackPointer).entryAddress_eq, StartupView.slotIndex,
    stands.argumentCount, stands.length_arguments]
  rfl

theorem entryAddress {slot : Nat} (listed : slot < environment.length) :
    (read m stackPointer).environment.entryAddress m slot = environment[slot] := by
  rw [stands.slot_word]
  apply stands.words
  rw [words_slot _ _ _ listed, List.getElem?_eq_getElem listed]

theorem slot_reads {slot : Nat} (inside : slot < environment.length)
    (listed : slot < block.environment.length) :
    environment[slot] ≠ 0 ∧ m.string environment[slot] = block.environment[slot] := by
  have reads := stands.environment.get inside (by simpa using listed)
  simpa using reads

theorem slotCount : (read m stackPointer).environment.count = block.environment.length := by
  have fits := stands.fits
  rw [← stands.length_environment]
  refine firstIndex_eq _ ?_ ?_ fun slot listed => ?_
  · rw [stands.length_environment]
    simp only [wordCount, UInt64.size] at fits ⊢
    omega
  · have null := stands.slot_word.trans (stands.words (words_slots_end _ _ _))
    exact beq_iff_eq.mpr null
  · have present := (stands.slot_reads listed (stands.length_environment ▸ listed)).1
    rw [← stands.entryAddress listed] at present
    exact beq_eq_false_iff_ne.mpr present

theorem entry {slot : Nat} (listed : slot < block.environment.length) :
    (read m stackPointer).environment.entry m slot = block.environment[slot] := by
  have inside := stands.length_environment ▸ listed
  rw [Environment.entry, stands.entryAddress inside, (stands.slot_reads inside listed).2]

/-- The entries of the environment read as they were laid out. -/
theorem entries : (read m stackPointer).environment.entries m = block.environment := by
  rw [Environment.entries, stands.slotCount]
  apply List.ext_getElem
  · simp
  · intro slot left right
    simpa using stands.entry right

theorem key_word {i : Nat} : (read m stackPointer).auxiliaryVector.key m i =
    m.wordAt stackPointer (arguments.length + environment.length + 3 + 2 * i) := by
  rw [(StartupView.laid_read m stackPointer).key_eq, StartupView.keyIndex, stands.argumentCount,
    stands.slotCount, stands.length_arguments, stands.length_environment]
  rfl

/-- The pairs of the auxiliary vector read as they were laid out, also those behind a key 0. -/
theorem pair {i : Nat} (listed : i < block.auxiliary.length) :
    (read m stackPointer).auxiliaryVector.key m i = block.auxiliary[i].1 ∧
      (read m stackPointer).auxiliaryVector.value m i = block.auxiliary[i].2 := by
  constructor
  · exact stands.key_word.trans (stands.words (words_key _ _ _ listed))
  · rw [(StartupView.laid_read m stackPointer).value_eq, StartupView.keyIndex,
      stands.argumentCount, stands.slotCount, ← stands.length_arguments,
      ← stands.length_environment]
    exact stands.words (words_value _ _ _ listed)

theorem pairCount : (read m stackPointer).auxiliaryVector.count = block.pairCount := by
  have fits := stands.fits
  have listed : block.pairCount ≤ block.auxiliary.length := List.findIdx_le_length
  refine firstIndex_eq _ ?_ ?_ fun i earlier => ?_
  · simp only [wordCount, UInt64.size] at fits ⊢
    omega
  -- The first key 0 is one of the vector's own, or that of the null pair behind it.
  · change ((read m stackPointer).auxiliaryVector.key m block.pairCount == 0) = true
    rcases Nat.lt_or_eq_of_le listed with found | missing
    · rw [(stands.pair found).1]
      exact List.findIdx_getElem (p := fun pair : UInt64 × UInt64 => pair.1 == 0)
    · have null := stands.words (words_pairs_end arguments environment block.auxiliary)
      rw [← missing] at null
      exact beq_iff_eq.mpr (stands.key_word.trans null)
  · change ((read m stackPointer).auxiliaryVector.key m i == 0) = false
    rw [(stands.pair (Nat.lt_of_lt_of_le earlier listed)).1]
    exact List.not_of_lt_findIdx earlier

theorem pairs : (read m stackPointer).auxiliaryVector.pairs m =
    block.auxiliary.takeWhile (·.1 != 0) := by
  have found : block.auxiliary.takeWhile (·.1 != 0) = block.auxiliary.take block.pairCount := by
    rw [List.takeWhile_eq_take_findIdx_not]
    simp [StartupBlock.pairCount, bne]
  have inside : block.pairCount ≤ block.auxiliary.length := List.findIdx_le_length
  rw [AuxiliaryVector.pairs, stands.pairCount, found]
  apply List.ext_getElem
  · simp [inside]
  · intro i left right
    have listed : i < block.auxiliary.length := by
      simp at right
      omega
    obtain ⟨key, value⟩ := stands.pair listed
    simp [key, value]

theorem programName : (read m stackPointer).programName m =
    match block.arguments with
    | some name :: _ => name
    | _ => StartupView.defaultName := by
  have reads := stands.arguments
  have count := stands.argumentCount
  have first (listed : 0 < arguments.length) := stands.argument listed
  cases named : block.arguments with
  | nil =>
    rw [named] at count
    have none : (read m stackPointer).argumentCount = 0 := UInt64.toNat.inj count
    simp [StartupView.programName, none]
  | cons name rest =>
    rw [named] at count reads
    cases reads with
    | @cons pointer _ pointers _ points =>
      have some : (read m stackPointer).argumentCount ≠ 0 := by
        intro none
        simp [none] at count
      have pointer := first (Nat.zero_lt_succ _)
      rw [List.getElem_cons_zero] at pointer
      cases name with
      | none => simp [StartupView.programName, pointer, readsAs_none.mp points]
      | some text =>
        obtain ⟨present, string⟩ := points
        simp [StartupView.programName, some, pointer, present, string]

end StandsAt
end StartupBlock
end ElfRelay
