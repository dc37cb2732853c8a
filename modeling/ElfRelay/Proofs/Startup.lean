import ElfRelay.Memory.Laws
import ElfRelay.Startup.View
/-! Where the parts of a start-up block are. Its words stand one behind the other, so a
change of some of them, or of a string apart from them, leaves the rest of what the
block says as it was. -/
namespace ElfRelay

open Memory (Agree Apart)

/-- How much memory a string takes with the NUL that ends it. -/
def Memory.textSize (m : Memory) (start : UInt64) : Nat := m.stringLength start + 1

theorem Memory.Agree.textSize {m n : Memory} {start : UInt64}
    (agree : Agree m n start (m.textSize start)) : n.textSize start = m.textSize start :=
  congrArg (· + 1) agree.stringLength

/-- A text that is written over a string takes no more memory than the text does. -/
theorem Memory.textSize_writeString_le (m : Memory) (start : UInt64) {text : Bytes}
    (small : text.length < UInt64.size) :
    (m.writeString start text).textSize start ≤ text.length + 1 := by
  have length := congrArg List.length (m.string_writeString_takeWhile start small)
  have shorter := (List.takeWhile_prefix (l := text) (· != (0 : UInt8))).length_le
  rw [length_string] at length
  rw [textSize, length]
  exact Nat.succ_le_succ shorter

/-- Whether an address is in a slot's pointer or in the string it points at. -/
def Environment.Holds (environment : Environment) (m : Memory) (slot : Nat) (address : UInt64) :
    Prop :=
  slot < environment.count ∧ ((address - environment.slotAddress slot).toNat < 8 ∨
    (address - environment.entryAddress m slot).toNat <
      m.textSize (environment.entryAddress m slot))

theorem AuxiliaryVector.index?_lt {vector : AuxiliaryVector} {m : Memory} {key : UInt64} {i : Nat}
    (found : vector.index? m key = some i) : i < vector.count :=
  List.mem_range.mp (List.mem_of_find?_eq_some found)

theorem AuxiliaryVector.index?_congr {vector : AuxiliaryVector} {m n : Memory}
    (keys : ∀ i < vector.count, vector.key n i = vector.key m i) (key : UInt64) :
    vector.index? n key = vector.index? m key :=
  List.find?_congr fun i member => by rw [keys i (List.mem_range.mp member)]

theorem AuxiliaryVector.value_set {vector : AuxiliaryVector} {m : Memory} {key : UInt64} {i : Nat}
    (found : vector.index? m key = some i) (value : UInt64) :
    vector.value (vector.set m key value) i = value := by
  rw [AuxiliaryVector.set, found]
  exact Memory.readWord_writeWord m _ value

namespace StartupView

/-- The argument count, the argument pointers and a null one, the environment
slots and a null one, the pairs of the auxiliary vector and a null one. -/
def wordCount (view : StartupView) : Nat :=
  view.argumentCount.toNat + view.environment.count + 2 * view.auxiliaryVector.count + 5

/-- Whether an address is one of the start-up block's: in its words, or in a
string of the environment or the NUL that ends it. -/
def Owns (view : StartupView) (m : Memory) (address : UInt64) : Prop :=
  (address - view.stackPointer).toNat < 8 * view.wordCount ∨
    ∃ slot < view.environment.count,
      (address - view.environment.entryAddress m slot).toNat ≤
        m.stringLength (view.environment.entryAddress m slot)

/-- Whether a string of the block starts at an address: an entry of the environment or
an argument that is there. -/
def Names (view : StartupView) (m : Memory) (start : UInt64) : Prop :=
  (∃ slot < view.environment.count, view.environment.entryAddress m slot = start) ∨
    ∃ i < view.argumentCount.toNat, m.wordAt view.arguments i = start ∧ start ≠ 0

def Contains (view : StartupView) (m : Memory) (address : UInt64) : Prop :=
  (address - view.stackPointer).toNat < 8 * view.wordCount ∨
    ∃ start, view.Names m start ∧ (address - start).toNat < m.textSize start

/-- The block's words do not run into each other around the address space. -/
def Fits (view : StartupView) : Prop := 8 * view.wordCount ≤ UInt64.size
  deriving Decidable

/-- No string of the environment shares memory with another part of the block, and no
string at all with its words. -/
structure Unaliased (view : StartupView) (m : Memory) : Prop where
  fits : view.Fits
  words : ∀ start, view.Names m start →
    Apart view.stackPointer (8 * view.wordCount) start (m.textSize start)
  entries : ∀ slot < view.environment.count, ∀ other < view.environment.count, other ≠ slot →
    Apart (view.environment.entryAddress m slot)
      (m.textSize (view.environment.entryAddress m slot))
      (view.environment.entryAddress m other)
      (m.textSize (view.environment.entryAddress m other))
  arguments : ∀ slot < view.environment.count, ∀ i < view.argumentCount.toNat,
    m.wordAt view.arguments i ≠ 0 →
      Apart (view.environment.entryAddress m slot)
        (m.textSize (view.environment.entryAddress m slot))
        (m.wordAt view.arguments i) (m.textSize (m.wordAt view.arguments i))

/-- The address of a word of the block, by its index from the argument count on. -/
def word (view : StartupView) (index : Nat) : UInt64 := view.stackPointer + 8 * index.toUInt64

def slotIndex (view : StartupView) (slot : Nat) : Nat := view.argumentCount.toNat + 2 + slot

/-- The index of a key in the auxiliary vector; its value is the next word. -/
def keyIndex (view : StartupView) (i : Nat) : Nat :=
  view.argumentCount.toNat + view.environment.count + 3 + 2 * i

/-- Whether an address is in the value of the auxiliary vector's first base address. -/
def HoldsBase (view : StartupView) (m : Memory) (address : UInt64) : Prop :=
  ∃ i, view.auxiliaryVector.index? m AuxiliaryVector.baseKey = some i ∧
    (address - view.word (view.keyIndex i + 1)).toNat < 8

variable {m n : Memory} {stackPointer address start : UInt64} {view : StartupView}
  {slot i k l : Nat}

theorem word_add (view : StartupView) (i j : Nat) :
    view.word i + 8 * j.toUInt64 = view.word (i + j) := by
  have split : (i + j).toUInt64 = i.toUInt64 + j.toUInt64 := UInt64.ofNat_add i j
  rw [word, word, split]
  grind

theorem wordAt_arguments (n : Memory) (view : StartupView) (i : Nat) :
    n.wordAt view.arguments i = n.readWord (view.word (1 + i)) := by
  rw [← word_add]
  rfl

/-- The environment is behind the arguments and the auxiliary vector behind it. -/
structure Laid (view : StartupView) : Prop where
  slots : view.environment.slots = view.word (view.slotIndex 0)
  pairs : view.auxiliaryVector.start = view.word (view.keyIndex 0)

namespace Laid

variable (laid : view.Laid)
include laid

theorem slotAddress_eq (slot : Nat) :
    view.environment.slotAddress slot = view.word (view.slotIndex slot) := by
  rw [Environment.slotAddress, laid.slots, word_add]
  rfl

theorem entryAddress_eq (n : Memory) (slot : Nat) :
    view.environment.entryAddress n slot = n.readWord (view.word (view.slotIndex slot)) := by
  rw [← laid.slotAddress_eq]
  rfl

theorem key_eq (n : Memory) (i : Nat) :
    view.auxiliaryVector.key n i = n.readWord (view.word (view.keyIndex i)) := by
  rw [AuxiliaryVector.key, Memory.wordAt, laid.pairs, word_add]
  rfl

theorem value_eq (n : Memory) (i : Nat) :
    view.auxiliaryVector.value n i = n.readWord (view.word (view.keyIndex i + 1)) := by
  rw [AuxiliaryVector.value, Memory.wordAt, laid.pairs, word_add]
  rfl

theorem read_set {key value : UInt64} (n : Memory)
    (outside : ∀ i, view.auxiliaryVector.index? n key = some i →
      ¬ (address - view.word (view.keyIndex i + 1)).toNat < 8) :
    (view.auxiliaryVector.set n key value).read address = n.read address := by
  rw [AuxiliaryVector.set]
  split
  · next i found =>
    rw [laid.pairs, word_add]
    exact Memory.read_writeWord_outside n (outside i found)
  · rfl

end Laid

theorem laid_read (m : Memory) (stackPointer : UInt64) : (read m stackPointer).Laid := by
  have slots : (read m stackPointer).environment.slots =
      (read m stackPointer).word ((read m stackPointer).slotIndex 0) := by
    have behind : ((read m stackPointer).argumentCount.toNat + 2 + 0).toUInt64 =
        (read m stackPointer).argumentCount + 2 := by simp
    rw [slotIndex, word, behind]
    rfl
  refine ⟨slots, ?_⟩
  have start : (read m stackPointer).auxiliaryVector.start =
      (read m stackPointer).environment.slotAddress ((read m stackPointer).environment.count + 1) :=
    rfl
  rw [start, Environment.slotAddress, slots, word_add, slotIndex, keyIndex]
  congr 1
  omega

theorem distance_word (fits : view.Fits) (listed : k < view.wordCount)
    (inside : (address - view.word k).toNat < 8) :
    (address - view.stackPointer).toNat = 8 * k + (address - view.word k).toNat :=
  Memory.distance_word fits listed inside

theorem inside_words (listed : k < view.wordCount) (inside : (address - view.word k).toNat < 8) :
    (address - view.stackPointer).toNat < 8 * view.wordCount := by
  by_cases fits : view.Fits
  · have := distance_word fits listed inside
    omega
  -- Words that do not fit take up every address.
  · exact Nat.lt_trans (address - view.stackPointer).toNat_lt (Nat.not_le.mp fits)

theorem word_unique (fits : view.Fits) (first : k < view.wordCount) (second : l < view.wordCount)
    (inFirst : (address - view.word k).toNat < 8) (inSecond : (address - view.word l).toNat < 8) :
    k = l := by
  have := distance_word fits first inFirst
  have := distance_word fits second inSecond
  omega

theorem slotIndex_lt (listed : slot ≤ view.environment.count) :
    view.slotIndex slot < view.wordCount := by
  rw [slotIndex, wordCount]
  omega

theorem keyIndex_lt (listed : i ≤ view.auxiliaryVector.count) :
    view.keyIndex i + 1 < view.wordCount := by
  rw [keyIndex, wordCount]
  omega

theorem entryAddress_ne_zero (listed : slot < (read m stackPointer).environment.count) :
    (read m stackPointer).environment.entryAddress m slot ≠ 0 := by
  have earlier := firstIndex_earlier _ listed
  exact ne_of_beq_false earlier

theorem read_congr (count : n.readWord stackPointer = m.readWord stackPointer)
    (slots : ∀ slot ≤ (read m stackPointer).environment.count,
      (read m stackPointer).environment.entryAddress n slot = 0 ↔
        (read m stackPointer).environment.entryAddress m slot = 0)
    (keys : ∀ i ≤ (read m stackPointer).auxiliaryVector.count,
      (read m stackPointer).auxiliaryVector.key n i = (read m stackPointer).auxiliaryVector.key m i) :
    read n stackPointer = read m stackPointer := by
  have pointers : n.pointerCount (read m stackPointer).environment.slots =
      m.pointerCount (read m stackPointer).environment.slots := by
    refine firstIndex_congr fun slot _ bound => ?_
    rw [Bool.eq_iff_iff, beq_iff_eq, beq_iff_eq]
    exact slots slot bound
  have pairs : firstIndex (fun i => (read m stackPointer).auxiliaryVector.key n i == 0)
      (UInt64.size / 16) =
        firstIndex (fun i => (read m stackPointer).auxiliaryVector.key m i == 0)
          (UInt64.size / 16) := by
    refine firstIndex_congr fun i _ bound => ?_
    exact congrArg (· == 0) (keys i bound)
  have environment : Environment.ofAddress n (stackPointer + 8 * (m.readWord stackPointer + 2)) =
      (read m stackPointer).environment := by
    rw [Environment.ofAddress]
    exact congrArg _ pointers
  have vector : AuxiliaryVector.ofAddress n (read m stackPointer).auxiliaryVector.start =
      (read m stackPointer).auxiliaryVector := congrArg (AuxiliaryVector.mk _) pairs
  rw [read, count, environment]
  exact congrArg (StartupView.mk _ _ _) vector

theorem Laid.slot_inside (laid : view.Laid) (listed : slot < view.environment.count)
    (pointer : (address - view.environment.slotAddress slot).toNat < 8) :
    (address - view.stackPointer).toNat < 8 * view.wordCount := by
  rw [laid.slotAddress_eq] at pointer
  exact inside_words (slotIndex_lt (Nat.le_of_lt listed)) pointer

theorem slotIndex_of_holds (unaliased : view.Unaliased m) (laid : view.Laid)
    (holds : view.environment.Holds m slot address) (listed : k < view.wordCount)
    (inside : (address - view.word k).toNat < 8) : k = view.slotIndex slot := by
  obtain ⟨inCount, pointer | text⟩ := holds
  · rw [laid.slotAddress_eq] at pointer
    exact word_unique unaliased.fits listed (slotIndex_lt (Nat.le_of_lt inCount)) inside pointer
  · have apart := unaliased.words _ (.inl ⟨slot, inCount, rfl⟩)
    exact absurd (inside_words listed inside) (apart.not_both text)

theorem keyIndex_of_holdsBase (fits : view.Fits) (holds : view.HoldsBase m address)
    (listed : k < view.wordCount) (inside : (address - view.word k).toNat < 8) :
    ∃ i, view.auxiliaryVector.index? m AuxiliaryVector.baseKey = some i ∧
      k = view.keyIndex i + 1 := by
  obtain ⟨i, found, value⟩ := holds
  have last := keyIndex_lt (Nat.le_of_lt (AuxiliaryVector.index?_lt found))
  exact ⟨i, found, word_unique fits listed last inside value⟩

/-- No slot's pointer is in a string, and none of the other strings in its own. -/
theorem not_holds_text (unaliased : view.Unaliased m) (laid : view.Laid)
    (named : view.Names m start) (inside : (address - start).toNat < m.textSize start)
    (others : slot < view.environment.count →
      Apart (view.environment.entryAddress m slot)
        (m.textSize (view.environment.entryAddress m slot)) start (m.textSize start)) :
    ¬ view.environment.Holds m slot address := by
  rintro ⟨listed, pointer | text⟩
  · exact (unaliased.words start named).not_both inside (laid.slot_inside listed pointer)
  · exact (others listed).not_both inside text

theorem not_holdsBase_text (unaliased : view.Unaliased m) (named : view.Names m start)
    (inside : (address - start).toNat < m.textSize start) : ¬ view.HoldsBase m address := by
  rintro ⟨i, found, value⟩
  have last := keyIndex_lt (Nat.le_of_lt (AuxiliaryVector.index?_lt found))
  exact (unaliased.words start named).not_both inside (inside_words last value)

theorem stringLength_lt (unaliased : view.Unaliased m) (named : view.Names m start) :
    m.stringLength start < UInt64.size := by
  have bound := (unaliased.words start named).2
  have := (view.stackPointer - start).toNat_lt
  unfold Memory.textSize at bound
  simp only [UInt64.size]
  omega

/-- What the next program finds of a block: everything as it was, but for one slot of
the environment and the value of the first base address. -/
structure Framed (view : StartupView) (before after : Memory) (slot : Nat) : Prop where
  layout : read after view.stackPointer = view
  arguments : ∀ i ≤ view.argumentCount.toNat,
    after.wordAt view.arguments i = before.wordAt view.arguments i
  argumentTexts : ∀ i < view.argumentCount.toNat, before.wordAt view.arguments i ≠ 0 →
    after.string (before.wordAt view.arguments i) = before.string (before.wordAt view.arguments i)
  entryAddress : ∀ other < view.environment.count, other ≠ slot →
    view.environment.entryAddress after other = view.environment.entryAddress before other
  entry : ∀ other < view.environment.count, other ≠ slot →
    view.environment.entry after other = view.environment.entry before other
  keys : ∀ i ≤ view.auxiliaryVector.count,
    view.auxiliaryVector.key after i = view.auxiliaryVector.key before i
  values : ∀ i ≤ view.auxiliaryVector.count,
    view.auxiliaryVector.index? before AuxiliaryVector.baseKey ≠ some i →
      view.auxiliaryVector.value after i = view.auxiliaryVector.value before i

section
-- The base address may have been changed too, or be known to be as it was.
variable {based : Prop} (unaliased : view.Unaliased m) (laid : view.Laid)
  (kept : ∀ address, view.Contains m address → ¬ view.environment.Holds m slot address →
    ¬ (based ∧ view.HoldsBase m address) → n.read address = m.read address)
include unaliased laid kept

/-- A word is kept unless it is the slot's pointer or the value of the base address. -/
theorem word_kept (listed : k < view.wordCount)
    (pointer : slot < view.environment.count → k ≠ view.slotIndex slot)
    (value : based → ∀ i, view.auxiliaryVector.index? m AuxiliaryVector.baseKey = some i →
      k ≠ view.keyIndex i + 1) :
    n.readWord (view.word k) = m.readWord (view.word k) := by
  refine Agree.readWord fun address inside => kept address
    (.inl (inside_words listed inside)) (fun holds => ?_) fun ⟨changed, holds⟩ => ?_
  · exact pointer holds.1 (slotIndex_of_holds unaliased laid holds listed inside)
  · obtain ⟨i, found, same⟩ := keyIndex_of_holdsBase unaliased.fits holds listed inside
    exact value changed i found same

theorem text_kept (named : view.Names m start)
    (others : slot < view.environment.count →
      Apart (view.environment.entryAddress m slot)
        (m.textSize (view.environment.entryAddress m slot)) start (m.textSize start)) :
    n.string start = m.string start :=
  Agree.string (fun address inside => kept address (.inr ⟨start, named, inside⟩)
    (not_holds_text unaliased laid named inside others)
    fun holds => not_holdsBase_text unaliased named inside holds.2)

theorem argument_kept (listed : i ≤ view.argumentCount.toNat) :
    n.wordAt view.arguments i = m.wordAt view.arguments i := by
  rw [wordAt_arguments, wordAt_arguments]
  refine word_kept unaliased laid kept (by rw [wordCount]; omega) (fun _ => ?_) fun _ j found => ?_
  · rw [slotIndex]
    omega
  · rw [keyIndex]
    omega

theorem entryAddress_kept {other : Nat} (listed : other ≤ view.environment.count)
    (different : slot < view.environment.count → other ≠ slot) :
    view.environment.entryAddress n other = view.environment.entryAddress m other := by
  rw [laid.entryAddress_eq, laid.entryAddress_eq]
  refine word_kept unaliased laid kept (slotIndex_lt listed) (fun inCount => ?_)
    fun _ j found => ?_
  · have := different inCount
    rw [slotIndex, slotIndex]
    omega
  · rw [keyIndex, slotIndex]
    omega

theorem entry_kept {other : Nat} (listed : other < view.environment.count) (different : other ≠ slot) :
    view.environment.entry n other = view.environment.entry m other := by
  have address := entryAddress_kept unaliased laid kept (Nat.le_of_lt listed) fun _ => different
  rw [Environment.entry, Environment.entry, address]
  exact text_kept unaliased laid kept (.inl ⟨other, listed, rfl⟩) fun inCount =>
    unaliased.entries slot inCount other listed different

theorem key_kept (listed : i ≤ view.auxiliaryVector.count) :
    view.auxiliaryVector.key n i = view.auxiliaryVector.key m i := by
  rw [laid.key_eq, laid.key_eq]
  refine word_kept unaliased laid kept (Nat.lt_of_succ_lt (keyIndex_lt listed)) (fun inCount => ?_)
    fun _ j found => ?_
  · rw [keyIndex, slotIndex]
    omega
  · rw [keyIndex, keyIndex]
    omega

theorem index?_kept (key : UInt64) :
    view.auxiliaryVector.index? n key = view.auxiliaryVector.index? m key :=
  AuxiliaryVector.index?_congr (fun _ listed =>
    key_kept unaliased laid kept (Nat.le_of_lt listed)) key

theorem value_kept (listed : i ≤ view.auxiliaryVector.count)
    (other : based → view.auxiliaryVector.index? m AuxiliaryVector.baseKey ≠ some i) :
    view.auxiliaryVector.value n i = view.auxiliaryVector.value m i := by
  rw [laid.value_eq, laid.value_eq]
  refine word_kept unaliased laid kept (keyIndex_lt listed) (fun inCount => ?_)
    fun changed j found same => ?_
  · rw [keyIndex, slotIndex]
    omega
  · have : i = j := by
      rw [keyIndex, keyIndex] at same
      omega
    exact other changed (this ▸ found)

theorem get?_kept (unchanged : ¬ based) (key : UInt64) :
    view.auxiliaryVector.get? n key = view.auxiliaryVector.get? m key := by
  rw [AuxiliaryVector.get?, AuxiliaryVector.get?, index?_kept unaliased laid kept]
  refine Option.map_congr fun i found => ?_
  exact value_kept unaliased laid kept (Nat.le_of_lt (AuxiliaryVector.index?_lt found))
    fun changed => absurd changed unchanged

end

/-- An edit of one slot, which keeps a pointer, and of the base address leaves the rest. -/
theorem framed_of_kept {based : Prop} (unaliased : (read m stackPointer).Unaliased m)
    (kept : ∀ address, (read m stackPointer).Contains m address →
      ¬ (read m stackPointer).environment.Holds m slot address →
        ¬ (based ∧ (read m stackPointer).HoldsBase m address) → n.read address = m.read address)
    (pointer : slot < (read m stackPointer).environment.count →
      (read m stackPointer).environment.entryAddress n slot ≠ 0) :
    (read m stackPointer).Framed m n slot := by
  have laid := laid_read m stackPointer
  refine ⟨?_, fun i => argument_kept unaliased laid kept, fun i listed present => ?_,
    fun other listed different => ?_, fun other => entry_kept unaliased laid kept,
    fun i => key_kept unaliased laid kept,
    fun i listed other => value_kept unaliased laid kept listed fun _ => other⟩
  · refine read_congr ?_ (fun other listed => ?_) fun i =>
      key_kept unaliased laid kept
    · have start : (read m stackPointer).word 0 = stackPointer := by simp [StartupView.word, read]
      have count := word_kept (k := 0) unaliased laid kept (by rw [wordCount]; omega)
        (fun _ => by rw [slotIndex]; omega) (fun _ j _ => by rw [keyIndex]; omega)
      rwa [start] at count
    · by_cases edited : slot < (read m stackPointer).environment.count ∧ other = slot
      · obtain ⟨inCount, rfl⟩ := edited
        exact iff_of_false (pointer inCount) (entryAddress_ne_zero inCount)
      · have same := entryAddress_kept unaliased laid kept listed fun inCount same =>
          edited ⟨inCount, same⟩
        exact Eq.congr_left same
  · exact text_kept unaliased laid kept (.inr ⟨i, listed, rfl, present⟩) fun inCount =>
      unaliased.arguments slot inCount i listed present
  · exact entryAddress_kept unaliased laid kept (Nat.le_of_lt listed) fun _ => different

theorem Framed.of_kept {based : Prop} (viewed : read m view.stackPointer = view)
    (unaliased : view.Unaliased m)
    (kept : ∀ address, view.Contains m address → ¬ view.environment.Holds m slot address →
      ¬ (based ∧ view.HoldsBase m address) → n.read address = m.read address)
    (pointer : slot < view.environment.count → view.environment.entryAddress n slot ≠ 0) :
    view.Framed m n slot := by
  obtain ⟨stackPointer, rfl⟩ : ∃ stackPointer, view = read m stackPointer := ⟨_, viewed.symm⟩
  exact framed_of_kept unaliased kept pointer

theorem contains_of_holds (laid : view.Laid)
    (holds : view.environment.Holds m slot address) : view.Contains m address := by
  obtain ⟨listed, pointer | text⟩ := holds
  · exact .inl (laid.slot_inside listed pointer)
  · exact .inr ⟨_, .inl ⟨slot, listed, rfl⟩, text⟩

theorem contains_of_holdsBase (holds : view.HoldsBase m address) :
    view.Contains m address := by
  obtain ⟨i, found, value⟩ := holds
  exact .inl (inside_words (keyIndex_lt (Nat.le_of_lt (AuxiliaryVector.index?_lt found))) value)

theorem contains_of_owns (owned : view.Owns m address) : view.Contains m address := by
  rcases owned with word | ⟨slot, listed, text⟩
  · exact .inl word
  · exact .inr ⟨_, .inl ⟨slot, listed, rfl⟩, Nat.lt_succ_of_le text⟩

/-- Memories that agree on the block agree on where a slot's string is, and how long. -/
theorem slot_congr (laid : view.Laid)
    (same : ∀ address, view.Contains m address → n.read address = m.read address)
    (listed : slot < view.environment.count) :
    view.environment.entryAddress n slot = view.environment.entryAddress m slot ∧
      n.textSize (view.environment.entryAddress m slot) =
        m.textSize (view.environment.entryAddress m slot) := by
  have named : view.Names m (view.environment.entryAddress m slot) := .inl ⟨slot, listed, rfl⟩
  constructor
  · rw [laid.entryAddress_eq, laid.entryAddress_eq]
    exact Agree.readWord fun address inside => same address
      (.inl (inside_words (slotIndex_lt (Nat.le_of_lt listed)) inside))
  · exact Agree.textSize fun address inside => same address (.inr ⟨_, named, inside⟩)

theorem holds_congr (laid : view.Laid)
    (same : ∀ address, view.Contains m address → n.read address = m.read address) :
    view.environment.Holds n slot address ↔ view.environment.Holds m slot address := by
  refine and_congr_right fun listed => or_congr_right ?_
  obtain ⟨pointer, size⟩ := slot_congr laid same listed
  rw [pointer, size]

/-- A block that still says the same: all its words, and the strings of the environment. -/
structure Kept (view : StartupView) (before after : Memory) : Prop where
  words : ∀ i < view.wordCount, after.readWord (view.word i) = before.readWord (view.word i)
  entries : ∀ slot < view.environment.count,
    view.environment.entry after slot = view.environment.entry before slot

theorem Laid.kept (laid : view.Laid)
    (same : ∀ address, view.Owns m address → n.read address = m.read address) : view.Kept m n := by
  have words (i : Nat) (listed : i < view.wordCount) :
      n.readWord (view.word i) = m.readWord (view.word i) :=
    Agree.readWord fun address inside => same address (.inl (inside_words listed inside))
  refine ⟨words, fun slot listed => ?_⟩
  rw [Environment.entry, Environment.entry, laid.entryAddress_eq n,
    words _ (slotIndex_lt (Nat.le_of_lt listed)), ← laid.entryAddress_eq m]
  exact Agree.string fun address inside =>
    same address (.inr ⟨slot, listed, Nat.le_of_lt_succ inside⟩)

theorem Kept.entryAddress (kept : view.Kept m n) (laid : view.Laid)
    (listed : slot < view.environment.count) :
    view.environment.entryAddress n slot = view.environment.entryAddress m slot := by
  rw [laid.entryAddress_eq, laid.entryAddress_eq]
  exact kept.words _ (slotIndex_lt (Nat.le_of_lt listed))

/-- Memories that agree on the block's words and on the strings of the environment agree
on its variables. -/
theorem Laid.get?_congr (laid : view.Laid)
    (same : ∀ address, view.Owns m address → n.read address = m.read address) (slot : Nat) :
    view.environment.get? n slot = view.environment.get? m slot := by
  have kept := laid.kept same
  by_cases listed : slot < view.environment.count
  · rw [Environment.get?, Environment.get?, kept.entryAddress laid listed,
      kept.entries slot listed]
  · rw [Environment.get?, Environment.get?, if_neg listed, if_neg listed]

end StartupView
end ElfRelay
