import ElfRelay.Proofs.Startup.Decoding
/-! What is found in memory where a start-up block was laid out: the words and the strings
that were put there, and no memory that two of its parts share. -/
namespace ElfRelay

open Memory (Apart)

namespace StartupBlock

section
variable {entries : List (Option Bytes)} {text : Bytes} {i j : Nat}

def offset (entries : List (Option Bytes)) (i : Nat) : Nat := (storage (entries.take i)).length

theorem storage_append (first second : List (Option Bytes)) :
    storage (first ++ second) = storage first ++ storage second :=
  List.flatMap_append

theorem addresses_append (start : UInt64) (first second : List (Option Bytes)) :
    addresses start (first ++ second) =
      addresses start first ++ addresses (start + (storage first).length.toUInt64) second := by
  induction first generalizing start with
  | nil => simp [addresses, storage]
  | cons entry rest ih =>
    cases entry with
    | none =>
      have empty : storage (none :: rest) = storage rest := rfl
      simp only [List.cons_append, addresses, ih, empty]
    | some text =>
      have length : (storage (some text :: rest)).length.toUInt64 =
          (text.length + 1).toUInt64 + (storage rest).length.toUInt64 := by
        rw [storage, List.flatMap_cons, List.length_append, List.length_append]
        exact UInt64.ofNat_add _ _
      simp only [List.cons_append, addresses, ih, length, UInt64.add_assoc]

@[simp] theorem length_addresses (start : UInt64) (entries : List (Option Bytes)) :
    (addresses start entries).length = entries.length := by
  induction entries generalizing start with
  | nil => rfl
  | cons entry rest ih => cases entry <;> simp [addresses, ih]

theorem split_at {entry : Option Bytes} (listed : entries[i]? = some entry) :
    entries = entries.take i ++ entry :: entries.drop (i + 1) := by
  obtain ⟨inside, found⟩ := List.getElem?_eq_some_iff.mp listed
  rw [← found, List.cons_getElem_drop_succ, List.take_append_drop]

/-- What is stored before a string, the string, and what is stored behind it. -/
theorem storage_split (listed : entries[i]? = some (some text)) :
    storage entries =
      storage (entries.take i) ++ ((text ++ [0]) ++ storage (entries.drop (i + 1))) := by
  conv_lhs => rw [split_at listed]
  rw [storage_append]
  rfl

theorem getElem?_addresses (start : UInt64) {entry : Option Bytes}
    (listed : entries[i]? = some entry) :
    (addresses start entries)[i]? =
      some (if entry.isSome then start + (offset entries i).toUInt64 else 0) := by
  have before : (addresses start (entries.take i)).length = i := by
    have inside := (List.getElem?_eq_some_iff.mp listed).1
    rw [length_addresses, List.length_take, Nat.min_eq_left (Nat.le_of_lt inside)]
  conv_lhs => rw [split_at listed]
  rw [addresses_append, List.getElem?_append_right (Nat.le_of_eq before), before, Nat.sub_self]
  cases entry <;> rfl

theorem offset_le (listed : entries[i]? = some (some text)) :
    offset entries i + (text.length + 1) ≤ (storage entries).length := by
  rw [storage_split listed, offset]
  simp

theorem offset_lt (listed : entries[i]? = some (some text)) (before : i < j) :
    offset entries i + (text.length + 1) ≤ offset entries j := by
  have earlier : (entries.take j)[i]? = some (some text) := by
    rwa [List.getElem?_take_of_lt before]
  have same : (entries.take j).take i = entries.take i := by
    rw [List.take_take, Nat.min_eq_left (Nat.le_of_lt before)]
  have bound := offset_le earlier
  rwa [offset, same] at bound

theorem getElem?_storage (listed : entries[i]? = some (some text)) (inside : j < text.length + 1) :
    (storage entries)[offset entries i + j]? = (text ++ [0])[j]? := by
  rw [storage_split listed, offset, List.getElem?_append_right (Nat.le_add_right _ _),
    Nat.add_sub_cancel_left, List.getElem?_append_left (by simpa using inside)]

end

def texts (block : StartupBlock) : List (Option Bytes) :=
  block.arguments ++ block.environment.map some

def contents (block : StartupBlock) (strings : UInt64) : List UInt64 :=
  words (addresses strings block.arguments)
    (addresses (strings + (storage block.arguments).length.toUInt64) (block.environment.map some))
    block.auxiliary

/-- A place where a block can be found again: its words and its strings share no memory
and end before the address space does, no string is where a null pointer points, and
none has a NUL in it. -/
@[mk_iff]
structure FitsAt (block : StartupBlock) (stackPointer strings : UInt64) : Prop where
  apart : Apart stackPointer (8 * block.wordCount) strings (storage block.texts).length
  wordsEnd : stackPointer.toNat + 8 * block.wordCount ≤ UInt64.size
  stringsEnd : strings.toNat + (storage block.texts).length ≤ UInt64.size
  nonnull : strings ≠ 0
  clean : ∀ entry ∈ block.texts, ∀ text ∈ entry, 0 ∉ text

instance (block : StartupBlock) (stackPointer strings : UInt64) :
    Decidable (block.FitsAt stackPointer strings) :=
  decidable_of_iff _ (fitsAt_iff block stackPointer strings).symm

theorem FitsAt.wordCount_lt {block : StartupBlock} {stackPointer strings : UInt64}
    (fits : block.FitsAt stackPointer strings) : 8 * block.wordCount < UInt64.size :=
  Nat.lt_of_le_of_lt fits.apart.1 (UInt64.toNat_lt _)

/-- Whether the words and the strings of a block are clear of the range that starts at an
address, each below it or behind it. -/
def ClearOf (block : StartupBlock) (stackPointer strings : UInt64) (first length : Nat) : Prop :=
  (stackPointer.toNat + 8 * block.wordCount ≤ first ∨ first + length ≤ stackPointer.toNat) ∧
    (strings.toNat + (storage block.texts).length ≤ first ∨ first + length ≤ strings.toNat)
  deriving Decidable

/-- Whether a block is in memory, its words at one address and its strings at another. -/
structure LiesIn (block : StartupBlock) (m : Memory) (stackPointer strings : UInt64) : Prop where
  fits : block.FitsAt stackPointer strings
  words : ∀ {i : Nat} {value : UInt64}, (block.contents strings)[i]? = some value →
    m.wordAt stackPointer i = value
  texts : ∀ {i : Nat} {text : Bytes}, block.texts[i]? = some (some text) →
    m.string (strings + (offset block.texts i).toUInt64) = text

variable {block : StartupBlock} {m : Memory} {stackPointer strings : UInt64}

@[simp] theorem length_contents (block : StartupBlock) (strings : UInt64) :
    (block.contents strings).length = block.wordCount := by
  rw [contents, length_words, wordCount]
  simp

theorem texts_argument {i : Nat} (listed : i < block.arguments.length) :
    block.texts[i]? = some block.arguments[i] := by
  rw [texts, List.getElem?_append_left listed, List.getElem?_eq_getElem listed]

theorem texts_slot {slot : Nat} (listed : slot < block.environment.length) :
    block.texts[block.arguments.length + slot]? = some (some block.environment[slot]) := by
  rw [texts, List.getElem?_append_right (Nat.le_add_right _ _), Nat.add_sub_cancel_left]
  simp [listed]

theorem liesIn_place (fits : block.FitsAt stackPointer strings) (m : Memory) :
    block.LiesIn (block.place stackPointer strings m) stackPointer strings := by
  have narrow : (storage block.texts).length < UInt64.size :=
    Nat.lt_of_le_of_lt fits.apart.2 (UInt64.toNat_lt _)
  have placed : block.place stackPointer strings m =
      (m.writeBytes strings (storage block.texts)).writeWords stackPointer
        (block.contents strings) := rfl
  refine ⟨fits, fun {i value} found => ?_, fun {i text} listed => ?_⟩
  · obtain ⟨inside, rfl⟩ := List.getElem?_eq_some_iff.mp found
    rw [placed]
    exact Memory.wordAt_writeWords _ _ inside (by simpa using Nat.le_of_lt fits.wordCount_lt)
  · have behind := offset_le listed
    refine Memory.string_of_stored (by omega)
      (fits.clean _ (List.mem_of_getElem? listed) text rfl) fun {j} bound => ?_
    have inside : j < text.length + 1 := by simpa using bound
    have stored : offset block.texts i + j < (storage block.texts).length := by omega
    have found := getElem?_storage listed inside
    rw [List.getElem?_eq_getElem stored, List.getElem?_eq_getElem bound] at found
    rw [placed, Memory.writeWords, Memory.add_offset, Memory.read_writeBytes_outside,
      Memory.read_writeBytes_inside m strings stored (by omega), Option.some.inj found]
    rw [Memory.length_flatMap_words, length_contents]
    refine fits.apart.not_both ?_
    rw [Memory.toNat_offset strings (by omega)]
    exact stored

namespace LiesIn

open StartupView (read)

variable (lies : block.LiesIn m stackPointer strings)
include lies

theorem toNat_address {i : Nat} {text : Bytes} (listed : block.texts[i]? = some (some text)) :
    (strings + (offset block.texts i).toUInt64).toNat = strings.toNat + offset block.texts i := by
  have behind := offset_le listed
  have ends := lies.fits.stringsEnd
  have sum : strings.toNat + offset block.texts i < UInt64.size := by omega
  have small : offset block.texts i < UInt64.size := by omega
  have narrow : (offset block.texts i).toUInt64.toNat = offset block.texts i :=
    Nat.mod_eq_of_lt small
  rw [UInt64.toNat_add, narrow, Nat.mod_eq_of_lt sum]

theorem address_ne_zero {i : Nat} {text : Bytes} (listed : block.texts[i]? = some (some text)) :
    strings + (offset block.texts i).toUInt64 ≠ 0 := by
  intro null
  have sum := (lies.toNat_address listed).symm.trans (congrArg UInt64.toNat null)
  exact lies.fits.nonnull (UInt64.toNat_inj.mp (Nat.eq_zero_of_add_eq_zero_right sum))

theorem addresses_read : List.Forall₂ (ReadsAs m) (addresses strings block.texts) block.texts := by
  apply List.forall₂_iff_get.mpr
  constructor
  · simp
  · intro i left right
    have listed := List.getElem?_eq_getElem right
    have place := getElem?_addresses strings listed
    rw [List.getElem?_eq_getElem left, Option.some.injEq] at place
    simp only [List.get_eq_getElem, place]
    cases entry : block.texts[i] with
    | none => exact rfl
    | some text =>
      rw [entry] at listed
      exact ⟨lies.address_ne_zero listed, lies.texts listed⟩

theorem standsAt : block.StandsAt m stackPointer (addresses strings block.arguments)
    (addresses (strings + (storage block.arguments).length.toUInt64)
      (block.environment.map some)) := by
  have reads := lies.addresses_read
  rw [StartupBlock.texts, addresses_append] at reads
  have first := length_addresses strings block.arguments
  constructor
  · exact Nat.le_of_lt lies.fits.wordCount_lt
  · exact lies.words
  · simpa [List.take_left' first] using List.forall₂_take block.arguments.length reads
  · simpa [List.drop_left' first] using List.forall₂_drop block.arguments.length reads

theorem entryAddress {slot : Nat} (listed : slot < block.environment.length) :
    (read m stackPointer).environment.entryAddress m slot =
      strings + (offset block.texts (block.arguments.length + slot)).toUInt64 := by
  have place := getElem?_addresses strings (texts_slot listed)
  rw [StartupBlock.texts, addresses_append, List.getElem?_append_right (by simp), length_addresses,
    Nat.add_sub_cancel_left] at place
  obtain ⟨inside, place⟩ := List.getElem?_eq_some_iff.mp place
  rw [lies.standsAt.entryAddress inside, place]
  rfl

theorem argument {i : Nat} (listed : i < block.arguments.length) :
    m.wordAt (read m stackPointer).arguments i =
      if block.arguments[i].isSome then strings + (offset block.texts i).toUInt64 else 0 := by
  have place := getElem?_addresses strings (List.getElem?_eq_getElem listed)
  obtain ⟨inside, place⟩ := List.getElem?_eq_some_iff.mp place
  have same : offset block.texts i = offset block.arguments i := by
    rw [offset, offset, StartupBlock.texts, List.take_append_of_le_length (Nat.le_of_lt listed)]
  rw [lies.standsAt.argument inside, place, same]

theorem wordCount_le : (read m stackPointer).wordCount ≤ block.wordCount := by
  have listed : block.pairCount ≤ block.auxiliary.length := List.findIdx_le_length
  rw [StartupView.wordCount, lies.standsAt.argumentCount, lies.standsAt.slotCount, lies.standsAt.pairCount, wordCount]
  omega

theorem textSize {i : Nat} {text : Bytes} (listed : block.texts[i]? = some (some text)) :
    m.textSize (strings + (offset block.texts i).toUInt64) = text.length + 1 := by
  rw [Memory.textSize, ← Memory.length_string, lies.texts listed]

theorem argument_cases {i : Nat} (listed : i < (read m stackPointer).argumentCount.toNat)
    (present : m.wordAt (read m stackPointer).arguments i ≠ 0) :
    i < block.arguments.length ∧ ∃ text, block.texts[i]? = some (some text) ∧
      m.wordAt (read m stackPointer).arguments i = strings + (offset block.texts i).toUInt64 := by
  rw [lies.standsAt.argumentCount] at listed
  have found := lies.argument listed
  cases entry : block.arguments[i] with
  | none =>
    rw [entry] at found
    exact absurd found present
  | some text =>
    rw [entry] at found
    exact ⟨listed, text, (texts_argument listed).trans (congrArg some entry), found⟩

theorem names_cases {start : UInt64} (named : (read m stackPointer).Names m start) :
    ∃ i text, block.texts[i]? = some (some text) ∧
      start = strings + (offset block.texts i).toUInt64 := by
  rcases named with ⟨slot, listed, rfl⟩ | ⟨i, listed, rfl, present⟩
  · rw [lies.standsAt.slotCount] at listed
    exact ⟨_, _, texts_slot listed, lies.entryAddress listed⟩
  · obtain ⟨_, text, found, address⟩ := lies.argument_cases listed present
    exact ⟨i, text, found, address⟩

theorem apart_texts {i j : Nat} {first second : Bytes}
    (here : block.texts[i]? = some (some first)) (there : block.texts[j]? = some (some second))
    (different : i ≠ j) :
    Apart (strings + (offset block.texts i).toUInt64)
      (m.textSize (strings + (offset block.texts i).toUInt64))
      (strings + (offset block.texts j).toUInt64)
      (m.textSize (strings + (offset block.texts j).toUInt64)) := by
  have small : (storage block.texts).length ≤ UInt64.size :=
    Nat.le_trans (Nat.le_add_left _ _) lies.fits.stringsEnd
  rw [lies.textSize here, lies.textSize there]
  rcases Nat.lt_or_gt_of_ne different with before | behind
  · exact Memory.apart_behind strings (offset_lt here before)
      (Nat.le_trans (offset_le there) small) (Nat.succ_pos _) (Nat.succ_pos _)
  · exact (Memory.apart_behind strings (offset_lt there behind)
      (Nat.le_trans (offset_le here) small) (Nat.succ_pos _) (Nat.succ_pos _)).symm

theorem unaliased : (read m stackPointer).Unaliased m where
  fits := Nat.le_trans (Nat.mul_le_mul_left 8 lies.wordCount_le)
    (Nat.le_of_lt lies.fits.wordCount_lt)
  words start named := by
    obtain ⟨i, text, listed, rfl⟩ := lies.names_cases named
    rw [lies.textSize listed]
    exact lies.fits.apart.part (Nat.mul_le_mul_left 8 lies.wordCount_le) (offset_le listed)
      (Nat.succ_pos _)
  entries slot listed other listed' different := by
    rw [lies.standsAt.slotCount] at listed listed'
    rw [lies.entryAddress listed, lies.entryAddress listed']
    exact lies.apart_texts (texts_slot listed) (texts_slot listed') (by omega)
  arguments slot listed i inside present := by
    rw [lies.standsAt.slotCount] at listed
    obtain ⟨small, text, found, address⟩ := lies.argument_cases inside present
    rw [lies.entryAddress listed, address]
    exact lies.apart_texts (texts_slot listed) found (by omega)

theorem contains_cases {address : UInt64} (contains : (read m stackPointer).Contains m address) :
    (address - stackPointer).toNat < 8 * block.wordCount ∨
      (address - strings).toNat < (storage block.texts).length := by
  rcases contains with word | ⟨start, named, inside⟩
  · exact .inl (Nat.lt_of_lt_of_le word (Nat.mul_le_mul_left 8 lies.wordCount_le))
  · obtain ⟨i, text, listed, rfl⟩ := lies.names_cases named
    rw [lies.textSize listed] at inside
    have behind := offset_le listed
    have bound := lies.fits.stringsEnd
    have := address.toNat_lt
    have := strings.toNat_lt
    simp only [UInt64.toNat_sub, lies.toNat_address listed, UInt64.size] at *
    exact .inr (by omega)

theorem clear_of_contains {first length : Nat}
    (clear : block.ClearOf stackPointer strings first length) {address : UInt64}
    (contains : (read m stackPointer).Contains m address) :
    address.toNat < first ∨ first + length ≤ address.toNat := by
  obtain ⟨words, texts⟩ := clear
  have wordsEnd := lies.fits.wordsEnd
  have stringsEnd := lies.fits.stringsEnd
  have := address.toNat_lt
  have := stackPointer.toNat_lt
  have := strings.toNat_lt
  have cases := lies.contains_cases contains
  simp only [UInt64.toNat_sub, UInt64.size] at *
  omega

end LiesIn
end StartupBlock
end ElfRelay
