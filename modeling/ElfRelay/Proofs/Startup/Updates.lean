import ElfRelay.Proofs.Block
/-! The auxiliary vector as a list of pairs. Looking a key up is a search in the list, and
changing a value replaces the first pair of its key; no other word of the block changes, so
the block is viewed as before, however many values are changed. -/
namespace ElfRelay
namespace AuxiliaryVector

variable {vector : AuxiliaryVector} {m n : Memory} {key value : UInt64} {i : Nat}

def setFirst (pairs : List (UInt64 × UInt64)) (key value : UInt64) : List (UInt64 × UInt64) :=
  match pairs.findIdx? (·.1 == key) with
  | some i => pairs.set i (key, value)
  | none => pairs

def updateAll (vector : AuxiliaryVector) (m : Memory) (changes : List (UInt64 × UInt64)) : Memory :=
  changes.foldl (fun m change => (vector.update m change.1 change.2).2) m

@[simp] theorem length_pairs (vector : AuxiliaryVector) (m : Memory) :
    (vector.pairs m).length = vector.count := by
  simp [pairs]

theorem index?_eq_findIdx? (vector : AuxiliaryVector) (m : Memory) (key : UInt64) :
    vector.index? m key = (vector.pairs m).findIdx? (·.1 == key) := by
  ext i
  rw [index?, List.find?_range_eq_some, List.findIdx?_eq_some_iff_getElem]
  simp [pairs]

theorem get?_eq_find? (vector : AuxiliaryVector) (m : Memory) (key : UInt64) :
    vector.get? m key = ((vector.pairs m).find? (·.1 == key)).map Prod.snd := by
  rw [get?, index?, pairs, List.find?_map, Option.map_map]
  rfl

theorem index?_isSome (vector : AuxiliaryVector) (m : Memory) (key : UInt64) :
    (vector.index? m key).isSome = (vector.pairs m).any (·.1 == key) := by
  rw [index?_eq_findIdx?, List.findIdx?_isSome]

end AuxiliaryVector

open AuxiliaryVector (setFirst)

/-- What changing one value does to a block in memory, and what it says of the key: of all
the words, and of all the bytes, only the value of the first pair of the key is another one. -/
structure StartupBlock.Changes (block : StartupBlock) (stackPointer : UInt64) (m n : Memory)
    (key value : UInt64) (present : Bool) : Prop where
  present : present =
    ((StartupView.read m stackPointer).auxiliaryVector.pairs m).any (·.1 == key)
  layout : StartupView.read n stackPointer = StartupView.read m stackPointer
  pairs : (StartupView.read m stackPointer).auxiliaryVector.pairs n =
    setFirst ((StartupView.read m stackPointer).auxiliaryVector.pairs m) key value
  words : ∀ k < block.wordCount,
    (∀ i, ((StartupView.read m stackPointer).auxiliaryVector.pairs m).findIdx? (·.1 == key) =
      some i → k ≠ (StartupView.read m stackPointer).keyIndex i + 1) →
    n.wordAt stackPointer k = m.wordAt stackPointer k
  bytes : ∀ address,
    (∀ i, ((StartupView.read m stackPointer).auxiliaryVector.pairs m).findIdx? (·.1 == key) =
      some i → ¬ (address - (StartupView.read m stackPointer).word
        ((StartupView.read m stackPointer).keyIndex i + 1)).toNat < 8) →
    n.read address = m.read address

namespace StartupView

variable {view : StartupView} {m : Memory} {stackPointer key value : UInt64} {count k : Nat}

/-- The view of a block of some number of words that fits into the address space. -/
structure Inside (view : StartupView) (count : Nat) : Prop where
  fits : 8 * count ≤ UInt64.size
  words : view.wordCount ≤ count

theorem Laid.readWord_set (laid : view.Laid) (inside : view.Inside count) (listed : k < count)
    (other : ∀ i, view.auxiliaryVector.index? m key = some i → k ≠ view.keyIndex i + 1) :
    (view.auxiliaryVector.set m key value).readWord (view.word k) = m.readWord (view.word k) := by
  apply Memory.Agree.readWord
  intro address here
  apply laid.read_set m
  intro i found there
  have last := keyIndex_lt (Nat.le_of_lt (AuxiliaryVector.index?_lt found))
  have := Memory.distance_word inside.fits listed here
  have := Memory.distance_word inside.fits (Nat.lt_of_lt_of_le last inside.words) there
  rw [word] at here there
  exact other i found (by omega)

theorem read_set (inside : (read m stackPointer).Inside count) :
    read ((read m stackPointer).auxiliaryVector.set m key value) stackPointer =
      read m stackPointer := by
  have laid := laid_read m stackPointer
  have keep {k : Nat} (listed : k < (read m stackPointer).wordCount)
      (other : ∀ i, k ≠ (read m stackPointer).keyIndex i + 1) :
      ((read m stackPointer).auxiliaryVector.set m key value).readWord
          ((read m stackPointer).word k) = m.readWord ((read m stackPointer).word k) :=
    laid.readWord_set inside (Nat.lt_of_lt_of_le listed inside.words) fun i _ => other i
  apply read_congr
  · have first := keep (k := 0) (by simp [wordCount]) (by simp [keyIndex])
    simpa [word, read] using first
  · intro slot listed
    have same := keep (slotIndex_lt listed) (by simp only [slotIndex, keyIndex]; omega)
    rw [laid.entryAddress_eq, laid.entryAddress_eq, same]
  · intro i listed
    have same := keep (Nat.lt_of_succ_lt (keyIndex_lt listed)) (by simp only [keyIndex]; omega)
    rw [laid.key_eq, laid.key_eq, same]

theorem pairs_set (laid : view.Laid) (inside : view.Inside count) :
    view.auxiliaryVector.pairs (view.auxiliaryVector.set m key value) =
      setFirst (view.auxiliaryVector.pairs m) key value := by
  have keys (i : Nat) (listed : i < view.auxiliaryVector.count) :
      view.auxiliaryVector.key (view.auxiliaryVector.set m key value) i =
        view.auxiliaryVector.key m i := by
    have last := keyIndex_lt (Nat.le_of_lt listed)
    rw [laid.key_eq, laid.key_eq]
    apply laid.readWord_set inside (Nat.lt_of_lt_of_le (Nat.lt_of_succ_lt last) inside.words)
    simp only [keyIndex]
    omega
  have values (i : Nat) (listed : i < view.auxiliaryVector.count)
      (other : view.auxiliaryVector.index? m key ≠ some i) :
      view.auxiliaryVector.value (view.auxiliaryVector.set m key value) i =
        view.auxiliaryVector.value m i := by
    have last := keyIndex_lt (Nat.le_of_lt listed)
    rw [laid.value_eq, laid.value_eq]
    apply laid.readWord_set inside (Nat.lt_of_lt_of_le last inside.words)
    intro j found same
    simp only [keyIndex] at same
    obtain rfl : i = j := by omega
    exact other found
  rw [setFirst, ← AuxiliaryVector.index?_eq_findIdx?]
  cases found : view.auxiliaryVector.index? m key with
  | none =>
    apply List.ext_getElem
    · simp
    · intro i left _
      have listed : i < view.auxiliaryVector.count := by simpa using left
      simp [AuxiliaryVector.pairs, keys i listed, values i listed (by simp [found])]
  | some first =>
    have matched : view.auxiliaryVector.key m first = key := by
      have holds := List.find?_some found
      simpa using holds
    apply List.ext_getElem
    · simp
    · intro i left _
      have listed : i < view.auxiliaryVector.count := by simpa using left
      -- Only the first pair of the key is another, and it keeps the key.
      by_cases here : first = i
      · subst here
        simp [AuxiliaryVector.pairs, keys first listed, matched, AuxiliaryVector.value_set found]
      · have kept := values i listed (by simpa [found] using here)
        simp [AuxiliaryVector.pairs, keys i listed, kept, List.getElem_set_ne here]

end StartupView

namespace StartupBlock

open StartupView (read)

variable {block : StartupBlock} {m : Memory} {stackPointer : UInt64}
  {arguments environment : List UInt64}

theorem StandsAt.inside (stands : block.StandsAt m stackPointer arguments environment) :
    (read m stackPointer).Inside block.wordCount where
  fits := stands.fits
  words := by
    have listed : block.pairCount ≤ block.auxiliary.length := List.findIdx_le_length
    rw [StartupView.wordCount, stands.argumentCount, stands.slotCount, stands.pairCount, wordCount]
    omega

theorem changes_update (inside : (read m stackPointer).Inside block.wordCount)
    (key value : UInt64) :
    block.Changes stackPointer m ((read m stackPointer).auxiliaryVector.update m key value).2
      key value ((read m stackPointer).auxiliaryVector.update m key value).1 := by
  have laid := StartupView.laid_read m stackPointer
  constructor
  · exact AuxiliaryVector.index?_isSome _ m key
  · exact StartupView.read_set inside
  · exact StartupView.pairs_set laid inside
  · intro k listed other
    apply laid.readWord_set inside listed
    rw [AuxiliaryVector.index?_eq_findIdx?]
    exact other
  · intro address outside
    apply laid.read_set m
    rw [AuxiliaryVector.index?_eq_findIdx?]
    exact outside

/-- However many values are changed, the block is viewed as before, and the pairs are those
in which these values have been replaced one after the other. -/
theorem read_updateAll (inside : (read m stackPointer).Inside block.wordCount)
    (changes : List (UInt64 × UInt64)) :
    let vector := (read m stackPointer).auxiliaryVector
    read (vector.updateAll m changes) stackPointer = read m stackPointer ∧
      vector.pairs (vector.updateAll m changes) =
        changes.foldl (fun pairs change => setFirst pairs change.1 change.2) (vector.pairs m) := by
  induction changes generalizing m with
  | nil => exact ⟨rfl, rfl⟩
  | cons change changes ih =>
    obtain ⟨_, layout, pairs, _, _⟩ := changes_update inside change.1 change.2
    obtain ⟨same, replaced⟩ := ih (by rw [layout]; exact inside)
    simp only [layout] at same replaced
    refine ⟨same, ?_⟩
    rw [pairs] at replaced
    exact replaced

/-- A block is read as it was laid out: every argument pointer, every entry of the
environment, the pairs before the first key 0, and the name of the program. Each later
change of a value, whatever changes came before it, replaces the first pair of its key, says
whether there is one, and leaves the layout and every other word of the block. -/
theorem read_undoes_layout (stands : block.StandsAt m stackPointer arguments environment) :
    let view := read m stackPointer
    let vector := view.auxiliaryVector
    let pairs := block.auxiliary.takeWhile (·.1 != 0)
    view.argumentCount.toNat = block.arguments.length ∧ view.arguments = stackPointer + 8 ∧
      (List.range view.argumentCount.toNat).map (m.wordAt view.arguments) = arguments ∧
      view.environment.entries m = block.environment ∧
      vector.pairs m = pairs ∧
      (∀ key, vector.get? m key = (pairs.find? (·.1 == key)).map Prod.snd) ∧
      (view.programName m = match block.arguments with
        | some name :: _ => name
        | _ => StartupView.defaultName) ∧
      ∀ earlier key value,
        let before := vector.updateAll m earlier
        read before stackPointer = view ∧
          vector.pairs before =
            earlier.foldl (fun pairs change => setFirst pairs change.1 change.2) pairs ∧
          block.Changes stackPointer before (vector.update before key value).2 key value
            (vector.update before key value).1 := by
  refine ⟨stands.argumentCount, rfl, stands.argumentPointers, stands.entries, stands.pairs,
    ?_, stands.programName, ?_⟩
  · intro key
    rw [AuxiliaryVector.get?_eq_find?, stands.pairs]
  · intro earlier key value
    obtain ⟨layout, pairs⟩ := read_updateAll stands.inside earlier
    rw [stands.pairs] at pairs
    have changes := changes_update (layout ▸ stands.inside) key value
    simp only [layout] at changes
    exact ⟨layout, pairs, changes⟩

/-- A block without a first argument, in which one key has two pairs and the pairs end early. -/
def splitBlock : StartupBlock :=
  ⟨[none, some (ascii "x")], [ascii "A=1", ascii "BARE"],
    [(AuxiliaryVector.baseKey, 1), (AuxiliaryVector.pageSizeKey, 4096),
      (AuxiliaryVector.baseKey, 2), (0, 5), (9, 9)]⟩

def splitMemory : Memory := splitBlock.place 0x1000 0x2000 .zero

theorem read_undoes_layout_split :
    let view := read splitMemory 0x1000
    let vector := view.auxiliaryVector
    let before := vector.updateAll splitMemory [(7, 3), (9, 1)]
    view.environment.entries splitMemory = [ascii "A=1", ascii "BARE"] ∧
      view.programName splitMemory = ascii "nix-ld" ∧ vector.get? splitMemory 7 = some 1 ∧
      vector.get? splitMemory 9 = none ∧ vector.pairs before = [(7, 3), (6, 4096), (7, 2)] ∧
      (vector.update before 7 4).1 = true ∧
      vector.pairs (vector.update before 7 4).2 = [(7, 4), (6, 4096), (7, 2)] := by
  have fits : splitBlock.FitsAt 0x1000 0x2000 := by decide +kernel
  obtain ⟨_, _, _, entries, _, get, name, updates⟩ :=
    read_undoes_layout (liesIn_place fits .zero).standsAt
  obtain ⟨layout, before, present, _, pairs, _⟩ := updates [(7, 3), (9, 1)] 7 4
  rw [layout, before] at present pairs
  exact ⟨entries, name, get 7, get 9, before, present, pairs⟩

end StartupBlock
end ElfRelay
