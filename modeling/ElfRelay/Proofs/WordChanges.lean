import ElfRelay.Memory.Laws
/-! Changes made to words of memory one after the other. Where the changed words are the
same or have no byte in common, what a word holds in the end depends on the changes to this
word alone, and every byte outside of them is as before. -/
namespace ElfRelay.Memory

abbrev WordChange := UInt64 × (UInt64 → UInt64)

def changeWord (m : Memory) (change : WordChange) : Memory :=
  m.writeWord change.1 (change.2 (m.readWord change.1))

def changeWords (m : Memory) (changes : List WordChange) : Memory :=
  changes.foldl changeWord m

@[simp] theorem changeWords_nil (m : Memory) : m.changeWords [] = m := rfl

@[simp] theorem changeWords_cons (m : Memory) (change : WordChange) (changes : List WordChange) :
    m.changeWords (change :: changes) = (m.changeWord change).changeWords changes := rfl

theorem changeWords_append (m : Memory) (changes more : List WordChange) :
    m.changeWords (changes ++ more) = (m.changeWords changes).changeWords more :=
  List.foldl_append

/-- Whether a word is one of some words or has no byte in common with them. -/
def Spaced (targets : List UInt64) (address : UInt64) : Prop :=
  ∀ target ∈ targets, target = address ∨ Apart address 8 target 8

variable {changes : List WordChange} {address : UInt64}

theorem Spaced.of_cons {target : UInt64} {targets : List UInt64}
    (spaced : Spaced (target :: targets) address) : Spaced targets address :=
  fun other member => spaced other (List.mem_cons_of_mem _ member)

/-- What a word holds after changes, of which only those to this word count. -/
theorem readWord_changeWords (m : Memory) (spaced : Spaced (changes.map Prod.fst) address) :
    (m.changeWords changes).readWord address =
      (changes.filter (·.1 = address)).foldl (fun word change => change.2 word)
        (m.readWord address) := by
  induction changes generalizing m with
  | nil => rfl
  | cons change changes ih =>
    rw [changeWords_cons, ih _ spaced.of_cons]
    by_cases here : change.1 = address
    · subst here
      simp [changeWord, readWord_writeWord]
    · have apart := (spaced change.1 List.mem_cons_self).resolve_left here
      simp [here, changeWord, readWord_writeWord_apart m apart]

theorem read_changeWords_outside (m : Memory)
    (outside : ∀ target ∈ changes.map Prod.fst, ¬ (address - target).toNat < 8) :
    (m.changeWords changes).read address = m.read address := by
  induction changes generalizing m with
  | nil => rfl
  | cons change changes ih =>
    rw [changeWords_cons, ih _ fun target member => outside target (List.mem_cons_of_mem _ member)]
    exact read_writeWord_outside m (outside change.1 List.mem_cons_self)

/-- A range that has no byte in common with the changed words is as before. -/
theorem agree_changeWords (m : Memory) (changes : List WordChange) {start : UInt64} {length : Nat}
    (apart : ∀ target ∈ changes.map Prod.fst, Apart target 8 start length) :
    Agree m (m.changeWords changes) start length :=
  fun _ inside => read_changeWords_outside m fun target member =>
    (apart target member).not_both inside

theorem foldl_replace (values : List UInt64) (word : UInt64) :
    values.foldl (fun _ value => value) word = values.getLast?.getD word := by
  induction values generalizing word with
  | nil => rfl
  | cons value values ih => rw [List.foldl_cons, ih]; cases values <;> simp [List.getLast?_cons]

theorem foldl_add (list : List α) (base word : UInt64) :
    list.foldl (fun word _ => word + base) word = word + base * list.length.toUInt64 := by
  induction list generalizing word with
  | nil => simp
  | cons item list ih =>
    rw [List.foldl_cons, ih, List.length_cons]
    simp only [Nat.toUInt64, UInt64.ofNat_add]
    grind

end ElfRelay.Memory
