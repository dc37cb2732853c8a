import ElfRelay.Configuration
import ElfRelay.Memory.Laws
import Mathlib
/-! Where the variables of a configuration come from. Each is a variable of the
environment, still in its slot and under a name of its own, so no two of the three
kinds share a slot. -/
namespace ElfRelay

theorem splitEntry_eq_some {entry name value : Bytes}
    (split : splitEntry entry = some (name, value)) : entry = name ++ equalsSign :: value := by
  rw [splitEntry] at split
  split at split
  · next found =>
    obtain ⟨rfl, rfl⟩ := Prod.mk.inj (Option.some.inj split)
    obtain ⟨rest, behind⟩ : ∃ rest, entry.dropWhile (· != equalsSign) = equalsSign :: rest := by
      cases rest : entry.dropWhile (· != equalsSign) with
      | nil =>
        have all := List.dropWhile_eq_nil_iff.mp rest equalsSign found
        simp at all
      | cons first rest' =>
        have nonempty : entry.dropWhile (· != equalsSign) ≠ [] := by simp [rest]
        have stops := List.head_dropWhile_not (· != equalsSign) nonempty
        simp only [rest, List.head_cons, bne_eq_false_iff_eq] at stops
        exact ⟨rest', by rw [stops]⟩
    rw [behind, List.drop_one, List.tail_cons, ← behind, List.takeWhile_append_dropWhile]
  · contradiction

theorem splitEntry_append {name : Bytes} (value : Bytes) (clean : equalsSign ∉ name) :
    splitEntry (name ++ equalsSign :: value) = some (name, value) := by
  have goesOn : ∀ byte ∈ name, (byte != equalsSign) = true := by
    intro byte member
    simp only [bne_iff_ne, ne_eq]
    rintro rfl
    exact clean member
  simp [splitEntry, List.takeWhile_append_of_pos goesOn, List.dropWhile_append_of_pos goesOn]

namespace Environment

variable {environment : Environment} {m : Memory} {slot : Nat} {found : Variable}

theorem get?_eq_some (present : environment.get? m slot = some found) :
    slot < environment.count ∧ found.slot = slot ∧
      environment.entry m slot = found.name ++ equalsSign :: found.value ∧
      found.valueAddress =
        environment.entryAddress m slot + (found.name.length + 1).toUInt64 := by
  rw [get?] at present
  split at present
  · next listed =>
    obtain ⟨⟨name, value⟩, split, rfl⟩ := Option.map_eq_some_iff.mp present
    exact ⟨listed, rfl, splitEntry_eq_some split, rfl⟩
  · contradiction

theorem zero_not_mem_value (present : environment.get? m slot = some found) : 0 ∉ found.value := by
  obtain ⟨_, _, split, _⟩ := get?_eq_some present
  intro member
  refine m.zero_not_mem_string (environment.entryAddress m slot) ?_
  rw [← entry, split]
  exact List.mem_append_right _ (List.mem_cons_of_mem _ member)

theorem mem_bindings (member : found ∈ environment.bindings m) :
    environment.get? m found.slot = some found := by
  obtain ⟨slot, _, present⟩ := List.mem_filterMap.mp member
  rw [(get?_eq_some present).2.1]
  exact present

end Environment

def Variable.Named (found : Variable) (base : Bytes) : Prop :=
  found.name = base ∨ found.name = VariableName.tagged base

theorem Variable.named_of_match? {found : Variable} {base : Bytes} {isTagged : Bool}
    (matched : VariableName.match? found.name base = some isTagged) : found.Named base := by
  rw [VariableName.match?] at matched
  split at matched
  · next same => exact .inl same
  · split at matched
    · next same => exact .inr same
    · contradiction

namespace Preference

/-- Whether a variable is one of the two that a choice is made from. -/
def Offers (preference : Preference) (found : Variable) : Prop :=
  preference.tagged = some found ∨ preference.untagged = some found

variable {preference : Preference} {found other : Variable}

theorem offers_of_choice (chosen : preference.choice = some found) : preference.Offers found := by
  rw [choice, Option.or_eq_some_iff] at chosen
  rcases chosen with tagged | ⟨_, untagged⟩
  · exact .inl tagged
  · exact .inr untagged

theorem offers_offer {isTagged : Bool} (offers : (preference.offer isTagged other).Offers found) :
    found = other ∨ preference.Offers found := by
  rw [offer] at offers
  split at offers
  · rcases offers with tagged | untagged
    · rcases Option.or_eq_some_iff.mp tagged with before | ⟨_, new⟩
      · exact .inr (.inl before)
      · exact .inl (Option.some.inj new).symm
    · exact .inr (.inr untagged)
  · rcases offers with tagged | untagged
    · exact .inr (.inl tagged)
    · rcases Option.or_eq_some_iff.mp untagged with before | ⟨_, new⟩
      · exact .inr (.inr before)
      · exact .inl (Option.some.inj new).symm

end Preference

namespace Selection

/-- What is selected is among some variables, each under its own kind of name. -/
structure Among (list : List Variable) (selection : Selection) : Prop where
  interpreter : ∀ found, selection.interpreter.Offers found →
    found ∈ list ∧ found.Named VariableName.interpreter
  supplementary : ∀ found, selection.supplementary.Offers found →
    found ∈ list ∧ found.Named VariableName.supplementaryPath
  existing : ∀ found, selection.existing = some found →
    found ∈ list ∧ found.name = VariableName.libraryPath

variable {list : List Variable} {selection : Selection} {next : Variable}

theorem Among.empty (list : List Variable) : Among list .empty where
  interpreter _ offers := by rcases offers with none | none <;> contradiction
  supplementary _ offers := by rcases offers with none | none <;> contradiction
  existing _ none := by contradiction

theorem Among.consider (among : Among list selection) (listed : next ∈ list) :
    Among list (selection.consider next) := by
  rw [Selection.consider]
  split
  · next same =>
    refine ⟨among.interpreter, among.supplementary, fun found present => ?_⟩
    rcases Option.or_eq_some_iff.mp present with before | ⟨_, new⟩
    · exact among.existing found before
    · cases new
      exact ⟨listed, same⟩
  · split
    · exact ⟨among.interpreter, among.supplementary, among.existing⟩
    · split
      · next isTagged matched =>
        refine ⟨among.interpreter, fun found offers => ?_, among.existing⟩
        rcases Preference.offers_offer offers with rfl | before
        · exact ⟨listed, Variable.named_of_match? matched⟩
        · exact among.supplementary found before
      · split
        · next isTagged matched =>
          split
          · exact among
          · refine ⟨fun found offers => ?_, among.supplementary, among.existing⟩
            rcases Preference.offers_offer offers with rfl | before
            · exact ⟨listed, Variable.named_of_match? matched⟩
            · exact among.interpreter found before
        · exact among

theorem Among.foldl (among : Among list selection) {rest : List Variable} (sub : rest ⊆ list) :
    Among list (rest.foldl Selection.consider selection) := by
  induction rest generalizing selection with
  | nil => exact among
  | cons next rest ih =>
    obtain ⟨listed, sub⟩ := List.cons_subset.mp sub
    exact ih (among.consider listed) sub

end Selection

namespace Configuration

variable {m : Memory} {process : StartupView} {configuration : Configuration}

/-- The variables of a configuration are in their slots, under their own kinds of names. -/
structure Sound (environment : Environment) (m : Memory) (configuration : Configuration) :
    Prop where
  interpreter : environment.get? m configuration.interpreter.slot = some configuration.interpreter ∧
    configuration.interpreter.Named VariableName.interpreter
  supplementary : ∀ found, configuration.supplementary = some found →
    environment.get? m found.slot = some found ∧ found.Named VariableName.supplementaryPath
  existing : ∀ found, configuration.existing = some found →
    environment.get? m found.slot = some found ∧ found.name = VariableName.libraryPath

theorem sound_of_read (configured : read m process = .ok configuration) :
    configuration.Sound process.environment m := by
  have among := (Selection.Among.empty (process.environment.bindings m)).foldl (List.Subset.refl _)
  rw [read] at configured
  split at configured
  · contradiction
  · next interpreter chosen =>
    split at configured
    · contradiction
    · next pageSize _ =>
      cases configured
      refine ⟨?_, fun found selected => ?_, fun found selected => ?_⟩
      · obtain ⟨member, named⟩ :=
          among.interpreter interpreter (Preference.offers_of_choice chosen)
        exact ⟨Environment.mem_bindings member, named⟩
      · obtain ⟨member, named⟩ :=
          among.supplementary found (Preference.offers_of_choice selected)
        exact ⟨Environment.mem_bindings member, named⟩
      · obtain ⟨member, named⟩ := among.existing found selected
        exact ⟨Environment.mem_bindings member, named⟩

variable {environment : Environment}

theorem Sound.congr {n : Memory} (sound : configuration.Sound environment m)
    (same : ∀ slot, environment.get? n slot = environment.get? m slot) :
    configuration.Sound environment n where
  interpreter := same _ ▸ sound.interpreter
  supplementary found selected := same _ ▸ sound.supplementary found selected
  existing found selected := same _ ▸ sound.existing found selected

theorem Sound.supplementary_slot_ne (sound : configuration.Sound environment m) {found : Variable}
    (selected : configuration.supplementary = some found) :
    configuration.interpreter.slot ≠ found.slot := by
  intro same
  obtain ⟨present, named⟩ := sound.supplementary found selected
  rw [← same, sound.interpreter.1, Option.some.injEq] at present
  have interpreter := sound.interpreter.2
  rw [present] at interpreter
  rcases interpreter with first | first <;> rcases named with second | second <;>
    exact absurd (first.symm.trans second) (by decide)

theorem Sound.existing_slot_ne (sound : configuration.Sound environment m) {found : Variable}
    (selected : configuration.existing = some found) :
    configuration.interpreter.slot ≠ found.slot := by
  intro same
  obtain ⟨present, named⟩ := sound.existing found selected
  rw [← same, sound.interpreter.1, Option.some.injEq] at present
  have interpreter := sound.interpreter.2
  rw [present] at interpreter
  rcases interpreter with first | first <;> exact absurd (first.symm.trans named) (by decide)

end Configuration
end ElfRelay
