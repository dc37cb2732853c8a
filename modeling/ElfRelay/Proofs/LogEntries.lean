import ElfRelay.Proofs.Block
import ElfRelay.Proofs.Configuration
/-! Start-up blocks that differ in the log level alone: their entries are the same but for
the values of `NIX_LD_LOG`. Whatever else is configured is the same, and the blocks remain
so when the same change is made to both. -/
namespace ElfRelay

/-- Two entries that are the same, or that both set the log level. -/
inductive LogAlike : Bytes → Bytes → Prop
  | same (entry : Bytes) : LogAlike entry entry
  | level (value other : Bytes) :
    LogAlike (VariableName.logLevel ++ equalsSign :: value)
      (VariableName.logLevel ++ equalsSign :: other)

def Variable.bare (found : Variable) : Variable := { found with valueAddress := 0 }

@[simp] theorem Variable.bare_slot (found : Variable) : found.bare.slot = found.slot := rfl
@[simp] theorem Variable.bare_name (found : Variable) : found.bare.name = found.name := rfl
@[simp] theorem Variable.bare_value (found : Variable) : found.bare.value = found.value := rfl

theorem Variable.eq_of_bare {one two : Variable} (same : two.bare = one.bare) :
    two.slot = one.slot ∧ two.name = one.name ∧ two.value = one.value := by
  simp only [Variable.bare, Variable.mk.injEq] at same
  exact ⟨same.1, same.2.1, same.2.2.1⟩

theorem Variable.cases_of_bare {one two : Option Variable}
    (same : two.map Variable.bare = one.map Variable.bare) :
    (one = none ∧ two = none) ∨
      ∃ found other, one = some found ∧ two = some other ∧ other.bare = found.bare := by
  cases one <;> cases two <;> simp_all

namespace Preference

def bare (preference : Preference) : Preference :=
  ⟨preference.tagged.map Variable.bare, preference.untagged.map Variable.bare⟩

theorem bare_offer (preference : Preference) (isTagged : Bool) (found : Variable) :
    (preference.offer isTagged found).bare = preference.bare.offer isTagged found.bare := by
  cases isTagged with
  | true => cases found : preference.tagged <;> simp [offer, bare, found]
  | false => cases found : preference.untagged <;> simp [offer, bare, found]

theorem bare_choice (preference : Preference) :
    preference.bare.choice = preference.choice.map Variable.bare := by
  simp [choice, bare, Option.map_or]

end Preference

namespace Selection

def bare (selection : Selection) : Selection where
  interpreter := selection.interpreter.bare
  supplementary := selection.supplementary.bare
  existing := selection.existing.map Variable.bare
  logLevel := none

theorem bare_consider (selection : Selection) (found : Variable) :
    (selection.consider found).bare =
      if found.name = VariableName.logLevel then selection.bare
      else selection.bare.consider found.bare := by
  have apart : VariableName.libraryPath ≠ VariableName.logLevel := by decide
  by_cases inherited : found.name = VariableName.libraryPath
  · cases before : selection.existing <;> simp [consider, inherited, apart, bare, before]
  · by_cases level : found.name = VariableName.logLevel
    · simp [consider, level, apart.symm, bare]
    · simp only [consider, Variable.bare_name, Variable.bare_value, inherited, level, if_false]
      cases VariableName.match? found.name VariableName.supplementaryPath with
      | some isTagged => simp [bare, Preference.bare_offer]
      | none =>
        cases VariableName.match? found.name VariableName.interpreter with
        | none => simp [bare]
        | some isTagged =>
          by_cases empty : found.value = []
          · simp [empty, bare]
          · simp [empty, bare, Preference.bare_offer]

def silent (list : List Variable) : List Variable :=
  (list.filter fun found => found.name ≠ VariableName.logLevel).map Variable.bare

theorem bare_foldl (list : List Variable) (selection : Selection) :
    (list.foldl consider selection).bare = (silent list).foldl consider selection.bare := by
  induction list generalizing selection with
  | nil => rfl
  | cons found list ih =>
    rw [List.foldl_cons, ih, bare_consider]
    by_cases level : found.name = VariableName.logLevel <;> simp [silent, level]

end Selection

namespace Configuration

def bare (configuration : Configuration) : Configuration :=
  { configuration with
    interpreter := configuration.interpreter.bare
    supplementary := configuration.supplementary.map Variable.bare
    existing := configuration.existing.map Variable.bare
    logLevel := none }

end Configuration

namespace StartupView

/-- Two memories with the same start-up block, but for the values of the log level. -/
structure SameBlock (view : StartupView) (m n : Memory) : Prop where
  first : read m view.stackPointer = view
  second : read n view.stackPointer = view
  ends : m.wordAt view.arguments view.argumentCount.toNat = 0 ∧
    n.wordAt view.arguments view.argumentCount.toNat = 0
  missing : ∀ i < view.argumentCount.toNat,
    n.wordAt view.arguments i = 0 ↔ m.wordAt view.arguments i = 0
  arguments : ∀ i < view.argumentCount.toNat, m.wordAt view.arguments i ≠ 0 →
    n.string (n.wordAt view.arguments i) = m.string (m.wordAt view.arguments i)
  entries : ∀ slot < view.environment.count,
    LogAlike (view.environment.entry m slot) (view.environment.entry n slot)
  keys : ∀ i < view.auxiliaryVector.count,
    view.auxiliaryVector.key n i = view.auxiliaryVector.key m i
  values : ∀ i < view.auxiliaryVector.count,
    view.auxiliaryVector.value n i = view.auxiliaryVector.value m i

namespace SameBlock

variable {view : StartupView} {m n : Memory} (same : view.SameBlock m n)
include same

theorem index?_eq (key : UInt64) :
    view.auxiliaryVector.index? n key = view.auxiliaryVector.index? m key :=
  AuxiliaryVector.index?_congr same.keys key

theorem get?_eq (key : UInt64) :
    view.auxiliaryVector.get? n key = view.auxiliaryVector.get? m key := by
  rw [AuxiliaryVector.get?, AuxiliaryVector.get?, same.index?_eq]
  exact Option.map_congr fun i found => same.values i (AuxiliaryVector.index?_lt found)

theorem programName_eq : view.programName n = view.programName m := by
  unfold programName
  by_cases none : view.argumentCount = 0
  · simp [none]
  · have some : 0 < view.argumentCount.toNat := by
      apply Nat.pos_of_ne_zero
      intro zero
      exact none (UInt64.toNat.inj zero)
    by_cases missing : m.wordAt view.arguments 0 = 0
    · simp [missing, (same.missing 0 some).mpr missing]
    · have present := mt (same.missing 0 some).mp missing
      simp [none, missing, present, same.arguments 0 some missing]

theorem get?_silent (slot : Nat) :
    ((view.environment.get? n slot).filter (·.name ≠ VariableName.logLevel)).map Variable.bare =
      ((view.environment.get? m slot).filter (·.name ≠ VariableName.logLevel)).map Variable.bare := by
  by_cases listed : slot < view.environment.count
  · simp only [Environment.get?, if_pos listed]
    have alike := same.entries slot listed
    generalize view.environment.entry m slot = entry at alike
    generalize view.environment.entry n slot = other at alike
    cases alike with
    | same entry => cases splitEntry entry <;> simp [Option.filter, Variable.bare, apply_ite]
    | level value other =>
      have clean : equalsSign ∉ VariableName.logLevel := by decide
      simp [splitEntry_append _ clean, Option.filter]
  · simp only [Environment.get?, if_neg listed]

theorem silent_eq : Selection.silent (view.environment.bindings n) =
    Selection.silent (view.environment.bindings m) := by
  simp only [Selection.silent, Environment.bindings, List.filter_filterMap, List.map_filterMap]
  apply List.filterMap_congr
  intro slot _
  exact same.get?_silent slot

/-- The configurations are the same, but for the log level. -/
theorem configuration_eq : (Configuration.read n view).map Configuration.bare =
    (Configuration.read m view).map Configuration.bare := by
  have selected : ((view.environment.bindings n).foldl Selection.consider .empty).bare =
      ((view.environment.bindings m).foldl Selection.consider .empty).bare := by
    rw [Selection.bare_foldl, Selection.bare_foldl, same.silent_eq]
  generalize found : (view.environment.bindings m).foldl Selection.consider .empty = one at selected
  generalize other : (view.environment.bindings n).foldl Selection.consider .empty = two at selected
  simp only [Selection.bare, Selection.mk.injEq] at selected
  obtain ⟨interpreter, supplementary, existing, _⟩ := selected
  have interpreter := congrArg Preference.choice interpreter
  have supplementary := congrArg Preference.choice supplementary
  simp only [Preference.bare_choice] at interpreter supplementary
  simp only [Configuration.read, found, other, same.get?_eq, same.programName_eq]
  cases first : one.interpreter.choice with
  | none =>
    rw [first, Option.map_none, Option.map_eq_none_iff] at interpreter
    rw [interpreter]
  | some chosen =>
    rw [first, Option.map_some, Option.map_eq_some_iff] at interpreter
    obtain ⟨second, found, bare⟩ := interpreter
    rw [found]
    cases (view.auxiliaryVector.get? m AuxiliaryVector.pageSizeKey).bind PageSize.ofWord? with
    | none => rfl
    | some page => simp [Except.map, Configuration.bare, bare, supplementary, existing]

theorem argumentStrings_eq : n.strings view.arguments = m.strings view.arguments := by
  have bound : m.pointerCount view.arguments ≤ view.argumentCount.toNat := by
    by_contra beyond
    have present := firstIndex_earlier _ (Nat.not_le.mp beyond)
    simp [same.ends.1] at present
  have count : n.pointerCount view.arguments = m.pointerCount view.arguments := by
    refine firstIndex_congr fun i _ within => ?_
    rw [Bool.eq_iff_iff, beq_iff_eq, beq_iff_eq]
    rcases Nat.lt_or_eq_of_le (Nat.le_trans within bound) with listed | rfl
    · exact same.missing i listed
    · simp [same.ends]
  rw [Memory.strings, Memory.strings, count]
  apply List.map_congr_left
  intro i listed
  have inside := List.mem_range.mp listed
  apply same.arguments i (Nat.lt_of_lt_of_le inside bound)
  simpa using firstIndex_earlier _ inside

/-- The environments that a program would be started with are the same, but for the values
of the log level. -/
theorem environmentStrings_alike : List.Forall₂ LogAlike (m.strings view.environment.slots)
    (n.strings view.environment.slots) := by
  have count {memory : Memory} (viewed : read memory view.stackPointer = view) :
      memory.pointerCount view.environment.slots = view.environment.count := by
    have counted : memory.pointerCount (read memory view.stackPointer).environment.slots =
        (read memory view.stackPointer).environment.count := rfl
    rwa [viewed] at counted
  rw [Memory.strings, Memory.strings, count same.first, count same.second]
  simp only [List.forall₂_map_left_iff, List.forall₂_map_right_iff, List.forall₂_same]
  intro slot listed
  exact same.entries slot (List.mem_range.mp listed)

theorem edited {after other : Memory} {slot : Nat} (one : view.Framed m after slot)
    (two : view.Framed n other slot)
    (entry : slot < view.environment.count →
      view.environment.entry other slot = view.environment.entry after slot)
    (base : ∀ i, view.auxiliaryVector.index? m AuxiliaryVector.baseKey = some i →
      view.auxiliaryVector.value other i = view.auxiliaryVector.value after i) :
    view.SameBlock after other where
  first := one.layout
  second := two.layout
  ends := by
    rw [one.arguments _ (Nat.le_refl _), two.arguments _ (Nat.le_refl _)]
    exact same.ends
  missing i listed := by
    rw [one.arguments i (Nat.le_of_lt listed), two.arguments i (Nat.le_of_lt listed)]
    exact same.missing i listed
  arguments i listed present := by
    rw [one.arguments i (Nat.le_of_lt listed)] at present ⊢
    have there := mt (same.missing i listed).mp present
    rw [two.arguments i (Nat.le_of_lt listed), one.argumentTexts i listed present,
      two.argumentTexts i listed there, same.arguments i listed present]
  entries other listed := by
    by_cases here : other = slot
    · subst here
      rw [entry listed]
      exact .same _
    · rw [one.entry other listed here, two.entry other listed here]
      exact same.entries other listed
  keys i listed := by
    rw [one.keys i (Nat.le_of_lt listed), two.keys i (Nat.le_of_lt listed), same.keys i listed]
  values i listed := by
    by_cases based : view.auxiliaryVector.index? m AuxiliaryVector.baseKey = some i
    · exact base i based
    · rw [one.values i (Nat.le_of_lt listed) based,
        two.values i (Nat.le_of_lt listed) (by rwa [same.index?_eq]), same.values i listed]

theorem kept {after other : Memory} (unaliased : view.Unaliased m) (elsewhere : view.Unaliased n)
    (one : ∀ address, view.Contains m address → after.read address = m.read address)
    (two : ∀ address, view.Contains n address → other.read address = n.read address) :
    view.SameBlock after other := by
  have laid : view.Laid := same.first ▸ laid_read m view.stackPointer
  have framed {memory left : Memory} (viewed : read memory view.stackPointer = view)
      (unaliased : view.Unaliased memory)
      (kept : ∀ address, view.Contains memory address → left.read address = memory.read address) :
      view.Framed memory left view.environment.count ∧
        ∀ i ≤ view.auxiliaryVector.count,
          view.auxiliaryVector.value left i = view.auxiliaryVector.value memory i := by
    have framed : view.Framed memory left view.environment.count :=
      .of_kept viewed unaliased (fun address contains _ (_ : ¬ (False ∧ _)) => kept address contains)
        fun listed => absurd listed (Nat.lt_irrefl _)
    refine ⟨framed, fun i listed => ?_⟩
    exact value_kept unaliased laid (fun address contains
      (_ : ¬ view.environment.Holds memory view.environment.count address) (_ : ¬ (False ∧ _)) =>
        kept address contains) listed nofun
  obtain ⟨first, values⟩ := framed same.first unaliased one
  obtain ⟨second, others⟩ := framed same.second elsewhere two
  refine same.edited first second (fun listed => absurd listed (Nat.lt_irrefl _)) fun i found => ?_
  have listed := AuxiliaryVector.index?_lt found
  rw [values i (Nat.le_of_lt listed), others i (Nat.le_of_lt listed), same.values i listed]

end SameBlock
end StartupView

namespace StartupBlock.LiesIn

open StartupView (read)

variable {first second : StartupBlock} {m n : Memory} {stackPointer start behind : UInt64}
  (one : first.LiesIn m stackPointer start) (two : second.LiesIn n stackPointer behind)
  (arguments : second.arguments = first.arguments)
  (environment : List.Forall₂ LogAlike first.environment second.environment)
  (auxiliary : second.auxiliary = first.auxiliary)
include one two arguments environment auxiliary

theorem read_eq : read n stackPointer = read m stackPointer := by
  have count : (read n stackPointer).argumentCount = (read m stackPointer).argumentCount :=
    UInt64.toNat_inj.mp (by rw [one.standsAt.argumentCount, two.standsAt.argumentCount, arguments])
  have slots : (read n stackPointer).environment = (read m stackPointer).environment := by
    have length : (read n stackPointer).environment.count = (read m stackPointer).environment.count := by
      rw [one.standsAt.slotCount, two.standsAt.slotCount, environment.length_eq]
    have place : (read n stackPointer).environment.slots = (read m stackPointer).environment.slots :=
      congrArg (fun count => stackPointer + 8 * (count + 2)) count
    exact Environment.mk.injEq .. ▸ ⟨place, length⟩
  have pairs : (read n stackPointer).auxiliaryVector = (read m stackPointer).auxiliaryVector := by
    have length : (read n stackPointer).auxiliaryVector.count =
        (read m stackPointer).auxiliaryVector.count := by
      rw [one.standsAt.pairCount, two.standsAt.pairCount, StartupBlock.pairCount, StartupBlock.pairCount, auxiliary]
    have place : (read n stackPointer).auxiliaryVector.start =
        (read m stackPointer).auxiliaryVector.start :=
      congrArg (fun environment : Environment => environment.slotAddress (environment.count + 1)) slots
    exact AuxiliaryVector.mk.injEq .. ▸ ⟨place, length⟩
  exact StartupView.mk.injEq .. ▸ ⟨rfl, count, slots, pairs⟩

/-- Blocks that were laid out with the same contents, but for the values of the log level. -/
theorem sameBlock : (read m stackPointer).SameBlock m n := by
  have view := one.read_eq two arguments environment auxiliary
  have listed {i : Nat} (listed : i < (read m stackPointer).argumentCount.toNat) :
      i < first.arguments.length ∧ i < second.arguments.length := by
    rw [one.standsAt.argumentCount] at listed
    exact ⟨listed, arguments ▸ listed⟩
  have found {i : Nat} (listed : i < (read m stackPointer).auxiliaryVector.count) :
      i < first.auxiliary.length ∧ i < second.auxiliary.length := by
    rw [one.standsAt.pairCount] at listed
    have inside := Nat.lt_of_lt_of_le listed List.findIdx_le_length
    exact ⟨inside, auxiliary ▸ inside⟩
  refine ⟨rfl, view, ⟨one.standsAt.arguments_end, view ▸ two.standsAt.arguments_end⟩, fun i inside => ?_,
    fun i inside present => ?_, fun slot inside => ?_, fun i inside => ?_, fun i inside => ?_⟩
  · obtain ⟨here, there⟩ := listed inside
    rw [one.standsAt.argument_eq_zero here, ← view, two.standsAt.argument_eq_zero there]
    simp only [arguments]
  · obtain ⟨here, there⟩ := listed inside
    rw [ne_eq, one.standsAt.argument_eq_zero here] at present
    obtain ⟨text, entry⟩ := Option.ne_none_iff_exists'.mp present
    have again : second.arguments[i] = some text := by simpa only [arguments] using entry
    have read := two.standsAt.argument_text there again
    rw [view] at read
    rw [one.standsAt.argument_text here entry, read]
  · rw [one.standsAt.slotCount] at inside
    have inner := environment.length_eq ▸ inside
    have entry := two.standsAt.entry inner
    rw [view] at entry
    rw [one.standsAt.entry inside, entry]
    exact environment.get inside inner
  · obtain ⟨here, there⟩ := found inside
    have pair := (two.standsAt.pair there).1
    rw [view] at pair
    rw [(one.standsAt.pair here).1, pair]
    simp only [auxiliary]
  · obtain ⟨here, there⟩ := found inside
    have pair := (two.standsAt.pair there).2
    rw [view] at pair
    rw [(one.standsAt.pair here).2, pair]
    simp only [auxiliary]

end StartupBlock.LiesIn
end ElfRelay
