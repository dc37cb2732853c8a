import ElfRelay.Proofs.Configuration
/-! What one pass over the variables selects. For each name that is looked for it is what
a search of its own finds: the first variable of that name. -/
namespace ElfRelay

/-- A pass of which one part keeps the first thing that is chosen finds it. -/
theorem foldl_eq_findSome? {step : σ → α → σ} (part : σ → Option β) (choose : α → Option β)
    (takes : ∀ state next, part (step state next) = (part state).or (choose next))
    (list : List α) (state : σ) :
    part (list.foldl step state) = (part state).or (list.findSome? choose) := by
  induction list generalizing state with
  | nil => simp
  | cons next rest ih =>
    rw [List.foldl_cons, ih, takes, Option.or_assoc, List.findSome?_cons]
    cases choose next <;> rfl

open VariableName (libraryPath supplementaryPath tagged match?)

theorem VariableName.tagged_ne (base : Bytes) : base ≠ tagged base := by
  intro same
  have length := congrArg List.length same
  simp [tagged] at length
  exact absurd length (by decide)

theorem VariableName.match?_of_ne {name base : Bytes} (plain : name ≠ base)
    (marked : name ≠ tagged base) : match? name base = none := by
  rw [match?, if_neg plain, if_neg marked]

namespace Preference

def consider (base : Bytes) (preference : Preference) (found : Variable) : Preference :=
  match match? found.name base with
  | some isTagged => preference.offer isTagged found
  | none => preference

theorem tagged_consider (base : Bytes) (preference : Preference) (found : Variable) :
    (preference.consider base found).tagged =
      preference.tagged.or (Option.guard (·.name == VariableName.tagged base) found) := by
  have different := VariableName.tagged_ne base
  by_cases plain : found.name = base
  · simp [consider, match?, plain, offer, Option.guard, different]
  · by_cases marked : found.name = VariableName.tagged base
    · simp [consider, match?, marked, different.symm, offer]
    · simp [consider, match?, plain, Option.guard, marked]

theorem untagged_consider (base : Bytes) (preference : Preference) (found : Variable) :
    (preference.consider base found).untagged =
      preference.untagged.or (Option.guard (·.name == base) found) := by
  have different := VariableName.tagged_ne base
  by_cases plain : found.name = base
  · simp [consider, match?, plain, offer]
  · by_cases marked : found.name = VariableName.tagged base
    · simp [consider, match?, marked, different.symm, Option.guard, offer]
    · simp [consider, match?, plain, Option.guard, marked]

/-- What a pass prefers is the first variable with the tag, or else the first without it. -/
theorem choice_foldl (base : Bytes) (list : List Variable) :
    (list.foldl (consider base) .empty).choice =
      (list.find? (·.name == VariableName.tagged base)).or (list.find? (·.name == base)) := by
  have marked := foldl_eq_findSome? Preference.tagged _ (tagged_consider base) list .empty
  have plain := foldl_eq_findSome? Preference.untagged _ (untagged_consider base) list .empty
  rw [List.findSome?_guard] at marked plain
  rw [choice, marked, plain]
  rfl

end Preference

namespace Selection

theorem consider_existing (selection : Selection) (found : Variable) :
    (selection.consider found).existing =
      selection.existing.or (Option.guard (·.name == libraryPath) found) := by
  rw [consider]
  by_cases here : found.name = libraryPath
  · simp [here]
  · simp only [here, if_false, Option.guard, beq_eq_false_iff_ne.mpr here, Bool.false_eq_true,
      Option.or_none]
    split
    · rfl
    · split
      · rfl
      · split
        · split <;> rfl
        · rfl

theorem consider_logLevel (selection : Selection) (found : Variable) :
    (selection.consider found).logLevel = selection.logLevel.or
      ((Option.guard (·.name == VariableName.logLevel) found).map (readLevel ·.value)) := by
  rw [consider]
  by_cases inherited : found.name = libraryPath
  · simp [inherited, Option.guard, show libraryPath ≠ VariableName.logLevel by decide]
  · by_cases level : found.name = VariableName.logLevel
    · simp [level, show VariableName.logLevel ≠ libraryPath by decide]
    · simp only [inherited, level, if_false, Option.guard, beq_eq_false_iff_ne.mpr level,
        Bool.false_eq_true, Option.map_none, Option.or_none]
      split
      · rfl
      · split
        · split <;> rfl
        · rfl

/-- The supplementary path is offered by the variables of its two names alone. -/
theorem consider_supplementary (selection : Selection) (found : Variable) :
    (selection.consider found).supplementary =
      selection.supplementary.consider supplementaryPath found := by
  rw [consider, Preference.consider]
  by_cases inherited : found.name = libraryPath
  · rw [if_pos inherited, inherited, VariableName.match?_of_ne (by decide) (by decide)]
  · rw [if_neg inherited]
    by_cases level : found.name = VariableName.logLevel
    · rw [if_pos level, level, VariableName.match?_of_ne (by decide) (by decide)]
    · rw [if_neg level]
      cases match? found.name supplementaryPath with
      | some isTagged => rfl
      | none =>
        dsimp only
        split
        · split <;> rfl
        · rfl

/-- The interpreter is offered by the variables of its two names, if they have a value. -/
theorem consider_interpreter (selection : Selection) (found : Variable) :
    (selection.consider found).interpreter =
      if found.value ≠ [] then
        selection.interpreter.consider VariableName.interpreter found
      else selection.interpreter := by
  -- None of the other names is one of the two.
  have absent (name : Bytes) (listed : name ∈ [libraryPath, VariableName.logLevel,
      supplementaryPath, tagged supplementaryPath]) : match? name VariableName.interpreter = none := by
    have apart : ∀ name ∈ [libraryPath, VariableName.logLevel, supplementaryPath,
        tagged supplementaryPath], name ≠ VariableName.interpreter ∧
          name ≠ tagged VariableName.interpreter := by decide
    exact VariableName.match?_of_ne (apart name listed).1 (apart name listed).2
  rw [consider, Preference.consider]
  by_cases inherited : found.name = libraryPath
  · simp [inherited, absent]
  · by_cases level : found.name = VariableName.logLevel
    · simp [level, absent, show VariableName.logLevel ≠ libraryPath by decide]
    · rw [if_neg inherited, if_neg level]
      cases matched : match? found.name supplementaryPath with
      | some isTagged =>
        have none : match? found.name VariableName.interpreter = none := by
          rcases Variable.named_of_match? matched with name | name <;> simp [name, absent]
        simp [none]
      | none =>
        by_cases empty : found.value = []
        · cases match? found.name VariableName.interpreter <;> simp [empty]
        · cases match? found.name VariableName.interpreter <;> simp [empty]

variable (list : List Variable)

theorem existing_foldl : (list.foldl consider .empty).existing =
    list.find? (·.name == libraryPath) := by
  rw [foldl_eq_findSome? Selection.existing _ consider_existing, List.findSome?_guard]
  rfl

theorem logLevel_foldl : (list.foldl consider .empty).logLevel =
    (list.find? (·.name == VariableName.logLevel)).map (readLevel ·.value) := by
  rw [foldl_eq_findSome? Selection.logLevel _ consider_logLevel, ← List.findSome?_guard,
    List.map_findSome?]
  rfl

theorem supplementary_foldl : (list.foldl consider .empty).supplementary =
    list.foldl (Preference.consider supplementaryPath) .empty :=
  (List.foldl_hom Selection.supplementary
    fun selection found => (consider_supplementary selection found).symm).symm

theorem interpreter_foldl : (list.foldl consider .empty).interpreter =
    (list.filter (·.value ≠ [])).foldl (Preference.consider VariableName.interpreter) .empty := by
  rw [List.foldl_filter]
  refine (List.foldl_hom Selection.interpreter fun selection found => ?_).symm
  simp [consider_interpreter]

end Selection

namespace Configuration

variable {m : Memory} {process : StartupView} {configuration : Configuration}

/-- The library paths of a configuration are the first variables of their names, tagged
ones before the others. -/
theorem paths_of_read (configured : read m process = .ok configuration) :
    configuration.existing = process.environment.find? m libraryPath ∧
      configuration.supplementary =
        (process.environment.find? m (tagged supplementaryPath)).or
          (process.environment.find? m supplementaryPath) := by
  rw [read] at configured
  split at configured
  · contradiction
  · split at configured
    · contradiction
    · cases configured
      refine ⟨Selection.existing_foldl _, ?_⟩
      rw [Selection.supplementary_foldl, Preference.choice_foldl]
      rfl

end Configuration
end ElfRelay
