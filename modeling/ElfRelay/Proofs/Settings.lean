import ElfRelay.Proofs.Definitions
import ElfRelay.Proofs.PageRounding
import ElfRelay.Proofs.Selection
import ElfRelay.Proofs.Startup.Updates
/-! What a start-up block tells the loader, with one search for each thing that is looked
for. The one pass over the variables finds the same. So nothing but the definitions of six
names counts, and of their order nothing but that among definitions of one name. -/
namespace ElfRelay

open VariableName (libraryPath supplementaryPath tagged)

def VariableName.all : List Bytes :=
  [tagged interpreter, interpreter, tagged supplementaryPath, supplementaryPath, libraryPath,
    logLevel]

/-- What the loader works with: where its paths are defined, the page size and the level of
the log, or the text that names none. -/
structure Settings where
  interpreter : Definition
  supplementary : Option Definition
  existing : Option Definition
  pageSize : UInt64
  logLevel : Option (Except Bytes LogFilter)
  deriving DecidableEq

namespace Settings

/-- The first definition of a name with the tag, or else the first without it. -/
def preferred? (list : List Definition) (base : Bytes) : Option Definition :=
  (list.find? (·.name == VariableName.tagged base)).or (list.find? (·.name == base))

def choose (list : List Definition) (pageSize? : Option UInt64) : Except LoadError Settings :=
  match preferred? (list.filter (·.value ≠ [])) VariableName.interpreter with
  | none => .error .missingInterpreter
  | some interpreter =>
    match pageSize?.filter (·.toNat.isPowerOfTwo) with
    | none => .error .missingPageSize
    | some pageSize => .ok {
        interpreter
        supplementary := preferred? list VariableName.supplementaryPath
        existing := list.find? (·.name == VariableName.libraryPath)
        pageSize
        logLevel := (list.find? (·.name == VariableName.logLevel)).map (Selection.readLevel ·.value) }

/-- What is chosen for an environment and an auxiliary vector. Pairs behind a key 0 are not
looked at. -/
def search (entries : List Bytes) (auxiliary : List (UInt64 × UInt64)) : Except LoadError Settings :=
  let listed := auxiliary.takeWhile (·.1 != 0)
  choose (definitions entries)
    ((listed.find? (·.1 == AuxiliaryVector.pageSizeKey)).map Prod.snd)

def unplaced (settings : Settings) : Settings :=
  { settings with
    interpreter := settings.interpreter.unplaced
    supplementary := settings.supplementary.map Definition.unplaced
    existing := settings.existing.map Definition.unplaced }

end Settings

def entriesOf (name : Bytes) (entries : List Bytes) : List Bytes :=
  entries.filter fun entry => (splitEntry entry).any (·.1 == name)

theorem filter_parse? (name entry : Bytes) (slot : Nat) :
    (Definition.parse? entry slot).filter (·.name == name) =
      if (splitEntry entry).any (·.1 == name) then Definition.parse? entry slot else none := by
  rw [Definition.parse?]
  cases splitEntry entry with
  | none => rfl
  | some parts =>
    by_cases named : parts.1 = name <;> simp [named]

theorem unplaced_filter_definitions (name : Bytes) (entries : List Bytes) :
    ((definitions entries).filter (·.name == name)).map Definition.unplaced =
      (entriesOf name entries).filterMap (Definition.parse? · 0) := by
  have placed (entry : Bytes) (slot : Nat) :
      ((Definition.parse? entry slot).filter (·.name == name)).map Definition.unplaced =
        if (splitEntry entry).any (·.1 == name) then Definition.parse? entry 0 else none := by
    rw [filter_parse?, apply_ite (Option.map Definition.unplaced), Definition.unplaced_parse?]
    rfl
  rw [definitions, List.filter_filterMap, List.map_filterMap, entriesOf, List.filterMap_filter]
  conv_rhs => rw [← List.zipIdx_map_fst 0 entries, List.filterMap_map]
  exact List.filterMap_congr fun entry _ => placed entry.1 entry.2

def Definition.Alike (name : Bytes) (list other : List Definition) : Prop :=
  (list.filter (·.name == name)).map Definition.unplaced =
    (other.filter (·.name == name)).map Definition.unplaced

namespace Definition.Alike

variable {name base : Bytes} {list other : List Definition}

theorem of_entries {entries edited : List Bytes} (same : entriesOf name edited = entriesOf name entries) :
    Definition.Alike name (definitions edited) (definitions entries) := by
  rw [Alike, unplaced_filter_definitions, unplaced_filter_definitions, same]

theorem map_find? (alike : Alike name list other) :
    (list.find? (·.name == name)).map Definition.unplaced =
      (other.find? (·.name == name)).map Definition.unplaced := by
  rw [← List.head?_filter, ← List.head?_filter, ← List.head?_map, ← List.head?_map, alike]

theorem filter (alike : Alike name list other) (accepts : Bytes → Bool) :
    Alike name (list.filter (accepts ·.value)) (other.filter (accepts ·.value)) := by
  have swap (list : List Definition) :
      ((list.filter (accepts ·.value)).filter (·.name == name)).map Definition.unplaced =
        ((list.filter (·.name == name)).map Definition.unplaced).filter (accepts ·.value) := by
    rw [List.filter_map, List.filter_filter, List.filter_filter]
    exact congrArg _ (List.filter_congr fun definition _ => Bool.and_comm _ _)
  rw [Alike, swap, swap, alike]

theorem map_preferred? (marked : Alike (VariableName.tagged base) list other)
    (plain : Alike base list other) :
    (Settings.preferred? list base).map Definition.unplaced =
      (Settings.preferred? other base).map Definition.unplaced := by
  rw [Settings.preferred?, Settings.preferred?, Option.map_or, Option.map_or, marked.map_find?,
    plain.map_find?]

end Definition.Alike

namespace Settings

theorem choose_congr {list other : List Definition}
    (alike : ∀ name ∈ VariableName.all, Definition.Alike name list other) (pageSize? : Option UInt64) :
    (choose list pageSize?).map unplaced = (choose other pageSize?).map unplaced := by
  have interpreter := Definition.Alike.map_preferred?
    ((alike (tagged VariableName.interpreter) (by simp [VariableName.all])).filter (· ≠ []))
    ((alike VariableName.interpreter (by simp [VariableName.all])).filter (· ≠ []))
  have supplementary := Definition.Alike.map_preferred?
    (alike (tagged supplementaryPath) (by simp [VariableName.all]))
    (alike supplementaryPath (by simp [VariableName.all]))
  have existing := (alike libraryPath (by simp [VariableName.all])).map_find?
  have level := (alike VariableName.logLevel (by simp [VariableName.all])).map_find?
  rw [choose, choose]
  cases chosen : preferred? (list.filter (·.value ≠ [])) VariableName.interpreter with
  | none =>
    rw [chosen, Option.map_none] at interpreter
    rw [Option.map_eq_none_iff.mp interpreter.symm]
  | some definition =>
    rw [chosen, Option.map_some] at interpreter
    obtain ⟨definition', chosen', same⟩ := Option.map_eq_some_iff.mp interpreter.symm
    rw [chosen']
    cases pageSize?.filter (·.toNat.isPowerOfTwo) with
    | none => rfl
    | some size =>
      have readings := congrArg (Option.map (Selection.readLevel ·.value)) level
      rw [Option.map_map, Option.map_map] at readings
      simp only [Except.map, unplaced, same, supplementary, existing]
      exact congrArg (fun logLevel => Except.ok (Settings.mk _ _ _ size logLevel)) readings

end Settings

namespace Configuration

def settings (configuration : Configuration) : Settings where
  interpreter := configuration.interpreter.definition
  supplementary := configuration.supplementary.map Variable.definition
  existing := configuration.existing.map Variable.definition
  pageSize := configuration.pageSize.bytes
  logLevel := configuration.logLevel

section
variable (list : List Variable) (base : Bytes)

theorem map_find?_definition (name : Bytes) :
    (list.find? (·.name == name)).map Variable.definition =
      (list.map Variable.definition).find? (·.name == name) := by
  rw [List.find?_map]
  rfl

theorem map_choice_definition :
    (list.foldl (Preference.consider base) .empty).choice.map Variable.definition =
      Settings.preferred? (list.map Variable.definition) base := by
  rw [Preference.choice_foldl, Settings.preferred?, Option.map_or, map_find?_definition,
    map_find?_definition]

theorem map_filter_definition :
    (list.filter (·.value ≠ [])).map Variable.definition =
      (list.map Variable.definition).filter (·.value ≠ []) := by
  rw [List.filter_map]
  rfl

end

/-- The pass over the variables finds what the searches find. -/
theorem read_eq_choose (m : Memory) (process : StartupView) :
    (read m process).map settings = Settings.choose (definitions (process.environment.entries m))
      (process.auxiliaryVector.get? m AuxiliaryVector.pageSizeKey) := by
  have size : (((process.auxiliaryVector.get? m AuxiliaryVector.pageSizeKey).bind
      PageSize.ofWord?).map PageSize.bytes) =
        (process.auxiliaryVector.get? m AuxiliaryVector.pageSizeKey).filter
          (·.toNat.isPowerOfTwo) := by
    rw [Option.map_bind, ← Option.bind_guard]
    exact Option.bind_congr fun size _ => PageSize.map_bytes_ofWord? size
  rw [← Environment.bindings_definition, Settings.choose, ← size, ← map_filter_definition,
    ← map_choice_definition, ← Selection.interpreter_foldl, read]
  cases ((process.environment.bindings m).foldl Selection.consider .empty).interpreter.choice with
  | none => rfl
  | some interpreter =>
    cases (process.auxiliaryVector.get? m AuxiliaryVector.pageSizeKey).bind PageSize.ofWord? with
    | none => rfl
    | some pageSize =>
      simp only [Except.map, settings, Selection.supplementary_foldl, Selection.existing_foldl,
        Selection.logLevel_foldl, Option.map_some, map_choice_definition,
        ← map_find?_definition, Option.map_map]
      rfl

open StartupBlock (StandsAt)

variable {block : StartupBlock} {m : Memory} {stackPointer : UInt64}
  {arguments environment : List UInt64}

theorem read_of_standsAt (stands : block.StandsAt m stackPointer arguments environment) :
    (read m (.read m stackPointer)).map settings =
      Settings.search block.environment block.auxiliary := by
  rw [read_eq_choose, stands.entries, AuxiliaryVector.get?_eq_find?, stands.pairs]
  rfl

/-- What is read of a block is what a search for each thing finds in it. Another block tells
the same if its auxiliary vector is the same and each of the names that are looked for has the
same entries in the same order, however those are mixed with entries of other names. -/
theorem read_searches (stands : block.StandsAt m stackPointer arguments environment) :
    (read m (.read m stackPointer)).map settings =
        Settings.search block.environment block.auxiliary ∧
      ∀ (other : StartupBlock) (n : Memory) (start : UInt64) (arguments' environment' : List UInt64),
        other.StandsAt n start arguments' environment' → other.auxiliary = block.auxiliary →
        (∀ name ∈ VariableName.all,
          entriesOf name other.environment = entriesOf name block.environment) →
        ((read n (.read n start)).map settings).map Settings.unplaced =
          ((read m (.read m stackPointer)).map settings).map Settings.unplaced := by
  refine ⟨read_of_standsAt stands, ?_⟩
  intro other n start arguments' environment' stands' auxiliary same
  rw [read_of_standsAt stands, read_of_standsAt stands', Settings.search, Settings.search, auxiliary]
  apply Settings.choose_congr
  intro name listed
  exact .of_entries (same name listed)

/-- A block whose environment has names that are nearly those that are looked for, an empty
variable of each kind, variables that come twice, and a value with a second equals sign. -/
def mixedBlock : StartupBlock :=
  ⟨[], [ascii "NIX_LD_=/a", ascii "NIX_LD_x86_64_linux=", ascii "BARE", ascii "NIX_LD=/first=1",
      ascii "NIX_LD_LIBRARY_PATH_other=/b", ascii "NIX_LD_LIBRARY_PATH=/c",
      ascii "NIX_LD_LIBRARY_PATH_x86_64_linux=", ascii "NIX_LD=/second", ascii "NIX_LD_LOG=loud",
      ascii "NIX_LD_LOG=debug"],
    [(AuxiliaryVector.pageSizeKey, 4096), (AuxiliaryVector.pageSizeKey, 3)]⟩

/-- The same variables among others and in another order. -/
def sortedBlock : StartupBlock :=
  { mixedBlock with environment :=
      [ascii "NIX_LD=/first=1", ascii "NIX_LD=/second", ascii "NIX_LD_LIBRARY_PATH=/c",
        ascii "NIX_LD_LIBRARY_PATH_x86_64_linux=", ascii "NIX_LD_LOG=loud", ascii "NIX_LD_LOG=debug",
        ascii "NIX_LD_LOG_x86_64_linux=off", ascii "NIX_LD_x86_64_linux="] }

/-- The same variables behind a log level that there is. -/
def talkativeBlock : StartupBlock :=
  { mixedBlock with environment := ascii "NIX_LD_LOG=Debug" :: mixedBlock.environment }

def mixedMemory : Memory := mixedBlock.place 0x1000 0x2000 .zero

def sortedMemory : Memory := sortedBlock.place 0x4000 0x8000 .zero

def talkativeMemory : Memory := talkativeBlock.place 0x1000 0x2000 .zero

theorem read_searches_mixed :
    (read mixedMemory (.read mixedMemory 0x1000)).map settings = .ok {
        interpreter := ⟨3, ascii "NIX_LD", ascii "/first=1"⟩
        supplementary := some ⟨6, ascii "NIX_LD_LIBRARY_PATH_x86_64_linux", []⟩
        existing := none
        pageSize := 4096
        logLevel := some (.error (ascii "loud")) } ∧
      ((read sortedMemory (.read sortedMemory 0x4000)).map settings).map Settings.unplaced =
        ((read mixedMemory (.read mixedMemory 0x1000)).map settings).map Settings.unplaced ∧
      ((read talkativeMemory (.read talkativeMemory 0x1000)).map settings).map Settings.logLevel =
        .ok (some (.ok (some .debug))) := by
  have mixed : mixedBlock.FitsAt 0x1000 0x2000 := by decide +kernel
  have sorted : sortedBlock.FitsAt 0x4000 0x8000 := by decide +kernel
  have talkative : talkativeBlock.FitsAt 0x1000 0x2000 := by decide +kernel
  obtain ⟨found, same⟩ := read_searches (StartupBlock.liesIn_place mixed .zero).standsAt
  refine ⟨?_, ?_, ?_⟩
  · rw [mixedMemory, found]
    decide +kernel
  · apply same sortedBlock _ _ _ _ (StartupBlock.liesIn_place sorted .zero).standsAt rfl
    decide +kernel
  · rw [talkativeMemory, (read_searches (StartupBlock.liesIn_place talkative .zero).standsAt).1]
    decide +kernel

end Configuration
end ElfRelay
