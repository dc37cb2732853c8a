import ElfRelay.Proofs.Environment
/-! What the entries of an environment define, read off the list of entries alone. The
variables found in memory are these definitions, together with the places of their values. -/
namespace ElfRelay

/-- A name and a value that an entry gives it, with the slot of the entry. -/
structure Definition where
  slot : Nat
  name : Bytes
  value : Bytes
  deriving DecidableEq, Repr

namespace Definition

/-- What the entry in a slot defines. The name is what is before the first `=`. -/
def parse? (entry : Bytes) (slot : Nat) : Option Definition :=
  (splitEntry entry).map fun (name, value) => ⟨slot, name, value⟩

def unplaced (definition : Definition) : Definition := { definition with slot := 0 }

theorem unplaced_parse? (entry : Bytes) (slot : Nat) :
    (parse? entry slot).map unplaced = parse? entry 0 := by
  rw [parse?, parse?, Option.map_map]
  rfl

end Definition

def definitions (entries : List Bytes) : List Definition :=
  entries.zipIdx.filterMap fun (entry, slot) => Definition.parse? entry slot

def Variable.definition (found : Variable) : Definition := ⟨found.slot, found.name, found.value⟩

namespace Environment

theorem get?_definition (environment : Environment) (m : Memory) (slot : Nat) :
    (environment.get? m slot).map Variable.definition =
      (environment.entries m)[slot]?.bind (Definition.parse? · slot) := by
  rw [getElem?_entries, get?]
  by_cases listed : slot < environment.count
  · simp only [if_pos listed, Option.map_map, Option.bind_some, Definition.parse?]
    rfl
  · simp [listed]

theorem bindings_definition (environment : Environment) (m : Memory) :
    (environment.bindings m).map Variable.definition = definitions (environment.entries m) := by
  have indexed : (environment.entries m).zipIdx =
      (List.range environment.count).map fun slot => (environment.entry m slot, slot) := by
    apply List.ext_getElem
    · simp [entries]
    · intro slot left right
      simp [entries]
  rw [bindings, List.map_filterMap, definitions, indexed, List.filterMap_map]
  apply List.filterMap_congr
  intro slot listed
  rw [get?_definition, getElem?_entries, if_pos (List.mem_range.mp listed)]
  rfl

theorem find?_definition (environment : Environment) (m : Memory) (name : Bytes) :
    (environment.find? m name).map Variable.definition =
      (definitions (environment.entries m)).find? (·.name == name) := by
  rw [← bindings_definition, List.find?_map]
  rfl

end Environment
end ElfRelay
