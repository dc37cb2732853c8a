import ElfRelay.LoadError
import ElfRelay.Address
import ElfRelay.Startup.View
/-! What the loader is told by the environment and the auxiliary vector, read
in one pass over the variables. A variable tagged with the architecture comes
before the same variable without the tag; among equals the first one counts. -/
namespace ElfRelay

namespace VariableName

def interpreter : Bytes := ascii "NIX_LD"

def supplementaryPath : Bytes := ascii "NIX_LD_LIBRARY_PATH"

def libraryPath : Bytes := ascii "LD_LIBRARY_PATH"

def logLevel : Bytes := ascii "NIX_LD_LOG"

def tagged (base : Bytes) : Bytes := base ++ ascii "_" ++ system

def match? (name base : Bytes) : Option Bool :=
  if name = base then some false
  else if name = tagged base then some true
  else none

end VariableName

/-- The first tagged and the first untagged variable among those offered. -/
structure Preference where
  tagged : Option Variable
  untagged : Option Variable
  deriving DecidableEq, Repr

namespace Preference

def empty : Preference := ⟨none, none⟩

def offer (preference : Preference) (isTagged : Bool) (found : Variable) : Preference :=
  if isTagged then { preference with tagged := preference.tagged.or (some found) }
  else { preference with untagged := preference.untagged.or (some found) }

def choice (preference : Preference) : Option Variable := preference.tagged.or preference.untagged

end Preference

/-- What has been found among the variables seen so far. A value of the log
level that names no level is kept as it is. -/
structure Selection where
  interpreter : Preference
  supplementary : Preference
  existing : Option Variable
  logLevel : Option (Except Bytes LogFilter)

namespace Selection

def empty : Selection := ⟨.empty, .empty, none, none⟩

def readLevel (value : Bytes) : Except Bytes LogFilter :=
  match LogFilter.ofText? value with
  | some filter => .ok filter
  | none => .error value

/-- Takes a further variable into account. An empty interpreter path is as
good as none. -/
def consider (selection : Selection) (found : Variable) : Selection :=
  if found.name = VariableName.libraryPath then
    { selection with existing := selection.existing.or (some found) }
  else if found.name = VariableName.logLevel then
    { selection with logLevel := selection.logLevel.or (some (readLevel found.value)) }
  else
    match VariableName.match? found.name VariableName.supplementaryPath with
    | some isTagged =>
      { selection with supplementary := selection.supplementary.offer isTagged found }
    | none =>
      match VariableName.match? found.name VariableName.interpreter with
      | some isTagged =>
        if found.value = [] then selection
        else { selection with interpreter := selection.interpreter.offer isTagged found }
      | none => selection

end Selection

structure Configuration where
  programName : Bytes
  interpreter : Variable
  supplementary : Option Variable
  existing : Option Variable
  pageSize : PageSize
  logLevel : Option (Except Bytes LogFilter)

namespace Configuration

def read (m : Memory) (process : StartupView) : Except LoadError Configuration :=
  let selection := (process.environment.bindings m).foldl Selection.consider .empty
  match selection.interpreter.choice with
  | none => .error .missingInterpreter
  | some interpreter =>
    match (process.auxiliaryVector.get? m AuxiliaryVector.pageSizeKey).bind PageSize.ofWord? with
    | none => .error .missingPageSize
    | some pageSize => .ok {
        programName := process.programName m
        interpreter
        supplementary := selection.supplementary.choice
        existing := selection.existing
        pageSize
        logLevel := selection.logLevel }

def diagnostic (configuration : Configuration) (error : LoadError) : Diagnostic :=
  ⟨configuration.programName, some configuration.interpreter.value, error⟩

end Configuration
end ElfRelay
