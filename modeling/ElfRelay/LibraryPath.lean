import ElfRelay.Configuration
/-! Handing the supplementary library path on to the interpreter as
`LD_LIBRARY_PATH`: behind the inherited path if there is one, else by renaming
the variable. -/
namespace ElfRelay.LibraryPath

def colon : UInt8 := 58

/-- What has to stand between two search paths: nothing where one segment has
ended already. -/
def separator (existing : Bytes) : Bytes :=
  if existing = [] ∨ existing.getLast? = some colon then [] else [colon]

def join (existing supplementary : Bytes) : Bytes :=
  existing ++ separator existing ++ supplementary

/-- Which change was made to the environment. -/
inductive Change
  | unchanged
  | renamed (slot : Nat)
  | appended (slot : Nat)
  deriving DecidableEq, Repr

/-- The entry that sets `LD_LIBRARY_PATH`. -/
def entry (value : Bytes) : Bytes := VariableName.libraryPath ++ equalsSign :: value

/-- A string that lives as long as the process, and that has no NUL in it. -/
def leak (text : Bytes) : Program (Except LoadError UInt64) := do
  match ← Program.reserve (text.length + 1) 1 with
  | none => return .error .outOfMemory
  | some address =>
    Program.changeMemory fun m => m.writeString address text
    if 0 ∈ text then Program.abortWith [ascii "environment value contains a NUL byte"]
    return .ok address

/-- Renames the supplementary variable. Its new entry is no longer than the old
one, as its name is not. -/
def rename (environment : Environment) (supplementary : Variable) :
    Program (Except LoadError Change) := do
  Program.log .info
    (ascii "renaming " :: Utf8.lossy supplementary.name ++ [ascii " to LD_LIBRARY_PATH"])
  let renamed := entry supplementary.value
  match ← Program.reserve renamed.length 1 with
  | none => return .error .outOfMemory
  | some _ =>
    environment.overwrite supplementary.slot renamed
    return .ok (.renamed supplementary.slot)

/-- Replaces the inherited path by a new string with both paths. -/
def append (environment : Environment) (supplementary existing : Variable) :
    Program (Except LoadError Change) := do
  Program.log .info
    (ascii "appending " :: Utf8.lossy supplementary.name ++ [ascii " to LD_LIBRARY_PATH"])
  let joined := join existing.value supplementary.value
  match ← Program.reserve joined.length 1 with
  | none => return .error .outOfMemory
  | some _ =>
    match ← leak (entry joined) with
    | .error error => return .error error
    | .ok address =>
      environment.redirect existing.slot address
      return .ok (.appended existing.slot)

/-- Aborts unless a variable is still where the configuration found it. -/
def expectPresent (environment : Environment) (expected : Variable) : Program Unit := do
  match ← Program.inspect fun machine => environment.get? machine.memory expected.slot with
  | none =>
    Program.abortWith [ascii "environment slot ", decimal expected.slot, ascii " vanished"]
  | some current =>
    if current.name ≠ expected.name then
      Program.abortWith [ascii "environment slot ", decimal expected.slot, ascii " changed under us"]

def handOn (configuration : Configuration) (environment : Environment) :
    Program (Except LoadError Change) := do
  match configuration.supplementary with
  | none => return .ok .unchanged
  | some supplementary =>
    expectPresent environment supplementary
    match configuration.existing with
    | none => rename environment supplementary
    | some existing => append environment supplementary existing

end ElfRelay.LibraryPath
