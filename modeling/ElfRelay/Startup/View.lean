import ElfRelay.Memory.Terminated
import ElfRelay.Startup.Environment
/-! The start-up block on the initial stack, viewed in place: the argument count, the
argument pointers and a null one, the environment pointers and a null one, the auxiliary
vector. -/
namespace ElfRelay

structure AuxiliaryVector where
  start : UInt64
  /-- The number of pairs before the one with key 0. -/
  count : Nat
  deriving DecidableEq, Repr

namespace AuxiliaryVector

def pageSizeKey : UInt64 := 6

/-- The key of the address the interpreter was loaded at, 0 if there is none. -/
def baseKey : UInt64 := 7

def ofAddress (m : Memory) (start : UInt64) : AuxiliaryVector :=
  ⟨start, firstIndex (fun i => m.wordAt start (2 * i) == 0) (UInt64.size / 16)⟩

def isEmpty (vector : AuxiliaryVector) : Bool := vector.count == 0

def key (vector : AuxiliaryVector) (m : Memory) (i : Nat) : UInt64 := m.wordAt vector.start (2 * i)

def value (vector : AuxiliaryVector) (m : Memory) (i : Nat) : UInt64 :=
  m.wordAt vector.start (2 * i + 1)

def pairs (vector : AuxiliaryVector) (m : Memory) : List (UInt64 × UInt64) :=
  (List.range vector.count).map fun i => (vector.key m i, vector.value m i)

def index? (vector : AuxiliaryVector) (m : Memory) (key : UInt64) : Option Nat :=
  (List.range vector.count).find? fun i => vector.key m i == key

def get? (vector : AuxiliaryVector) (m : Memory) (key : UInt64) : Option UInt64 :=
  (vector.index? m key).map (vector.value m)

def set (vector : AuxiliaryVector) (m : Memory) (key value : UInt64) : Memory :=
  match vector.index? m key with
  | some i => m.writeWord (vector.start + 8 * (2 * i + 1).toUInt64) value
  | none => m

/-- Changes the value of the first pair of a key, and says whether there is one. -/
def update (vector : AuxiliaryVector) (m : Memory) (key value : UInt64) : Bool × Memory :=
  ((vector.index? m key).isSome, vector.set m key value)

end AuxiliaryVector

structure StartupView where
  /-- The address of the argument count, where the next program expects its
  stack to begin. -/
  stackPointer : UInt64
  argumentCount : UInt64
  environment : Environment
  auxiliaryVector : AuxiliaryVector
  deriving DecidableEq, Repr

namespace StartupView

def read (m : Memory) (stackPointer : UInt64) : StartupView :=
  let argumentCount := m.readWord stackPointer
  let environment := Environment.ofAddress m (stackPointer + 8 * (argumentCount + 2))
  { stackPointer, argumentCount, environment
    auxiliaryVector := AuxiliaryVector.ofAddress m
      (environment.slotAddress (environment.count + 1)) }

def arguments (view : StartupView) : UInt64 := view.stackPointer + 8

/-- What a program without arguments is called. -/
def defaultName : Bytes := ascii "nix-ld"

def programName (view : StartupView) (m : Memory) : Bytes :=
  let name := m.wordAt view.arguments 0
  if view.argumentCount = 0 || name = 0 then defaultName else m.string name

end StartupView

/-- The contents of a start-up block. A missing argument is a null pointer. -/
structure StartupBlock where
  arguments : List (Option Bytes)
  environment : List Bytes
  auxiliary : List (UInt64 × UInt64)
  deriving DecidableEq, Repr

namespace StartupBlock

/-- Where strings stand that are stored one behind the other, each with a NUL
behind it; null for those that are missing. -/
def addresses (start : UInt64) : List (Option Bytes) → List UInt64
  | [] => []
  | none :: rest => 0 :: addresses start rest
  | some text :: rest => start :: addresses (start + (text.length + 1).toUInt64) rest

def storage (strings : List (Option Bytes)) : Bytes :=
  strings.flatMap fun
    | some text => text ++ [0]
    | none => []

/-- The words of a block whose strings are at the given addresses: the argument
count and pointers, the environment pointers, each list with a null word
behind it, and the pairs of the auxiliary vector with a null pair behind them. -/
def words (arguments environment : List UInt64) (auxiliary : List (UInt64 × UInt64)) :
    List UInt64 :=
  arguments.length.toUInt64 :: arguments ++ 0 :: environment ++
    0 :: auxiliary.flatMap (fun pair => [pair.1, pair.2]) ++ [0, 0]

/-- Puts the words of a block at one address and its strings, those of the
arguments first, at another. -/
def place (block : StartupBlock) (stackPointer strings : UInt64) (m : Memory) : Memory :=
  let environment := block.environment.map some
  let behind := strings + (storage block.arguments).length.toUInt64
  let pointers := words (addresses strings block.arguments) (addresses behind environment)
    block.auxiliary
  (m.writeBytes strings (storage (block.arguments ++ environment))).writeWords stackPointer pointers

end StartupBlock

end ElfRelay
