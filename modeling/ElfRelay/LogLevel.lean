import ElfRelay.Utf8
/-! Severities of log records and the line each record is written as. -/
namespace ElfRelay

inductive LogLevel
  | error
  | warn
  | info
  | debug
  | trace
  deriving DecidableEq, Repr

/-- The most detailed level that is still written; `none` writes nothing. -/
abbrev LogFilter := Option LogLevel

namespace LogLevel

def detail : LogLevel → Nat
  | error => 1
  | warn => 2
  | info => 3
  | debug => 4
  | trace => 5

def name : LogLevel → Bytes
  | error => ascii "ERROR"
  | warn => ascii "WARN"
  | info => ascii "INFO"
  | debug => ascii "DEBUG"
  | trace => ascii "TRACE"

end LogLevel

namespace LogFilter

def detail : LogFilter → Nat
  | none => 0
  | some level => level.detail

def name : LogFilter → Bytes
  | none => ascii "OFF"
  | some level => level.name

def all : List LogFilter :=
  [none, some .error, some .warn, some .info, some .debug, some .trace]

/-- What is written until the environment says otherwise. -/
def default : LogFilter := some .warn

def upperCase (byte : UInt8) : UInt8 :=
  if 97 ≤ byte && byte ≤ 122 then byte - 32 else byte

def ofText? (text : Bytes) : Option LogFilter :=
  all.find? fun filter => filter.name == text.map upperCase

def enables (filter : LogFilter) (level : LogLevel) : Bool := level.detail ≤ filter.detail

end LogFilter

/-- The line of a record, in the pieces in which it is written out. The level
stands right-aligned in five columns. -/
def LogLevel.line (level : LogLevel) (message : List Bytes) : List Bytes :=
  ascii "[nix-ld] " :: List.replicate (5 - level.name.length) (ascii " ") ++
    level.name :: ascii ": " :: message ++ [ascii "\n"]

end ElfRelay
