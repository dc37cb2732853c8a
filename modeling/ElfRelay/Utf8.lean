import ElfRelay.Bytes
/-! Showing arbitrary bytes as text. A byte string falls into UTF-8 characters
and malformed pieces, a malformed piece being the longest beginning of a
character that the byte after it cannot continue. Each malformed piece is
shown as U+FFFD. -/
namespace ElfRelay.Utf8

/-- How many bytes the character a byte leads has; 0 if it leads none. -/
def width (lead : UInt8) : Nat :=
  if lead < 0x80 then 1
  else if lead < 0xc2 then 0
  else if lead < 0xe0 then 2
  else if lead < 0xf0 then 3
  else if lead < 0xf5 then 4
  else 0

def isContinuation (byte : UInt8) : Bool := 0x80 ≤ byte && byte < 0xc0

/-- The byte after the lead also rules out overlong forms, surrogates and
code points above U+10FFFF. -/
def isSecond (lead byte : UInt8) : Bool :=
  if lead = 0xe0 then 0xa0 ≤ byte && byte < 0xc0
  else if lead = 0xed then 0x80 ≤ byte && byte < 0xa0
  else if lead = 0xf0 then 0x90 ≤ byte && byte < 0xc0
  else if lead = 0xf4 then 0x80 ≤ byte && byte < 0x90
  else isContinuation byte

def continuations (lead : UInt8) : Bytes → Nat
  | [] => 0
  | second :: rest =>
    if width lead < 2 || !isSecond lead second then 0
    else 1 + ((rest.take (width lead - 2)).takeWhile isContinuation).length

/-- Adds to `pieces`, latest first, what the rest of a byte string is shown
as; `run` holds the valid bytes since the last malformed piece, latest first. -/
def showFrom : Nat → Bytes → Bytes → List Bytes → List Bytes
  | _, [], run, pieces => run.reverse :: pieces
  | 0, _ :: _, run, pieces => run.reverse :: pieces
  | bound + 1, lead :: rest, run, pieces =>
    let count := continuations lead rest
    if count + 1 = width lead then
      showFrom bound (rest.drop count) ((rest.take count).reverse ++ lead :: run) pieces
    else
      showFrom bound (rest.drop count) [] ([0xef, 0xbf, 0xbd] :: run.reverse :: pieces)

/-- A byte string as text, in the pieces in which it is written out. -/
def lossy (bytes : Bytes) : List Bytes := (showFrom bytes.length bytes [] []).reverse

example : lossy [0x61, 0xff, 0xe2, 0x82, 0x62] =
    [[0x61], [0xef, 0xbf, 0xbd], [], [0xef, 0xbf, 0xbd], [0x62]] := by decide

end ElfRelay.Utf8
