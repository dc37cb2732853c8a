import ElfRelay.Elf.Object
import ElfRelay.Resources
/-! The interpreter's image in memory. One mapping of the first segment's file data reserves
the pages of the whole span that the segments take; the others are mapped over it at their
places, and memory behind a writable segment's file data is cleared. -/
namespace ElfRelay

open Elf (ProgramHeader Object)

structure Span where
  low : UInt64
  high : UInt64
  deriving DecidableEq, Repr

namespace Span

def of (headers : List ProgramHeader) : Except LoadError Span :=
  let segments := headers.filter ProgramHeader.occupiesMemory
  let low := segments.foldl (fun low segment => min low segment.vaddr) 0xffffffffffffffff
  let high := segments.foldl (fun high segment => max high segment.memoryEnd) 0
  if high ≤ low then .error .noLoadableSegments else .ok ⟨low, high⟩

def length (span : Span) : UInt64 := span.high - span.low

def isEmpty (span : Span) : Bool := span.length == 0

/-- How much to reserve so that the pages of every segment fit. -/
def footprint (span : Span) (page : PageSize) : UInt64 :=
  page.ceil span.high - page.floor span.low

end Span

structure Image where
  region : Region
  /-- What is added to link-time addresses to get run-time ones. -/
  loadBias : UInt64
  entryPoint : UInt64
  deriving DecidableEq, Repr

namespace Image

def hex (word : UInt64) : List Bytes := [ascii "0x", hexadecimal word.toNat]

/-- A reservation and the bias it was made with. -/
structure Anchor where
  region : Region
  loadBias : UInt64
  deriving DecidableEq, Repr

/-- Maps the first segment. Its file data is mapped over the whole span, from
which the bias follows. -/
def anchor (page : PageSize) (descriptor : UInt32) (span : Span) (segment : ProgramHeader) :
    Program (Except LoadError Anchor) := do
  if segment.vaddr ≠ span.low then return .error .segmentOrder
  match ← Region.ofFile (span.footprint page) segment.protection descriptor
      (page.floor segment.offset) with
  | .error errno => return .error (.cannotMap errno)
  | .ok region => return .ok ⟨region, region.address - page.floor segment.vaddr⟩

def overlaySegment (page : PageSize) (descriptor : UInt32) (loadBias : UInt64)
    (segment : ProgramHeader) : Program (Except LoadError Unit) := do
  let start := page.floor segment.vaddr
  let outcome ← Region.replaceRange (loadBias + start) (page.ceil segment.memoryEnd - start)
    segment.protection (some descriptor) (page.floor segment.offset)
  return outcome.mapError .cannotMap

/-- What a segment's file data leaves of the page it ends in. -/
def tail (page : PageSize) (loadBias : UInt64) (segment : ProgramHeader) : Region :=
  let start := loadBias + segment.fileEnd
  ⟨start, page.ceil start - start⟩

def clearTail (page : PageSize) (loadBias : UInt64) (segment : ProgramHeader) : Program Unit :=
  let tail := tail page loadBias segment
  Program.changeMemory fun memory => memory.fill tail.address 0 tail.length.toNat

/-- Maps empty memory over a segment's whole pages behind its file data. -/
def mapEmpty (page : PageSize) (loadBias : UInt64) (segment : ProgramHeader) :
    Program (Except LoadError Unit) := do
  let start := page.ceil (loadBias + segment.fileEnd)
  let stop := loadBias + page.ceil segment.memoryEnd
  if start < stop then
    let outcome ← Region.replaceRange start (stop - start) segment.protection none 0
    return outcome.mapError .cannotMap
  return .ok ()

def report (loadBias : UInt64) (segment : ProgramHeader) : Program Unit :=
  Program.log .debug
    (ascii "mapped segment " :: hex segment.vaddr ++ ascii "+" :: hex segment.memsz ++
      ascii " [" :: segment.flagText ++ ascii "] at " :: hex (loadBias + segment.vaddr))

/-- What follows once a segment's file data is mapped. Its memory behind the
file data is cleared, the rest of the last page with file data in place. -/
def finishSegment (page : PageSize) (loadBias : UInt64) (segment : ProgramHeader) :
    Program (Except LoadError Unit) := do
  report loadBias segment
  if segment.hasZeroFill then
    clearTail page loadBias segment
    mapEmpty page loadBias segment
  else return .ok ()

/-- Maps the segments after the first, in table order, up to the first failure. -/
def mapRest (page : PageSize) (descriptor : UInt32) (loadBias : UInt64) :
    List ProgramHeader → Program (Except LoadError Unit)
  | [] => return .ok ()
  | segment :: segments => do
    match ← overlaySegment page descriptor loadBias segment with
    | .error error => return .error error
    | .ok () =>
      match ← finishSegment page loadBias segment with
      | .error error => return .error error
      | .ok () => mapRest page descriptor loadBias segments

def fillIn (page : PageSize) (descriptor : UInt32) (loadBias : UInt64)
    (first : ProgramHeader) (later : List ProgramHeader) : Program (Except LoadError Unit) := do
  match ← finishSegment page loadBias first with
  | .error error => return .error error
  | .ok () => mapRest page descriptor loadBias later

/-- What follows once the first segment is mapped. On a failure the reservation
is released and with it all that was mapped. -/
def complete (object : Object) (page : PageSize) (first : ProgramHeader)
    (later : List ProgramHeader) (anchor : Anchor) : Program (Except LoadError Image) := do
  match ← fillIn page object.file.descriptor anchor.loadBias first later with
  | .error error =>
    anchor.region.release
    return .error error
  | .ok () =>
    let entryPoint := anchor.loadBias + object.header.entry
    Program.log .debug
      (ascii "load bias " :: hex anchor.loadBias ++ ascii ", entry point " :: hex entryPoint)
    return .ok ⟨anchor.region, anchor.loadBias, entryPoint⟩

def reportSpan (span : Span) : Program Unit :=
  Program.log .debug
    (ascii "loadable span " :: hex span.low ++ ascii ".." :: hex span.high ++
      ascii " (" :: hex span.length ++ [ascii " bytes)"])

def build (object : Object) (page : PageSize) : Program (Except LoadError Image) := do
  match Span.of object.programHeaders with
  | .error error => return .error error
  | .ok span =>
    reportSpan span
    match object.segments with
    | [] => return .error .noLoadableSegments
    | first :: later =>
      match ← anchor page object.file.descriptor span first with
      | .error error => return .error error
      | .ok anchor => complete object page first later anchor

end Image

end ElfRelay
