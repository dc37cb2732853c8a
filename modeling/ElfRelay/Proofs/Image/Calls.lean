import ElfRelay.Proofs.Image.Steps
import ElfRelay.Proofs.LibraryPath
/-! What building an image consists of: mapping and unmapping calls, edits of memory
and output. So a relation that each of these keeps is kept by all of it, however it
ends. -/
namespace ElfRelay

open Elf (ProgramHeader Object)
open Program (Within)

/-- A relation that every mapping and unmapping call keeps, besides edits and output. -/
structure Machine.KeptByMaps (step : Machine → Machine → Prop) : Prop
    extends Machine.KeptByEdits step where
  mmap : ∀ (m : Machine) (request : MapRequest), step m (m.mmap request).2
  munmap : ∀ (m : Machine) (region : Region),
    step m { m with kernel := (Kernel.munmap region m.kernel).2 }

variable {step : Machine → Machine → Prop} [IsPreorder Machine step]
  (kept : Machine.KeptByMaps step)
include kept

theorem Region.within_release (region : Region) : Within step region.release :=
  .bind (fun m => kept.munmap m region) fun _ => .pure ()

namespace Image

variable {page : PageSize} {span : Span} {descriptor : UInt32} {loadBias : UInt64}

theorem within_perform (one : Step) : Within step (one.perform page descriptor loadBias) := by
  cases one with
  | overlay segment => exact fun m => kept.mmap m _
  | report segment => exact .bind (Program.within_log kept.toKeptByOutput _ _) fun _ => .pure _
  | clear segment =>
    intro m
    rw [last_clear]
    exact kept.memory m fun memory => memory.fill _ 0 _
  | extend segment =>
    intro m
    rw [last_extend]
    split
    · exact kept.mmap m _
    · exact refl_of _ m

theorem within_anchor (segment : ProgramHeader) :
    Within step (anchor page descriptor span segment) := by
  intro m
  rw [last_anchor]
  split
  · exact refl_of _ m
  · exact kept.mmap m _

theorem within_complete (object : Object) (first : ProgramHeader) (later : List ProgramHeader)
    (anchor : Anchor) : Within step (complete object page first later anchor) := by
  refine .bind ?_ fun outcome => ?_
  · rw [fillIn_eq]
    exact within_performAll fun one _ => within_perform kept one
  · cases outcome with
    | error error => exact .bind (Region.within_release kept _) fun _ => .pure _
    | ok => exact .bind (Program.within_log kept.toKeptByOutput _ _) fun _ => .pure _

theorem within_build (object : Object) (page : PageSize) : Within step (build object page) := by
  rw [build]
  split
  · exact .pure _
  · refine .bind (Program.within_log kept.toKeptByOutput _ _) fun _ => ?_
    split
    · exact .pure _
    · refine .bind (within_anchor kept _) fun anchored => ?_
      cases anchored with
      | error error => exact .pure _
      | ok anchor => exact within_complete kept object _ _ anchor

end Image
end ElfRelay
