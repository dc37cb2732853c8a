import ElfRelay.Proofs.Answers
import ElfRelay.Proofs.Elf.Opening
import ElfRelay.Proofs.Loader.Phases
/-! What only ever moves one way while the loader runs: prepared answers are used up,
the history and the heap grow, and the arena stays where it is. So what is assumed
of the answers at the start holds at every call. -/
namespace ElfRelay

namespace Machine

structure Later (before after : Machine) : Prop where
  kernel : before.kernel.Later after.kernel
  heap : before.heap.Later after.heap

instance : IsPreorder Machine Later where
  refl _ := ⟨.refl _, .refl _⟩
  trans _ _ _ first second :=
    ⟨first.kernel.trans second.kernel, first.heap.trans second.heap⟩

theorem Later.of_kernel {before after : Machine} (heap : after.heap = before.heap)
    (later : before.kernel.Later after.kernel) : Later before after :=
  ⟨later, heap ▸ .refl _⟩

theorem Later.mmap (m : Machine) (request : MapRequest) : Later m (m.mmap request).2 := by
  obtain ⟨nextFree, kernel⟩ := m.mmap_kernel request
  refine .of_kernel (m.mmap_heap request) ?_
  rw [kernel]
  exact .record _ rfl rfl rfl

theorem Later.munmap (m : Machine) (region : Region) :
    Later m { m with kernel := (Kernel.munmap region m.kernel).2 } :=
  .of_kernel rfl (.record _ rfl rfl rfl)

theorem Later.kept : KeptByFiles Later where
  openat m path := .of_kernel rfl (.openat m.kernel path)
  close m descriptor := .of_kernel rfl (.close m.kernel descriptor)
  reads _ := {
    answered := fun m call _ => .of_kernel rfl (.answered m.kernel call)
    write := fun m descriptor data => .of_kernel rfl (.write m.kernel descriptor data)
    pread := fun _ _ _ => .of_kernel rfl (.record _ rfl rfl rfl)
    heap := fun _ _ later => ⟨.refl _, later⟩ }

theorem Later.maps : KeptByMaps Later where
  toKeptByOutput := (Later.kept.reads 0).toKeptByOutput
  heap _ _ later := ⟨.refl _, later⟩
  memory _ _ := .of_kernel rfl (.refl _)
  mmap := Later.mmap
  munmap := Later.munmap

end Machine

namespace Loader
open Program (Within)
open Machine (Later)

theorem later_loadInterpreter (configuration : Configuration) :
    Within Later (loadInterpreter configuration) := by
  refine .bind (Elf.Object.within_openPath Later.kept _) fun opened => ?_
  cases opened with
  | error error => exact .pure _
  | ok object =>
    refine .bind (Image.within_build Later.maps object _) fun image => ?_
    exact .bind (File.within_close Later.kept _) fun _ => .pure _

theorem later_announce (configuration : Configuration) : Within Later (announce configuration) :=
  within_announce Later.maps.toKeptByOutput (fun _ _ => .of_kernel rfl (.refl _)) configuration

theorem later_fetch (configuration : Configuration) : Within Later (fetch configuration) :=
  .bind (later_announce configuration) fun _ => later_loadInterpreter configuration

theorem later_chooseHandover (process : StartupView) (configuration : Configuration)
    (image : Image) : Within Later (chooseHandover process configuration image) :=
  within_chooseHandover Later.maps process configuration image

end Loader
end ElfRelay
