import ElfRelay.Main
import ElfRelay.Proofs.Elf.SelfRelocation
import ElfRelay.Proofs.Loader.Holding
/-! The program from its entry point, which runs on a heap of limited size, beside the run
on an endless one. Nothing tells them apart as long as all blocks fit; the first one that
does not makes the program give up as it does for any other error. -/
namespace ElfRelay

open Program (Heapless limited)
open Machine (Later)

namespace Program

variable {first : Program β} {next : β → Program γ} {limit : Nat} {m : Machine}

end Program

namespace Loader

variable {stackPointer base : UInt64} {limit : Nat} {m : Machine}

/-- The machine on which the configuration is read. -/
def quiet (m : Machine) : Machine := { m with logFilter := LogFilter.default }

theorem later_carryOut (handover : Handover) : Program.Within Later handover.carryOut := by
  cases handover with
  | execute interpreter arguments environment =>
    refine .bind (.inspect _) fun memory => .bind (fun m => ?_) fun result => ?_
    · exact .of_kernel rfl (.record _ rfl rfl rfl)
    · split <;> exact .pure _
  | jump => exact .throw _

end Loader
end ElfRelay
