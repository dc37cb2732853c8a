import ElfRelay.Proofs.MappingCalls
/-! What calls use up and what they leave behind. Each call takes the answer that was
prepared for it and is added to the history, and the arena stays where it is. -/
namespace ElfRelay

namespace Kernel

/-- A system that comes after another. -/
structure Later (before after : Kernel) : Prop where
  arena : after.arena = before.arena
  pending : ∀ call, after.pending call <:+ before.pending call
  history : before.history <:+ after.history

theorem Later.refl (k : Kernel) : k.Later k :=
  ⟨rfl, fun _ => List.suffix_rfl, List.suffix_rfl⟩

theorem Later.trans {a b c : Kernel} (first : a.Later b) (second : b.Later c) : a.Later c :=
  ⟨second.arena.trans first.arena, fun call => (second.pending call).trans (first.pending call),
    first.history.trans second.history⟩

theorem Later.answered (k : Kernel) (call : SystemCall) : k.Later (k.answered call) := by
  refine ⟨rfl, fun other => ?_, List.suffix_rfl⟩
  rw [pending_answered]
  split
  · exact List.tail_suffix _
  · exact List.suffix_rfl

theorem Later.record {k after : Kernel} {call : SystemCall} (event : Event)
    (arena : after.arena = k.arena) (answers : after.answers = (k.answered call).answers)
    (history : after.history = event :: k.history) : k.Later after := by
  refine ⟨arena, fun other => ?_, history ▸ List.suffix_cons event _⟩
  rw [show after.pending other = (k.answered call).pending other by
    simp only [Kernel.pending, answers]]
  exact (Later.answered k call).pending other

theorem Later.openat (k : Kernel) (path : Bytes) : k.Later (Kernel.openat path k).2 := by
  rw [Kernel.openat]
  cases k.answer .openat with
  | fixed result => exact .record _ rfl rfl rfl
  | _ =>
    dsimp only
    split <;> exact .record _ rfl rfl rfl

theorem Later.close (k : Kernel) (descriptor : UInt32) :
    k.Later (Kernel.close descriptor k).2 := by
  rw [Kernel.close]
  cases k.answer .close with
  | fixed result => exact .record _ rfl rfl rfl
  | _ =>
    dsimp only
    split <;> exact .record _ rfl rfl rfl

theorem Later.write (k : Kernel) (descriptor : UInt32) (data : Bytes) :
    k.Later (Kernel.write descriptor data k).2 := by
  rw [Kernel.write]
  cases k.answer .write with
  | fixed result => exact .record _ rfl rfl rfl
  | _ =>
    dsimp only [Kernel.writeUpTo]
    split <;> exact .record _ rfl rfl rfl

theorem Later.pread (k : Kernel) (descriptor : UInt32) (length : Nat) (offset : UInt64) :
    k.Later (Kernel.pread descriptor length offset k).2 :=
  .record _ rfl rfl rfl

theorem Later.onlyFails {before after : Kernel} {call : SystemCall} (later : before.Later after)
    (fails : before.OnlyFails call) : after.OnlyFails call :=
  fun result member => fails result ((later.pending call).subset member)

end Kernel

end ElfRelay
