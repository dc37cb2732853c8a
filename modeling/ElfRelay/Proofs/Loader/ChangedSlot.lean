import ElfRelay.Proofs.Environment
import ElfRelay.Proofs.Loader.Safety
/-! What the slot that handing on the library path has changed says afterwards, and the rest
of the block. The new entry is apart from the words of the block, so a later change of the
base address leaves it alone. -/
namespace ElfRelay

open Memory (Agree)

namespace StartupView.Framed

variable {view : StartupView} {before after : Memory} {slot : Nat}
  (framed : view.Framed before after slot)
include framed

theorem index?_eq (key : UInt64) :
    view.auxiliaryVector.index? after key = view.auxiliaryVector.index? before key :=
  AuxiliaryVector.index?_congr (fun i listed => framed.keys i (Nat.le_of_lt listed)) key

theorem read_set (laid : view.Laid) {value address : UInt64}
    (outside : ¬ view.HoldsBase before address) :
    (view.auxiliaryVector.set after AuxiliaryVector.baseKey value).read address =
      after.read address :=
  laid.read_set after fun i found inside => outside ⟨i, framed.index?_eq _ ▸ found, inside⟩

end StartupView.Framed

namespace LibraryPath

def Change.text (configuration : Configuration) : Change → Bytes
  | .unchanged => []
  | .renamed _ => entry ((configuration.supplementary.map Variable.value).getD [])
  | .appended _ => entry (join ((configuration.existing.map Variable.value).getD [])
      ((configuration.supplementary.map Variable.value).getD []))

/-- A slot of a block points at a string that is apart from the block's words. -/
structure Points (process : StartupView) (m : Memory) (slot : Nat) (text : Bytes) : Prop where
  reads : process.environment.entry m slot = text
  apart : ∀ address,
    (address - process.environment.entryAddress m slot).toNat < text.length + 1 →
      ¬ (address - process.stackPointer).toNat < 8 * process.wordCount

/-- Whatever else is changed in the block's words, a slot that keeps its pointer says the same. -/
theorem Points.kept {process : StartupView} {m n : Memory} {slot : Nat} {text : Bytes}
    (points : Points process m slot text)
    (pointer : process.environment.entryAddress n slot = process.environment.entryAddress m slot)
    (kept : ∀ address, ¬ (address - process.stackPointer).toNat < 8 * process.wordCount →
      n.read address = m.read address) : process.environment.entry n slot = text := by
  have length := congrArg List.length points.reads
  rw [Environment.entry, Memory.length_string] at length
  rw [Environment.entry, pointer, ← points.reads]
  exact Agree.string fun address inside => kept address (points.apart address (length ▸ inside))

variable {configuration : Configuration} {process : StartupView} {start : Memory}
  {before after : Machine} {change : Change} {slot : Nat}

theorem points_redirected (laid : process.Laid) {text : Bytes} {place : Nat}
    (listed : slot < process.environment.count) (low : before.heap.used ≤ place)
    (high : place + text.length < after.heap.used) (clean : 0 ∉ text)
    (unused : ∀ address, address = 0 ∨ process.Contains start address →
      ¬ before.heap.HandedOut after.heap address) :
    Points process ((before.memory.writeString (before.heap.base + place.toUInt64) text).writeWord
      (process.environment.slotAddress slot) (before.heap.base + place.toUInt64)) slot text := by
  have handed {address : UInt64}
      (inside : (address - (before.heap.base + place.toUInt64)).toNat < text.length + 1) :
      ¬ (address - process.stackPointer).toNat < 8 * process.wordCount := fun word =>
    unused address (.inr (.inl word)) (.of_inside low high inside)
  have small : text.length < UInt64.size := by
    by_contra long
    refine unused 0 (.inl rfl) (.of_inside low high (Nat.lt_succ_of_lt ?_))
    exact Nat.lt_of_lt_of_le (UInt64.toNat_lt _) (Nat.not_lt.mp long)
  obtain ⟨pointer, reads⟩ := Environment.entry_redirect (m := before.memory) small clean
    fun _ word inside => handed inside (laid.slot_inside listed word)
  exact ⟨reads, fun address inside => handed (pointer ▸ inside)⟩

section
variable (unaliased : process.Unaliased start) (laid : process.Laid)
  (same : ∀ address, process.Contains start address →
    before.memory.read address = start.read address)
include unaliased laid same

theorem points_overwritten {text : Bytes} (listed : slot < process.environment.count)
    (fits : text.length ≤ (process.environment.entry before.memory slot).length) (clean : 0 ∉ text) :
    Points process (before.memory.writeString
      (process.environment.entryAddress before.memory slot) text) slot text := by
  obtain ⟨pointer, size⟩ := StartupView.slot_congr laid same listed
  have named : process.Names start (process.environment.entryAddress start slot) :=
    .inl ⟨slot, listed, rfl⟩
  have apart := unaliased.words _ named
  have ends := StartupView.stringLength_lt unaliased named
  rw [Environment.entry, Memory.length_string, pointer] at fits
  unfold Memory.textSize at size apart
  have outside (address : UInt64)
      (inside : (address - process.environment.entryAddress before.memory slot).toNat <
        text.length + 1) : ¬ (address - process.stackPointer).toNat < 8 * process.wordCount := by
    rw [pointer] at inside
    exact apart.not_both (by omega)
  obtain ⟨still, reads⟩ := Environment.entry_overwrite (m := before.memory) (by omega) clean
    fun address word inside => outside address inside (laid.slot_inside listed word)
  exact ⟨reads, fun address inside => outside address (still ▸ inside)⟩

variable (sound : configuration.Sound process.environment start)
  (unused : ∀ address, address = 0 ∨ process.Contains start address →
    ¬ before.heap.HandedOut after.heap address)
include sound unused

theorem Edits.points (edits : Edits configuration process.environment before after change)
    (changed : change.slot? = some slot) :
    Points process after.memory slot (change.text configuration) := by
  cases edits with
  | unchanged => contradiction
  | renamed named listed fits memory =>
    cases changed
    have clean := Environment.zero_not_mem_value (sound.supplementary _ named).1
    rw [Change.text, named, memory]
    exact points_overwritten unaliased laid same listed fits (zero_not_mem_entry clean)
  | appended named inherited listed low high memory =>
    cases changed
    rw [Change.text, named, inherited, memory]
    exact points_redirected laid listed low high (zero_not_mem_entry_join
      (Environment.zero_not_mem_value (sound.existing _ inherited).1)
      (Environment.zero_not_mem_value (sound.supplementary _ named).1)) unused

end
end LibraryPath

namespace Loader

open LibraryPath (Change Edits)

variable {process : StartupView} {configuration : Configuration} {start before after : Machine}
  {change : Change} {based : Prop} {last : Memory}

/-- What the library path's handing on leaves of a block, of which the first base address may
be changed as well. -/
structure HandedOn (process : StartupView) (configuration : Configuration) (change : Change)
    (based : Prop) (start last : Memory) : Prop where
  framed : process.Framed start last (change.slot?.getD process.environment.count)
  entry : change.slot?.getD process.environment.count < process.environment.count →
    process.environment.entry last (change.slot?.getD process.environment.count) =
      change.text configuration
  path : last.string configuration.interpreter.valueAddress = configuration.interpreter.value
  values : ¬ based → ∀ i ≤ process.auxiliaryVector.count,
    process.auxiliaryVector.value last i = process.auxiliaryVector.value start i

/-- The change is made in memory that was handed out for it and in one slot, so all of the
block is as it was but for that slot. -/
theorem handedOn_of_edits (viewed : StartupView.read start.memory process.stackPointer = process)
    (unaliased : process.Unaliased start.memory)
    (sound : configuration.Sound process.environment start.memory)
    (same : ∀ address, process.Contains start.memory address →
      before.memory.read address = start.memory.read address)
    (edits : Edits configuration process.environment before after change)
    (unused : ∀ address, address = 0 ∨ process.Contains start.memory address →
      ¬ before.heap.HandedOut after.heap address)
    (kept : ∀ address, ¬ (based ∧ process.HoldsBase start.memory address) →
      last.read address = after.memory.read address) :
    HandedOn process configuration change based start.memory last := by
  have laid : process.Laid := viewed ▸ StartupView.laid_read start.memory process.stackPointer
  have present : ∀ slot < process.environment.count,
      process.environment.entryAddress start.memory slot ≠ 0 := by
    rw [← viewed]
    exact fun _ => StartupView.entryAddress_ne_zero
  obtain ⟨different, pointer, read⟩ :=
    handOn_kept unaliased laid present sound (fun _ => id) same edits unused
  generalize named : change.slot?.getD process.environment.count = slot at different pointer read
  have block (address : UInt64) (contains : process.Contains start.memory address)
      (outside : ¬ process.environment.Holds start.memory slot address)
      (clear : ¬ (based ∧ process.HoldsBase start.memory address)) :
      last.read address = start.memory.read address :=
    (kept address clear).trans (read address contains outside)
  -- A slot's pointer is not the base address.
  have pointers (listed : slot < process.environment.count) :
      process.environment.entryAddress last slot =
        process.environment.entryAddress after.memory slot := by
    rw [laid.entryAddress_eq, laid.entryAddress_eq]
    refine Agree.readWord fun address inside => kept address fun ⟨_, i, found, value⟩ => ?_
    have clash := StartupView.word_unique unaliased.fits
      (StartupView.slotIndex_lt (Nat.le_of_lt listed))
      (StartupView.keyIndex_lt (Nat.le_of_lt (AuxiliaryVector.index?_lt found))) inside value
    rw [StartupView.slotIndex, StartupView.keyIndex] at clash
    omega
  have framed : process.Framed start.memory last slot :=
    .of_kept viewed unaliased block fun listed => pointers listed ▸ pointer listed
  refine ⟨named ▸ framed, named ▸ fun listed => ?_, ?_, fun unchanged i listed => ?_⟩
  · cases changed : change.slot? with
    | none =>
      rw [changed] at named
      exact absurd listed (Nat.not_lt_of_le (Nat.le_of_eq named))
    | some other =>
      rw [changed, Option.getD_some] at named
      subst named
      have points := edits.points unaliased laid same sound unused changed
      exact points.kept (pointers listed) fun address clear => kept address
        fun ⟨_, i, found, value⟩ => clear (StartupView.inside_words
          (StartupView.keyIndex_lt (Nat.le_of_lt (AuxiliaryVector.index?_lt found))) value)
  · exact framed.string_valueAddress unaliased sound.interpreter.1 different.symm
  · exact StartupView.value_kept unaliased laid block listed fun changed => absurd changed unchanged

end Loader
end ElfRelay
