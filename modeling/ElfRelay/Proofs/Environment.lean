import ElfRelay.Proofs.Configuration
import ElfRelay.Proofs.Startup
/-! The environment as a list of entries. As long as no string shares memory with another
one or with the slots, an edit of one slot sets one entry of the list, and a search gives
the first variable of a name as before unless it is that name that was edited. -/
namespace ElfRelay

open Memory (Agree Apart)

namespace Environment

/-- No string of the environment shares memory with another one or with the slots. -/
structure Unaliased (environment : Environment) (m : Memory) : Prop where
  fits : 8 * environment.count ≤ UInt64.size
  slots : ∀ slot < environment.count,
    Apart environment.slots (8 * environment.count) (environment.entryAddress m slot)
      (m.textSize (environment.entryAddress m slot))
  entries : ∀ slot < environment.count, ∀ other < environment.count, other ≠ slot →
    Apart (environment.entryAddress m slot) (m.textSize (environment.entryAddress m slot))
      (environment.entryAddress m other) (m.textSize (environment.entryAddress m other))

def Contains (environment : Environment) (m : Memory) (address : UInt64) : Prop :=
  ∃ slot, environment.Holds m slot address

def Binds (environment : Environment) (m : Memory) (slot : Nat) (name : Bytes) : Prop :=
  ∃ found, environment.get? m slot = some found ∧ found.name = name

variable {environment : Environment} {m n : Memory} {slot other : Nat} {address : UInt64}
  {name value text : Bytes} {found : Variable}

namespace Unaliased

variable (unaliased : environment.Unaliased m)
include unaliased

theorem inside_slots (listed : slot < environment.count)
    (pointer : (address - environment.slotAddress slot).toNat < 8) :
    (address - environment.slots).toNat < 8 * environment.count := by
  have place := Memory.distance_word unaliased.fits listed pointer
  rw [slotAddress] at pointer
  omega

theorem pointer_not_text (listed : slot < environment.count) (listed' : other < environment.count)
    (pointer : (address - environment.slotAddress slot).toNat < 8) :
    ¬ (address - environment.entryAddress m other).toNat <
      m.textSize (environment.entryAddress m other) := fun inside =>
  (unaliased.slots other listed').not_both inside (unaliased.inside_slots listed pointer)

theorem holds_unique (first : environment.Holds m slot address)
    (second : environment.Holds m other address) : slot = other := by
  obtain ⟨listed, pointer | inside⟩ := first <;> obtain ⟨listed', pointer' | inside'⟩ := second
  · have place := Memory.distance_word unaliased.fits listed pointer
    have place' := Memory.distance_word unaliased.fits listed' pointer'
    rw [slotAddress] at pointer pointer'
    omega
  · exact absurd inside' (unaliased.pointer_not_text listed listed' pointer)
  · exact absurd inside (unaliased.pointer_not_text listed' listed pointer')
  · by_contra different
    exact (unaliased.entries slot listed other listed' (Ne.symm different)).not_both inside' inside

theorem stringLength_lt (listed : slot < environment.count) :
    m.stringLength (environment.entryAddress m slot) < UInt64.size := by
  have bound := (unaliased.slots slot listed).2
  have := (environment.slots - environment.entryAddress m slot).toNat_lt
  unfold Memory.textSize at bound
  simp only [UInt64.size]
  omega

end Unaliased

theorem getElem?_entries (environment : Environment) (m : Memory) (slot : Nat) :
    (environment.entries m)[slot]? =
      if slot < environment.count then some (environment.entry m slot) else none := by
  rw [entries, List.getElem?_map]
  split
  · next listed => rw [List.getElem?_range listed, Option.map_some]
  · next beyond => rw [List.getElem?_eq_none (by simpa using beyond), Option.map_none]

theorem entry_overwrite (small : text.length < UInt64.size) (clean : 0 ∉ text)
    (apart : ∀ address, (address - environment.slotAddress slot).toNat < 8 →
      ¬ (address - environment.entryAddress m slot).toNat < text.length + 1) :
    environment.entryAddress (m.writeString (environment.entryAddress m slot) text) slot =
        environment.entryAddress m slot ∧
      environment.entry (m.writeString (environment.entryAddress m slot) text) slot = text := by
  have pointer : environment.entryAddress
      (m.writeString (environment.entryAddress m slot) text) slot =
        environment.entryAddress m slot :=
    Agree.readWord fun address inside =>
      Memory.read_writeString_outside m (Nat.lt_succ_self _) (apart address inside)
  refine ⟨pointer, ?_⟩
  rw [entry, pointer]
  exact Memory.string_writeString m _ small clean

theorem entry_redirect {start : UInt64} (small : text.length < UInt64.size) (clean : 0 ∉ text)
    (apart : ∀ address, (address - environment.slotAddress slot).toNat < 8 →
      ¬ (address - start).toNat < text.length + 1) :
    environment.entryAddress
        ((m.writeString start text).writeWord (environment.slotAddress slot) start) slot = start ∧
      environment.entry
        ((m.writeString start text).writeWord (environment.slotAddress slot) start) slot = text := by
  have written := Memory.string_writeString m start small clean
  have length := congrArg List.length written
  rw [Memory.length_string] at length
  have pointer : environment.entryAddress
      ((m.writeString start text).writeWord (environment.slotAddress slot) start) slot = start :=
    Memory.readWord_writeWord _ _ _
  refine ⟨pointer, ?_⟩
  rw [entry, pointer]
  refine (Agree.string fun address inside => ?_).trans written
  refine Memory.read_writeWord_outside _ fun word => apart address word ?_
  rwa [length] at inside

/-- Two memories in which an environment is the same but for the text of one slot. -/
structure Replaced (environment : Environment) (before after : Memory) (slot : Nat)
    (text : Bytes) : Prop where
  listed : slot < environment.count
  entryAddress : ∀ other < environment.count, other ≠ slot →
    environment.entryAddress after other = environment.entryAddress before other
  entries : environment.entries after = (environment.entries before).set slot text

theorem Replaced.of_kept (listed : slot < environment.count)
    (kept : ∀ address other, other ≠ slot → environment.Holds m other address →
      n.read address = m.read address) (reads : environment.entry n slot = text) :
    environment.Replaced m n slot text := by
  have pointers : ∀ other < environment.count, other ≠ slot →
      environment.entryAddress n other = environment.entryAddress m other := by
    intro other inCount different
    exact Agree.readWord fun address inside => kept address other different ⟨inCount, .inl inside⟩
  have texts : ∀ other < environment.count, other ≠ slot →
      environment.entry n other = environment.entry m other := by
    intro other inCount different
    rw [entry, entry, pointers other inCount different]
    exact Agree.string fun address inside => kept address other different ⟨inCount, .inr inside⟩
  refine ⟨listed, pointers, List.ext_getElem? fun other => ?_⟩
  rw [getElem?_entries, List.getElem?_set, getElem?_entries]
  by_cases here : slot = other
  · subst here
    simp [listed, reads, Environment.entries]
  · rw [if_neg here]
    split
    · next inCount => rw [texts other inCount (Ne.symm here)]
    · rfl

namespace Unaliased

variable (unaliased : environment.Unaliased m) (listed : slot < environment.count)
include unaliased listed

theorem replaced_overwrite (fits : text.length ≤ (environment.entry m slot).length)
    (clean : 0 ∉ text) :
    environment.Replaced m (m.writeString (environment.entryAddress m slot) text) slot text := by
  have ends := unaliased.stringLength_lt listed
  rw [entry, Memory.length_string] at fits
  have size : text.length < m.textSize (environment.entryAddress m slot) := Nat.lt_succ_of_le fits
  refine .of_kept listed (fun address other different holds => ?_)
    (entry_overwrite (Nat.lt_of_le_of_lt fits ends) clean fun address inside written => ?_).2
  · refine Memory.read_writeString_outside m size fun inside => different ?_
    exact unaliased.holds_unique holds ⟨listed, .inr inside⟩
  · exact unaliased.pointer_not_text listed listed inside (Nat.lt_of_lt_of_le written size)

/-- A slot is pointed at a string in memory that the environment does not use. -/
theorem replaced_redirect {start : UInt64} (clean : 0 ∉ text)
    (fresh : ∀ address, environment.Contains m address →
      ¬ (address - start).toNat < text.length + 1) :
    environment.Replaced m
      ((m.writeString start text).writeWord (environment.slotAddress slot) start) slot text := by
  have small : text.length < UInt64.size := by
    by_contra long
    have pointer : environment.Holds m slot (environment.slotAddress slot) :=
      ⟨listed, .inl (by simp)⟩
    have := (environment.slotAddress slot - start).toNat_lt
    refine fresh _ ⟨slot, pointer⟩ ?_
    simp only [UInt64.size] at long
    omega
  refine .of_kept listed (fun address other different holds => ?_)
    (entry_redirect small clean fun address word => fresh address ⟨slot, listed, .inl word⟩).2
  rw [Memory.read_writeWord_outside _ fun inside =>
    different (unaliased.holds_unique holds ⟨listed, .inl inside⟩)]
  exact Memory.read_writeString_outside m (Nat.lt_succ_self _) (fresh address ⟨other, holds⟩)

end Unaliased

theorem find?_eq_some_iff : environment.find? m name = some found ↔
    environment.get? m found.slot = some found ∧ found.name = name ∧
      ∀ earlier < found.slot, ¬ environment.Binds m earlier name := by
  have binds (slot : Nat) :
      (environment.get? m slot).any (·.name == name) = true ↔ environment.Binds m slot name := by
    simp [Binds, Option.any_eq_true]
  rw [find?, bindings, List.find?_filterMap, Option.bind_eq_some_iff]
  constructor
  · rintro ⟨slot, first, present⟩
    obtain ⟨here, _, before⟩ := List.find?_range_eq_some.mp first
    obtain ⟨other, got, named⟩ := (binds slot).mp here
    obtain rfl : found = other := Option.some.inj (present.symm.trans got)
    obtain rfl := (get?_eq_some present).2.1
    refine ⟨present, named, fun earlier below holds => ?_⟩
    simpa [(binds earlier).mpr holds] using before earlier below
  · rintro ⟨present, named, first⟩
    refine ⟨found.slot, List.find?_range_eq_some.mpr ⟨(binds _).mpr ⟨found, present, named⟩,
      List.mem_range.mpr (get?_eq_some present).1, fun earlier below => ?_⟩, present⟩
    simpa using (binds earlier).not.mpr (first earlier below)

theorem find?_eq_none_iff :
    environment.find? m name = none ↔ ∀ slot, ¬ environment.Binds m slot name := by
  rw [find?, List.find?_eq_none]
  constructor
  · rintro without slot ⟨found, present, rfl⟩
    have member : found ∈ environment.bindings m :=
      List.mem_filterMap.mpr ⟨slot, List.mem_range.mpr (get?_eq_some present).1, present⟩
    simpa using without found member
  · intro unbound found member
    simpa using fun named => unbound found.slot ⟨found, mem_bindings member, named⟩

theorem find?_congr (same : ∀ slot found, found.name = name →
    (environment.get? n slot = some found ↔ environment.get? m slot = some found)) :
    environment.find? n name = environment.find? m name := by
  have binds (slot : Nat) : environment.Binds n slot name ↔ environment.Binds m slot name :=
    exists_congr fun found => and_congr_left (same slot found)
  ext found
  rw [find?_eq_some_iff, find?_eq_some_iff, and_left_comm, and_left_comm (b := found.name = name)]
  refine and_congr_right fun named => ?_
  rw [same found.slot found named]
  simp only [binds]

namespace Replaced

theorem entry_self (replaced : environment.Replaced m n slot text) :
    environment.entry n slot = text := by
  have here := getElem?_entries environment n slot
  rw [replaced.entries, List.getElem?_set_self (by simpa [Environment.entries] using replaced.listed),
    if_pos replaced.listed] at here
  exact (Option.some.inj here).symm

theorem entry_other (replaced : environment.Replaced m n slot text)
    (listed : other < environment.count) (different : other ≠ slot) :
    environment.entry n other = environment.entry m other := by
  have here := getElem?_entries environment n other
  rw [replaced.entries, List.getElem?_set_ne (Ne.symm different), getElem?_entries, if_pos listed,
    if_pos listed] at here
  exact (Option.some.inj here).symm

theorem get?_other (replaced : environment.Replaced m n slot text) (different : other ≠ slot) :
    environment.get? n other = environment.get? m other := by
  rw [get?, get?]
  split
  · next listed =>
    rw [replaced.entry_other listed different, replaced.entryAddress other listed different]
  · rfl

variable (replaced : environment.Replaced m n slot (name ++ equalsSign :: value))
  (plain : equalsSign ∉ name)
include replaced plain

theorem get?_self : environment.get? n slot =
    some ⟨slot, name, value, environment.entryAddress n slot + (name.length + 1).toUInt64⟩ := by
  rw [get?, if_pos replaced.listed, replaced.entry_self, splitEntry_append value plain]
  rfl

theorem find?_self (first : ∀ earlier < slot, ¬ environment.Binds m earlier name) :
    environment.find? n name =
      some ⟨slot, name, value, environment.entryAddress n slot + (name.length + 1).toUInt64⟩ := by
  refine find?_eq_some_iff.mpr ⟨replaced.get?_self plain, rfl, fun earlier below => ?_⟩
  rw [Binds, replaced.get?_other (Nat.ne_of_lt below)]
  exact first earlier below

/-- Variables of other names than that of the new entry and of the old one are found as before. -/
theorem find?_other {wanted : Bytes} (different : wanted ≠ name)
    (absent : ¬ environment.Binds m slot wanted) :
    environment.find? n wanted = environment.find? m wanted := by
  refine find?_congr fun other found named => ?_
  by_cases here : other = slot
  · subst here
    refine iff_of_false (fun present => different ?_) fun present => absent ⟨found, present, named⟩
    rw [replaced.get?_self plain, Option.some.injEq] at present
    rw [← named, ← present]
  · rw [replaced.get?_other here]

end Replaced
end Environment

namespace StartupView

variable {view : StartupView} {m : Memory}

/-- No string of the environment is in the slots or in the null pointer behind them. -/
theorem Unaliased.apart_slots (unaliased : view.Unaliased m) (laid : view.Laid) {slot : Nat}
    (listed : slot < view.environment.count) :
    Apart view.environment.slots (8 * (view.environment.count + 1))
      (view.environment.entryAddress m slot)
      (m.textSize (view.environment.entryAddress m slot)) := by
  have words := (unaliased.words _ (.inl ⟨slot, listed, rfl⟩)).symm
  have place : view.environment.slots = view.stackPointer + (8 * view.slotIndex 0).toUInt64 := by
    rw [laid.slots, word]
    simp [Nat.toUInt64, UInt64.ofNat_mul]
  rw [place]
  refine (words.part (Nat.le_refl _) ?_ (by omega)).symm
  rw [slotIndex, wordCount]
  omega

/-- The parts of a start-up block share no memory, so those of its environment do not. -/
theorem Unaliased.environment (unaliased : view.Unaliased m) (laid : view.Laid) :
    view.environment.Unaliased m where
  fits := by
    have fits := unaliased.fits
    rw [Fits, wordCount] at fits
    omega
  slots _ listed := (unaliased.apart_slots laid listed).shrink (by omega) (Nat.le_refl _)
  entries := unaliased.entries

end StartupView
end ElfRelay
