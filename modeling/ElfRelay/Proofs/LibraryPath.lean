import ElfRelay.LibraryPath
import ElfRelay.Proofs.Heap
/-! Handing on the library path. It makes no system call but output: it reserves
memory and edits it. If it fails memory is as it was, and if it succeeds at most one
slot has been changed. -/
namespace ElfRelay

/-- A relation that every reservation of memory, every change of it and output keep. -/
structure Machine.KeptByEdits (step : Machine → Machine → Prop) : Prop
    extends Machine.KeptByOutput step where
  heap : ∀ (m : Machine) (heap : Heap), m.heap.Later heap → step m { m with heap := heap }
  memory : ∀ (m : Machine) (change : Memory → Memory),
    step m { m with memory := change m.memory }

variable {step : Machine → Machine → Prop} [IsPreorder Machine step]

omit [IsPreorder Machine step] in
theorem Machine.KeptByEdits.within_changeMemory (kept : Machine.KeptByEdits step)
    (change : Memory → Memory) : Program.Within step (Program.changeMemory change) :=
  fun m => kept.memory m change

theorem Program.within_unless (kept : Machine.KeptByOutput step) {condition : Prop}
    [Decidable condition] (message : List Bytes) {next : Unit → Program α}
    (rest : ∀ done, Within step (next done)) :
    Within step (if condition then abortWith message >>= next else next ()) := by
  split
  · exact .bind (within_abortWith kept message) rest
  · exact rest ()

namespace Environment

theorem within_overwrite (kept : Machine.KeptByEdits step) (environment : Environment)
    (slot : Nat) (entry : Bytes) : Program.Within step (environment.overwrite slot entry) := by
  rw [overwrite]
  refine Program.within_unless kept.toKeptByOutput _ fun _ => ?_
  refine .bind (.inspect _) fun current => ?_
  exact Program.within_unless kept.toKeptByOutput _ fun _ => kept.within_changeMemory _

theorem within_redirect (kept : Machine.KeptByEdits step) (environment : Environment)
    (slot : Nat) (entry : UInt64) : Program.Within step (environment.redirect slot entry) := by
  rw [redirect]
  exact Program.within_unless kept.toKeptByOutput _ fun _ => kept.within_changeMemory _

variable {environment : Environment} {slot : Nat} {m : Machine}

theorem overwrite_returns {entry : Bytes} (listed : slot < environment.count)
    (fits : entry.length ≤ (environment.entry m.memory slot).length) :
    (environment.overwrite slot entry).value? m = some () := by
  rw [overwrite, if_neg (Nat.not_le.mpr listed), Program.value?_bind, Program.value?_inspect,
    Program.last_inspect, Option.bind_some, if_neg (Nat.not_lt.mpr fits)]
  rfl

theorem redirect_returns (listed : slot < environment.count) (entry : UInt64) :
    (environment.redirect slot entry).value? m = some () := by
  rw [redirect, if_neg (Nat.not_le.mpr listed)]
  rfl

theorem overwrite_succeeds {entry : Bytes}
    (returned : (environment.overwrite slot entry).value? m = some ()) :
    slot < environment.count ∧ entry.length ≤ (environment.entry m.memory slot).length ∧
      (environment.overwrite slot entry).last m = { m with
        memory := m.memory.writeString (environment.entryAddress m.memory slot) entry } := by
  rw [overwrite] at returned ⊢
  obtain ⟨listed, returned, last⟩ := Program.unless_succeeds returned
  obtain ⟨current, inspected, returned⟩ := Program.value?_bind_eq_some.mp returned
  rw [last, Program.last_bind_of_value _ inspected]
  rw [Program.value?_inspect, Option.some.injEq] at inspected
  subst inspected
  obtain ⟨fits, _, last⟩ := Program.unless_succeeds returned
  rw [last]
  exact ⟨Nat.not_le.mp listed, Nat.not_lt.mp fits, rfl⟩

theorem redirect_succeeds {entry : UInt64}
    (returned : (environment.redirect slot entry).value? m = some ()) :
    slot < environment.count ∧ (environment.redirect slot entry).last m = { m with
      memory := m.memory.writeWord (environment.slotAddress slot) entry } := by
  rw [redirect] at returned ⊢
  obtain ⟨listed, _, last⟩ := Program.unless_succeeds returned
  rw [last]
  exact ⟨Nat.not_le.mp listed, rfl⟩

end Environment

namespace LibraryPath

theorem zero_not_mem_entry {value : Bytes} (clean : 0 ∉ value) : 0 ∉ entry value := by
  have name : 0 ∉ VariableName.libraryPath := by decide
  simp [entry, clean, name, equalsSign]

/-- The entry that is made from two values has a NUL only where they have one. -/
theorem zero_not_mem_entry_join {existing supplementary : Bytes} (first : 0 ∉ existing)
    (second : 0 ∉ supplementary) : 0 ∉ entry (join existing supplementary) := by
  have between : 0 ∉ separator existing := by
    rw [separator]
    split <;> decide
  apply zero_not_mem_entry
  simp [join, first, second, between]

theorem within_expectPresent (kept : Machine.KeptByOutput step) (environment : Environment)
    (expected : Variable) : Program.Within step (expectPresent environment expected) := by
  refine .bind (.inspect _) fun current => ?_
  cases current with
  | none => exact Program.within_abortWith kept _
  | some current =>
    dsimp only
    split
    · exact Program.within_abortWith kept _
    · exact .pure ()

theorem within_leak (kept : Machine.KeptByEdits step) (text : Bytes) :
    Program.Within step (leak text) := by
  refine .bind (Program.within_reserve kept.heap _ (by decide)) fun room => ?_
  cases room with
  | none => exact .pure _
  | some address =>
    refine .bind (kept.within_changeMemory _) fun _ => ?_
    exact Program.within_unless kept.toKeptByOutput _ fun _ => .pure _

theorem within_rename (kept : Machine.KeptByEdits step) (environment : Environment)
    (supplementary : Variable) : Program.Within step (rename environment supplementary) := by
  refine .bind (Program.within_log kept.toKeptByOutput _ _) fun _ => ?_
  refine .bind (Program.within_reserve kept.heap _ (by decide)) fun room => ?_
  cases room with
  | none => exact .pure _
  | some _ => exact .bind (Environment.within_overwrite kept _ _ _) fun _ => .pure _

theorem within_append (kept : Machine.KeptByEdits step) (environment : Environment)
    (supplementary existing : Variable) :
    Program.Within step (append environment supplementary existing) := by
  refine .bind (Program.within_log kept.toKeptByOutput _ _) fun _ => ?_
  refine .bind (Program.within_reserve kept.heap _ (by decide)) fun room => ?_
  cases room with
  | none => exact .pure _
  | some _ =>
    refine .bind (within_leak kept _) fun leaked => ?_
    cases leaked with
    | error error => exact .pure _
    | ok address => exact .bind (Environment.within_redirect kept _ _ _) fun _ => .pure _

theorem within_handOn (kept : Machine.KeptByEdits step) (configuration : Configuration)
    (environment : Environment) : Program.Within step (handOn configuration environment) := by
  rw [handOn]
  split
  · exact .pure _
  · refine .bind (within_expectPresent kept.toKeptByOutput _ _) fun _ => ?_
    split
    · exact within_rename kept _ _
    · exact within_append kept _ _ _

variable {environment : Environment} {configuration : Configuration} {m : Machine}
  {supplementary existing : Variable} {change : Change} {error : LoadError}

theorem leak_fails {text : Bytes} (failed : (leak text).value? m = some (.error error)) :
    ((leak text).last m).memory = m.memory := by
  rw [leak] at failed ⊢
  obtain ⟨room, _, ⟨_, _, rfl⟩, _, failed, last⟩ :=
    (Program.requested_reserve _ Nat.one_pos).bind_succeeds failed
  rw [last]
  cases room with
  | none => rfl
  | some address =>
    obtain ⟨_, _, failed⟩ := Program.value?_bind_eq_some.mp failed
    obtain ⟨_, failed, _⟩ := Program.unless_succeeds failed
    cases failed

theorem rename_fails (failed : (rename environment supplementary).value? m = some (.error error)) :
    ((rename environment supplementary).last m).memory = m.memory := by
  rw [rename] at failed ⊢
  obtain ⟨_, _, wrote, _, failed, last⟩ := (Program.wrote_log _ _).bind_succeeds failed
  rw [last, ← wrote.memory]
  obtain ⟨room, _, ⟨_, _, rfl⟩, _, failed, last⟩ :=
    (Program.requested_reserve _ Nat.one_pos).bind_succeeds failed
  rw [last]
  cases room with
  | none => rfl
  | some _ =>
    obtain ⟨_, _, failed⟩ := Program.value?_bind_eq_some.mp failed
    cases failed

theorem append_fails
    (failed : (append environment supplementary existing).value? m = some (.error error)) :
    ((append environment supplementary existing).last m).memory = m.memory := by
  rw [append] at failed ⊢
  obtain ⟨_, _, wrote, _, failed, last⟩ := (Program.wrote_log _ _).bind_succeeds failed
  rw [last, ← wrote.memory]
  obtain ⟨room, _, ⟨_, _, rfl⟩, _, failed, last⟩ :=
    (Program.requested_reserve _ Nat.one_pos).bind_succeeds failed
  rw [last]
  cases room with
  | none => rfl
  | some _ =>
    dsimp only at failed ⊢
    obtain ⟨leaked, outcome, failed⟩ := Program.value?_bind_eq_some.mp failed
    rw [Program.last_bind_of_value _ outcome]
    cases leaked with
    | error error => exact leak_fails outcome
    | ok address =>
      obtain ⟨_, _, failed⟩ := Program.value?_bind_eq_some.mp failed
      cases failed

/-- The environment is changed only when nothing can fail any more. -/
theorem handOn_fails (failed : (handOn configuration environment).value? m = some (.error error)) :
    ((handOn configuration environment).last m).memory = m.memory := by
  rw [handOn] at failed ⊢
  cases named : configuration.supplementary with
  | none => rw [named] at failed; cases failed
  | some supplementary =>
    rw [named] at failed
    dsimp only at failed ⊢
    obtain ⟨_, _, wrote, _, failed, last⟩ :=
      (within_expectPresent Machine.Wrote.kept _ _).bind_succeeds failed
    rw [last, ← wrote.memory]
    cases inherited : configuration.existing with
    | none =>
      rw [inherited] at failed
      exact rename_fails failed
    | some existing =>
      rw [inherited] at failed
      exact append_fails failed

theorem leak_succeeds {text : Bytes} {address : UInt64}
    (returned : (leak text).value? m = some (.ok address)) :
    address = m.heap.base + (m.heap.start 1).toUInt64 ∧
      (leak text).last m = { m with
        memory := m.memory.writeString address text
        heap := { m.heap with used := m.heap.start 1 + (text.length + 1) } } := by
  rw [leak] at returned ⊢
  obtain ⟨room, reserved, returned⟩ := Program.value?_bind_eq_some.mp returned
  rw [Program.last_bind_of_value _ reserved]
  cases room with
  | none => cases returned
  | some start =>
    obtain ⟨_, written, returned⟩ := Program.value?_bind_eq_some.mp returned
    dsimp only
    rw [Program.last_bind_of_value _ written]
    obtain ⟨_, returned, unchanged⟩ := Program.unless_succeeds returned
    rw [unchanged]
    cases returned
    obtain ⟨place, last⟩ := Program.reserve_succeeds (Nat.succ_ne_zero _) reserved
    exact ⟨place, by rw [last]; rfl⟩

/-- What handing on does to memory when it succeeds: nothing, or the supplementary
variable's string is overwritten within its storage, or the inherited path's slot is
pointed at a new string. -/
inductive Edits (configuration : Configuration) (environment : Environment) (before after : Machine) :
    Change → Prop
  | unchanged (without : configuration.supplementary = none)
    (memory : after.memory = before.memory) : Edits configuration environment before after .unchanged
  | renamed {supplementary : Variable} (named : configuration.supplementary = some supplementary)
    (listed : supplementary.slot < environment.count)
    (fits : (entry supplementary.value).length ≤
      (environment.entry before.memory supplementary.slot).length)
    (memory : after.memory = before.memory.writeString
      (environment.entryAddress before.memory supplementary.slot) (entry supplementary.value)) :
    Edits configuration environment before after (.renamed supplementary.slot)
  | appended {supplementary existing : Variable} {start : Nat}
    (named : configuration.supplementary = some supplementary)
    (inherited : configuration.existing = some existing)
    (listed : existing.slot < environment.count)
    (low : before.heap.used ≤ start)
    (high : start + (entry (join existing.value supplementary.value)).length < after.heap.used)
    (memory : after.memory =
      (before.memory.writeString (before.heap.base + start.toUInt64)
        (entry (join existing.value supplementary.value))).writeWord
          (environment.slotAddress existing.slot) (before.heap.base + start.toUInt64)) :
    Edits configuration environment before after (.appended existing.slot)

theorem Edits.of_wrote {before between after : Machine} (wrote : Machine.Wrote before between)
    (edits : Edits configuration environment between after change) :
    Edits configuration environment before after change := by
  cases edits with
  | unchanged without memory => exact .unchanged without (wrote.memory ▸ memory)
  | renamed named listed fits memory =>
    rw [wrote.memory] at fits memory
    exact .renamed named listed fits memory
  | appended named inherited listed low high memory =>
    rw [wrote.memory, wrote.heap] at memory
    exact .appended named inherited listed (wrote.heap ▸ low) high memory

theorem rename_succeeds (named : configuration.supplementary = some supplementary)
    (returned : (rename environment supplementary).value? m = some (.ok change)) :
    Edits configuration environment m ((rename environment supplementary).last m) change := by
  rw [rename] at returned ⊢
  obtain ⟨_, logged, wrote, _, returned, last⟩ := (Program.wrote_log _ _).bind_succeeds returned
  rw [last]
  obtain ⟨room, requested, ⟨heap, _, same⟩, _, returned, last⟩ :=
    (Program.requested_reserve _ Nat.one_pos).bind_succeeds returned
  rw [last]
  cases room with
  | none => cases returned
  | some _ =>
    obtain ⟨_, overwritten, returned⟩ := Program.value?_bind_eq_some.mp returned
    dsimp only
    rw [Program.last_bind_of_value _ overwritten]
    cases returned
    obtain ⟨listed, fits, last⟩ := Environment.overwrite_succeeds overwritten
    have memory : requested.memory = m.memory := same ▸ wrote.memory
    rw [memory] at fits last
    exact .renamed named listed fits (by rw [Program.last_pure, last])

theorem append_succeeds (named : configuration.supplementary = some supplementary)
    (inherited : configuration.existing = some existing)
    (returned : (append environment supplementary existing).value? m = some (.ok change)) :
    Edits configuration environment m ((append environment supplementary existing).last m)
      change := by
  rw [append] at returned ⊢
  obtain ⟨_, logged, wrote, _, returned, last⟩ := (Program.wrote_log _ _).bind_succeeds returned
  rw [last]
  obtain ⟨room, requested, ⟨heap, later, same⟩, _, returned, last⟩ :=
    (Program.requested_reserve _ Nat.one_pos).bind_succeeds returned
  rw [last]
  cases room with
  | none => cases returned
  | some _ =>
    dsimp only at returned ⊢
    obtain ⟨leaked, outcome, returned⟩ := Program.value?_bind_eq_some.mp returned
    rw [Program.last_bind_of_value _ outcome]
    cases leaked with
    | error error => cases returned
    | ok address =>
      obtain ⟨place, stored⟩ := leak_succeeds outcome
      obtain ⟨_, redirected, returned⟩ := Program.value?_bind_eq_some.mp returned
      dsimp only
      rw [Program.last_bind_of_value _ redirected]
      cases returned
      obtain ⟨listed, last⟩ := Environment.redirect_succeeds redirected
      rw [Program.last_pure, last, stored]
      subst same
      rw [wrote.heap] at later
      have above := heap.used_le_start Nat.one_pos
      have := later.used
      rw [later.base] at place
      exact .appended named inherited listed (Nat.le_trans later.used above) (Nat.lt_succ_self _)
        (by rw [place, wrote.memory])

theorem handOn_succeeds
    (returned : (handOn configuration environment).value? m = some (.ok change)) :
    Edits configuration environment m ((handOn configuration environment).last m) change := by
  rw [handOn] at returned ⊢
  cases named : configuration.supplementary with
  | none =>
    rw [named] at returned
    cases returned
    exact .unchanged named rfl
  | some supplementary =>
    rw [named] at returned
    dsimp only at returned ⊢
    obtain ⟨_, present, wrote, _, returned, last⟩ :=
      (within_expectPresent Machine.Wrote.kept _ _).bind_succeeds returned
    rw [last]
    cases inherited : configuration.existing with
    | none =>
      rw [inherited] at returned
      exact (rename_succeeds named returned).of_wrote wrote
    | some existing =>
      rw [inherited] at returned
      exact (append_succeeds named inherited returned).of_wrote wrote

end LibraryPath
end ElfRelay
