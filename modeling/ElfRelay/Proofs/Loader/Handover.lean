import ElfRelay.Proofs.Configuration
import ElfRelay.Proofs.Loader.Atomicity
import ElfRelay.Proofs.Loader.Custody
/-! The handover of a run that succeeds, and what the next program finds. -/
namespace ElfRelay

open Elf (Object)

/-- The value of a variable reads as it was if its slot is not the one that was changed. -/
theorem StartupView.Framed.string_valueAddress {view : StartupView} {before after : Memory}
    {slot : Nat} {found : Variable} (framed : view.Framed before after slot)
    (unaliased : view.Unaliased before)
    (present : view.environment.get? before found.slot = some found) (different : found.slot ≠ slot) :
    after.string found.valueAddress = found.value := by
  obtain ⟨listed, _, split, place⟩ := Environment.get?_eq_some present
  have ends := StartupView.stringLength_lt unaliased (.inl ⟨_, listed, rfl⟩)
  have text := framed.entry _ listed different
  rw [Environment.entry, framed.entryAddress _ listed different] at text
  have length := congrArg List.length text
  rw [Environment.entry, Memory.length_string, Memory.length_string] at length
  have inside := congrArg List.length split
  rw [Environment.entry, Memory.length_string, List.length_append, List.length_cons] at inside
  rw [place, Memory.string_drop (by omega) (by omega), text, split]
  simp [List.drop_append]

namespace LibraryPath

def Change.slot? : Change → Option Nat
  | .unchanged => none
  | .renamed slot => some slot
  | .appended slot => some slot

variable {configuration : Configuration} {environment : Environment} {before after : Machine}
  {change : Change}

/-- A successful change is made in memory that was handed out for it, and in one slot. -/
theorem Edits.slot_cases (edits : Edits configuration environment before after change) {slot : Nat}
    (changed : change.slot? = some slot) :
    slot < environment.count ∧
      ((∃ found, configuration.supplementary = some found ∧ found.slot = slot) ∨
        ∃ found, configuration.existing = some found ∧ found.slot = slot) := by
  cases edits with
  | unchanged => contradiction
  | renamed named listed =>
    cases changed
    exact ⟨listed, .inl ⟨_, named, rfl⟩⟩
  | appended named inherited listed =>
    cases changed
    exact ⟨listed, .inr ⟨_, inherited, rfl⟩⟩

theorem Edits.kept (edits : Edits configuration environment before after change)
    {address : UInt64} (unused : ¬ before.heap.HandedOut after.heap address)
    (outside : ∀ slot, change.slot? = some slot → ¬ environment.Holds before.memory slot address) :
    after.memory.read address = before.memory.read address := by
  cases edits with
  | unchanged without memory => rw [memory]
  | renamed named listed fits memory =>
    rw [memory]
    refine Memory.read_writeString_outside _ ?_ fun text =>
      outside _ rfl ⟨listed, .inr text⟩
    simpa [Environment.entry, Memory.string, Memory.textSize] using fits
  | appended named inherited listed low high memory =>
    rw [memory, Memory.read_writeWord_outside _ fun pointer => outside _ rfl ⟨listed, .inl pointer⟩]
    exact Memory.read_writeString_outside _ (Nat.le_refl _) fun text =>
      unused (.of_inside low high text)

theorem Edits.pointer (edits : Edits configuration environment before after change)
    (unused : ¬ before.heap.HandedOut after.heap 0) {slot : Nat} (changed : change.slot? = some slot)
    (apart : ∀ address, (address - environment.slotAddress slot).toNat < 8 →
      ¬ (address - environment.entryAddress before.memory slot).toNat <
        before.memory.textSize (environment.entryAddress before.memory slot))
    (present : environment.entryAddress before.memory slot ≠ 0) :
    environment.entryAddress after.memory slot ≠ 0 := by
  cases edits with
  | unchanged without memory => contradiction
  | renamed named listed fits memory =>
    cases changed
    rw [memory, show environment.entryAddress _ _ = environment.entryAddress before.memory _ from
      Memory.Agree.readWord fun address inside =>
        Memory.read_writeString_outside _ ?_ (apart address inside)]
    · exact present
    · simpa [Environment.entry, Memory.string, Memory.textSize] using fits
  | appended named inherited listed low high memory =>
    cases changed
    rw [memory]
    intro null
    have stored := (Memory.readWord_writeWord _ _ _).symm.trans null
    exact unused ⟨_, low, Nat.lt_of_le_of_lt (Nat.le_add_right _ _) high, stored.symm⟩

end LibraryPath

namespace Loader

/-- How a run that succeeds goes on, by the block that it has found. A base address of
zero asks for the interpreter as a program, with the block's own lists and the path
that was configured; any other, or none, for a jump into its image. -/
inductive HandsOver (process : StartupView) (configuration : Configuration) (before after : Machine) :
    Handover → Prop
  | execute
    (direct : process.auxiliaryVector.get? before.memory AuxiliaryVector.baseKey = some 0)
    (values : ∀ i ≤ process.auxiliaryVector.count,
      process.auxiliaryVector.value after.memory i = process.auxiliaryVector.value before.memory i)
    (path : after.memory.string configuration.interpreter.valueAddress =
      configuration.interpreter.value) :
    HandsOver process configuration before after (.execute configuration.interpreter.valueAddress
      process.arguments process.environment.slots)
  | jump {object : Object} {first : Elf.ProgramHeader} {image : Image}
    (indirect : process.auxiliaryVector.get? before.memory AuxiliaryVector.baseKey ≠ some 0)
    (opened : (Object.openPath configuration.interpreter.value).value?
      ((announce configuration).last before) = some (.ok object))
    (listed : first ∈ object.segments)
    (lowest : ∀ segment ∈ object.segments, first.vaddr ≤ segment.vaddr)
    (address : image.region.address = image.loadBias + configuration.pageSize.floor first.vaddr)
    (entryPoint : image.entryPoint = image.loadBias + object.header.entry)
    (base : ∀ i, process.auxiliaryVector.index? before.memory AuxiliaryVector.baseKey = some i →
      process.auxiliaryVector.value after.memory i = image.loadBias) :
    HandsOver process configuration before after
      (.jump image.entryPoint process.stackPointer image)

section
variable {process : StartupView} {configuration : Configuration} {image : Image}
  {start m : Machine} {handover : Handover} {spared : UInt64 → Prop}

/-- A run that settles has handed on the library path and then chosen its handover. -/
theorem settle_succeeds
    (settled : (settle process configuration image).value? m = some (.ok handover)) :
    ∃ change between, LibraryPath.Edits configuration process.environment m between change ∧
      m.heap.Later between.heap ∧
      (chooseHandover process configuration image).value? between = some handover ∧
      (settle process configuration image).last m =
        (chooseHandover process configuration image).last between := by
  rw [settle] at settled ⊢
  obtain ⟨handed, outcome, settled⟩ := Program.value?_bind_eq_some.mp settled
  rw [Program.last_bind_of_value _ outcome]
  cases handed with
  | error error =>
    obtain ⟨_, _, settled⟩ := Program.value?_bind_eq_some.mp settled
    cases settled
  | ok change =>
    obtain ⟨chosen, found, settled⟩ := Program.value?_bind_eq_some.mp settled
    dsimp only
    rw [Program.last_bind_of_value _ found]
    cases settled
    exact ⟨change, _, LibraryPath.handOn_succeeds outcome,
      (LibraryPath.within_handOn Machine.Later.maps.toKeptByEdits _ _ m).heap, found, rfl⟩

/-- What handing on the library path has changed, by the block as it was at the start. -/
theorem handOn_kept {between : Machine} {change : LibraryPath.Change}
    (unaliased : process.Unaliased start.memory) (laid : process.Laid)
    (pointers : ∀ slot < process.environment.count,
      process.environment.entryAddress start.memory slot ≠ 0)
    (sound : configuration.Sound process.environment start.memory)
    (contained : ∀ address, process.Contains start.memory address → spared address)
    (same : ∀ address, spared address → m.memory.read address = start.memory.read address)
    (edits : LibraryPath.Edits configuration process.environment m between change)
    (unused : ∀ address, address = 0 ∨ spared address →
      ¬ m.heap.HandedOut between.heap address) :
    let slot := change.slot?.getD process.environment.count
    slot ≠ configuration.interpreter.slot ∧
      (slot < process.environment.count →
        process.environment.entryAddress between.memory slot ≠ 0) ∧
      ∀ address, spared address → ¬ process.environment.Holds start.memory slot address →
        between.memory.read address = start.memory.read address := by
  have agrees := fun address contains => same address (contained address contains)
  cases changed : change.slot? with
  | none =>
    refine ⟨?_, fun listed => absurd listed (Nat.lt_irrefl _), ?_⟩
    · exact Nat.ne_of_gt (Environment.get?_eq_some sound.interpreter.1).1
    · intro address spares _
      rw [edits.kept (unused address (.inr spares)) (fun _ found => nomatch changed.symm.trans found),
        same address spares]
  | some slot =>
    obtain ⟨listed, chosen⟩ := edits.slot_cases changed
    obtain ⟨pointer, size⟩ := StartupView.slot_congr laid agrees listed
    rw [Option.getD_some]
    refine ⟨?_, fun _ => ?_, fun address spares outside => ?_⟩
    · rcases chosen with ⟨found, selected, rfl⟩ | ⟨found, selected, rfl⟩
      · exact (sound.supplementary_slot_ne selected).symm
      · exact (sound.existing_slot_ne selected).symm
    · refine edits.pointer (unused 0 (.inl rfl)) changed (fun address inside => ?_) ?_
      · rw [pointer, size]
        intro text
        exact (unaliased.words _ (.inl ⟨slot, listed, rfl⟩)).not_both text
          (laid.slot_inside listed inside)
      · rw [pointer]
        exact pointers slot listed
    · rw [edits.kept (unused address (.inr spares)) fun other found => ?_, same address spares]
      cases changed.symm.trans found
      rwa [StartupView.holds_congr laid agrees]

/-- What choosing the handover has changed, by the block as it was at the start. The
choice is the one that the block calls for, as its base address has been kept so far. -/
theorem chooseHandover_kept {between : Machine} {slot : Nat}
    (unaliased : process.Unaliased start.memory) (laid : process.Laid)
    (contained : ∀ address, process.Contains start.memory address → spared address)
    (kept : ∀ address, spared address → ¬ process.environment.Holds start.memory slot address →
      between.memory.read address = start.memory.read address)
    (pointer : slot < process.environment.count →
      process.environment.entryAddress between.memory slot ≠ 0)
    (chosen : (chooseHandover process configuration image).value? between = some handover) :
    let after := (chooseHandover process configuration image).last between
    (slot < process.environment.count →
      process.environment.entryAddress after.memory slot ≠ 0) ∧
    ((process.auxiliaryVector.get? start.memory AuxiliaryVector.baseKey = some 0 ∧
        handover = .execute configuration.interpreter.valueAddress process.arguments
          process.environment.slots ∧
        ∀ address, spared address → ¬ process.environment.Holds start.memory slot address →
          after.memory.read address = start.memory.read address) ∨
      (process.auxiliaryVector.get? start.memory AuxiliaryVector.baseKey ≠ some 0 ∧
        handover = .jump image.entryPoint process.stackPointer image ∧
        (∀ i, process.auxiliaryVector.index? start.memory AuxiliaryVector.baseKey = some i →
          process.auxiliaryVector.value after.memory i = image.loadBias) ∧
        ∀ address, spared address → ¬ process.environment.Holds start.memory slot address →
          ¬ process.HoldsBase start.memory address →
            after.memory.read address = start.memory.read address)) := by
  have exact_kept : ∀ address, process.Contains start.memory address →
      ¬ process.environment.Holds start.memory slot address →
        ¬ (False ∧ process.HoldsBase start.memory address) →
          between.memory.read address = start.memory.read address :=
    fun address contains outside _ => kept address (contained address contains) outside
  have base := StartupView.get?_kept unaliased laid exact_kept id AuxiliaryVector.baseKey
  have index := StartupView.index?_kept unaliased laid exact_kept AuxiliaryVector.baseKey
  rcases chooseHandover_cases chosen with ⟨direct, rfl, memory⟩ | ⟨indirect, rfl, memory⟩
  · dsimp only
    rw [memory]
    exact ⟨pointer, .inl ⟨base ▸ direct, rfl, kept⟩⟩
  · dsimp only
    rw [memory]
    refine ⟨fun listed => ?_, .inr ⟨base ▸ indirect, rfl, fun i found => ?_,
      fun address spares outside clear => ?_⟩⟩
    · have stays := pointer listed
      rw [laid.entryAddress_eq] at stays ⊢
      rw [Memory.Agree.readWord fun address inside => laid.read_set between.memory fun i found value => ?_]
      · exact stays
      · have last := StartupView.keyIndex_lt (Nat.le_of_lt (AuxiliaryVector.index?_lt found))
        have clash := StartupView.word_unique unaliased.fits
          (StartupView.slotIndex_lt (Nat.le_of_lt listed)) last inside value
        rw [StartupView.slotIndex, StartupView.keyIndex] at clash
        omega
    · exact AuxiliaryVector.value_set (index.trans found) _
    · rw [laid.read_set between.memory fun i found value => clear ⟨i, index ▸ found, value⟩]
      exact kept address spares outside

end

variable {m : Machine} {stackPointer : UInt64} {handover : Handover}

def Spared (process : StartupView) (before after : Machine) (address : UInt64) : Prop :=
  ¬ Reaches process before address ∧ ¬ before.heap.HandedOut after.heap address

/-- The start-up block is as the system lays it out, where neither building the image reaches
nor the memory is that a run takes, and mapping calls fail if they do not follow the rules. -/
structure Sheltered (m : Machine) (stackPointer : UInt64) : Prop where
  fails : m.kernel.OnlyFails .mmap
  low : m.kernel.arena.InUserSpace
  unaliased : (StartupView.read m.memory stackPointer).Unaliased m.memory
  apart : ∀ address, (StartupView.read m.memory stackPointer).Contains m.memory address →
    ¬ Reaches (.read m.memory stackPointer) m address
  unused : ∀ address, address = 0 ∨
      (StartupView.read m.memory stackPointer).Contains m.memory address →
    ¬ m.heap.HandedOut ((load (.read m.memory stackPointer)).last m).heap address

/-- An ordinary block is sheltered from every image that does not overrun its reservation. -/
theorem Ordinary.sheltered (ordinary : Ordinary m stackPointer)
    (within : ∀ configuration object,
      Accepts (.read m.memory stackPointer) m configuration object →
        ¬ Image.Overruns object configuration.pageSize) : Sheltered m stackPointer where
  fails := ordinary.fails
  low := ordinary.low
  unaliased := ordinary.unaliased
  apart _ := ordinary.not_reaches within
  unused := ordinary.unused

/-- A block that was laid out clear of the image and of the memory that the run takes. -/
theorem Sheltered.of_liesIn {block : StartupBlock} {strings : UInt64}
    (lies : block.LiesIn m.memory stackPointer strings) (fails : m.kernel.OnlyFails .mmap)
    (low : m.kernel.arena.InUserSpace) (image : ClearOfImage block stackPointer strings m)
    (nonnull : m.heap.base ≠ 0)
    (fits : m.heap.base.toNat + ((load (.read m.memory stackPointer)).last m).heap.used ≤
      UInt64.size)
    (heap : block.ClearOf stackPointer strings m.heap.base.toNat
      ((load (.read m.memory stackPointer)).last m).heap.used) : Sheltered m stackPointer where
  fails := fails
  low := low
  unaliased := lies.unaliased
  apart _ := not_reaches_of_liesIn lies low image
  unused _ := not_handedOut_of_liesIn lies nonnull fits heap

section
variable (returned : (load (.read m.memory stackPointer)).value? m = some (.ok handover))
  (sheltered : Sheltered m stackPointer)
include returned sheltered

/-- The slot that a run may have changed, the handover that it has chosen, and the
memory that it has kept. -/
theorem load_kept :
    ∃ configuration image slot,
      Configuration.read m.memory (.read m.memory stackPointer) = .ok configuration ∧
      (fetch configuration).value? m = some (.ok image) ∧
      (load (.read m.memory stackPointer)).last m =
        (settle (.read m.memory stackPointer) configuration image).last
          ((fetch configuration).last m) ∧
      configuration.interpreter.slot ≠ slot ∧
      let process := StartupView.read m.memory stackPointer
      let after := (load process).last m
      process.Framed m.memory after.memory slot ∧
      ((process.auxiliaryVector.get? m.memory AuxiliaryVector.baseKey = some 0 ∧
          handover = .execute configuration.interpreter.valueAddress process.arguments
            process.environment.slots ∧
          ∀ address, Spared process m after address →
            ¬ process.environment.Holds m.memory slot address →
              after.memory.read address = m.memory.read address) ∨
        (process.auxiliaryVector.get? m.memory AuxiliaryVector.baseKey ≠ some 0 ∧
          handover = .jump image.entryPoint process.stackPointer image ∧
          (∀ i, process.auxiliaryVector.index? m.memory AuxiliaryVector.baseKey = some i →
            process.auxiliaryVector.value after.memory i = image.loadBias) ∧
          ∀ address, Spared process m after address →
            ¬ process.environment.Holds m.memory slot address →
              ¬ process.HoldsBase m.memory address →
                after.memory.read address = m.memory.read address)) := by
  obtain ⟨fails, low, unaliased, apart, unused⟩ := sheltered
  obtain ⟨_, _, failed, _⟩ | ⟨configuration, configured, ⟨_, _, failed, _⟩ |
    ⟨image, settled, fetched, ran, outcome, last⟩⟩ := load_cases returned
  · contradiction
  · contradiction
  obtain ⟨rfl⟩ : settled = .ok handover := by
    cases settled with
    | error error => contradiction
    | ok chosen => exact congrArg _ (Except.ok.inj outcome).symm
  -- The block is followed from the start over fetching and handing on to the choice.
  obtain ⟨change, between, edits, grown, chosen, settles⟩ := settle_succeeds ran
  have last := last.trans settles
  have early := (later_fetch configuration m).heap
  have late := (later_chooseHandover (.read m.memory stackPointer) configuration image between).heap
  rw [← last] at late
  have laid := StartupView.laid_read m.memory stackPointer
  have contained : ∀ address, (StartupView.read m.memory stackPointer).Contains m.memory address →
      Spared (.read m.memory stackPointer) m ((load (.read m.memory stackPointer)).last m) address :=
    fun address contains => ⟨apart address contains, unused address (.inr contains)⟩
  obtain ⟨different, pointer, kept⟩ := handOn_kept unaliased laid
    (fun slot => StartupView.entryAddress_ne_zero) (Configuration.sound_of_read configured) contained
    (fun _ spares => fetch_keeps configured fails low spares.1) edits fun address reason handed => by
      rcases reason with rfl | spares
      · exact unused 0 (.inl rfl) (handed.mono early late)
      · exact spares.2 (handed.mono early late)
  obtain ⟨stays, chosen⟩ := chooseHandover_kept unaliased laid contained kept pointer chosen
  rw [← last] at stays chosen
  refine ⟨configuration, image, _, configured, fetched, by rw [last, settles], different.symm,
    StartupView.framed_of_kept unaliased
      (fun address contains outside (clear : ¬ (True ∧ _)) => ?_) stays, chosen⟩
  obtain ⟨_, _, kept⟩ | ⟨_, _, _, kept⟩ := chosen
  · exact kept address (contained address contains) outside
  · exact kept address (contained address contains) outside fun holds => clear ⟨trivial, holds⟩

/-- A run that succeeds changes one slot of the environment and the first base address
of the auxiliary vector at most; nothing else of the block, nor anything behind it. -/
theorem load_hands_over :
    ∃ configuration slot,
      Configuration.read m.memory (.read m.memory stackPointer) = .ok configuration ∧
      (StartupView.read m.memory stackPointer).Framed m.memory
        ((load (.read m.memory stackPointer)).last m).memory slot ∧
      HandsOver (.read m.memory stackPointer) configuration m
        ((load (.read m.memory stackPointer)).last m) handover ∧
      ∀ address, ¬ (StartupView.read m.memory stackPointer).Contains m.memory address →
        ¬ Reaches (.read m.memory stackPointer) m address →
        ¬ m.heap.HandedOut ((load (.read m.memory stackPointer)).last m).heap address →
        ((load (.read m.memory stackPointer)).last m).memory.read address =
          m.memory.read address := by
  obtain ⟨configuration, image, slot, configured, fetched, _, different, framed, chosen⟩ :=
    load_kept returned sheltered
  obtain ⟨_, _, unaliased, apart, unused⟩ := sheltered
  have laid := StartupView.laid_read m.memory stackPointer
  refine ⟨configuration, slot, configured, framed, ?_⟩
  obtain ⟨direct, rfl, kept⟩ | ⟨indirect, rfl, base, kept⟩ := chosen
  · have sound := Configuration.sound_of_read configured
    refine ⟨.execute direct (fun i listed => ?_)
      (framed.string_valueAddress unaliased sound.interpreter.1 different), ?_⟩
    · exact StartupView.value_kept unaliased laid
        (fun address contains outside (_ : ¬ (False ∧ _)) => kept address
          ⟨apart address contains, unused address (.inr contains)⟩ outside)
        listed nofun
    · exact fun address outside far free => kept address ⟨far, free⟩ fun holds =>
        outside (StartupView.contains_of_holds laid holds)
  · obtain ⟨object, opened, built, _⟩ := fetch_succeeds fetched
    obtain ⟨entryPoint, first, listed, lowest, address⟩ := Image.build_anchored built
    refine ⟨.jump indirect opened listed lowest address entryPoint base, ?_⟩
    exact fun address outside far free => kept address ⟨far, free⟩
      (fun holds => outside (StartupView.contains_of_holds laid holds))
      fun holds => outside (StartupView.contains_of_holdsBase holds)

end

def renamingBlock : StartupBlock :=
  ⟨[some (ascii "p")], [ascii "NIX_LD=/ld", ascii "NIX_LD_LIBRARY_PATH=/lib"],
    [(AuxiliaryVector.pageSizeKey, 4096), (AuxiliaryVector.baseKey, 0x7000)]⟩

def renamingMachine : Machine :=
  { directMachine with memory := renamingBlock.place 0x10100000 0x10101000 .zero }

theorem renamingBlock_liesIn :
    renamingBlock.LiesIn renamingMachine.memory 0x10100000 0x10101000 :=
  have fits : renamingBlock.FitsAt 0x10100000 0x10101000 := by decide
  StartupBlock.liesIn_place fits .zero

theorem load_hands_over_renaming :
    let process := StartupView.read renamingMachine.memory 0x10100000
    let handover := .jump 0x10000000 0x10100000 ⟨⟨0x10000000, 0x1000⟩, 0x10000000, 0x10000000⟩
    let after := (load process).last renamingMachine
    (load process).value? renamingMachine = some (.ok handover) ∧
      after.memory.string 0x1010100d = ascii "LD_LIBRARY_PATH=/lib" ∧
      ∃ configuration slot, Configuration.read renamingMachine.memory process = .ok configuration ∧
        process.Framed renamingMachine.memory after.memory slot ∧
        HandsOver process configuration renamingMachine after handover := by
  have returned : (load (.read renamingMachine.memory 0x10100000)).value? renamingMachine =
      some (.ok (.jump 0x10000000 0x10100000 ⟨⟨0x10000000, 0x1000⟩, 0x10000000, 0x10000000⟩)) := by
    decide +kernel
  have used : ((load (.read renamingMachine.memory 0x10100000)).last renamingMachine).heap.used =
      76 := by
    decide +kernel
  have sheltered : Sheltered renamingMachine 0x10100000 := by
    refine .of_liesIn renamingBlock_liesIn (fun _ member => nomatch member) (by decide)
      (by decide +kernel) (by decide) ?_ ?_
    · rw [used]
      decide
    · rw [used]
      decide
  obtain ⟨configuration, slot, configured, framed, handsOver, _⟩ := load_hands_over returned sheltered
  exact ⟨returned, by decide +kernel, configuration, slot, configured, framed, handsOver⟩

/-- The strings of the block are cleared with the page behind the arena, and the run still
hands over. -/
theorem load_hands_over_cleared :
    ¬ ∀ (m : Machine) (stackPointer : UInt64) (handover : Handover), Ordinary m stackPointer →
      (load (.read m.memory stackPointer)).value? m = some (.ok handover) →
      ∃ slot, (StartupView.read m.memory stackPointer).Framed m.memory
        ((load (.read m.memory stackPointer)).last m).memory slot := by
  intro frames
  let m := exposedMachine [ascii "NIX_LD=/ld", ascii "HOME=/"] [overrunRow] []
  have ordinary : Ordinary m 0x20000000 :=
    ordinary_exposed rfl (by decide) (fun _ member => nomatch member) (by decide +kernel)
      (by decide +kernel)
  obtain ⟨slot, framed⟩ := frames m 0x20000000 (.execute 0x1000004c 0x20000008 0x20000018) ordinary
    (by decide +kernel)
  -- Both variables are lost, and only one of them may be another now.
  have first : slot = 0 := by
    by_contra other
    exact absurd (framed.entry 0 (by decide +kernel) (Ne.symm other)) (by decide +kernel)
  exact absurd (framed.entry 1 (by decide +kernel) (by omega)) (by decide +kernel)

end Loader
end ElfRelay
