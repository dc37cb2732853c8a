import ElfRelay.Loader
import ElfRelay.Proofs.Elf.RelocationTables
import ElfRelay.Proofs.Image.Placement
import ElfRelay.Proofs.WordChanges
/-! What relocating the program's own image does to its memory, said in terms of what its
tables hold. They are read while words are changed already, so the words that are changed
have to be apart from them. -/
namespace ElfRelay

open Memory (Apart Spaced WordChange)

namespace Elf

def RelaEntry.change (base : UInt64) (entry : RelaEntry) : WordChange :=
  (entry.target base, fun _ => entry.value base)

/-- The change that a packed table asks for each time it names a word. -/
def addChange (base target : UInt64) : WordChange := (target, fun word => word + base)

section
variable {base : UInt64} {tables : DynamicTables} {m : Memory}

/-- The table that gives values is gone through entry by entry, up to the first one that is
not relative. The entries read are those of the memory at the start, as no change reaches
any of them. -/
theorem applyRelaFrom_eq {entries : List RelaEntry} {table : UInt64} {bound : Nat} (offset : Nat)
    (small : tables.relaSize.toNat < 0x8000000000000000)
    (stored : ∀ i (listed : i < entries.length),
      .stored m (table + (offset + i * tables.relaStride.toNat).toUInt64) = entries[i])
    (apart : ∀ entry ∈ entries, ∀ i < entries.length, Apart (entry.target base) 8
      (table + (offset + i * tables.relaStride.toNat).toUInt64) RelaEntry.size)
    (inside : ∀ i < entries.length,
      offset + i * tables.relaStride.toNat < tables.relaSize.toNat)
    (outside : tables.relaSize.toNat ≤ offset + entries.length * tables.relaStride.toNat)
    (begun : offset = 0 ∨ tables.relaStride.toNat ≤ offset) (fits : offset < UInt64.size)
    (enough : entries.length ≤ bound) :
    applyRelaFrom base table tables bound offset.toUInt64 m =
      ⟨m.changeWords ((entries.takeWhile RelaEntry.isRelative).map (RelaEntry.change base)),
        entries.all RelaEntry.isRelative⟩ := by
  -- On the entries that are left, from the memory in which those before have been applied.
  have place : offset.toUInt64.toNat = offset := Nat.mod_eq_of_lt fits
  induction entries generalizing m bound offset with
  | nil =>
    cases bound with
    | zero => rfl
    | succ bound =>
      rw [applyRelaFrom, if_neg]
      · rfl
      · rw [UInt64.lt_iff_toNat_lt, place]
        simpa using outside
  | cons entry entries ih =>
    obtain ⟨bound, rfl⟩ : ∃ less, bound = less + 1 :=
      ⟨bound - 1, by simp at enough; omega⟩
    have first := stored 0 (Nat.zero_lt_succ _)
    have below := inside 0 (Nat.zero_lt_succ _)
    simp only [Nat.zero_mul, Nat.add_zero, List.getElem_cons_zero] at first below
    obtain ⟨named, typed, added⟩ : entry.offset = m.readWord (table + offset.toUInt64) ∧
        entry.info = m.readWord (table + offset.toUInt64 + 8) ∧
        entry.addend = m.readWord (table + offset.toUInt64 + 16) := by
      rw [← first]
      exact ⟨rfl, rfl, rfl⟩
    rw [applyRelaFrom, if_pos (UInt64.lt_iff_toNat_lt.mpr (by rw [place]; exact below))]
    dsimp only
    rw [← named, ← typed, ← added]
    by_cases relative : entry.isRelative = true
    · rw [if_pos (by simpa [RelaEntry.isRelative] using relative)]
      have next : offset.toUInt64 + tables.relaStride =
          (offset + tables.relaStride.toNat).toUInt64 := by
        apply UInt64.toNat.inj
        simp [Nat.toUInt64]
      have stride := tables.relaStride.toNat_lt
      have fits' : offset + tables.relaStride.toNat < UInt64.size := by
        simp only [UInt64.size] at *
        omega
      have shift (i : Nat) : offset + tables.relaStride.toNat + i * tables.relaStride.toNat =
          offset + (i + 1) * tables.relaStride.toNat := by
        rw [Nat.succ_mul]
        omega
      rw [next, ih, List.takeWhile_cons_of_pos relative, List.all_cons, relative]
      · rfl
      -- The entries behind are read after this change, which reaches none of them.
      · intro i listed
        rw [shift, RelaEntry.stored_congr (m := m), stored (i + 1) (by simpa using listed)]
        · rfl
        · exact Memory.agree_changeWords m [entry.change base] fun target member => by
            obtain rfl := List.mem_singleton.mp member
            exact apart entry List.mem_cons_self (i + 1) (by simpa using listed)
      · intro other member i listed
        rw [shift]
        exact apart other (List.mem_cons_of_mem _ member) (i + 1) (by simpa using listed)
      · intro i listed
        rw [shift]
        exact inside (i + 1) (by simpa using listed)
      · rw [shift]
        exact outside
      · exact .inr (Nat.le_add_left _ _)
      · exact fits'
      · simpa using enough
      · exact Nat.mod_eq_of_lt fits'
    · rw [if_neg (by simpa [RelaEntry.isRelative] using relative),
        List.takeWhile_cons_of_neg relative]
      simp [relative]

theorem applyBitmap_eq (position entry : UInt64) : applyBitmap base position entry m =
    m.changeWords ((bitmapTargets position entry).map (addChange base)) := by
  rw [applyBitmap, bitmapTargets, Memory.changeWords, List.foldl_map, List.foldl_map,
    List.foldl_filter]
  rfl

/-- The packed table is gone through entry by entry, all of which are read as they were. -/
theorem applyRelrFrom_eq {words : List UInt64} {table position : UInt64}
    (stored : ∀ i (listed : i < words.length), m.wordAt table i = words[i])
    (apart : ∀ target ∈ packedTargets base position words, ∀ i < words.length,
      Apart target 8 (table + 8 * i.toUInt64) 8) :
    applyRelrFrom base words.length table position m =
      m.changeWords ((packedTargets base position words).map (addChange base)) := by
  induction words generalizing m table position with
  | nil => rfl
  | cons entry words ih =>
    have first : m.readWord table = entry := by
      have first := stored 0 (Nat.zero_lt_succ _)
      simpa [Memory.wordAt] using first
    have shift (i : Nat) : table + 8 + 8 * i.toUInt64 = table + 8 * (i + 1).toUInt64 := by
      simp only [Nat.toUInt64, UInt64.ofNat_add]
      grind
    -- The entries behind the first one are still there after its changes.
    have kept (changes : List WordChange)
        (among : ∀ target ∈ changes.map Prod.fst, target ∈ packedTargets base position (entry :: words))
        (i : Nat) (listed : i < words.length) :
        (m.changeWords changes).wordAt (table + 8) i = words[i] := by
      rw [Memory.wordAt, shift, Memory.Agree.readWord (m := m)]
      · exact stored (i + 1) (by simpa using listed)
      · exact Memory.agree_changeWords m _ fun target member =>
          apart target (among target member) (i + 1) (by simpa using listed)
    have later {targets : List UInt64}
        (among : ∀ target ∈ targets, target ∈ packedTargets base position (entry :: words)) :
        ∀ target ∈ targets, ∀ i < words.length, Apart target 8 (table + 8 + 8 * i.toUInt64) 8 := by
      intro target member i listed
      rw [shift]
      exact apart target (among target member) (i + 1) (by simpa using listed)
    rw [List.length_cons, applyRelrFrom, first]
    by_cases even : entry &&& 1 = 0
    · have targets : packedTargets base position (entry :: words) =
          (base + entry) :: packedTargets base (base + entry + 8) words := if_pos even
      rw [if_pos even, targets, List.map_cons, Memory.changeWords_cons]
      refine ih (kept [addChange base (base + entry)] fun target member => ?_)
        (later fun target member => ?_)
      · rw [targets, List.mem_singleton.mp member]
        exact List.mem_cons_self
      · rw [targets]
        exact List.mem_cons_of_mem _ member
    · have targets : packedTargets base position (entry :: words) = bitmapTargets position entry ++
          packedTargets base (position + 8 * bitmapWords.toUInt64) words := if_neg even
      rw [if_neg even, targets, List.map_append, Memory.changeWords_append, applyBitmap_eq]
      refine ih (kept _ fun target member => ?_) (later fun target member => ?_)
      · rw [targets]
        refine List.mem_append_left _ ?_
        simpa [addChange, Function.comp_def] using member
      · rw [targets]
        exact List.mem_append_right _ member

end

namespace DynamicTables

def targets (tables : DynamicTables) (base : UInt64) (m : Memory) : List UInt64 :=
  (tables.relaEntries base m).map (RelaEntry.target base) ++
    packedTargets base 0 (tables.relrWords base m)

/-- Tables that can be read and that no change to a word which they name reaches; these words
are the same or have no byte in common. -/
structure Undisturbed (tables : DynamicTables) (base : UInt64) (m : Memory) : Prop where
  readable : tables.rela ≠ 0 → Region.InUserSpace ⟨base + tables.rela, tables.relaSize⟩
  rela : ∀ target ∈ tables.targets base m, ∀ i < (tables.relaEntries base m).length,
    Apart target 8 (tables.relaPlace base i) RelaEntry.size
  relr : ∀ target ∈ tables.targets base m, ∀ i < (tables.relrWords base m).length,
    Apart target 8 (base + tables.relr + 8 * i.toUInt64) 8
  spaced : ∀ address ∈ tables.targets base m, Spaced (tables.targets base m) address

end DynamicTables

/-- Memory after some entries of the first table and the packed table have been applied: a
word that they name has the value of the last entry naming it, or else the one it had, and on
top of it the base as often as the packed table names it. Every byte outside is as before. -/
structure Relocates (base : UInt64) (entries : List RelaEntry) (named : List UInt64)
    (before after : Memory) : Prop where
  target : ∀ address ∈ entries.map (RelaEntry.target base) ++ named, after.readWord address =
    ((entries.filter (·.target base = address)).getLast?.map (RelaEntry.value base)).getD
      (before.readWord address) + base * (named.count address).toUInt64
  other : ∀ address, (∀ target ∈ entries.map (RelaEntry.target base) ++ named,
    ¬ (address - target).toNat < 8) → after.read address = before.read address

theorem relocates_changeWords (base : UInt64) (entries : List RelaEntry) (named : List UInt64)
    (m : Memory) (spaced : ∀ address ∈ entries.map (RelaEntry.target base) ++ named,
      Spaced (entries.map (RelaEntry.target base) ++ named) address) :
    Relocates base entries named m
      (m.changeWords (entries.map (RelaEntry.change base) ++ named.map (addChange base))) := by
  have targets : (entries.map (RelaEntry.change base) ++ named.map (addChange base)).map Prod.fst =
      entries.map (RelaEntry.target base) ++ named := by
    simp [Function.comp_def, RelaEntry.change, addChange]
  constructor
  · intro address member
    have values : (entries.map (RelaEntry.change base)).filter (·.1 = address) =
        (entries.filter (·.target base = address)).map (RelaEntry.change base) := List.filter_map
    have additions : (named.map (addChange base)).filter (·.1 = address) =
        (named.filter (· = address)).map (addChange base) := List.filter_map
    have replaced (list : List RelaEntry) (word : UInt64) :
        list.foldl (fun word entry => (entry.change base).2 word) word =
          (list.getLast?.map (RelaEntry.value base)).getD word := by
      rw [← List.getLast?_map, ← Memory.foldl_replace, List.foldl_map]
      rfl
    have counted : (named.filter (· = address)).length = named.count address := by
      rw [List.count_eq_length_filter]
      simp [beq_eq_decide]
    rw [Memory.readWord_changeWords m (by rw [targets]; exact spaced address member),
      List.filter_append, List.foldl_append, values, additions, List.foldl_map, List.foldl_map,
      replaced, ← counted]
    exact Memory.foldl_add _ base _
  · intro address outside
    exact Memory.read_changeWords_outside m (by rw [targets]; exact outside)

section
variable {base dynamic : UInt64} {tables : DynamicTables} {m : Memory}

theorem applyRela_eq (undisturbed : tables.Undisturbed base m) (present : tables.rela ≠ 0)
    (nonzero : tables.relaStride ≠ 0) :
    applyRela base tables m =
      ⟨m.changeWords (((tables.relaEntries base m).takeWhile RelaEntry.isRelative).map
        (RelaEntry.change base)), (tables.relaEntries base m).all RelaEntry.isRelative⟩ := by
  have entries : tables.relaEntries base m = (List.range tables.relaCount).map fun i =>
      .stored m (tables.relaPlace base i) := if_neg present
  have length : (tables.relaEntries base m).length = tables.relaCount := by simp [entries]
  have low := undisturbed.readable present
  simp only [Region.InUserSpace] at low
  have ends := mt (tables.lt_relaCount nonzero tables.relaCount).mpr (Nat.lt_irrefl _)
  have whole : tables.relaCount ≤ tables.relaSize.toNat := by
    refine Nat.not_lt.mp fun more => ?_
    have positive : 0 < tables.relaStride.toNat :=
      Nat.pos_of_ne_zero fun zero => nonzero (UInt64.toNat.inj zero)
    have below := (tables.lt_relaCount nonzero tables.relaSize.toNat).mp more
    exact absurd below (Nat.not_lt.mpr (Nat.le_mul_of_pos_right _ positive))
  rw [applyRela, if_neg nonzero]
  refine applyRelaFrom_eq 0 (by omega) (fun i listed => ?_)
    (fun entry member i listed => ?_) (fun i listed => ?_) ?_ (.inl rfl) (by decide) ?_
  · simp only [entries, List.getElem_map, List.getElem_range, Nat.zero_add]
    rfl
  · rw [Nat.zero_add]
    refine undisturbed.rela _ (List.mem_append_left _ (List.mem_map_of_mem member)) i listed
  · rw [Nat.zero_add]
    exact (tables.lt_relaCount nonzero i).mp (by rw [← length]; exact listed)
  · rw [length]
    omega
  · rw [length]
    exact whole

theorem applyRelr_eq {changes : List WordChange} (undisturbed : tables.Undisturbed base m)
    (present : tables.relr ≠ 0)
    (among : ∀ target ∈ changes.map Prod.fst, target ∈ tables.targets base m) :
    applyRelr base tables (m.changeWords changes) = m.changeWords (changes ++
      (packedTargets base 0 (tables.relrWords base m)).map (addChange base)) := by
  have words : tables.relrWords base m =
      (List.range (tables.relrSize.toNat / 8)).map fun i => m.wordAt (base + tables.relr) i :=
    if_neg present
  have length : tables.relrSize.toNat / 8 = (tables.relrWords base m).length := by simp [words]
  rw [applyRelr, length, Memory.changeWords_append]
  refine applyRelrFrom_eq (fun i listed => ?_) fun target member i listed => ?_
  · rw [Memory.wordAt, Memory.Agree.readWord (m := m)]
    · simp [words, Memory.wordAt]
    · exact Memory.agree_changeWords m _ fun target member =>
        undisturbed.relr target (among target member) i listed
  · exact undisturbed.relr target (List.mem_append_right _ member) i listed

/-- The tables of an image without entries that are of another kind are applied one after the
other, the second one only if every entry of the first is relative. -/
theorem relocate_eq (found : lastDynamic m base = some dynamic) (nonnull : dynamic ≠ 0)
    (read : DynamicTables.read m dynamic = tables) (supported : tables.hasUnsupported = false)
    (undisturbed : tables.Undisturbed base m)
    (strided : tables.rela = 0 ∨ tables.relaStride ≠ 0) :
    let entries := tables.relaEntries base m
    relocate base m =
      if entries.all RelaEntry.isRelative then
        ⟨m.changeWords (entries.map (RelaEntry.change base) ++
          (packedTargets base 0 (tables.relrWords base m)).map (addChange base)), true⟩
      else
        ⟨m.changeWords ((entries.takeWhile RelaEntry.isRelative).map (RelaEntry.change base)),
          false⟩ := by
  have first : (if tables.rela = 0 then ⟨m, true⟩ else applyRela base tables m) =
      (⟨m.changeWords (((tables.relaEntries base m).takeWhile RelaEntry.isRelative).map
        (RelaEntry.change base)), (tables.relaEntries base m).all RelaEntry.isRelative⟩ :
        Relocated) := by
    by_cases present : tables.rela = 0
    · simp [present, DynamicTables.relaEntries]
    · rw [if_neg present, applyRela_eq undisturbed present (strided.resolve_left present)]
  simp only [relocate, dynamicAddress_eq, found, if_neg nonnull, read, supported, first]
  by_cases relative : (tables.relaEntries base m).all RelaEntry.isRelative = true
  · have whole : (tables.relaEntries base m).takeWhile RelaEntry.isRelative =
        tables.relaEntries base m := List.takeWhile_eq_self_iff.mpr (List.all_eq_true.mp relative)
    simp only [relative, whole]
    by_cases present : tables.relr = 0
    · simp [present, DynamicTables.relrWords, packedTargets]
    · rw [applyRelr_eq undisturbed present]
      · simp [present]
      · intro target member
        refine List.mem_append_left _ ?_
        simpa [Function.comp_def, RelaEntry.change] using member
  · simp [relative]

/-- Relocations of another kind, or entries of no size, are found before anything is changed. -/
theorem relocate_refused (found : lastDynamic m base = some dynamic) (nonnull : dynamic ≠ 0)
    (read : DynamicTables.read m dynamic = tables)
    (reason : tables.hasUnsupported = true ∨ tables.rela ≠ 0 ∧ tables.relaStride = 0) :
    relocate base m = ⟨m, false⟩ := by
  simp only [relocate, dynamicAddress_eq, found, if_neg nonnull, read]
  cases unsupported : tables.hasUnsupported with
  | true => rfl
  | false =>
    rw [unsupported] at reason
    obtain ⟨present, zero⟩ := reason.resolve_left nofun
    simp [present, applyRela, zero]

section
variable (found : lastDynamic m base = some dynamic) (nonnull : dynamic ≠ 0)
  (read : DynamicTables.read m dynamic = tables) (supported : tables.hasUnsupported = false)
  (undisturbed : tables.Undisturbed base m)
  (strided : tables.rela = 0 ∨ tables.relaStride ≠ 0)
include found nonnull read supported undisturbed strided

theorem relocate_stops {earlier rest : List RelaEntry} {entry : RelaEntry}
    (split : tables.relaEntries base m = earlier ++ entry :: rest)
    (relative : ∀ other ∈ earlier, other.isRelative = true) (other : entry.isRelative = false) :
    (relocate base m).complete = false ∧
      Relocates base earlier [] m (relocate base m).memory := by
  have broken : (tables.relaEntries base m).all RelaEntry.isRelative = false := by
    simp [split, other]
  have leading : (tables.relaEntries base m).takeWhile RelaEntry.isRelative = earlier := by
    rw [split, List.takeWhile_append_of_pos relative,
      List.takeWhile_cons_of_neg (by simp [other]), List.append_nil]
  have among : ∀ address ∈ earlier.map (RelaEntry.target base) ++ [],
      address ∈ tables.targets base m := by
    intro address member
    rw [List.append_nil] at member
    rw [DynamicTables.targets, split, List.map_append]
    exact List.mem_append_left _ (List.mem_append_left _ member)
  have done := relocate_eq found nonnull read supported undisturbed strided
  simp only [broken, leading] at done
  rw [done]
  refine ⟨rfl, ?_⟩
  have written := relocates_changeWords base earlier [] m fun address member target listed =>
    undisturbed.spaced address (among address member) target (among target listed)
  simpa using written

theorem relocate_completes
    (relative : ∀ entry ∈ tables.relaEntries base m, entry.isRelative = true) :
    (relocate base m).complete = true ∧
      Relocates base (tables.relaEntries base m) (packedTargets base 0 (tables.relrWords base m))
        m (relocate base m).memory := by
  have done := relocate_eq found nonnull read supported undisturbed strided
  simp only [List.all_eq_true.mpr relative, if_true] at done
  rw [done]
  exact ⟨rfl, relocates_changeWords base _ _ m undisturbed.spaced⟩

end

end

end Elf

namespace Loader

open Elf (DynamicTables HoldsItems RelaEntry Relocates lastDynamic packedTargets)

variable {base : UInt64} {m : Machine}

/-- Relocating the own image returns if all of it could be done, and aborts if not. -/
theorem relocateOwnImage_cases (base : UInt64) (m : Machine) :
    ((relocateOwnImage base).last m).memory = (Elf.relocate base m.memory).memory ∧
      if (Elf.relocate base m.memory).complete then
        (relocateOwnImage base).value? m = some () ∧
          (relocateOwnImage base).last m = { m with memory := (Elf.relocate base m.memory).memory }
      else (relocateOwnImage base).ending? m = some .aborted := by
  simp only [relocateOwnImage, Program.value?_bind, Program.last_bind, Program.ending?_bind,
    Program.value?_inspect, Program.last_inspect, Program.value?_changeMemory,
    Program.last_changeMemory, Option.bind_some]
  cases (Elf.relocate base m.memory).complete with
  | true => exact ⟨rfl, rfl, rfl⟩
  | false => exact ⟨(Program.within_abort Machine.Wrote.kept _).memory, rfl⟩

/-- Relocating the own image does what its headers, its dynamic array and its tables say. -/
theorem relocateOwnImage_exact (base : UInt64) (m : Machine) :
    (lastDynamic m.memory base = none →
      (relocateOwnImage base).value? m = some () ∧ (relocateOwnImage base).last m = m) ∧
    ∀ dynamic items, lastDynamic m.memory base = some dynamic → dynamic ≠ 0 →
      HoldsItems m.memory dynamic items →
      let tables := DynamicTables.named items
      let entries := tables.relaEntries base m.memory
      let named := packedTargets base 0 (tables.relrWords base m.memory)
      let after := ((relocateOwnImage base).last m).memory
      (17 ∈ items.map Prod.fst →
        (relocateOwnImage base).ending? m = some .aborted ∧ after = m.memory) ∧
      (17 ∉ items.map Prod.fst → tables.rela ≠ 0 → tables.relaStride = 0 →
        (relocateOwnImage base).ending? m = some .aborted ∧ after = m.memory) ∧
      (17 ∉ items.map Prod.fst → tables.rela = 0 ∨ tables.relaStride ≠ 0 →
        tables.Undisturbed base m.memory →
        (∀ earlier entry rest, entries = earlier ++ entry :: rest →
          (∀ other ∈ earlier, other.isRelative = true) → entry.isRelative = false →
          (relocateOwnImage base).ending? m = some .aborted ∧
            Relocates base earlier [] m.memory after) ∧
        ((∀ entry ∈ entries, entry.isRelative = true) →
          (relocateOwnImage base).value? m = some () ∧
            Relocates base entries named m.memory after)) := by
  obtain ⟨memory, ends⟩ := relocateOwnImage_cases base m
  refine ⟨fun none => ?_, fun dynamic items found nonnull holds => ?_⟩
  · have unchanged : Elf.relocate base m.memory = ⟨m.memory, true⟩ := by
      rw [Elf.relocate, Elf.dynamicAddress_eq, none]
    simpa [unchanged] using ends
  · intro tables entries named after
    have read : DynamicTables.read m.memory dynamic = tables := holds.read
    have tag : tables.hasUnsupported = true ↔ 17 ∈ items.map Prod.fst := by
      simp [tables, DynamicTables.named]
    have aborts (reason : tables.hasUnsupported = true ∨ tables.rela ≠ 0 ∧ tables.relaStride = 0) :
        (relocateOwnImage base).ending? m = some .aborted ∧ after = m.memory := by
      have refused := Elf.relocate_refused found nonnull read reason
      simpa [refused, after, memory] using ends
    refine ⟨fun unsupported => aborts (.inl (tag.mpr unsupported)),
      fun _ present zero => aborts (.inr ⟨present, zero⟩),
      fun supported strided undisturbed => ⟨fun earlier entry rest split relative other => ?_,
        fun relative => ?_⟩⟩
    all_goals have supported : tables.hasUnsupported = false := by simpa [← tag] using supported
    · obtain ⟨broken, relocates⟩ := Elf.relocate_stops found nonnull read supported undisturbed
        strided split relative other
      rw [broken] at ends
      exact ⟨by simpa using ends, by rwa [← memory] at relocates⟩
    · obtain ⟨whole, relocates⟩ := Elf.relocate_completes found nonnull read supported undisturbed
        strided relative
      rw [whole, if_pos rfl] at ends
      exact ⟨ends.1, by rwa [← memory] at relocates⟩

/-- An image whose first table gives a value to a word that the packed table names too,
together with the word behind it. -/
def relocatableMachine : Machine where
  memory := Memory.zero
    |>.writeWord 0x10020 64
    |>.writeBytes 0x10036 [56, 0, 1, 0]
    |>.writeBytes 0x10040 (Elf.ProgramHeader.mk Elf.ProgramHeader.dynamic 0 0 0x100 0 0 0 0).encode
    |>.writeWords 0x10100 [7, 0x200, 8, 24, 36, 0x300, 35, 16, 0]
    |>.writeWords 0x10200 [0x400, 8, 5]
    |>.writeWords 0x10300 [0x400, 3]
    |>.writeWords 0x10400 [1, 7]
  kernel := .initial (fun _ => none) [] ⟨0x10000000, 0x100000⟩
  heap := .empty 0 none
  logFilter := none

def relocatableItems : List (UInt64 × UInt64) := [(7, 0x200), (8, 24), (36, 0x300), (35, 16)]

theorem relocateOwnImage_exact_relocatable :
    let after := ((relocateOwnImage 0x10000).last relocatableMachine).memory
    (relocateOwnImage 0x10000).value? relocatableMachine = some () ∧
      after.readWord 0x10400 = 0x10000 + 5 + 0x10000 ∧ after.readWord 0x10408 = 7 + 0x10000 := by
  have found : lastDynamic relocatableMachine.memory 0x10000 = some 0x10100 := by decide +kernel
  have holds : HoldsItems relocatableMachine.memory 0x10100 relocatableItems :=
    ⟨by decide, by decide +kernel, List.forall_iff_forall_mem.mp (by decide), by decide +kernel⟩
  have entries : (DynamicTables.named relocatableItems).relaEntries 0x10000
      relocatableMachine.memory = [⟨0x400, 8, 5⟩] := by decide +kernel
  have words : (DynamicTables.named relocatableItems).relrWords 0x10000
      relocatableMachine.memory = [0x400, 3] := by decide +kernel
  have named : packedTargets 0x10000 0 [0x400, 3] = [0x10400, 0x10408] := rfl
  have targets : (DynamicTables.named relocatableItems).targets 0x10000
      relocatableMachine.memory = [0x10400, 0x10400, 0x10408] := by
    rw [DynamicTables.targets, entries, words, named]
    rfl
  have undisturbed : (DynamicTables.named relocatableItems).Undisturbed 0x10000
      relocatableMachine.memory := by
    constructor
    · decide +kernel
    · rw [entries, targets]
      exact List.forall_iff_forall_mem.mp (by decide +kernel)
    · rw [words, targets]
      exact List.forall_iff_forall_mem.mp (by decide +kernel)
    · rw [targets]
      simp [Spaced, Apart]
  obtain ⟨_, _, applied⟩ := (relocateOwnImage_exact 0x10000 relocatableMachine).2 _ _ found
    (by decide) holds
  obtain ⟨returned, relocates⟩ := (applied (by decide) (.inr (by decide)) undisturbed).2
    (by rw [entries]; simp; rfl)
  rw [entries, words, named] at relocates
  refine ⟨returned, ?_, ?_⟩
  · rw [relocates.target 0x10400 (by decide)]
    decide +kernel
  · rw [relocates.target 0x10408 (by decide)]
    decide +kernel

end Loader
end ElfRelay
