import ElfRelay.Proofs.Loader.HeapUse
import ElfRelay.Proofs.Loader.LimitedRun
import ElfRelay.Proofs.Loader.MutedPhases
/-! Two runs on blocks that differ in the log level alone. They make the same calls other than
writes, leave the same block behind and end in the same way, with the same diagnostic if any,
however much either of them has logged. -/
namespace ElfRelay

open Program (Alike muting run_bind_ok run_bind_error)
open Machine (Later)

theorem LibraryPath.Change.text_bare (configuration : Configuration) (change : Change) :
    change.text configuration.bare = change.text configuration := by
  cases change <;> simp [text, Configuration.bare, Function.comp_def]

namespace Loader

open LibraryPath (handOn)

variable {m n : Machine} {configuration twin : Configuration} {process : StartupView}
  {image : Image} {programName : Bytes}

namespace Secluded

variable {change : LibraryPath.Change} {based : Prop} {last : Memory}
  (secluded : Secluded process m)
  (configured : Configuration.read m.memory process = .ok configuration)
include secluded configured

theorem fetched (address : UInt64) (contains : process.Contains m.memory address) :
    ((fetch configuration).last m).memory.read address = m.memory.read address :=
  fetch_keeps configured secluded.fails secluded.low (secluded.apart address contains)

theorem sound (viewed : StartupView.read m.memory process.stackPointer = process) :
    configuration.Sound process.environment ((fetch configuration).last m).memory := by
  have laid : process.Laid := viewed ▸ StartupView.laid_read m.memory process.stackPointer
  exact (Configuration.sound_of_read configured).congr (laid.get?_congr fun address owned =>
    secluded.fetched configured address (StartupView.contains_of_owns owned))

variable (fetched : (fetch configuration).value? m = some (.ok image))
include fetched

theorem unused_handOn {address : UInt64}
    (reason : address = 0 ∨ process.Contains m.memory address) :
    ¬ ((fetch configuration).last m).heap.HandedOut ((handOn configuration process.environment).last
      ((fetch configuration).last m)).heap address := by
  intro handed
  have late : Later ((handOn configuration process.environment).last ((fetch configuration).last m))
      ((load process).last m) := by
    rw [last_load, configured]
    dsimp only
    rw [loadWith_eq, Program.last_bind_of_value _ fetched]
    refine Program.Within.rest (fun handed => ?_) _
    cases handed with
    | error error => exact .bind (Region.within_release Later.maps _) fun _ => .pure _
    | ok change => exact .bind (later_chooseHandover _ _ _) fun _ => .pure _
  exact secluded.unused reason (handed.mono (later_fetch configuration m).heap late.heap)

theorem handedOn (viewed : StartupView.read m.memory process.stackPointer = process)
    (handed : (handOn configuration process.environment).value? ((fetch configuration).last m) =
      some (.ok change))
    (kept : ∀ address, ¬ (based ∧ process.HoldsBase m.memory address) → last.read address =
      ((handOn configuration process.environment).last ((fetch configuration).last m)).memory.read
        address) : HandedOn process configuration change based m.memory last :=
  handedOn_of_edits viewed secluded.unaliased (Configuration.sound_of_read configured)
    (secluded.fetched configured) (LibraryPath.handOn_succeeds handed)
    (fun _ => secluded.unused_handOn configured fetched) kept

end Secluded

def runWith (process : StartupView) (configuration : Configuration) (programName : Bytes) :
    Program Empty := do
  match ← fetch configuration with
  | .error error => fail (configuration.diagnostic error)
  | .ok image =>
    match ← handOn configuration process.environment with
    | .error error =>
      image.region.release
      fail (configuration.diagnostic error)
    | .ok _ => chooseHandover process configuration image >>= finish programName

theorem run_eq_runWith (configured : Configuration.read m.memory process = .ok configuration)
    (viewed : StartupView.read m.memory process.stackPointer = process) :
    run process.stackPointer m =
      runWith process configuration (process.programName m.memory) (quiet m) := by
  rw [run_eq, viewed, configured]
  dsimp only
  rw [loadWith_eq, bind_assoc, runWith]
  refine congrFun (congrArg _ (funext fun fetched => ?_)) _
  cases fetched with
  | error error => rw [pure_bind]
  | ok image =>
    dsimp only
    rw [settle, bind_assoc]
    refine congrArg _ (funext fun handed => ?_)
    cases handed <;> simp only [bind_assoc, pure_bind]

variable {based : Prop} {last final : Memory} {change : LibraryPath.Change}

/-- Two blocks remain the same when the library path is handed on to both, and when the same
base address is entered into both then. -/
theorem sameBlock_handOn (block : process.SameBlock m.memory n.memory)
    (one : Secluded process m) (two : Secluded process n)
    (configured : Configuration.read m.memory process = .ok configuration)
    (reconfigured : Configuration.read n.memory process = .ok twin)
    (bare : twin.bare = configuration.bare)
    (fetched : (fetch configuration).value? m = some (.ok image))
    (refetched : (fetch twin).value? n = some (.ok image))
    (handed : (handOn configuration process.environment).value? ((fetch configuration).last m) =
      some (.ok change))
    (rehanded : (handOn twin process.environment).value? ((fetch twin).last n) = some (.ok change)) :
    let after := (handOn configuration process.environment).last ((fetch configuration).last m)
    let other := (handOn twin process.environment).last ((fetch twin).last n)
    process.SameBlock after.memory other.memory ∧
      other.memory.string twin.interpreter.valueAddress =
        after.memory.string configuration.interpreter.valueAddress ∧
      ∀ base, process.SameBlock
        (process.auxiliaryVector.set after.memory AuxiliaryVector.baseKey base)
        (process.auxiliaryVector.set other.memory AuxiliaryVector.baseKey base) := by
  intro after other
  have laid : process.Laid := block.first ▸ StartupView.laid_read m.memory process.stackPointer
  have text : change.text twin = change.text configuration := by
    rw [← LibraryPath.Change.text_bare, bare, LibraryPath.Change.text_bare]
  have first : HandedOn process configuration change False m.memory after.memory :=
    one.handedOn configured fetched block.first handed fun _ _ => rfl
  have second : HandedOn process twin change False n.memory other.memory :=
    two.handedOn reconfigured refetched block.second rehanded fun _ _ => rfl
  have path : twin.interpreter.value = configuration.interpreter.value :=
    (Variable.eq_of_bare (congrArg Configuration.interpreter bare)).2.2
  refine ⟨?_, by rw [first.path, second.path, path], fun base => ?_⟩
  · refine block.edited first.framed second.framed (fun listed => ?_) fun i found => ?_
    · rw [first.entry listed, second.entry listed, text]
    · have listed := AuxiliaryVector.index?_lt found
      rw [first.values id i (Nat.le_of_lt listed), second.values id i (Nat.le_of_lt listed),
        block.values i listed]
  -- The base address is entered after the edit, into the same pair on both sides.
  · have patched : HandedOn process configuration change True m.memory
        (process.auxiliaryVector.set after.memory AuxiliaryVector.baseKey base) :=
      one.handedOn configured fetched block.first handed fun _ clear =>
        first.framed.read_set laid fun holds => clear ⟨trivial, holds⟩
    have repatched : HandedOn process twin change True n.memory
        (process.auxiliaryVector.set other.memory AuxiliaryVector.baseKey base) :=
      two.handedOn reconfigured refetched block.second rehanded fun _ clear =>
        second.framed.read_set laid fun holds => clear ⟨trivial, holds⟩
    refine block.edited patched.framed repatched.framed (fun listed => ?_) fun i found => ?_
    · rw [patched.entry listed, repatched.entry listed, text]
    · rw [AuxiliaryVector.value_set ((first.framed.index?_eq _).trans found),
        AuxiliaryVector.value_set ((second.framed.index?_eq _).trans ((block.index?_eq _).trans found))]

theorem runWith_ends_alike (beside : Machine.Beside m n m n)
    (modest : m.kernel.OnlyFails .write) (shy : n.kernel.OnlyFails .write)
    (block : process.SameBlock m.memory n.memory)
    (one : Secluded process m) (two : Secluded process n)
    (configured : Configuration.read m.memory process = .ok configuration)
    (reconfigured : Configuration.read n.memory process = .ok twin)
    (bare : twin.bare = configuration.bare) :
    EndsAlike process m n (runWith process configuration programName m)
      (runWith process twin programName n) := by
  have report : twin.diagnostic = configuration.diagnostic :=
    (congrArg Configuration.diagnostic bare :)
  have kept := block.kept one.unaliased two.unaliased (one.fetched configured)
    (two.fetched reconfigured)
  have fetches : Alike (muting m n (Eq .aborted)) (fetch configuration m) (fetch twin n) :=
    mirrors_fetch modest shy rfl bare _ _ beside
  rw [runWith, runWith, report]
  obtain ⟨reached, ⟨fetched, first, second⟩ | ⟨ending, rfl, first, second⟩⟩ := fetches.cases
  · rw [run_bind_ok first, run_bind_ok second]
    cases fetched with
    | error error => exact .reported _ reached kept
    | ok image =>
      have hands : Alike (muting m n fun _ => False)
          (handOn configuration process.environment ((fetch configuration).last m))
          (handOn twin process.environment ((fetch twin).last n)) :=
        LibraryPath.handOn_alike modest shy reached bare (one.sound configured block.first)
          (two.sound reconfigured block.second)
      obtain ⟨reached, ⟨handed, third, fourth⟩ | ⟨_, never, _⟩⟩ := hands.cases
      · dsimp only
        rw [run_bind_ok third, run_bind_ok fourth]
        cases handed with
        | error error =>
          refine .bind (Program.mirrors_release image.region _ _ reached) fun _ reached =>
            .reported _ reached ?_
          have released (m : Machine) : (image.region.release.last m).memory = m.memory := rfl
          rwa [released, released, LibraryPath.handOn_fails (Program.value?_of_eq_ok third),
            LibraryPath.handOn_fails (Program.value?_of_eq_ok fourth)]
        | ok change =>
          obtain ⟨same, path, patched⟩ := sameBlock_handOn block one two configured reconfigured
            bare (Program.value?_of_eq_ok first) (Program.value?_of_eq_ok second)
            (Program.value?_of_eq_ok third) (Program.value?_of_eq_ok fourth)
          exact conclude_alike modest shy reached same path (patched image.loadBias)
      · exact never.elim
  · rw [run_bind_error first, run_bind_error second]
    exact .ended nofun reached kept

theorem fail_ending {diagnostic : Diagnostic} (fails : m.kernel.OnlyFails .write) :
    (fail diagnostic : Program Empty).ending? m = some (.exited 1) := by
  rw [fail, Program.ending?_bind, Program.value?_writePieces fails]
  rfl

theorem run_ends_alike (kernels : m.kernel.Beside n.kernel) (heap : n.heap = m.heap)
    (modest : m.kernel.OnlyFails .write) (shy : n.kernel.OnlyFails .write)
    (block : process.SameBlock m.memory n.memory)
    (one : Secluded process (quiet m)) (two : Secluded process (quiet n)) :
    EndsAlike process (quiet m) (quiet n) (run process.stackPointer m)
      (run process.stackPointer n) := by
  have beside : Machine.Beside (quiet m) (quiet n) (quiet m) (quiet n) :=
    ⟨kernels, heap, refl_of Later _, refl_of Later _⟩
  have same := block.configuration_eq
  cases configured : Configuration.read m.memory process with
  | error error =>
    cases reconfigured : Configuration.read n.memory process with
    | error other =>
      rw [configured, reconfigured] at same
      cases same
      rw [run_eq, run_eq, block.first, block.second, configured, reconfigured]
      dsimp only
      rw [block.programName_eq]
      exact .reported _ beside block
    | ok twin =>
      rw [configured, reconfigured] at same
      cases same
  | ok configuration =>
    cases reconfigured : Configuration.read n.memory process with
    | error error =>
      rw [configured, reconfigured] at same
      cases same
    | ok twin =>
      rw [configured, reconfigured] at same
      rw [run_eq_runWith configured block.first, run_eq_runWith reconfigured block.second,
        block.programName_eq]
      exact runWith_ends_alike beside modest shy block one two configured reconfigured
        (Except.ok.inj same)

/-- Logging does not influence a run. On two systems that differ in what is written at most,
and from two blocks that differ in the log level at most and lie where a run writes nothing but
its edits, runs make the same calls other than writes, up to the level that a program is started
with; they end in the same way and leave the same block; and if they exit, both have said why in
the same words. -/
theorem run_ignores_log (kernels : m.kernel.Beside n.kernel) (heap : n.heap = m.heap)
    (modest : m.kernel.OnlyFails .write) (shy : n.kernel.OnlyFails .write)
    (block : process.SameBlock m.memory n.memory)
    (one : Secluded process (quiet m)) (two : Secluded process (quiet n)) :
    let last := (run process.stackPointer).last m
    let other := (run process.stackPointer).last n
    (run process.stackPointer).ending? n = (run process.stackPointer).ending? m ∧
      List.Forall₂ Event.Similar last.kernel.calls other.kernel.calls ∧
      process.SameBlock last.memory other.memory ∧
      ∀ status, (run process.stackPointer).ending? m = some (.exited status) →
        ∃ diagnostic : Diagnostic,
          (m.kernel.Stores last.kernel → ∃ earlier, last.kernel.errorOutput =
            earlier ++ (diagnostic.message ++ [ascii "\n"]).flatten) ∧
          (n.kernel.Stores other.kernel → ∃ earlier, other.kernel.errorOutput =
            earlier ++ (diagnostic.message ++ [ascii "\n"]).flatten) := by
  have alike := run_ends_alike kernels heap modest shy block one two
  generalize ran : run process.stackPointer m = first at alike
  generalize reran : run process.stackPointer n = second at alike
  cases alike with
  | reported diagnostic beside block =>
    rw [Program.ending?_congr ran, Program.ending?_congr reran, Program.last_congr ran,
      Program.last_congr reran, fail_ending (beside.one.kernel.onlyFails modest),
      fail_ending (beside.two.kernel.onlyFails shy)]
    have told := wrote_fail (α := Empty) diagnostic
    refine ⟨rfl, (beside.kernel.wrote (told _).kernel (told _).kernel).calls, ?_, fun _ _ =>
      ⟨diagnostic, fail_reports beside.one.kernel.history, fail_reports beside.two.kernel.history⟩⟩
    rwa [(told _).memory, (told _).memory]
  | ended silent beside block =>
    rw [Program.ending?, Program.ending?, Program.last, Program.last, ran, reran]
    refine ⟨rfl, beside.kernel.calls, block, fun status exits => ?_⟩
    exact absurd (Option.some.inj exits) (silent status)

def levelBlock (level : Bytes) : StartupBlock :=
  ⟨[some (ascii "p")], [ascii "NIX_LD=/ld", VariableName.logLevel ++ equalsSign :: level,
    ascii "NIX_LD_LIBRARY_PATH=/lib"],
    [(AuxiliaryVector.pageSizeKey, 4096), (AuxiliaryVector.baseKey, 0)]⟩

def levelMachine (level : Bytes) : Machine :=
  hosting (levelBlock level) 0x10100000 0x10101000 ⟨0x10000000, 0x100000⟩
    (some (.regular smallObject))

theorem levelMachine_liesIn {level : Bytes}
    (fits : (levelBlock level).FitsAt 0x10100000 0x10101000) :
    (levelBlock level).LiesIn (levelMachine level).memory 0x10100000 0x10101000 :=
  StartupBlock.liesIn_place fits .zero

theorem levelMachine_secluded {level : Bytes}
    (fits : (levelBlock level).FitsAt 0x10100000 0x10101000)
    (image : ClearOfImage (levelBlock level) 0x10100000 0x10101000 (quiet (levelMachine level)))
    (use : ∀ found ∈ (Configuration.read (levelMachine level).memory
      (.read (levelMachine level).memory 0x10100000)).toOption, heapUse found ≤ 0x30000) :
    Secluded (.read (quiet (levelMachine level)).memory 0x10100000)
      (quiet (levelMachine level)) := by
  have base : (quiet (levelMachine level)).heap.base = 0x100000 := rfl
  have used : (quiet (levelMachine level)).heap.used = 0 := rfl
  have before : (0x100000 : UInt64).toNat + (0 + 0x30000) ≤ 0x10000000 := by decide
  have low : Region.InUserSpace ⟨0x10000000, 0x100000⟩ := by decide
  refine .of_liesIn (levelMachine_liesIn fits) (fun _ member => nomatch member) low image
    (fun configuration configured => use configuration ?_) ?_ ?_ ?_
  · exact congrArg Except.toOption configured
  · rw [base]
    decide
  · rw [base, used]
    decide
  · rw [base, used]
    exact ⟨.inr (Nat.le_trans before (by decide)), .inr (Nat.le_trans before (by decide))⟩

/-- A run that says nothing but why it exits, and one that says more before. -/
theorem run_ignores_log_levels :
    let silent := levelMachine (ascii "off")
    let chatty := levelMachine (ascii "info")
    let last := (run 0x10100000).last silent
    let other := (run 0x10100000).last chatty
    last.kernel.history.length < other.kernel.history.length ∧
      (run 0x10100000).ending? silent = some (.exited 1) ∧
      (run 0x10100000).ending? chatty = some (.exited 1) ∧
      List.Forall₂ Event.Similar last.kernel.calls other.kernel.calls ∧
      (StartupView.read silent.memory 0x10100000).SameBlock last.memory other.memory ∧
      ∃ diagnostic : Diagnostic,
        (silent.kernel.Stores last.kernel → ∃ earlier, last.kernel.errorOutput =
          earlier ++ (diagnostic.message ++ [ascii "\n"]).flatten) ∧
        (chatty.kernel.Stores other.kernel → ∃ earlier, other.kernel.errorOutput =
          earlier ++ (diagnostic.message ++ [ascii "\n"]).flatten) := by
  have exits : (run 0x10100000).ending? (levelMachine (ascii "off")) = some (.exited 1) := by
    decide +kernel
  have longer : ((run 0x10100000).last (levelMachine (ascii "off"))).kernel.history.length <
      ((run 0x10100000).last (levelMachine (ascii "info"))).kernel.history.length := by
    decide +kernel
  have fits : (levelBlock (ascii "off")).FitsAt 0x10100000 0x10101000 := by decide
  have fit : (levelBlock (ascii "info")).FitsAt 0x10100000 0x10101000 := by decide
  have one := levelMachine_secluded fits (by decide +kernel) (by decide +kernel)
  have two := levelMachine_secluded fit (by decide +kernel) (by decide +kernel)
  have block : (StartupView.read (levelMachine (ascii "off")).memory 0x10100000).SameBlock
      (levelMachine (ascii "off")).memory (levelMachine (ascii "info")).memory :=
    (levelMachine_liesIn fits).sameBlock (levelMachine_liesIn fit) rfl
      (.cons (.same _) (.cons (.level _ _) (.cons (.same _) .nil))) rfl
  obtain ⟨same, calls, blocks, report⟩ := run_ignores_log
    (m := levelMachine (ascii "off")) (n := levelMachine (ascii "info")) (.refl _) rfl
    (fun _ member => nomatch member) (fun _ member => nomatch member) block one
    (block.second ▸ two)
  exact ⟨longer, exits, same.trans exits, calls, blocks, report 1 exits⟩

/-- An environment whose variables lie the further back the longer the log level is. -/
def levelEnvironment (level : Bytes) : List Bytes :=
  [VariableName.logLevel ++ equalsSign :: level, ascii "NIX_LD=/ld",
    ascii "NIX_LD_LIBRARY_PATH=/lib"]

/-- With a short level the variable to be handed on is cleared with the page behind the arena,
and with a long one it is not. -/
theorem run_follows_log :
    ¬ ∀ (m n : Machine) (process : StartupView), m.kernel.Beside n.kernel → n.heap = m.heap →
      m.kernel.OnlyFails .write → n.kernel.OnlyFails .write →
      process.SameBlock m.memory n.memory → Ordinary (quiet m) process.stackPointer →
      Ordinary (quiet n) process.stackPointer →
      (run process.stackPointer).ending? n = (run process.stackPointer).ending? m := by
  intro same
  let short := exposedMachine (levelEnvironment (ascii "off")) [overrunRow] []
  let long := exposedMachine (levelEnvironment (.replicate 60 0x78)) [overrunRow] []
  have fits : (exposedBlock (levelEnvironment (ascii "off"))).FitsAt 0x20000000 0x10000043 := by
    decide
  have fit : (exposedBlock (levelEnvironment (.replicate 60 0x78))).FitsAt 0x20000000 0x10000043 := by
    decide
  have lies : StartupBlock.LiesIn _ short.memory 0x20000000 0x10000043 :=
    StartupBlock.liesIn_place fits .zero
  have lie : StartupBlock.LiesIn _ long.memory 0x20000000 0x10000043 :=
    StartupBlock.liesIn_place fit .zero
  have block : (StartupView.read short.memory 0x20000000).SameBlock short.memory long.memory :=
    lies.sameBlock lie rfl (.cons (.level _ _) (.cons (.same _) (.cons (.same _) .nil))) rfl
  have one : Ordinary short 0x20000000 :=
    ordinary_exposed rfl fits (fun _ member => nomatch member) (by decide +kernel)
      (by decide +kernel)
  have two : Ordinary long 0x20000000 :=
    ordinary_exposed rfl fit (fun _ member => nomatch member) (by decide +kernel)
      (by decide +kernel)
  have different : (run 0x20000000).ending? long ≠ (run 0x20000000).ending? short := by
    decide +kernel
  -- The two machines are not compared as a whole, with all that was written to their memory.
  have kernel (environment : List Bytes) : (exposedMachine environment [overrunRow] []).kernel =
      .initial (fun _ => some (.regular (Elf.fileOf [overrunRow]))) [(.mmap, [])]
        ⟨0x10000000, 0x40⟩ := rfl
  have beside : short.kernel.Beside long.kernel := by
    rw [kernel, kernel]
    exact .refl _
  have heap (environment : List Bytes) :
      (exposedMachine environment [overrunRow] []).heap = .empty 0x100000 none := rfl
  exact different (same short long (.read short.memory 0x20000000) beside (by rw [heap, heap])
    (fun _ member => nomatch member) (fun _ member => nomatch member) block one two)

end Loader
end ElfRelay
