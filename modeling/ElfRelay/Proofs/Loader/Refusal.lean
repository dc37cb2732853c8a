import ElfRelay.Proofs.Image.Refusal
import ElfRelay.Proofs.Loader.Atomicity
import ElfRelay.Proofs.Loader.Totality
/-! Which error a run reports, and what it has done by then. Nothing is mapped before the
file is accepted. Each phase has its own errors, so an error tells how far the run came. -/
namespace ElfRelay

open Elf (Header ProgramHeader Object)
open Program (Within)
open Machine (KeepsMappings)

/-- An error that opening an object may report: its segments have not been looked at yet. -/
def LoadError.concernsOpening : LoadError → Bool
  | missingInterpreter | missingPageSize | noLoadableSegments | segmentOrder | cannotMap _
  | cannotExecute _ => false
  | _ => true

namespace Program

def Reports (among : LoadError → Prop) (program : Program (Except LoadError α)) : Prop :=
  ∀ m error, program.value? m = some (.error error) → among error

variable {among : LoadError → Prop}

theorem Reports.ok (value : α) : Reports among (pure (.ok value)) := nofun

theorem Reports.error {error : LoadError} (listed : among error) :
    Reports among (pure (.error error) : Program (Except LoadError α)) := by
  rintro m _ ⟨⟩
  exact listed

theorem Reports.bind {program : Program β} {next : β → Program (Except LoadError α)}
    (rest : ∀ value, Reports among (next value)) : Reports among (program >>= next) := by
  intro m error returned
  obtain ⟨value, _, returned⟩ := value?_bind_eq_some.mp returned
  exact rest value _ error returned

theorem Reports.bind_error {program : Program (Except LoadError β)}
    {next : Except LoadError β → Program (Except LoadError α)} (first : Reports among program)
    (passed : ∀ error, among error → Reports among (next (.error error)))
    (rest : ∀ value, Reports among (next (.ok value))) : Reports among (program >>= next) := by
  intro m error returned
  obtain ⟨outcome, found, returned⟩ := value?_bind_eq_some.mp returned
  cases outcome with
  | error early => exact passed early (first m early found) _ error returned
  | ok value => exact rest value _ error returned

end Program

open Program (Reports)

namespace Elf.Object

theorem reports_openTrimmed (path : Bytes) : Reports (·.concernsOpening) (openTrimmed path) := by
  refine .bind fun opened => ?_
  cases opened with
  | ok file => exact .ok file
  | error errno =>
    dsimp only
    split
    · refine .bind fun room => ?_
      cases room with
      | none => exact .error rfl
      | some _ =>
        refine .bind fun again => ?_
        cases again with
        | ok file => exact .ok file
        | error errno => exact .error rfl
    · exact .error rfl

theorem parse_concernsOpening {bytes : Bytes} {error : LoadError}
    (failed : Header.parse bytes = .error error) : error.concernsOpening := by
  unfold Header.parse at failed
  split at failed
  · cases failed; rfl
  · split at failed <;> cases failed; rfl

theorem validate_concernsOpening {header : Header} {error : LoadError}
    (failed : header.validate = .error error) : error.concernsOpening := by
  unfold Header.validate at failed
  split at failed
  · cases failed; rfl
  · split at failed
    · cases failed; rfl
    · split at failed
      · cases failed; rfl
      · split at failed <;> cases failed; rfl

theorem reports_readHeader (file : File) : Reports (·.concernsOpening) (readHeader file) := by
  refine .bind fun answer => ?_
  obtain ⟨count, bytes⟩ := answer
  cases count with
  | error errno => exact .error rfl
  | ok count =>
    dsimp only
    cases parsed : Header.parse (bytes.take count) with
    | error error =>
      have damaged := parse_concernsOpening parsed
      split
      · exact .bind fun _ => .error damaged
      · exact .error damaged
    | ok header =>
      dsimp only
      cases valid : header.validate with
      | error error =>
        have damaged := validate_concernsOpening valid
        split
        · exact .bind fun _ => .error damaged
        · exact .error damaged
      | ok =>
        split
        · exact .bind fun _ => .ok header
        · exact .ok header

theorem reports_readProgramHeaders (file : File) (header : Header) :
    Reports (·.concernsOpening) (readProgramHeaders file header) := by
  rw [readProgramHeaders]
  dsimp only
  split
  · exact .error rfl
  · refine .bind fun room => ?_
    cases room with
    | none => exact .error rfl
    | some _ =>
      refine .bind fun answer => ?_
      obtain ⟨count, table⟩ := answer
      cases count with
      | error errno => exact .error rfl
      | ok count =>
        dsimp only
        split
        · exact .error rfl
        · refine .bind fun room => ?_
          cases room with
          | none => exact .error rfl
          | some _ => exact .ok _

theorem reports_ofFile (file : File) : Reports (·.concernsOpening) (ofFile file) := by
  refine .bind_error (reports_readHeader file) (fun _ listed => .error listed) fun header => ?_
  refine .bind_error (reports_readProgramHeaders file header) (fun _ listed => .error listed) ?_
  exact fun programHeaders => .ok _

theorem reports_openPath (path : Bytes) : Reports (·.concernsOpening) (openPath path) := by
  refine .bind_error (reports_openTrimmed path) (fun _ listed => .error listed) fun file => ?_
  refine .bind_error (reports_ofFile file) (fun error listed => ?_) fun object => .ok object
  exact .bind fun _ => .error listed

end Elf.Object

namespace LibraryPath

theorem reports_leak (text : Bytes) : Reports (· = .outOfMemory) (leak text) := by
  refine .bind fun room => ?_
  cases room with
  | none => exact .error rfl
  | some address =>
    refine .bind fun _ => ?_
    split
    · exact .bind fun _ => .ok address
    · exact .ok address

theorem reports_handOn (configuration : Configuration) (environment : Environment) :
    Reports (· = .outOfMemory) (handOn configuration environment) := by
  rw [handOn]
  cases configuration.supplementary with
  | none => exact .ok _
  | some supplementary =>
    refine .bind fun _ => ?_
    cases configuration.existing with
    | none =>
      refine .bind fun _ => .bind fun room => ?_
      cases room with
      | none => exact .error rfl
      | some _ => exact .bind fun _ => .ok _
    | some existing =>
      refine .bind fun _ => .bind fun room => ?_
      cases room with
      | none => exact .error rfl
      | some _ =>
        refine .bind_error (reports_leak _) (fun _ listed => .error listed) fun address => ?_
        exact .bind fun _ => .ok _

end LibraryPath

namespace Loader

variable {process : StartupView} {configuration : Configuration} {m : Machine}

theorem reports_settle (process : StartupView) (configuration : Configuration) (image : Image) :
    Reports (· = .outOfMemory) (settle process configuration image) := by
  refine .bind_error (LibraryPath.reports_handOn _ _) (fun _ listed => ?_) fun _ => ?_
  · exact .bind fun _ => .error listed
  · exact .bind fun _ => .ok _

theorem read_error {memory : Memory} {error : LoadError}
    (failed : Configuration.read memory process = .error error) : error.kind = .configuration := by
  unfold Configuration.read at failed
  dsimp only at failed
  split at failed
  · cases failed; rfl
  · split at failed <;> cases failed; rfl

theorem keepsMappings_opened (configuration : Configuration) (m : Machine) :
    KeepsMappings m ((Object.openPath configuration.interpreter.value).last
      ((announce configuration).last m)) :=
  trans_of _ (within_announce KeepsMappings.edits.toKeptByOutput (fun _ _ => rfl) configuration m)
    (Object.within_openPath KeepsMappings.files _ _)

/-- Fetching the interpreter fails to open it, or tries to build its image. -/
theorem fetch_cases {outcome : Except LoadError Image}
    (fetched : (fetch configuration).value? m = some outcome) :
    let opening := Object.openPath configuration.interpreter.value
    let announced := (announce configuration).last m
    (∃ error, opening.value? announced = some (.error error) ∧ outcome = .error error ∧
      (fetch configuration).last m = opening.last announced) ∨
    ∃ object, opening.value? announced = some (.ok object) ∧
      (Image.build object configuration.pageSize).value? (opening.last announced) =
        some outcome ∧
      (fetch configuration).last m = object.file.close.last
        ((Image.build object configuration.pageSize).last (opening.last announced)) := by
  obtain ⟨_, announced, fetched⟩ := Program.value?_bind_eq_some.mp fetched
  obtain ⟨opened, found, fetched⟩ := Program.value?_bind_eq_some.mp fetched
  rw [fetch, Program.last_bind_of_value _ announced, loadInterpreter,
    Program.last_bind_of_value _ found]
  cases opened with
  | error error =>
    cases fetched
    exact .inl ⟨error, found, rfl, rfl⟩
  | ok object =>
    obtain ⟨built, made, fetched⟩ := Program.value?_bind_eq_some.mp fetched
    obtain ⟨_, closed, fetched⟩ := Program.value?_bind_eq_some.mp fetched
    dsimp only
    rw [Program.last_bind_of_value _ made, Program.last_bind_of_value _ closed]
    cases fetched
    exact .inr ⟨object, found, made, rfl⟩

/-- An interpreter that could not be fetched was not opened, or its image was judged. -/
theorem fetch_fails {error : LoadError}
    (configured : Configuration.read m.memory process = .ok configuration)
    (failed : (fetch configuration).value? m = some (.error error)) :
    (error.concernsOpening ∧ KeepsMappings m ((fetch configuration).last m) ∧
      ∀ other object, ¬ Accepts process m other object) ∨
    ∃ object, Accepts process m configuration object ∧
      Image.Judged object m ((fetch configuration).last m) (.error error) := by
  have silent := keepsMappings_opened configuration m
  rcases fetch_cases failed with ⟨_, opened, same, last⟩ | ⟨object, opened, built, last⟩
  · obtain rfl := Except.error.inj same
    refine .inl ⟨Object.reports_openPath _ _ _ opened, by rw [last]; exact silent, ?_⟩
    rintro other object ⟨configured', opened'⟩
    obtain rfl := Except.ok.inj (configured.symm.trans configured')
    rw [opened] at opened'
    cases opened'
  · refine .inr ⟨object, ⟨configured, opened⟩, ?_⟩
    have closes := File.within_close KeepsMappings.files object.file
      ((Image.build object configuration.pageSize).last
        ((Object.openPath configuration.interpreter.value).last ((announce configuration).last m)))
    rw [last]
    cases Image.build_judged built with
    | empty spanned same => exact .empty spanned (trans_of _ silent (trans_of _ same closes))
    | misordered spanned order same =>
      exact .misordered spanned order (trans_of _ silent (trans_of _ same closes))
    | attempted spanned order made attempts =>
      refine .attempted spanned order ?_ attempts
      rw [← silent, ← made]
      exact closes

/-- Without a file that is accepted nothing is mapped, however the run ends. -/
theorem load_rejects (rejected : ∀ configuration object, ¬ Accepts process m configuration object) :
    KeepsMappings m ((load process).last m) := by
  rw [last_load]
  cases configured : Configuration.read m.memory process with
  | error error => exact refl_of _ m
  | ok configuration =>
    have announces := within_announce KeepsMappings.edits.toKeptByOutput (fun _ _ => rfl)
      configuration m
    have opens := keepsMappings_opened configuration m
    have fails (object : Object) := rejected configuration object
    simp only [Accepts, configured, true_and] at fails
    dsimp only
    rw [loadWith_eq, fetch, bind_assoc, Program.last_bind]
    cases (announce configuration).value? m with
    | none => exact announces
    | some _ =>
      dsimp only
      rw [loadInterpreter, bind_assoc, Program.last_bind]
      cases opened : (Object.openPath configuration.interpreter.value).value?
          ((announce configuration).last m) with
      | none => exact opens
      | some outcome =>
        cases outcome with
        | error error => exact opens
        | ok object => exact absurd opened (fails object)

/-- The file is accepted, and of its segments, which span something, the first in table order
is not at the lowest address. -/
def Misordered (process : StartupView) (m : Machine) : Prop :=
  ∃ configuration object span, Accepts process m configuration object ∧
    Span.of object.programHeaders = .ok span ∧ Image.Misordered object

theorem value?_load_of_fetch {error : LoadError}
    (configured : Configuration.read m.memory process = .ok configuration)
    (failed : (fetch configuration).value? m = some (.error error)) :
    (load process).value? m = some (.error (configuration.diagnostic error)) := by
  rw [value?_load, configured]
  dsimp only
  rw [loadWith_eq, Program.value?_bind, failed]
  rfl

/-- A run that reports an error of the segments has failed to fetch the interpreter. -/
theorem load_fails {diagnostic : Diagnostic}
    (failed : (load process).value? m = some (.error diagnostic)) :
    (diagnostic.error.kind = .configuration ∧ (load process).last m = m) ∨
    diagnostic.error = .outOfMemory ∨
    ∃ configuration, Configuration.read m.memory process = .ok configuration ∧
      (fetch configuration).value? m = some (.error diagnostic.error) ∧
      (load process).last m = (fetch configuration).last m := by
  rcases load_cases failed with ⟨error, configured, same, last⟩ | ⟨configuration, configured, rest⟩
  · obtain rfl := Except.error.inj same
    exact .inl ⟨read_error configured, last⟩
  · rcases rest with ⟨error, fetched, same, last⟩ | ⟨image, settled, fetched, settles, same, last⟩
    · obtain rfl := Except.error.inj same
      exact .inr (.inr ⟨configuration, configured, fetched, last⟩)
    · cases settled with
      | ok handover => cases same
      | error error =>
        obtain rfl := Except.error.inj same
        exact .inr (.inl (reports_settle process configuration image _ _ settles))

/-- A run on segments in a wrong order that has fetched has failed with just this. -/
theorem fetch_misordered {outcome : Except LoadError Image} {object : Object} {span : Span}
    (accepts : Accepts process m configuration object)
    (spanned : Span.of object.programHeaders = .ok span) (order : Image.Misordered object)
    (fetched : (fetch configuration).value? m = some outcome) : outcome = .error .segmentOrder := by
  rcases fetch_cases fetched with ⟨_, opened, _⟩ | ⟨another, opened, built, _⟩
  · cases accepts.2.symm.trans opened
  · cases accepts.2.symm.trans opened
    cases Image.build_judged built with
    | empty none => exact absurd (spanned.symm.trans none) nofun
    | misordered _ _ _ => rfl
    | attempted _ ordered _ _ => exact absurd order ordered

/-- An error of the segments' order is reported exactly for segments in a wrong order. -/
theorem segmentOrder_iff {outcome : Except Diagnostic Handover}
    (returned : (load process).value? m = some outcome) :
    (∃ diagnostic, outcome = .error diagnostic ∧ diagnostic.error = .segmentOrder) ↔
      Misordered process m := by
  constructor
  · rintro ⟨diagnostic, rfl, order⟩
    rcases load_fails returned with ⟨kind, _⟩ | memory | ⟨configuration, configured, fetched, _⟩
    · rw [order] at kind
      contradiction
    · rw [order] at memory
      contradiction
    · rw [order] at fetched
      rcases fetch_fails configured fetched with ⟨opening, _⟩ | ⟨object, accepts, judged⟩
      · contradiction
      · cases judged with
        | misordered spanned order _ => exact ⟨configuration, object, _, accepts, spanned, order⟩
        | attempted _ _ _ attempts => nomatch attempts
  · rintro ⟨configuration, object, span, accepts, spanned, order⟩
    rcases load_cases returned with ⟨_, configured, _⟩ | ⟨other, configured, rest⟩
    · cases configured.symm.trans accepts.1
    · obtain rfl := Except.ok.inj (accepts.1.symm.trans configured)
      rcases rest with ⟨error, fetched, rfl, _⟩ | ⟨image, _, fetched, _⟩
      · obtain rfl := Except.error.inj (fetch_misordered accepts spanned order fetched)
        exact ⟨_, rfl, rfl⟩
      · cases fetch_misordered accepts spanned order fetched

theorem Misordered.returns (order : Misordered process m) (truthful : m.kernel.Truthful) :
    ∃ outcome, (load process).value? m = some outcome := by
  obtain ⟨configuration, object, span, accepts, spanned, order⟩ := order
  obtain ⟨outcome, fetched⟩ := (total_fetch configuration).returns truthful
  obtain rfl := fetch_misordered accepts spanned order fetched
  exact ⟨_, value?_load_of_fetch accepts.1 fetched⟩

/-- The error that a run returns tells which calls it has made. -/
theorem load_refuses (process : StartupView) (m : Machine) :
    let after := (load process).last m
    ((∀ configuration object, ¬ Accepts process m configuration object) →
      after.kernel.mappings = m.kernel.mappings) ∧
    (∀ diagnostic, (load process).value? m = some (.error diagnostic) →
      (diagnostic.error.kind = .configuration → after = m) ∧
      (diagnostic.error.kind = .io ∨ diagnostic.error.kind = .format →
        after.kernel.mappings = m.kernel.mappings) ∧
      ∀ errno, diagnostic.error = .cannotMap errno → ∃ earlier request,
        after.kernel.mappings = m.kernel.mappings ++
          (earlier ++ [(request, Kernel.failure errno.code.toUInt64)]) ∧
        AllMapped earlier) ∧
    ((∃ diagnostic, (load process).value? m = some (.error diagnostic) ∧
        diagnostic.error = .segmentOrder) ↔
      Misordered process m ∧ ∃ outcome, (load process).value? m = some outcome) ∧
    (Misordered process m → m.kernel.Truthful →
      ∃ outcome, (load process).value? m = some outcome) ∧
    ∀ (object : Object) (span : Span) (page : PageSize) (n : Machine),
      Span.of object.programHeaders = .ok span →
        object.segments ≠ [] ∧ (Image.build object page).value? n ≠ some (.error .noLoadableSegments) := by
  refine ⟨load_rejects, fun diagnostic failed => ?_, ⟨?_, ?_⟩, Misordered.returns, ?_⟩
  · rcases load_fails failed with ⟨kind, last⟩ | memory | ⟨configuration, configured, fetched, last⟩
    · refine ⟨fun _ => last, fun _ => by rw [last], fun errno mapped => ?_⟩
      rw [mapped] at kind
      contradiction
    · simp [memory, LoadError.kind]
    · rw [last]
      rcases fetch_fails configured fetched with ⟨opening, silent, _⟩ | ⟨object, accepts, judged⟩
      · refine ⟨fun kind => ?_, fun _ => silent, fun errno mapped => ?_⟩
        · cases error : diagnostic.error <;> simp_all [LoadError.kind, LoadError.concernsOpening]
        · rw [mapped] at opening
          contradiction
      · generalize diagnostic.error = error at judged ⊢
        cases judged with
        | empty _ silent => exact ⟨nofun, fun _ => silent, nofun⟩
        | misordered _ _ silent => exact ⟨nofun, fun _ => silent, nofun⟩
        | attempted _ _ made attempts =>
          cases attempts with
          | refused all =>
            refine ⟨nofun, ?_, ?_⟩
            · rintro (kind | kind) <;> cases kind
            · rintro errno ⟨⟩
              exact ⟨_, _, made, all⟩
  · rintro ⟨diagnostic, returned, order⟩
    exact ⟨(segmentOrder_iff returned).mp ⟨diagnostic, rfl, order⟩, _, returned⟩
  · rintro ⟨order, outcome, returned⟩
    obtain ⟨diagnostic, rfl, reported⟩ := (segmentOrder_iff returned).mpr order
    exact ⟨diagnostic, returned, reported⟩
  · intro object span page n spanned
    exact ⟨Image.segments_ne_nil spanned, Image.build_ne_noLoadableSegments page n spanned⟩

def misorderedObject : Array UInt8 :=
  Elf.fileOf [⟨1, 5, 0, 0x1000, 0, 0x78, 0x78, 0x1000⟩, ⟨1, 5, 0, 0, 0, 0x78, 0x78, 0x1000⟩]

def misorderedMachine : Machine :=
  hosting strayBlock 0x10100000 0x10101000 ⟨0x10000000, 0x100000⟩
    (some (.regular misorderedObject))

theorem load_refuses_misordered :
    let process := StartupView.read misorderedMachine.memory 0x10100000
    (load process).value? misorderedMachine =
        some (.error ⟨ascii "nix-ld", some (ascii "/ld"), .segmentOrder⟩) ∧
      Misordered process misorderedMachine ∧
      ((load process).last misorderedMachine).kernel.mappings = [] := by
  have failed : (load (.read misorderedMachine.memory 0x10100000)).value? misorderedMachine =
      some (.error ⟨ascii "nix-ld", some (ascii "/ld"), .segmentOrder⟩) := by decide +kernel
  obtain ⟨_, refused, order, _⟩ := load_refuses (.read misorderedMachine.memory 0x10100000)
    misorderedMachine
  exact ⟨failed, (order.mp ⟨_, failed, rfl⟩).1, (refused _ failed).2.1 (.inr rfl)⟩

end Loader
end ElfRelay
