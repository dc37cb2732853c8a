import ElfRelay.Proofs.Custody
import ElfRelay.Proofs.Elf.Encoding
import ElfRelay.Proofs.Image.Frame
import ElfRelay.Proofs.Loader.Later
import ElfRelay.Proofs.Loader.Phases
/-! The file a run opens and the region it reserves. Both are given back exactly once,
wherever the run fails; only a jump keeps the region, which then is the image's. -/
namespace ElfRelay

open Elf (ProgramHeader Object)

namespace Kernel

/-- A system that maps and unmaps by its rules, unless a mapping call fails. -/
structure MapsByRule (k : Kernel) : Prop where
  arena : k.arena.InUserSpace
  maps : k.OnlyFails .mmap
  unmaps : ∀ result, .fixed result ∉ k.pending .munmap

theorem MapsByRule.later {before after : Kernel} (rules : before.MapsByRule)
    (later : before.Later after) : after.MapsByRule where
  arena := later.arena ▸ rules.arena
  maps := later.onlyFails rules.maps
  unmaps result member := rules.unmaps result ((later.pending .munmap).subset member)

theorem munmap_succeeds {k : Kernel} {region : Region} (rules : k.MapsByRule)
    (inside : k.arena.encloses region.address region.length = true) (nonempty : region.length ≠ 0) :
    (munmap region k).1 = 0 := by
  have ruled : k.unmapAnswer region = 0 := by simp [unmapAnswer, inside, nonempty]
  rw [munmap]
  cases next : k.answer .munmap with
  | fixed result => exact absurd (fixed_mem_pending next) (rules.unmaps result)
  | _ => exact ruled

end Kernel

namespace Machine

def Carries (holds : Machine → Prop) (before after : Machine) : Prop := holds before → holds after

instance {holds : Machine → Prop} : IsPreorder Machine (Carries holds) where
  refl _ := id
  trans _ _ _ first second := second ∘ first

/-- The machine that `start` with the ledger `opening` has come to, by calls that
leave the ledger `ledger`. -/
structure Books (start : Machine) (opening ledger : Ledger) (m : Machine) : Prop where
  later : Later start m
  replays : ∃ events, m.kernel.trace = start.kernel.trace ++ events ∧
    Ledger.Replays start.kernel.arena opening events ledger

variable {start m n : Machine} {opening ledger next : Ledger} {event : Event}

theorem Books.open (m : Machine) (opening : Ledger) : Books m opening opening m :=
  ⟨refl_of Later m, [], (List.append_nil _).symm, .start⟩

theorem Books.quiet (books : Books start opening ledger m) (later : Later m n)
    (same : n.kernel.history = m.kernel.history) : Books start opening ledger n := by
  obtain ⟨events, trace, replays⟩ := books.replays
  exact ⟨trans_of Later books.later later, events, by rw [Kernel.trace, same, ← trace]; rfl, replays⟩

theorem Books.enter (books : Books start opening ledger m) (later : Later m n)
    (history : n.kernel.history = event :: m.kernel.history)
    (enters : Ledger.Enters start.kernel.arena ledger event next) : Books start opening next n := by
  obtain ⟨events, trace, replays⟩ := books.replays
  refine ⟨trans_of Later books.later later, events ++ [event], ?_, .enter replays enters⟩
  rw [Kernel.trace, history, List.reverse_cons, ← List.append_assoc, ← trace]
  rfl

theorem Books.kept_edits : KeptByEdits (Carries (Books start opening ledger)) where
  answered m _ _ books := books.quiet (.of_kernel rfl (.answered m.kernel _)) rfl
  write m descriptor data books :=
    books.enter (.of_kernel rfl (.write m.kernel descriptor data)) (Kernel.history_write _ _ _) .writes
  heap _ _ later books := books.quiet ⟨.refl _, later⟩ rfl
  memory _ _ books := books.quiet (.of_kernel rfl (.refl _)) rfl

theorem Books.kept_reads {descriptor : UInt32} {region : Custody Region} :
    KeptByReads (Carries (Books start opening ⟨.held descriptor, region⟩)) descriptor where
  toKeptByOutput := Books.kept_edits.toKeptByOutput
  heap := Books.kept_edits.heap
  pread _ _ _ books := books.enter (.of_kernel rfl (.record _ rfl rfl rfl)) rfl .reads

theorem Books.replace {descriptor : UInt32} {region : Region}
    (books : Books start opening ⟨.held descriptor, .held region⟩ m) (request : MapRequest)
    (fixed : request.isFixed = true)
    (inside : region.encloses request.address request.length = true) :
    Books start opening ⟨.held descriptor, .held region⟩ (m.mmap request).2 := by
  have later : Later m (m.mmap request).2 := .mmap m request
  cases answer : Errno.ofResult (m.mmap request).1 with
  | error errno => exact books.enter later (m.mmap_history request) (.mapsNot answer)
  | ok place => exact books.enter later (m.mmap_history request) (.replaces fixed answer inside)

theorem Books.reserve {descriptor : UInt32} (rules : start.kernel.MapsByRule)
    (books : Books start opening ⟨.held descriptor, .free⟩ m) (request : MapRequest)
    (unfixed : request.isFixed = false) (file : request.isAnonymous = false) :
    match Errno.ofResult (m.mmap request).1 with
    | .ok place =>
      Books start opening ⟨.held descriptor, .held ⟨place, request.length⟩⟩ (m.mmap request).2
    | .error _ => Books start opening ⟨.held descriptor, .free⟩ (m.mmap request).2 := by
  have later : Later m (m.mmap request).2 := .mmap m request
  cases answer : Errno.ofResult (m.mmap request).1 with
  | error errno => exact books.enter later (m.mmap_history request) (.mapsNot answer)
  | ok place =>
    obtain ⟨source, found, _, inside, _⟩ :=
      m.mmap_placed request (books.later.kernel.onlyFails rules.maps) answer
    have nonempty := m.length_ne_zero_of_file request file found
    rw [books.later.kernel.arena] at inside
    exact books.enter later (m.mmap_history request) (.reserves unfixed answer inside nonempty)

theorem Books.release {file : Custody UInt32} {region : Region} (rules : start.kernel.MapsByRule)
    (inside : opening.Inside start.kernel.arena) (books : Books start opening ⟨file, .held region⟩ m) :
    Books start opening ⟨file, .returned region⟩
      { m with kernel := (Kernel.munmap region m.kernel).2 } := by
  obtain ⟨_, _, replays⟩ := books.replays
  obtain ⟨inside, nonempty⟩ := replays.inside inside region rfl
  have done : (Kernel.munmap region m.kernel).1 = 0 :=
    Kernel.munmap_succeeds (rules.later books.later.kernel)
      (books.later.kernel.arena.symm ▸ inside) nonempty
  have success : Errno.ofResult (Kernel.munmap region m.kernel).1 = .ok 0 := by rw [done]; rfl
  exact books.enter (.munmap m region) rfl (.releases success)

/-- The file is not in hand, and if it has been opened, closing it was the last call. -/
def JustClosed (m : Machine) : Custody UInt32 → Prop
  | .free => True
  | .held _ => False
  | .returned descriptor =>
    ∃ result earlier, m.kernel.history = .close descriptor result :: earlier

end Machine

section
open Program (Ensures Within)
open Machine (Books Carries JustClosed)

variable {start : Machine} {opening : Ledger} {region : Custody Region}

/-- What the books say is still what they say after a program that keeps them. -/
theorem Program.Within.ensures {ledger : Ledger} {program : Program α}
    (within : Within (Carries (Books start opening ledger)) program) :
    Ensures (Books start opening ledger) program fun _ => Books start opening ledger :=
  .of_within within fun _ _ books carries => carries books

namespace File

theorem books_openPath (path : Bytes) :
    Ensures (Books start opening ⟨.free, region⟩) (openPath path) fun opened =>
      match opened with
      | .ok file => Books start opening ⟨.held file.descriptor, region⟩
      | .error _ => Books start opening ⟨.free, region⟩ := by
  intro m books opened returned
  obtain ⟨result, called, returned⟩ := Program.value?_bind_eq_some.mp returned
  cases called
  cases returned
  have later : Machine.Later m ((openPath path).last m) := within_openPath Machine.Later.kept path m
  have history : ((openPath path).last m).kernel.history = _ := m.kernel.history_openat path
  cases answer : Errno.ofResult (Kernel.openat path m.kernel).1 with
  | error errno => exact books.enter later history (.opensNot answer)
  | ok descriptor => exact books.enter later history (.opens answer)

theorem books_close (file : File) :
    Ensures (Books start opening ⟨.held file.descriptor, region⟩) file.close fun _ after =>
      Books start opening ⟨.returned file.descriptor, region⟩ after ∧
        JustClosed after (.returned file.descriptor) := by
  intro m books _ _
  have later : Machine.Later m (file.close.last m) := within_close Machine.Later.kept file m
  have history : (file.close.last m).kernel.history = _ := m.kernel.history_close file.descriptor
  exact ⟨books.enter later history .closes, _, _, history⟩

end File

namespace Elf.Object

theorem books_openTrimmed (path : Bytes) :
    Ensures (Books start opening ⟨.free, region⟩) (openTrimmed path) fun opened =>
      match opened with
      | .ok file => Books start opening ⟨.held file.descriptor, region⟩
      | .error _ => Books start opening ⟨.free, region⟩ := by
  refine .bind (File.books_openPath path) fun opened => ?_
  cases opened with
  | ok file => exact .pure fun _ => id
  | error errno =>
    dsimp only
    split
    · refine .bind (Within.ensures (Program.within_reserve Books.kept_edits.heap _ (by decide)))
        fun room => ?_
      cases room with
      | none => exact .pure fun _ => id
      | some _ =>
        refine .bind (File.books_openPath _) fun retried => ?_
        cases retried with
        | ok file => exact .pure fun _ => id
        | error errno => exact .pure fun _ => id
    · exact .pure fun _ => id

theorem books_openPath (path : Bytes) :
    Ensures (Books start opening ⟨.free, region⟩) (openPath path) fun opened after =>
      match opened with
      | .ok object => Books start opening ⟨.held object.file.descriptor, region⟩ after
      | .error _ => ∃ file, Books start opening ⟨file, region⟩ after ∧ JustClosed after file := by
  refine .bind (books_openTrimmed path) fun opened => ?_
  cases opened with
  | error error => exact .pure fun m books => ⟨.free, books, trivial⟩
  | ok file =>
    have read : Ensures (Books start opening ⟨.held file.descriptor, region⟩) (ofFile file)
        fun object after => Books start opening ⟨.held file.descriptor, region⟩ after ∧
          ∀ found, object = .ok found → found.file = file := fun m books object returned =>
      ⟨within_ofFile Books.kept_reads m books, fun found ok => ofFile_file (ok ▸ returned)⟩
    refine .bind read fun object => ?_
    cases object with
    | ok object =>
      refine .pure fun m books => ?_
      dsimp only
      rw [books.2 object rfl]
      exact books.1
    | error error =>
      change Ensures _ (do file.close; return Except.error error) _
      refine .bind ((File.books_close file).mono (fun m books => books.1) fun _ _ => id) fun _ => ?_
      exact .pure fun m closed => ⟨_, closed⟩

end Elf.Object

namespace Image

variable {page : PageSize} {span : Span} {descriptor : UInt32} {m : Machine}

end Image

namespace Loader

variable {process : StartupView} {configuration : Configuration} {m : Machine}

/-- The calls of a run, split where the interpreter's file has been closed. -/
structure Splits (process : StartupView) (m : Machine) (fetching settling : List Event) : Prop where
  trace : ((load process).last m).kernel.trace = m.kernel.trace ++ fetching ++ settling
  unconfigured : ∀ error, Configuration.read m.memory process = .error error →
    fetching = [] ∧ settling = []
  fetched : ∀ configuration, Configuration.read m.memory process = .ok configuration →
    ((fetch configuration).last m).kernel.trace = m.kernel.trace ++ fetching
  failed : ∀ configuration error, Configuration.read m.memory process = .ok configuration →
    (fetch configuration).value? m = some (.error error) → settling = []

def smallObject : Array UInt8 := Elf.fileOf [⟨1, 5, 0, 0, 0, 0x78, 0x78, 0x1000⟩]

/-- A start-up block that names an interpreter with a newline behind it, and has none loaded. -/
def directBlock : StartupBlock :=
  ⟨[some (ascii "p")], [ascii "NIX_LD=/ld\n"],
    [(AuxiliaryVector.pageSizeKey, 4096), (AuxiliaryVector.baseKey, 0)]⟩

/-- The block starts right behind the arena. -/
def directMachine : Machine :=
  hosting directBlock 0x10100000 0x10101000 ⟨0x10000000, 0x100000⟩ (some (.regular smallObject))

end Loader
end
end ElfRelay
