import ElfRelay.Proofs.MappingCalls
/-! Who holds what while system calls are made: a file that is opened at most once
and a region that is reserved at most once. Each call enters a ledger, and may do so
only with what it needs in hand. What a run of calls has taken, given back and left
mapped follows from its single entries. -/
namespace ElfRelay

/-- What has become of a thing that can be taken once. -/
inductive Custody (α : Type)
  | free
  | held (thing : α)
  | returned (thing : α)
  deriving DecidableEq, Repr

namespace Custody

def taken : Custody α → List α
  | free => []
  | held thing => [thing]
  | returned thing => [thing]

def givenBack : Custody α → List α
  | free => []
  | held _ => []
  | returned thing => [thing]

end Custody

namespace Event

def opened? : Event → Option UInt64
  | .openat _ result => (Errno.ofResult result).toOption
  | _ => none

def closed? : Event → Option UInt32
  | .close descriptor _ => some descriptor
  | _ => none

/-- The region that a successful call without a fixed address has made. -/
def reserved? : Event → Option Region
  | .mmap request result =>
    if request.isFixed then none
    else (Errno.ofResult result).toOption.map fun place => ⟨place, request.length⟩
  | _ => none

def released? : Event → Option Region
  | .munmap address length _ => some ⟨address, length⟩
  | _ => none

/-- Whether an address is mapped after a call, if it is known whether it was before. -/
def mapped (address : UInt64) (before : Bool) : Event → Bool
  | .mmap request result =>
    match Errno.ofResult result with
    | .ok place => before || decide ((request.range place).Covers address)
    | .error _ => before
  | .munmap start length result =>
    match Errno.ofResult result with
    | .ok _ => before && !decide ((Region.mk start length).Covers address)
    | .error _ => before
  | _ => before

/-- A call that neither reads nor maps, nor opens or closes a file. -/
def Settles (event : Event) : Prop :=
  (∃ descriptor data result, event = .write descriptor data result) ∨
    ∃ address length result, event = .munmap address length result

end Event

/-- Whether some calls have mapped an address that was not mapped, and left it so. -/
def mappedBy (events : List Event) (address : UInt64) : Bool :=
  events.foldl (Event.mapped address) false

structure Ledger where
  file : Custody UInt32
  region : Custody Region
  deriving DecidableEq, Repr

namespace Ledger

def fresh : Ledger := ⟨.free, .free⟩

/-- The calls that may be made, and what each of them does to the ledger. A file is
opened before anything is read or mapped, and a region is reserved in the arena
before anything is put in it. -/
inductive Enters (arena : Region) : Ledger → Event → Ledger → Prop
  | writes {ledger descriptor data result} :
    Enters arena ledger (.write descriptor data result) ledger
  | opensNot {region path result errno} (failed : Errno.ofResult result = .error errno) :
    Enters arena ⟨.free, region⟩ (.openat path result) ⟨.free, region⟩
  | opens {region path result descriptor} (success : Errno.ofResult result = .ok descriptor) :
    Enters arena ⟨.free, region⟩ (.openat path result) ⟨.held descriptor.toUInt32, region⟩
  | reads {descriptor region length offset result} :
    Enters arena ⟨.held descriptor, region⟩ (.pread descriptor length offset result)
      ⟨.held descriptor, region⟩
  | mapsNot {descriptor region request result errno}
    (failed : Errno.ofResult result = .error errno) :
    Enters arena ⟨.held descriptor, region⟩ (.mmap request result) ⟨.held descriptor, region⟩
  | reserves {descriptor} {request : MapRequest} {result place}
    (unfixed : request.isFixed = false) (success : Errno.ofResult result = .ok place)
    (inside : arena.encloses place request.length = true) (nonempty : request.length ≠ 0) :
    Enters arena ⟨.held descriptor, .free⟩ (.mmap request result)
      ⟨.held descriptor, .held ⟨place, request.length⟩⟩
  | replaces {descriptor} {region : Region} {request : MapRequest} {result place}
    (fixed : request.isFixed = true) (success : Errno.ofResult result = .ok place)
    (inside : region.encloses request.address request.length = true) :
    Enters arena ⟨.held descriptor, .held region⟩ (.mmap request result)
      ⟨.held descriptor, .held region⟩
  | releases {file} {region : Region} {result done}
    (success : Errno.ofResult result = .ok done) :
    Enters arena ⟨file, .held region⟩ (.munmap region.address region.length result)
      ⟨file, .returned region⟩
  | closes {descriptor region result} :
    Enters arena ⟨.held descriptor, region⟩ (.close descriptor result)
      ⟨.returned descriptor, region⟩

inductive Replays (arena : Region) (opening : Ledger) : List Event → Ledger → Prop
  | start : Replays arena opening [] opening
  | enter {events : List Event} {event : Event} {ledger after : Ledger}
    (earlier : Replays arena opening events ledger) (enters : Enters arena ledger event after) :
    Replays arena opening (events ++ [event]) after

variable {arena : Region} {opening ledger after : Ledger} {event : Event} {events later : List Event}

theorem Replays.trans (first : Replays arena opening events ledger)
    (second : Replays arena ledger later after) : Replays arena opening (events ++ later) after := by
  induction second with
  | start => rwa [List.append_nil]
  | enter _ enters ih => exact List.append_assoc events _ _ ▸ .enter ih enters

theorem Replays.extends (view : Ledger → List β) {part : Event → Option β}
    (each : ∀ {before event after}, Enters arena before event after →
      view after = view before ++ (part event).toList)
    (replays : Replays arena opening events after) :
    view after = view opening ++ events.filterMap part := by
  induction replays with
  | start => rw [List.filterMap_nil, List.append_nil]
  | @enter events event ledger after _ enters ih =>
    rw [each enters, ih, List.filterMap_append, List.append_assoc]
    cases found : part event <;> simp [found]

theorem Replays.opened (replays : Replays arena opening events after) :
    after.file.taken = opening.file.taken ++ (events.filterMap Event.opened?).map (·.toUInt32) := by
  rw [List.map_filterMap]
  refine replays.extends (fun ledger => ledger.file.taken) fun enters => ?_
  cases enters <;> simp_all [Custody.taken, Event.opened?, Except.toOption]

theorem Replays.closed (replays : Replays arena opening events after) :
    after.file.givenBack = opening.file.givenBack ++ events.filterMap Event.closed? := by
  refine replays.extends (fun ledger => ledger.file.givenBack) fun enters => ?_
  cases enters <;> simp [Custody.givenBack, Event.closed?]

theorem Replays.reserved (replays : Replays arena opening events after) :
    after.region.taken = opening.region.taken ++ events.filterMap Event.reserved? := by
  refine replays.extends (fun ledger => ledger.region.taken) fun enters => ?_
  cases enters <;> simp_all [Custody.taken, Event.reserved?, Except.toOption]

theorem Replays.released (replays : Replays arena opening events after) :
    after.region.givenBack = opening.region.givenBack ++ events.filterMap Event.released? := by
  refine replays.extends (fun ledger => ledger.region.givenBack) fun enters => ?_
  cases enters <;> simp [Custody.givenBack, Event.released?]

/-- Whatever calls have mapped, and left so, is in the region in hand. -/
theorem Replays.mapped {address : UInt64} (replays : Replays arena .fresh events after)
    (mapped : mappedBy events address = true) :
    ∃ region, after.region = .held region ∧ region.Covers address := by
  -- Only a call that maps adds addresses, and its range is in the region in hand.
  induction replays with
  | start => contradiction
  | enter _ enters ih =>
    rw [mappedBy, List.foldl_append, List.foldl_cons, List.foldl_nil, ← mappedBy] at mapped
    cases enters with
    | writes => exact ih mapped
    | opensNot failed => exact ih mapped
    | opens success => exact ih mapped
    | reads => exact ih mapped
    | closes => exact ih mapped
    | mapsNot failed =>
      simp only [Event.mapped, failed] at mapped
      exact ih mapped
    | reserves unfixed success inside nonempty =>
      simp only [Event.mapped, success, Bool.or_eq_true, decide_eq_true_eq] at mapped
      rcases mapped with before | covers
      · obtain ⟨_, held, _⟩ := ih before
        contradiction
      · exact ⟨_, rfl, by simpa [MapRequest.range, unfixed] using covers⟩
    | replaces fixed success inside =>
      simp only [Event.mapped, success, Bool.or_eq_true, decide_eq_true_eq] at mapped
      rcases mapped with before | covers
      · exact ih before
      · rw [MapRequest.range, if_pos fixed] at covers
        exact ⟨_, rfl, Region.covers_of_encloses inside covers⟩
    | releases success =>
      simp only [Event.mapped, success, Bool.and_eq_true, Bool.not_eq_true',
        decide_eq_false_iff_not] at mapped
      obtain ⟨_, held, covers⟩ := ih mapped.1
      cases held
      exact absurd covers mapped.2

def Inside (arena : Region) (ledger : Ledger) : Prop :=
  ∀ region, ledger.region = .held region →
    arena.encloses region.address region.length = true ∧ region.length ≠ 0

theorem Replays.inside (replays : Replays arena opening events after)
    (inside : Inside arena opening) : Inside arena after := by
  induction replays with
  | start => exact inside
  | enter _ enters ih =>
    intro region held
    cases enters with
    | reserves unfixed success inside nonempty =>
      cases held
      exact ⟨inside, nonempty⟩
    | releases success => contradiction
    | _ => exact ih region held

/-- Once the file is closed nothing is read or mapped any more. -/
theorem Replays.settles {descriptor : UInt32} (replays : Replays arena opening events after)
    (closed : opening.file = .returned descriptor) :
    after.file = .returned descriptor ∧ ∀ event ∈ events, event.Settles := by
  induction replays with
  | start => exact ⟨closed, fun _ member => nomatch member⟩
  | @enter events event ledger after _ enters ih =>
    obtain ⟨stays, early⟩ := ih
    have last : after.file = .returned descriptor ∧ event.Settles := by
      cases enters with
      | writes => exact ⟨stays, .inl ⟨_, _, _, rfl⟩⟩
      | releases success => exact ⟨stays, .inr ⟨_, _, _, rfl⟩⟩
      | _ => contradiction
    refine ⟨last.1, fun event member => ?_⟩
    rcases List.mem_append.mp member with member | member
    · exact early event member
    · exact List.mem_singleton.mp member ▸ last.2

end Ledger
end ElfRelay
