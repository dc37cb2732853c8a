import ElfRelay.Bytes.Laws
import ElfRelay.Proofs.Transfer
/-! Reads of a regular file under any schedule of answers. A call may be interrupted, fail, or
get some of what it has asked for, if there is any. A read comes to its end under all of them:
with all that there is, or with the error of the first call that has failed otherwise than
by an interruption. -/
namespace ElfRelay

def filled (contents : Bytes) (start : Nat) (buffer : Bytes) (count : Nat) : Bytes :=
  slice contents start count ++ buffer.drop count

section
variable {contents buffer : Bytes} {start count width : Nat}

theorem filled_zero (contents : Bytes) (start : Nat) (buffer : Bytes) :
    filled contents start buffer 0 = buffer := by
  simp [filled, slice]

theorem length_filled (inside : count ≤ min buffer.length (contents.length - start)) :
    (filled contents start buffer count).length = buffer.length := by
  rw [filled, List.length_append, length_slice, List.length_drop]
  omega

theorem splice_filled (contents : Bytes) (start : Nat) (buffer : Bytes)
    (inside : count + width ≤ min buffer.length (contents.length - start)) :
    splice (filled contents start buffer count) count (slice contents (start + count) width) =
      filled contents start buffer (count + width) := by
  have size : (slice contents start count).length = count := by
    rw [length_slice]
    omega
  have next : (slice contents (start + count) width).length = width := by
    rw [length_slice]
    omega
  have spliced := splice_append (slice contents start count)
    (slice contents (start + count) width) (buffer.drop count)
    (by rw [next, List.length_drop]; omega)
  rw [size, next, List.drop_drop] at spliced
  rw [filled, spliced, filled, slice_add, List.append_assoc]

theorem splice_nil (bytes : Bytes) (start : Nat) : splice bytes start [] = bytes := by
  simp [splice]

end

def Event.refusal? : Event → Option Errno
  | .pread _ _ _ result =>
    match Errno.ofResult result with
    | .error errno => if errno = Errno.interrupted then none else some errno
    | .ok _ => none
  | _ => none

/-- Whether an answer interrupts a call, fails with one of some errors, or lets the call get at
least a byte if there is one. -/
def Answer.Serves (failures : Errno → Prop) : Answer → Prop
  | .ordinary => True
  | .fixed result =>
    ∃ errno, Errno.ofResult result = .error errno ∧ (errno = Errno.interrupted ∨ failures errno)
  | .atMost limit => 0 < limit

namespace Kernel

/-- A system that holds a regular file under a descriptor, and whose calls that read it fail
with some errors at most. One of them is that for an offset that the system does not take, if
the file reaches that far. -/
structure Serves (k : Kernel) (descriptor : UInt32) (contents : Array UInt8)
    (failures : Errno → Prop) : Prop where
  node : k.node? descriptor = some (.regular contents)
  serves : ∀ answer ∈ k.pending .pread, answer.Serves failures
  reach : contents.size ≤ maxOffset ∨ failures Errno.invalidArgument

/-- The call that a read in progress makes, if its buffer is not full: for the rest of the
buffer, from the place on that it has come to. -/
structure Reading.Asks (reading : Reading) (descriptor : UInt32) (offset : UInt64) (k : Kernel)
    (result : UInt64) (stored : Bytes) (after : Kernel) : Prop where
  unfinished : reading.filled < reading.buffer.length
  called : k.pread descriptor (reading.buffer.length - reading.filled)
    (offset + reading.filled.toUInt64) = ((result, stored), after)

def Reading.partway (contents : Array UInt8) (offset : UInt64) (buffer : Bytes) (count : Nat) :
    Reading :=
  ⟨ElfRelay.filled contents.toList offset.toNat buffer count, count⟩

/-- How a read in progress comes to its end, with no bound on its calls. It goes on from a call
that has been interrupted or has got something, unless its buffer is full. -/
inductive Finishes (descriptor : UInt32) (offset : UInt64) :
    Reading → Kernel → (Except Errno Nat × Bytes) × Kernel → Prop
  | full {reading : Reading} {k : Kernel} (full : reading.buffer.length ≤ reading.filled) :
    Finishes descriptor offset reading k ((.ok reading.filled, reading.buffer), k)
  | ended {reading : Reading} {k after : Kernel} {result : UInt64} {stored : Bytes}
    (asks : reading.Asks descriptor offset k result stored after)
    (ended : Errno.ofResult result = .ok 0) :
    Finishes descriptor offset reading k
      ((.ok reading.filled, splice reading.buffer reading.filled stored), after)
  | refused {reading : Reading} {k after : Kernel} {result : UInt64} {stored : Bytes}
    {errno : Errno} (asks : reading.Asks descriptor offset k result stored after)
    (refused : Errno.ofResult result = .error errno) (other : errno ≠ Errno.interrupted) :
    Finishes descriptor offset reading k
      ((.error errno, splice reading.buffer reading.filled stored), after)
  | interrupted {reading : Reading} {k after : Kernel} {result : UInt64} {stored : Bytes}
    {outcome : (Except Errno Nat × Bytes) × Kernel}
    (asks : reading.Asks descriptor offset k result stored after)
    (interrupted : Errno.ofResult result = .error Errno.interrupted)
    (rest : Finishes descriptor offset
      ⟨splice reading.buffer reading.filled stored, reading.filled⟩ after outcome) :
    Finishes descriptor offset reading k outcome
  | advanced {reading : Reading} {k after : Kernel} {result count : UInt64} {stored : Bytes}
    {outcome : (Except Errno Nat × Bytes) × Kernel}
    (asks : reading.Asks descriptor offset k result stored after)
    (advanced : Errno.ofResult result = .ok count) (nonempty : count ≠ 0)
    (rest : Finishes descriptor offset ⟨splice reading.buffer reading.filled stored,
      (reading.filled + count.toNat) % UInt64.size⟩ after outcome) :
    Finishes descriptor offset reading k outcome

/-- What a call for `length` bytes of a file at a position has come to: the system before and
after it, the result and what has been stored. -/
inductive Polls (contents : Array UInt8) (position length : Nat) (failures : Errno → Prop)
    (k after : Kernel) : UInt64 × Bytes → Prop
  | interrupted {result : UInt64} (interrupted : Errno.ofResult result = .error Errno.interrupted)
    (fewer : (after.pending .pread).length < (k.pending .pread).length) :
    Polls contents position length failures k after (result, [])
  | refused {result : UInt64} {errno : Errno} (refused : Errno.ofResult result = .error errno)
    (other : errno ≠ Errno.interrupted) (may : failures errno) :
    Polls contents position length failures k after (result, [])
  | ended (nothing : min length (contents.size - position) = 0) :
    Polls contents position length failures k after (0, [])
  | advanced {width : UInt64} (some : 0 < width.toNat)
    (within : width.toNat ≤ min length (contents.size - position))
    (taken : Errno.ofResult width = .ok width)
    (fewer : (after.pending .pread).length ≤ (k.pending .pread).length) :
    Polls contents position length failures k after
      (width, slice contents.toList position width.toNat)

/-- How a read of `total` bytes of a file has ended, with the calls that it took: none of them
has been refused, and the buffer begins with all of the bytes; or the last one has been, its
error is the one that is given, and the buffer begins with what was read until then. -/
inductive Gathers (contents : Bytes) (start : Nat) (buffer : Bytes) (total : Nat)
    (failures : Errno → Prop) : List Event → Except Errno Nat × Bytes → Prop
  | whole {calls : List Event} (heeded : ∀ call ∈ calls, call.refusal? = none) :
    Gathers contents start buffer total failures calls
      (.ok total, filled contents start buffer total)
  | refused {earlier : List Event} {call : Event} {errno : Errno} {count : Nat}
    (heeded : ∀ call ∈ earlier, call.refusal? = none) (refused : call.refusal? = some errno)
    (may : failures errno) (inside : count ≤ total) :
    Gathers contents start buffer total failures (earlier ++ [call])
      (.error errno, filled contents start buffer count)

theorem Gathers.cons {contents buffer : Bytes} {start total : Nat} {failures : Errno → Prop}
    {calls : List Event} {answer : Except Errno Nat × Bytes} {call : Event}
    (gathers : Gathers contents start buffer total failures calls answer)
    (heeded : call.refusal? = none) :
    Gathers contents start buffer total failures (call :: calls) answer := by
  cases gathers with
  | whole others => exact .whole (List.forall_mem_cons.mpr ⟨heeded, others⟩)
  | refused others refused may inside =>
    exact .refused (List.forall_mem_cons.mpr ⟨heeded, others⟩) refused may inside

/-- A read none of whose calls can fail gets all of the bytes. -/
theorem Gathers.eq_whole {contents buffer : Bytes} {start total : Nat} {calls : List Event}
    {answer : Except Errno Nat × Bytes}
    (gathers : Gathers contents start buffer total (fun _ => False) calls answer) :
    answer = (.ok total, filled contents start buffer total) := by
  cases gathers with
  | whole _ => rfl
  | refused _ _ may _ => exact may.elim

def Gathered (contents : Bytes) (start : Nat) (buffer : Bytes) (total : Nat)
    (failures : Errno → Prop) (k : Kernel) (outcome : (Except Errno Nat × Bytes) × Kernel) : Prop :=
  ∃ calls, outcome.2.trace = k.trace ++ calls ∧
    Gathers contents start buffer total failures calls outcome.1

theorem Gathered.preceded {contents buffer : Bytes} {start total : Nat} {failures : Errno → Prop}
    {k after : Kernel} {outcome : (Except Errno Nat × Bytes) × Kernel} {call : Event}
    (gathered : Gathered contents start buffer total failures after outcome)
    (made : after.trace = k.trace ++ [call]) (heeded : call.refusal? = none) :
    Gathered contents start buffer total failures k outcome := by
  obtain ⟨calls, trace, gathers⟩ := gathered
  refine ⟨call :: calls, ?_, gathers.cons heeded⟩
  rw [trace, made, List.append_assoc]
  rfl

variable {k after : Kernel} {descriptor : UInt32} {contents : Array UInt8} {length : Nat}
  {offset : UInt64} {buffer : Bytes} {failures : Errno → Prop}

/-- A number of bytes up to the last offset is a result that reports no error. -/
theorem ofResult_count {count : Nat} (small : count ≤ maxOffset) :
    Errno.ofResult count.toUInt64 = .ok count.toUInt64 := by
  rw [Errno.ofResult]
  refine if_neg fun high => ?_
  have high := UInt64.le_iff_toNat_le.mp high
  rw [toNat_count small] at high
  exact absurd (Nat.le_trans high small) (by decide)

theorem toNat_position {count : Nat} (low : offset.toNat ≤ maxOffset) (small : count ≤ maxOffset) :
    (offset + count.toUInt64).toNat = offset.toNat + count := by
  rw [UInt64.toNat_add, toNat_count small]
  exact Nat.mod_eq_of_lt (Nat.lt_of_le_of_lt (Nat.add_le_add low small) (by decide))

theorem pending_pread (k : Kernel) (descriptor : UInt32) (length : Nat) (offset : UInt64) :
    (k.pread descriptor length offset).2.pending .pread = (k.pending .pread).tail :=
  (pending_answered k .pread .pread).trans (if_pos rfl)

/-- A call uses up a result that was prepared for it, or it follows the rules on a part of its
length, which is empty only if it was or if it was to be cut so. -/
theorem pread_cases (k : Kernel) (descriptor : UInt32) (length : Nat) (offset : UInt64) :
    (∃ result, .fixed result ∈ k.pending .pread ∧
      (k.pread descriptor length offset).1 = (result, []) ∧
      ((k.pread descriptor length offset).2.pending .pread).length < (k.pending .pread).length) ∨
    ∃ cut ≤ length, (cut = 0 → length = 0 ∨ .atMost 0 ∈ k.pending .pread) ∧
      (k.pread descriptor length offset).1 = k.readAnswer descriptor cut offset ∧
      ((k.pread descriptor length offset).2.pending .pread).length ≤ (k.pending .pread).length := by
  rw [pending_pread, Kernel.pread]
  dsimp only
  cases pending : k.pending .pread with
  | nil =>
    have next : k.answer .pread = .ordinary := by simp [answer, pending]
    rw [next]
    exact .inr ⟨length, Nat.le_refl _, .inl, rfl, Nat.le_refl _⟩
  | cons first later =>
    have next : k.answer .pread = first := by simp [answer, pending]
    rw [next]
    cases first with
    | fixed result => exact .inl ⟨result, List.mem_cons_self, rfl, Nat.lt_succ_self _⟩
    | atMost limit =>
      refine .inr ⟨min limit length, Nat.min_le_right _ _, fun none => ?_, rfl, Nat.le_succ _⟩
      rcases Nat.eq_zero_or_pos limit with rfl | some
      · exact .inr List.mem_cons_self
      · exact .inl (by omega)
    | ordinary => exact .inr ⟨length, Nat.le_refl _, .inl, rfl, Nat.le_succ _⟩

section
variable (node : k.node? descriptor = some (.regular contents))
include node

/-- What the rules give of a file: the bytes at the offset, as far as it reaches. -/
theorem readAnswer_eq (low : offset.toNat ≤ maxOffset) (length : Nat) :
    k.readAnswer descriptor length offset =
      ((min length (contents.size - offset.toNat)).toUInt64,
        slice contents.toList offset.toNat (min length (contents.size - offset.toNat))) := by
  have stored : (contents.extract offset.toNat (offset.toNat + length)).toList =
      slice contents.toList offset.toNat (min length (contents.size - offset.toNat)) := by
    have part := slice_min contents.toList offset.toNat length
    rw [Array.length_toList] at part
    rw [part, slice, Array.toList_extract, List.extract_eq_take_drop, Nat.add_sub_cancel_left]
  have size : (contents.extract offset.toNat (offset.toNat + length)).toList.length =
      min length (contents.size - offset.toNat) := by
    simp
  simp only [readAnswer, node, if_neg (Nat.not_lt.mpr low), size]
  rw [stored]

theorem readAnswer_beyond (high : maxOffset < offset.toNat) (length : Nat) :
    k.readAnswer descriptor length offset = (failure 22, []) := by
  simp only [readAnswer, node, if_pos high]

end

namespace Serves

variable (serves : k.Serves descriptor contents failures)
include serves

theorem pread (length : Nat) (offset : UInt64) :
    (k.pread descriptor length offset).2.Serves descriptor contents failures where
  node := serves.node
  serves answer member := by
    rw [pending_pread] at member
    exact serves.serves answer (List.mem_of_mem_tail member)
  reach := serves.reach

/-- A poll fails, with an interruption or otherwise, or it gets some of what the file holds at
its position. -/
theorem polls (low : offset.toNat ≤ maxOffset) (length count : Nat)
    (inside : count ≤ contents.size - offset.toNat)
    (fits : count + min length (contents.size - (offset.toNat + count)) ≤ maxOffset) :
    Polls contents (offset.toNat + count) length failures k
      (k.pread descriptor length (offset + count.toUInt64)).2
      (k.pread descriptor length (offset + count.toUInt64)).1 := by
  have position := toNat_position low (Nat.le_trans (Nat.le_add_right _ _) fits)
  rcases k.pread_cases descriptor length (offset + count.toUInt64) with
    ⟨result, prepared, answered, fewer⟩ | ⟨cut, within, nonempty, answered, fewer⟩
  · obtain ⟨errno, failed, reason⟩ := serves.serves _ prepared
    rw [answered]
    by_cases interrupted : errno = Errno.interrupted
    · exact .interrupted (interrupted ▸ failed) fewer
    · exact .refused failed interrupted (reason.resolve_left interrupted)
  · rcases Nat.lt_or_ge maxOffset (offset + count.toUInt64).toNat with high | reach
    · -- The file reaches behind the last offset, as it holds a byte at one that is refused.
      have long : ¬ contents.size ≤ maxOffset := by omega
      rw [answered, readAnswer_beyond serves.node high]
      exact .refused (rfl : Errno.ofResult (failure 22) = .error Errno.invalidArgument) (by decide)
        (serves.reach.resolve_left long)
    · rw [answered, readAnswer_eq serves.node reach, position]
      have few : min cut (contents.size - (offset.toNat + count)) ≤ maxOffset := by omega
      have narrow := toNat_count few
      rcases Nat.eq_zero_or_pos (min cut (contents.size - (offset.toNat + count))) with none | some
      · have cut : cut = 0 → length = 0 := fun empty =>
          (nonempty empty).resolve_right fun prepared =>
            absurd (serves.serves _ prepared) (Nat.lt_irrefl 0)
        rw [none]
        exact .ended (by omega)
      · nth_rewrite 2 [← narrow]
        exact .advanced (by omega) (by omega) (ofResult_count few) fewer

end Serves

theorem readFrom_full {reading : Reading} (full : reading.buffer.length ≤ reading.filled)
    (bound : Nat) :
    readFrom descriptor offset bound reading k = ((.ok reading.filled, reading.buffer), k) := by
  cases bound with
  | zero => rfl
  | succ bound => exact if_pos full

section
variable {reading : Reading} {bound : Nat} {result : UInt64} {stored : Bytes}
  (asks : reading.Asks descriptor offset k result stored after)
include asks

theorem Reading.Asks.trace : after.trace = k.trace ++ [.pread descriptor
    (reading.buffer.length - reading.filled) (offset + reading.filled.toUInt64) result] := by
  have called := asks.called
  have answered : (k.pread descriptor (reading.buffer.length - reading.filled)
      (offset + reading.filled.toUInt64)).1.1 = result := by rw [called]
  have reached : after = (k.pread descriptor (reading.buffer.length - reading.filled)
      (offset + reading.filled.toUInt64)).2 := by rw [called]
  rw [reached, ← answered]
  exact trace_record (k.answered .pread) _

theorem readFrom_interrupted (interrupted : Errno.ofResult result = .error Errno.interrupted) :
    readFrom descriptor offset (bound + 1) reading k =
      readFrom descriptor offset bound
        ⟨splice reading.buffer reading.filled stored, reading.filled⟩ after := by
  rw [readFrom, if_neg (Nat.not_le.mpr asks.unfinished), asks.called]
  dsimp only
  rw [interrupted]
  exact if_pos rfl

theorem readFrom_refused {errno : Errno} (refused : Errno.ofResult result = .error errno)
    (other : errno ≠ Errno.interrupted) :
    readFrom descriptor offset (bound + 1) reading k =
      ((.error errno, splice reading.buffer reading.filled stored), after) := by
  rw [readFrom, if_neg (Nat.not_le.mpr asks.unfinished), asks.called]
  dsimp only
  rw [refused]
  exact if_neg other

theorem readFrom_ended (ended : Errno.ofResult result = .ok 0) :
    readFrom descriptor offset (bound + 1) reading k =
      ((.ok reading.filled, splice reading.buffer reading.filled stored), after) := by
  rw [readFrom, if_neg (Nat.not_le.mpr asks.unfinished), asks.called]
  dsimp only
  rw [ended]
  exact if_pos rfl

theorem readFrom_advanced {count : UInt64} (advanced : Errno.ofResult result = .ok count)
    (nonempty : count ≠ 0) :
    readFrom descriptor offset (bound + 1) reading k =
      readFrom descriptor offset bound
        ⟨splice reading.buffer reading.filled stored,
          (reading.filled + count.toNat) % UInt64.size⟩ after := by
  rw [readFrom, if_neg (Nat.not_le.mpr asks.unfinished), asks.called]
  dsimp only
  rw [advanced]
  exact if_neg nonempty

end

structure Completes (descriptor : UInt32) (offset : UInt64) (contents : Array UInt8)
    (buffer : Bytes) (total : Nat) (failures : Errno → Prop) (count : Nat) (k : Kernel)
    (outcome : (Except Errno Nat × Bytes) × Kernel) : Prop where
  finishes : Finishes descriptor offset (.partway contents offset buffer count) k outcome
  serves : outcome.2.Serves descriptor contents failures
  gathers : Gathered contents.toList offset.toNat buffer total failures k outcome

namespace Completes

variable {total count : Nat} {outcome : (Except Errno Nat × Bytes) × Kernel} {result : UInt64}

theorem full (serves : k.Serves descriptor contents failures)
    (full : (Reading.partway contents offset buffer total).buffer.length ≤ total) (bound : Nat) :
    Completes descriptor offset contents buffer total failures total k
      (readFrom descriptor offset bound (.partway contents offset buffer total) k) := by
  rw [readFrom_full full]
  exact ⟨.full full, serves, [], (List.append_nil _).symm, .whole nofun⟩

variable {stored : Bytes}
  (asks : (Reading.partway contents offset buffer count).Asks descriptor offset k result stored after)
include asks

theorem ended (serves : after.Serves descriptor contents failures)
    (ended : Errno.ofResult result = .ok 0) (nothing : stored = []) (whole : count = total) :
    Completes descriptor offset contents buffer total failures count k
      ((.ok total, filled contents.toList offset.toNat buffer total), after) := by
  subst nothing whole
  have finishes := Finishes.ended asks ended
  rw [splice_nil] at finishes
  refine ⟨finishes, serves, _, asks.trace, .whole (List.forall_mem_singleton.mpr ?_)⟩
  rw [Event.refusal?, ended]

theorem refused (serves : after.Serves descriptor contents failures) {errno : Errno}
    (refused : Errno.ofResult result = .error errno) (other : errno ≠ Errno.interrupted)
    (may : failures errno) (nothing : stored = []) (inside : count ≤ total) :
    Completes descriptor offset contents buffer total failures count k
      ((.error errno, filled contents.toList offset.toNat buffer count), after) := by
  subst nothing
  have finishes := Finishes.refused asks refused other
  rw [splice_nil] at finishes
  have heeded (call : Event) (member : call ∈ []) : call.refusal? = none := nomatch member
  refine ⟨finishes, serves, _, asks.trace, .refused heeded ?_ may inside⟩
  rw [Event.refusal?, refused]
  exact if_neg other

theorem interrupted (interrupted : Errno.ofResult result = .error Errno.interrupted)
    (nothing : stored = [])
    (rest : Completes descriptor offset contents buffer total failures count after outcome) :
    Completes descriptor offset contents buffer total failures count k outcome := by
  subst nothing
  refine ⟨.interrupted asks interrupted ?_, rest.serves, rest.gathers.preceded asks.trace ?_⟩
  · rw [splice_nil]
    exact rest.finishes
  · rw [Event.refusal?, interrupted]
    exact if_pos rfl

theorem advanced (advanced : Errno.ofResult result = .ok result) (some : 0 < result.toNat)
    (extended : (⟨splice (filled contents.toList offset.toNat buffer count) count stored,
      (count + result.toNat) % UInt64.size⟩ : Reading) =
      .partway contents offset buffer (count + result.toNat))
    (rest : Completes descriptor offset contents buffer total failures (count + result.toNat) after
      outcome) :
    Completes descriptor offset contents buffer total failures count k outcome := by
  have nonempty : result ≠ 0 := fun zero => by simp [zero] at some
  refine ⟨.advanced asks advanced nonempty (extended ▸ rest.finishes), rest.serves,
    rest.gathers.preceded asks.trace ?_⟩
  rw [Event.refusal?, advanced]

end Completes

/-- Each poll is interrupted or extends what has been read, until the buffer is full, the file
ends or a call is refused. -/
theorem readFrom_completes (serves : k.Serves descriptor contents failures)
    (low : offset.toNat ≤ maxOffset) (buffer : Bytes) {total bound count : Nat}
    (whole : total = min buffer.length (contents.size - offset.toNat)) (fits : total ≤ maxOffset)
    (inside : count ≤ total)
    (enough : (k.pending .pread).length + (buffer.length - count) ≤ bound) :
    Completes descriptor offset contents buffer total failures count k
      (readFrom descriptor offset bound (.partway contents offset buffer count) k) := by
  have size : contents.toList.length = contents.size := Array.length_toList
  have wide (count : Nat) (inside : count ≤ total) :
      (filled contents.toList offset.toNat buffer count).length = buffer.length :=
    length_filled (by omega)
  -- On the bound: an interruption uses up an answer, any other poll fills at least a byte.
  induction bound generalizing count k with
  | zero =>
    obtain rfl : count = total := by omega
    exact .full serves (by rw [Reading.partway, wide _ inside]; omega) 0
  | succ bound ih =>
    rcases Nat.lt_or_ge count buffer.length with unfinished | full
    · have polls := serves.polls low (buffer.length - count) count (by omega) (by omega)
      have still := serves.pread (buffer.length - count) (offset + count.toUInt64)
      rcases called : k.pread descriptor (buffer.length - count) (offset + count.toUInt64) with
        ⟨⟨result, stored⟩, after⟩
      rw [called] at polls still
      have asks : (Reading.partway contents offset buffer count).Asks descriptor offset k result
          stored after := by
        refine ⟨(wide _ inside).symm ▸ unfinished, ?_⟩
        rw [Reading.partway, wide _ inside]
        exact called
      dsimp only at polls still
      cases polls with
      | interrupted interrupted fewer =>
        rw [readFrom_interrupted asks interrupted, splice_nil]
        exact .interrupted asks interrupted rfl (ih still inside (by omega))
      | refused refused other may =>
        rw [readFrom_refused asks refused other, splice_nil]
        exact .refused asks still refused other may rfl inside
      | ended nothing =>
        obtain rfl : count = total := by omega
        rw [readFrom_ended asks rfl, splice_nil]
        exact .ended asks still rfl rfl rfl
      | advanced some within taken fewer =>
        have more : count + result.toNat ≤ total := by omega
        have nonempty : result ≠ 0 := fun zero => by simp [zero] at some
        have extended : (⟨splice (filled contents.toList offset.toNat buffer count) count
            (slice contents.toList (offset.toNat + count) result.toNat),
            (count + result.toNat) % UInt64.size⟩ : Reading) =
            .partway contents offset buffer (count + result.toNat) := by
          rw [splice_filled contents.toList offset.toNat buffer (by omega), Nat.mod_eq_of_lt
            (Nat.lt_of_le_of_lt (Nat.le_trans more fits) (by decide)), Reading.partway]
        rw [readFrom_advanced asks taken nonempty]
        exact .advanced asks taken some extended (extended ▸ ih still more (by omega))
    · obtain rfl : count = total := by omega
      exact .full serves (Nat.le_trans (Nat.le_of_eq (wide _ inside)) full) (bound + 1)

theorem readFully_completes (serves : k.Serves descriptor contents failures)
    (low : offset.toNat ≤ maxOffset) {buffer : Bytes} {total : Nat}
    (whole : total = min buffer.length (contents.size - offset.toNat)) (fits : total ≤ maxOffset) :
    Completes descriptor offset contents buffer total failures 0 k
      (readFully descriptor buffer offset k) := by
  have completes := readFrom_completes serves low buffer whole fits (Nat.zero_le _) (Nat.le_refl _)
  rwa [Reading.partway, filled_zero] at completes

end Kernel
end ElfRelay
