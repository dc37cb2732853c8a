import ElfRelay.Proofs.Reading.Schedules
/-! Whole reads of a regular file. However the system cuts its answers, and however often a
call is interrupted, the buffer gets what the file holds at the offset, as far as either
reaches, and the rest of it is left alone. -/
namespace ElfRelay

/-- Whether an answer lets a read come to its end: the call is interrupted, or it gets at
least a byte if there is one. -/
def Answer.Continues : Answer → Prop
  | .ordinary => True
  | .fixed result => Errno.ofResult result = .error Errno.interrupted
  | .atMost limit => 0 < limit

theorem Answer.serves_iff_continues {answer : Answer} :
    answer.Serves (fun _ => False) ↔ answer.Continues := by
  cases answer <;> simp [Serves, Continues]

namespace Kernel

/-- A system that holds a regular file under a descriptor, and lets every read of it come to
its end. No file reaches behind the last offset. -/
structure Provides (k : Kernel) (descriptor : UInt32) (contents : Array UInt8) : Prop where
  node : k.node? descriptor = some (.regular contents)
  continues : ∀ answer ∈ k.pending .pread, answer.Continues
  small : contents.size ≤ maxOffset

variable {k : Kernel} {descriptor : UInt32} {contents : Array UInt8} {offset : UInt64}
  {buffer : Bytes}

theorem provides_iff_serves :
    k.Provides descriptor contents ↔ k.Serves descriptor contents (fun _ => False) := by
  constructor
  · rintro ⟨node, continues, small⟩
    exact ⟨node, fun _ member => Answer.serves_iff_continues.mpr (continues _ member), .inl small⟩
  · rintro ⟨node, serves, reach⟩
    exact ⟨node, fun _ member => Answer.serves_iff_continues.mp (serves _ member),
      reach.resolve_right id⟩

theorem Provides.onlyFails (provides : k.Provides descriptor contents) : k.OnlyFails .pread :=
  fun _ member => ⟨_, provides.continues _ member⟩

theorem Provides.pread (provides : k.Provides descriptor contents) (length : Nat)
    (offset : UInt64) : (k.pread descriptor length offset).2.Provides descriptor contents :=
  provides_iff_serves.mpr ((provides_iff_serves.mp provides).pread length offset)

/-- What a whole read gives, at an offset that the system takes: the bytes of the file, as
far as it or the buffer reaches. -/
theorem readFully_provides (provides : k.Provides descriptor contents)
    (low : offset.toNat ≤ maxOffset) (buffer : Bytes) :
    let read := slice contents.toList offset.toNat buffer.length
    (readFully descriptor buffer offset k).1 = (.ok read.length, read ++ buffer.drop read.length) ∧
      (readFully descriptor buffer offset k).2.Provides descriptor contents := by
  have fits : min buffer.length (contents.size - offset.toNat) ≤ maxOffset :=
    Nat.le_trans (Nat.min_le_right _ _) (Nat.le_trans (Nat.sub_le _ _) provides.small)
  obtain ⟨_, still, calls, _, gathers⟩ :=
    readFully_completes (provides_iff_serves.mp provides) low rfl fits
  have size : contents.toList.length = contents.size := Array.length_toList
  have part := slice_min contents.toList offset.toNat buffer.length
  rw [size] at part
  refine ⟨?_, provides_iff_serves.mpr still⟩
  rw [gathers.eq_whole, filled, part, length_slice, size]

/-- An offset that the system does not take ends the read, at a buffer that is not empty. -/
theorem readFrom_beyond (provides : k.Provides descriptor contents)
    (high : maxOffset < offset.toNat) (nonempty : buffer ≠ []) {bound : Nat}
    (enough : (k.pending .pread).length < bound) :
    (readFrom descriptor offset bound ⟨buffer, 0⟩ k).1 = (.error Errno.invalidArgument, buffer) ∧
      (readFrom descriptor offset bound ⟨buffer, 0⟩ k).2.Provides descriptor contents := by
  induction bound generalizing k with
  | zero => exact absurd enough (Nat.not_lt_zero _)
  | succ bound ih =>
    have unfinished : 0 < buffer.length := List.length_pos_of_ne_nil nonempty
    have start : offset + (0 : Nat).toUInt64 = offset := UInt64.add_zero offset
    have cases := k.pread_cases descriptor buffer.length offset
    have still := provides.pread buffer.length offset
    rcases called : k.pread descriptor buffer.length offset with ⟨⟨result, stored⟩, after⟩
    rw [called] at cases still
    dsimp only at cases still
    rw [← start, ← Nat.sub_zero buffer.length] at called
    have asks : Reading.Asks ⟨buffer, 0⟩ descriptor offset k result stored after :=
      ⟨unfinished, called⟩
    rcases cases with ⟨_, prepared, answered, fewer⟩ | ⟨cut, _, _, answered, _⟩
    · cases answered
      rw [readFrom_interrupted asks (provides.continues _ prepared), splice_nil]
      exact ih still (by omega)
    · rw [readAnswer_beyond provides.node high] at answered
      cases answered
      have refused : Errno.ofResult (failure 22) = .error Errno.invalidArgument := rfl
      rw [readFrom_refused asks refused (by decide), splice_nil]
      exact ⟨rfl, still⟩

theorem readFully_beyond (provides : k.Provides descriptor contents)
    (high : maxOffset < offset.toNat) (nonempty : buffer ≠ []) :
    (readFully descriptor buffer offset k).1 = (.error Errno.invalidArgument, buffer) ∧
      (readFully descriptor buffer offset k).2.Provides descriptor contents :=
  readFrom_beyond provides high nonempty
    (Nat.lt_add_of_pos_right (List.length_pos_of_ne_nil nonempty))

theorem readFully_nil (descriptor : UInt32) (offset : UInt64) (k : Kernel) :
    readFully descriptor [] offset k = ((.ok 0, []), k) := by
  rw [readFully, readFrom_full]
  exact Nat.le_refl 0

/-- What a whole read gives is settled by the file alone, not by the system that holds it. -/
theorem readFully_settled (one : k.Provides descriptor contents)
    {l : Kernel} (two : l.Provides descriptor contents) (buffer : Bytes) (offset : UInt64) :
    (readFully descriptor buffer offset l).1 = (readFully descriptor buffer offset k).1 ∧
      (readFully descriptor buffer offset k).2.Provides descriptor contents ∧
      (readFully descriptor buffer offset l).2.Provides descriptor contents := by
  rcases Nat.lt_or_ge maxOffset offset.toNat with high | low
  · rcases eq_or_ne buffer [] with rfl | nonempty
    · rw [readFully_nil, readFully_nil]
      exact ⟨rfl, one, two⟩
    · obtain ⟨first, still⟩ := readFully_beyond one high nonempty
      obtain ⟨second, later⟩ := readFully_beyond two high nonempty
      exact ⟨second.trans first.symm, still, later⟩
  · obtain ⟨first, still⟩ := readFully_provides one low buffer
    obtain ⟨second, later⟩ := readFully_provides two low buffer
    exact ⟨second.trans first.symm, still, later⟩

end Kernel
end ElfRelay
