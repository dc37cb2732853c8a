import ElfRelay.Proofs.Answers
/-! Transfers against a system that never claims more than it was asked for. Writing any
text out then comes to an end, and reading stays inside its buffer and below the end
of the address space, poll after poll. -/
namespace ElfRelay

theorem length_splice (bytes data : Bytes) {start : Nat}
    (inside : start + data.length ≤ bytes.length) : (splice bytes start data).length = bytes.length := by
  simp [splice]
  omega

theorem signed_nonpos_of_error {result : UInt64} {errno : Errno}
    (failed : Errno.ofResult result = .error errno) : signed result ≤ 0 := by
  rw [Errno.ofResult] at failed
  split at failed
  · next refused =>
    have high := UInt64.le_iff_toNat_le.mp refused
    have cond : signed result = result.toBitVec.toInt := rfl
    rw [cond, BitVec.toInt_eq_toNat_cond]
    have := result.toNat_lt
    simp at high ⊢
    omega
  · contradiction

theorem ok_of_ofResult {result value : UInt64} (success : Errno.ofResult result = .ok value) :
    value = result := by
  rw [Errno.ofResult] at success
  split at success
  · contradiction
  · exact (Except.ok.inj success).symm

theorem toNat_toUInt64_le (n : Nat) : n.toUInt64.toNat ≤ n := Nat.mod_le n UInt64.size

/-- A call that reads at a position, into a buffer of which some is filled. It asks for the
rest of the buffer, and the position is a sum that does not wrap. -/
def Event.Polls (descriptor : UInt32) (size : Nat) (offset : UInt64) (event : Event) : Prop :=
  ∃ filled position result, event = .pread descriptor (size - filled) position result ∧
    filled < size ∧ position.toNat = offset.toNat + filled

namespace Kernel

variable {k : Kernel} {descriptor : UInt32} {data : Bytes} {offset : UInt64} {size : Nat}
  {reading : Reading}

theorem toNat_count {count : Nat} (small : count ≤ maxOffset) : count.toUInt64.toNat = count :=
  Nat.mod_eq_of_lt (Nat.lt_of_le_of_lt small (by decide))

theorem signed_count {count : Nat} (small : count ≤ maxOffset) : signed count.toUInt64 = count := by
  have cond : signed count.toUInt64 = count.toUInt64.toBitVec.toInt := rfl
  have narrow : count.toUInt64.toBitVec.toNat = count := toNat_count small
  rw [cond, BitVec.toInt_eq_toNat_cond, narrow]
  rw [maxOffset] at small
  exact if_pos (by omega)

theorem writeUpTo_bounds (descriptor : UInt32) (data : Bytes) (limit : Nat) (k : Kernel) :
    signed (k.writeUpTo descriptor data limit).1 ≤ 0 ∨
      (k.writeUpTo descriptor data limit).1.toNat ≤ data.length := by
  rw [writeUpTo]
  split
  · have stored := toNat_toUInt64_le (data.take limit).length
    have fewer := List.length_take_le' limit data
    exact .inr (Nat.le_trans stored fewer)
  · exact .inl (by simp only; decide)

theorem write_bounds (fails : k.OnlyFails .write) (descriptor : UInt32) (data : Bytes) :
    signed (k.write descriptor data).1 ≤ 0 ∨ (k.write descriptor data).1.toNat ≤ data.length := by
  rw [write]
  cases next : k.answer .write with
  | fixed result =>
    obtain ⟨errno, failed⟩ := fails result (fixed_mem_pending next)
    exact .inl (signed_nonpos_of_error failed)
  | atMost limit => exact writeUpTo_bounds ..
  | ordinary => exact writeUpTo_bounds ..

theorem deliver_completes (fails : k.OnlyFails .write) (descriptor : UInt32) (bytes : Bytes)
    (excess : Overrun) : (k.deliver descriptor bytes).1 ≠ .overrun excess ∧
      (k.deliver descriptor bytes).2.OnlyFails .write := by
  fun_induction deliver descriptor bytes k with
  | case1 => exact ⟨by simp, fails⟩
  | case2 k first rest result after call refused =>
    have still := (Later.write k descriptor (first :: rest)).onlyFails fails
    rw [call] at still
    exact ⟨by simp, still⟩
  | case3 k first rest result after call positive beyond =>
    have bounds := write_bounds fails descriptor (first :: rest)
    rw [call] at bounds
    simp only [List.length_cons] at bounds
    omega
  | case4 k first rest result after call positive fits ih =>
    have still := (Later.write k descriptor (first :: rest)).onlyFails fails
    rw [call] at still
    exact ih still

theorem deliverPieces_completes (fails : k.OnlyFails .write) (descriptor : UInt32)
    (pieces : List Bytes) : (k.deliverPieces descriptor pieces).1 = none := by
  induction pieces generalizing k with
  | nil => rfl
  | cons piece pieces ih =>
    rw [deliverPieces]
    split
    · next excess after delivered =>
      have completes := (deliver_completes fails descriptor piece excess).1
      rw [delivered] at completes
      exact absurd rfl completes
    · next delivery after other delivered =>
      have still := (deliver_completes fails descriptor piece ⟨0, 0⟩).2
      rw [delivered] at still
      exact ih still

theorem readAnswer_bounds (k : Kernel) (descriptor : UInt32) {length limit : Nat}
    (offset : UInt64) (cut : length ≤ limit) :
    (k.readAnswer descriptor length offset).2.length ≤ limit ∧
      ∀ count, Errno.ofResult (k.readAnswer descriptor length offset).1 = .ok count →
        count.toNat ≤ limit ∧ offset.toNat ≤ maxOffset := by
  have refused {code : UInt64} (known : code = 9 ∨ code = 21 ∨ code = 22) (count : UInt64) :
      Errno.ofResult (failure code) ≠ .ok count := by
    rcases known with rfl | rfl | rfl <;> exact nofun
  rw [readAnswer]
  split
  · next contents named =>
    split
    · exact ⟨Nat.zero_le _, fun count success => absurd success (refused (by decide) count)⟩
    · next accepted =>
      have stored : (contents.extract offset.toNat (offset.toNat + length)).toList.length ≤ limit := by
        simp
        omega
      have counted := toNat_toUInt64_le
        (contents.extract offset.toNat (offset.toNat + length)).toList.length
      refine ⟨stored, fun count success => ⟨?_, Nat.not_lt.mp accepted⟩⟩
      rw [ok_of_ofResult success]
      exact Nat.le_trans counted stored
  · split
    · exact ⟨Nat.zero_le _, fun count success => absurd success (refused (by decide) count)⟩
    · exact ⟨Nat.zero_le _, fun count success => absurd success (refused (by decide) count)⟩
  · exact ⟨Nat.zero_le _, fun count success => absurd success (refused (by decide) count)⟩

theorem pread_bounds (fails : k.OnlyFails .pread) (descriptor : UInt32) (length : Nat)
    (offset : UInt64) :
    (k.pread descriptor length offset).1.2.length ≤ length ∧
      ∀ count, Errno.ofResult (k.pread descriptor length offset).1.1 = .ok count →
        count.toNat ≤ length ∧ offset.toNat ≤ maxOffset := by
  rw [pread]
  cases next : k.answer .pread with
  | fixed result =>
    obtain ⟨errno, failed⟩ := fails result (fixed_mem_pending next)
    exact ⟨Nat.zero_le _, fun count success => nomatch failed.symm.trans success⟩
  | atMost limit => exact readAnswer_bounds k descriptor offset (Nat.min_le_right limit length)
  | ordinary => exact readAnswer_bounds k descriptor offset (Nat.le_refl length)

/-- A read in progress is inside its buffer, and once it has read something, its offset is
one that the system takes. -/
structure Reading.Sound (offset : UInt64) (size : Nat) (reading : Reading) : Prop where
  length : reading.buffer.length = size
  inside : reading.filled ≤ size
  started : reading.filled = 0 ∨ offset.toNat ≤ maxOffset

theorem Reading.Sound.position (sound : reading.Sound offset size) (small : size ≤ maxOffset)
    (unfinished : reading.filled < size) :
    (offset + reading.filled.toUInt64).toNat = offset.toNat + reading.filled := by
  have narrow : reading.filled.toUInt64.toNat = reading.filled := by
    refine Nat.mod_eq_of_lt (Nat.lt_of_lt_of_le unfinished (Nat.le_trans small ?_))
    decide
  have := offset.toNat_lt
  rw [UInt64.toNat_add, narrow]
  apply Nat.mod_eq_of_lt
  rcases sound.started with empty | low
  · omega
  · rw [maxOffset] at small low
    omega

/-- How a read ends: the buffer is as long as before, what counts as read is in it, and
every call was a poll. -/
structure Reads (descriptor : UInt32) (offset : UInt64) (size : Nat) (k : Kernel)
    (outcome : (Except Errno Nat × Bytes) × Kernel) : Prop where
  length : outcome.1.2.length = size
  inside : ∀ count, outcome.1.1 = .ok count → count ≤ size
  polls : ∃ events, outcome.2.history = events ++ k.history ∧
    ∀ event ∈ events, event.Polls descriptor size offset

theorem Reads.stop {result : Except Errno Nat} {buffer : Bytes} (length : buffer.length = size)
    (inside : ∀ count, result = .ok count → count ≤ size) :
    Reads descriptor offset size k ((result, buffer), k) :=
  ⟨length, inside, [], rfl, fun _ member => nomatch member⟩

theorem Reads.poll {after : Kernel} {outcome : (Except Errno Nat × Bytes) × Kernel} {event : Event}
    (reads : Reads descriptor offset size after outcome)
    (history : after.history = event :: k.history) (polled : event.Polls descriptor size offset) :
    Reads descriptor offset size k outcome := by
  obtain ⟨length, inside, events, grown, polls⟩ := reads
  refine ⟨length, inside, events ++ [event], by rw [grown, history]; simp, fun other member => ?_⟩
  rcases List.mem_append.mp member with late | first
  · exact polls other late
  · exact List.mem_singleton.mp first ▸ polled

/-- A poll keeps a read sound, as it stores and counts no more than it has asked for. -/
theorem readFrom_reads (fails : k.OnlyFails .pread) (small : size ≤ maxOffset)
    (sound : reading.Sound offset size) (descriptor : UInt32) (bound : Nat) :
    Reads descriptor offset size k (readFrom descriptor offset bound reading k) := by
  -- On the bound on calls, as what a poll leaves is a sound read on the system after it.
  induction bound generalizing reading k with
  | zero => exact .stop sound.length fun count done => Except.ok.inj done ▸ sound.inside
  | succ bound ih =>
    rw [readFrom]
    split
    · exact .stop sound.length fun count done => Except.ok.inj done ▸ sound.inside
    · next unfinished =>
      rw [sound.length] at unfinished ⊢
      have unfinished : reading.filled < size := Nat.not_le.mp unfinished
      have position := sound.position small unfinished
      obtain ⟨⟨⟨result, stored⟩, after⟩, called⟩ : ∃ answer, k.pread descriptor
        (size - reading.filled) (offset + reading.filled.toUInt64) = answer := ⟨_, rfl⟩
      have still := (Later.pread k descriptor (size - reading.filled)
        (offset + reading.filled.toUInt64)).onlyFails fails
      have bounds := pread_bounds fails descriptor (size - reading.filled)
        (offset + reading.filled.toUInt64)
      have history := k.history_pread descriptor (size - reading.filled)
        (offset + reading.filled.toUInt64)
      rw [called] at still bounds history ⊢
      have polled : (Event.pread descriptor (size - reading.filled)
          (offset + reading.filled.toUInt64) result).Polls descriptor size offset :=
        ⟨reading.filled, _, _, rfl, unfinished, position⟩
      obtain ⟨fits, counted⟩ := bounds
      have length : (splice reading.buffer reading.filled stored).length = size := by
        rw [length_splice _ _ (by rw [sound.length]; dsimp only at fits; omega), sound.length]
      dsimp only
      refine .poll ?_ history polled
      split
      · split
        · exact ih still ⟨length, sound.inside, sound.started⟩
        · exact .stop length fun count done => nomatch done
      · next count success =>
        obtain ⟨few, accepted⟩ := counted count success
        split
        · exact .stop length fun count done => Except.ok.inj done ▸ sound.inside
        · refine ih still ⟨length, ?_, .inr ?_⟩
          · exact Nat.le_trans (Nat.mod_le _ _) (by omega)
          · omega

theorem readFully_reads (fails : k.OnlyFails .pread) (descriptor : UInt32) {buffer : Bytes}
    (small : buffer.length ≤ maxOffset) (offset : UInt64) :
    Reads descriptor offset buffer.length k (readFully descriptor buffer offset k) :=
  readFrom_reads fails small ⟨rfl, Nat.zero_le _, .inl rfl⟩ descriptor _

end Kernel
end ElfRelay
