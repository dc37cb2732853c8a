import ElfRelay.Proofs.Transfer
/-! Delivery of a byte string by calls that may write only some of it. Whatever the calls return,
each of them is for the rest that those before it have not accepted, and one that has accepted
nothing is the last. On a system whose calls always accept something, everything arrives. -/
namespace ElfRelay

theorem toNat_pos_of_signed_pos {result : UInt64} (positive : 0 < signed result) :
    0 < result.toNat := by
  refine Nat.pos_of_ne_zero fun zero => ?_
  have zero : result = 0 := UInt64.toNat.inj zero
  rw [zero] at positive
  exact absurd positive (by decide)

structure WriteCall where
  data : Bytes
  result : UInt64
  deriving DecidableEq, Repr

namespace WriteCall

def event (descriptor : UInt32) (call : WriteCall) : Event :=
  .write descriptor call.data call.result

def accepted (call : WriteCall) : Bytes :=
  if 0 < signed call.result then call.data.take call.result.toNat else []

def Modest (call : WriteCall) : Prop :=
  0 < signed call.result → call.result.toNat ≤ call.data.length

theorem accepted_append_drop (call : WriteCall) (positive : 0 < signed call.result) :
    call.accepted ++ call.data.drop call.result.toNat = call.data := by
  rw [accepted, if_pos positive, List.take_append_drop]

theorem accepted_eq_nil (call : WriteCall) (stuck : signed call.result ≤ 0) : call.accepted = [] :=
  if_neg (Int.not_lt.mpr stuck)

end WriteCall

/-- Calls that write a byte string from its start on, with nothing left out or repeated. -/
structure Accounts (bytes : Bytes) (calls : List WriteCall) : Prop where
  inOrder : calls.flatMap WriteCall.accepted <+: bytes
  /-- They get to its end unless one of them accepts nothing. -/
  whole : calls.flatMap WriteCall.accepted = bytes ↔ ∀ call ∈ calls, 0 < signed call.result
  /-- Each is for what is left, which is not nothing. -/
  rest : ∀ early call late, calls = early ++ call :: late →
    early.flatMap WriteCall.accepted ++ call.data = bytes ∧ call.data ≠ []
  /-- None follows one that accepts nothing. -/
  stops : ∀ early call late, calls = early ++ call :: late → late ≠ [] → 0 < signed call.result

namespace Accounts

theorem nil : Accounts [] [] where
  inOrder := List.prefix_rfl
  whole := iff_of_true rfl nofun
  rest _ _ _ split := by simp at split
  stops _ _ _ split := by simp at split

theorem stuck (call : WriteCall) (nonempty : call.data ≠ []) (stuck : signed call.result ≤ 0) :
    Accounts call.data [call] := by
  have nothing : [call].flatMap WriteCall.accepted = [] := by
    simp [call.accepted_eq_nil stuck]
  have alone {early late : List WriteCall} {other : WriteCall}
      (split : [call] = early ++ other :: late) : early = [] ∧ other = call ∧ late = [] := by
    cases early with
    | nil => simpa [eq_comm] using split
    | cons => simp at split
  refine ⟨?_, ?_, fun _ _ _ split => ?_, fun _ _ _ split more => ?_⟩
  · rw [nothing]
    exact List.nil_prefix
  · rw [nothing]
    refine iff_of_false (Ne.symm nonempty) fun accepts => ?_
    exact Int.not_lt.mpr stuck (accepts call List.mem_cons_self)
  · obtain ⟨rfl, rfl, rfl⟩ := alone split
    exact ⟨rfl, nonempty⟩
  · exact absurd (alone split).2.2 more

theorem cons (call : WriteCall) {calls : List WriteCall} (nonempty : call.data ≠ [])
    (positive : 0 < signed call.result)
    (accounts : Accounts (call.data.drop call.result.toNat) calls) :
    Accounts call.data (call :: calls) := by
  have parts := call.accepted_append_drop positive
  refine ⟨?_, ?_, fun early other late split => ?_, fun early other late split more => ?_⟩
  · rw [List.flatMap_cons, ← parts, List.prefix_append_right_inj]
    exact accounts.inOrder
  · rw [List.flatMap_cons, List.forall_mem_cons, and_iff_right positive, ← accounts.whole]
    constructor
    · exact fun whole => List.append_cancel_left (whole.trans parts.symm)
    · exact fun rest => (congrArg (call.accepted ++ ·) rest).trans parts
  · cases early with
    | nil =>
      cases split
      exact ⟨rfl, nonempty⟩
    | cons first early =>
      cases split
      obtain ⟨left, some⟩ := accounts.rest early other late rfl
      refine ⟨?_, some⟩
      rw [List.flatMap_cons, List.append_assoc, left, parts]
  · cases early with
    | nil =>
      cases split
      exact positive
    | cons first early =>
      cases split
      exact accounts.stops early other late rfl more

end Accounts

/-- Whether an answer lets a call that writes go by the rules, and accept at least a byte. -/
def Answer.Splits : Answer → Prop
  | .ordinary => True
  | .fixed _ => False
  | .atMost limit => 0 < limit

namespace Kernel

/-- What a delivery of a byte string does: the calls that it makes, no more than there are bytes,
account for the string, as long as none of them claims too much. -/
structure Sends (descriptor : UInt32) (bytes : Bytes) (k : Kernel) (calls : List WriteCall)
    (outcome : Delivery × Kernel) : Prop where
  made : outcome.2.trace = k.trace ++ calls.map (WriteCall.event descriptor)
  few : calls.length ≤ bytes.length
  accounts : (∀ call ∈ calls, call.Modest) → Accounts bytes calls
  fits : (∀ call ∈ calls, call.Modest) → ∀ excess, outcome.1 ≠ .overrun excess
  complete : (∀ call ∈ calls, call.Modest) →
    (outcome.1 = .complete ↔ ∀ call ∈ calls, 0 < signed call.result)

variable {k after : Kernel} {descriptor : UInt32} {bytes : Bytes} {result : UInt64}
  {calls : List WriteCall} {outcome : Delivery × Kernel}

theorem trace_write (called : k.write descriptor bytes = (result, after)) :
    after.trace = k.trace ++ [.write descriptor bytes result] := by
  have history := k.history_write descriptor bytes
  rw [called] at history
  rw [trace, history, List.reverse_cons]
  rfl

namespace Sends

theorem done : Sends descriptor [] k [] (.complete, k) where
  made := (List.append_nil _).symm
  few := Nat.le_refl 0
  accounts _ := .nil
  fits _ _ := nofun
  complete _ := iff_of_true rfl nofun

variable (called : k.write descriptor bytes = (result, after)) (nonempty : bytes ≠ [])
include called nonempty

theorem refused (stuck : signed result ≤ 0) :
    Sends descriptor bytes k [⟨bytes, result⟩] (.refused, after) where
  made := trace_write called
  few := List.length_pos_of_ne_nil nonempty
  accounts _ := .stuck ⟨bytes, result⟩ nonempty stuck
  fits _ _ := nofun
  complete _ := iff_of_false nofun fun positive =>
    Int.not_lt.mpr stuck (positive _ List.mem_cons_self)

theorem overrun {excess : Overrun} (positive : 0 < signed result)
    (beyond : bytes.length < result.toNat) :
    Sends descriptor bytes k [⟨bytes, result⟩] (.overrun excess, after) := by
  have claims : ¬ ∀ call ∈ [WriteCall.mk bytes result], call.Modest := fun modest =>
    Nat.not_le.mpr beyond (modest _ List.mem_cons_self positive)
  exact ⟨trace_write called, List.length_pos_of_ne_nil nonempty,
    fun modest => absurd modest claims, fun modest => absurd modest claims,
    fun modest => absurd modest claims⟩

theorem stored (positive : 0 < signed result) (some : 0 < result.toNat)
    (sends : Sends descriptor (bytes.drop result.toNat) after calls outcome) :
    Sends descriptor bytes k (⟨bytes, result⟩ :: calls) outcome where
  made := by
    rw [sends.made, trace_write called, List.append_assoc]
    rfl
  few := by
    have fewer := sends.few
    have length := List.length_pos_of_ne_nil nonempty
    rw [List.length_drop] at fewer
    rw [List.length_cons]
    omega
  accounts modest := .cons ⟨bytes, result⟩ nonempty positive
    (sends.accounts (List.forall_mem_cons.mp modest).2)
  fits modest := sends.fits (List.forall_mem_cons.mp modest).2
  complete modest := by
    rw [List.forall_mem_cons, and_iff_right positive]
    exact sends.complete (List.forall_mem_cons.mp modest).2

end Sends

section
variable (sends : Sends descriptor bytes k calls outcome)
include sends

theorem Sends.history : outcome.2.history =
    (calls.map (WriteCall.event descriptor)).reverse ++ k.history := by
  have made := congrArg List.reverse sends.made
  rwa [List.reverse_append, trace, trace, List.reverse_reverse, List.reverse_reverse] at made

end

/-- Whatever the system answers, the calls of a delivery account for what is delivered. -/
theorem deliver_sends (descriptor : UInt32) (bytes : Bytes) (k : Kernel) :
    ∃ calls, Sends descriptor bytes k calls (k.deliver descriptor bytes) := by
  fun_induction deliver descriptor bytes k with
  | case1 k => exact ⟨[], .done⟩
  | case2 k first rest result after called stuck =>
    exact ⟨_, .refused called (List.cons_ne_nil _ _) stuck⟩
  | case3 k first rest result after called positive beyond =>
    exact ⟨_, .overrun called (List.cons_ne_nil _ _) (Int.not_le.mp positive) beyond⟩
  | case4 k first rest result after called positive within ih =>
    obtain ⟨calls, sends⟩ := ih
    have some : 0 < result.toNat := toNat_pos_of_signed_pos (Int.not_le.mp positive)
    have left : (first :: rest).drop result.toNat = rest.drop (result.toNat - 1) :=
      List.drop_cons some
    rw [← left] at sends ⊢
    exact ⟨_, .stored called (List.cons_ne_nil _ _) (Int.not_le.mp positive) some sends⟩

/-- A system whose calls that write go by the rules, cut to some of their data at most. -/
def SplitsWrites (k : Kernel) : Prop := ∀ answer ∈ k.pending .write, answer.Splits

theorem SplitsWrites.later (splits : k.SplitsWrites) (later : k.Later after) : after.SplitsWrites :=
  fun answer member => splits answer ((later.pending .write).subset member)

theorem SplitsWrites.answer (splits : k.SplitsWrites) : (k.answer .write).Splits := by
  rw [Kernel.answer]
  cases pending : k.pending .write with
  | nil => exact trivial
  | cons first later => exact splits first (pending ▸ List.mem_cons_self)

/-- A call that is cut stores the first bytes that it is given, and says how many. -/
theorem write_splits (splits : k.SplitsWrites) (nonempty : bytes ≠ []) :
    ∃ stored after, k.write standardError bytes = (stored.length.toUInt64, after) ∧
      stored <+: bytes ∧ stored ≠ [] ∧ after.errorOutput = k.errorOutput ++ stored ∧
      after.SplitsWrites := by
  obtain ⟨limit, some, called⟩ : ∃ limit, 0 < limit ∧ k.write standardError bytes =
      ((bytes.take limit).length.toUInt64,
        { k.answered .write with written := bytes.take limit :: k.written }.record
          (.write standardError bytes (bytes.take limit).length.toUInt64)) := by
    have splits := splits.answer
    rw [write]
    cases next : k.answer .write with
    | ordinary => exact ⟨bytes.length, List.length_pos_of_ne_nil nonempty, rfl⟩
    | fixed result =>
      rw [next] at splits
      exact splits.elim
    | atMost limit =>
      rw [next] at splits
      exact ⟨limit, splits, rfl⟩
  have still := splits.later (Later.write k standardError bytes)
  rw [called] at still
  refine ⟨_, _, called, List.take_prefix limit bytes, ?_, ?_, still⟩
  · simp [nonempty, Nat.ne_of_gt some]
  · simp [errorOutput, record]

theorem deliver_stored (called : k.write descriptor bytes = (result, after)) (nonempty : bytes ≠ [])
    (positive : 0 < signed result) (within : result.toNat ≤ bytes.length) :
    k.deliver descriptor bytes = after.deliver descriptor (bytes.drop result.toNat) := by
  cases bytes with
  | nil => contradiction
  | cons first rest =>
    rw [List.length_cons] at within
    rw [deliver, called]
    dsimp only
    rw [if_neg (Int.not_le.mpr positive), if_neg (Nat.not_lt.mpr within),
      List.drop_cons (toNat_pos_of_signed_pos positive)]

/-- Bytes that the system can count all arrive, behind what has been written before. -/
theorem deliver_arrives (splits : k.SplitsWrites) (short : bytes.length ≤ maxOffset) :
    ∃ after, k.deliver standardError bytes = (.complete, after) ∧
      after.errorOutput = k.errorOutput ++ bytes ∧ after.SplitsWrites := by
  -- On the number of bytes that are left, as each call accepts one of them at least.
  induction left : bytes.length using Nat.strong_induction_on generalizing bytes k with
  | h left ih =>
    subst left
    rcases eq_or_ne bytes [] with rfl | nonempty
    · exact ⟨k, by rw [deliver], (List.append_nil _).symm, splits⟩
    · obtain ⟨stored, after, called, start, some, written, still⟩ := write_splits splits nonempty
      have some := List.length_pos_of_ne_nil some
      have few : stored.length ≤ maxOffset := Nat.le_trans start.length_le short
      have positive : 0 < signed stored.length.toUInt64 := by
        rw [signed_count few]
        exact Int.natCast_pos.mpr some
      have fewer : (bytes.drop stored.length).length < bytes.length := by
        have length := List.length_pos_of_ne_nil nonempty
        rw [List.length_drop]
        omega
      rw [deliver_stored called nonempty positive (by rw [toNat_count few]; exact start.length_le),
        toNat_count few]
      obtain ⟨last, delivered, arrived, later⟩ :=
        ih _ fewer still (Nat.le_trans (Nat.le_of_lt fewer) short) rfl
      refine ⟨last, delivered, ?_, later⟩
      rw [arrived, written, List.append_assoc, List.prefix_iff_eq_append.mp start]

theorem deliverPieces_arrives {pieces : List Bytes} (splits : k.SplitsWrites)
    (short : ∀ piece ∈ pieces, piece.length ≤ maxOffset) :
    ∃ after, k.deliverPieces standardError pieces = (none, after) ∧
      after.errorOutput = k.errorOutput ++ pieces.flatten ∧ after.SplitsWrites := by
  induction pieces generalizing k with
  | nil => exact ⟨k, rfl, (List.append_nil _).symm, splits⟩
  | cons piece pieces ih =>
    obtain ⟨first, others⟩ := List.forall_mem_cons.mp short
    obtain ⟨between, delivered, arrived, still⟩ := deliver_arrives splits first
    obtain ⟨after, rest, whole, last⟩ := ih still others
    refine ⟨after, ?_, ?_, last⟩
    · rw [deliverPieces, delivered]
      exact rest
    · rw [whole, arrived, List.append_assoc, List.flatten_cons]

end Kernel
end ElfRelay
