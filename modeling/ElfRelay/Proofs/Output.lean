import ElfRelay.Loader
import ElfRelay.Proofs.Output.Delivery
/-! What becomes of text that is written out, read off the write calls made for it. An
overrun leaves a call in the history that has claimed more than it was asked for, and text
arrives whole if every call stores at least a byte, and what it reports. -/
namespace ElfRelay

def Event.stored? : Event → Option Bytes
  | .write _ data result => some (data.take result.toNat)
  | _ => none

/-- A write that has stored something, and no more than it was given. -/
def Event.Progresses : Event → Prop
  | .write _ data result => 0 < signed result ∧ result.toNat ≤ data.length
  | _ => True

namespace Kernel

variable {k : Kernel} {descriptor : UInt32}

/-- No write so far has claimed to have stored more than it was given. -/
def Modest (k : Kernel) : Prop :=
  ∀ descriptor data result, .write descriptor data result ∈ k.history →
    signed result ≤ 0 ∨ result.toNat ≤ data.length

theorem Modest.earlier {before after : Kernel} (modest : after.Modest)
    (history : before.history <:+ after.history) : before.Modest :=
  fun descriptor data result member => modest descriptor data result (history.subset member)

/-- Whatever calls it takes to write some bytes, together they have stored them. -/
theorem deliver_stores (descriptor : UInt32) (bytes : Bytes) (k : Kernel) :
    ∃ events, (k.deliver descriptor bytes).2.history = events ++ k.history ∧
      ((∀ event ∈ events, event.Progresses) → (k.deliver descriptor bytes).1 = .complete ∧
        (events.filterMap Event.stored?).reverse.flatten = bytes) := by
  obtain ⟨calls, sends⟩ := k.deliver_sends descriptor bytes
  refine ⟨_, sends.history, fun progress => ?_⟩
  have accepts (call : WriteCall) (member : call ∈ calls) :
      0 < signed call.result ∧ call.result.toNat ≤ call.data.length :=
    progress _ (List.mem_reverse.mpr (List.mem_map_of_mem member))
  have modest : ∀ call ∈ calls, call.Modest := fun call member _ => (accepts call member).2
  have positive : ∀ call ∈ calls, 0 < signed call.result := fun call member =>
    (accepts call member).1
  have stored : (calls.map (WriteCall.event descriptor)).filterMap Event.stored? =
      calls.map WriteCall.accepted := by
    rw [List.filterMap_map, ← List.filterMap_eq_map]
    refine List.filterMap_congr fun call member => ?_
    exact congrArg some (if_pos (positive call member)).symm
  refine ⟨(sends.complete modest).mpr positive, ?_⟩
  rw [List.filterMap_reverse, List.reverse_reverse, stored, ← List.flatMap_def]
  exact (sends.accounts modest).whole.mpr positive

theorem deliverPieces_stores (descriptor : UInt32) (pieces : List Bytes) (k : Kernel) :
    ∃ events, (k.deliverPieces descriptor pieces).2.history = events ++ k.history ∧
      ((∀ event ∈ events, event.Progresses) → (k.deliverPieces descriptor pieces).1 = none ∧
        (events.filterMap Event.stored?).reverse.flatten = pieces.flatten) := by
  induction pieces generalizing k with
  | nil => exact ⟨[], rfl, fun _ => ⟨rfl, rfl⟩⟩
  | cons piece pieces ih =>
    obtain ⟨early, history, stores⟩ := k.deliver_stores descriptor piece
    rw [deliverPieces]
    split
    · next excess after delivered =>
      rw [delivered] at history stores
      exact ⟨early, history, fun progress => absurd (stores progress).1 (by simp)⟩
    · next outcome after goesOn delivered =>
      rw [delivered] at history stores
      obtain ⟨late, later, rest⟩ := ih after
      refine ⟨late ++ early, by rw [later, history, List.append_assoc], fun progress => ?_⟩
      obtain ⟨none, stored⟩ := rest fun event member =>
        progress event (List.mem_append_left _ member)
      refine ⟨none, ?_⟩
      rw [List.filterMap_append, List.reverse_append, List.flatten_append, stored,
        (stores fun event member => progress event (List.mem_append_right _ member)).2,
        List.flatten_cons]

end Kernel

namespace Program

theorem wrote_writePieces (descriptor : UInt32) (pieces : List Bytes) :
    Within Machine.Wrote (writePieces descriptor pieces) :=
  within_writePieces Machine.Wrote.kept descriptor pieces

theorem writePieces_stores (descriptor : UInt32) (pieces : List Bytes) (m : Machine) :
    ∃ events, ((writePieces descriptor pieces).last m).kernel.history = events ++ m.kernel.history ∧
      ((∀ event ∈ events, event.Progresses) →
        (events.filterMap Event.stored?).reverse.flatten = pieces.flatten) := by
  obtain ⟨events, history, stores⟩ := m.kernel.deliverPieces_stores descriptor pieces
  rw [writePieces, last_bind]
  cases delivered : m.kernel.deliverPieces descriptor pieces with
  | mk excess after =>
    rw [delivered] at history stores
    simp only [value?_callKernel, last_callKernel, delivered]
    cases excess with
    | none => exact ⟨events, history, fun progress => (stores progress).2⟩
    | some excess =>
      obtain ⟨later, made, _⟩ := (within_failRange Machine.Wrote.kept .start excess :
        Within _ (failRange .start excess : Program Unit)) { m with kernel := after } |>.kernel.history
      refine ⟨later ++ events, by rw [made, history, List.append_assoc], fun progress => ?_⟩
      exact nomatch (stores fun event member => progress event (List.mem_append_right _ member)).1

end Program

/-- All the writes between two systems have stored something, and what they report. -/
def Kernel.Stores (before after : Kernel) : Prop :=
  ∃ events, after.history = events ++ before.history ∧
    after.written = events.filterMap Event.stored? ++ before.written ∧
    ∀ event ∈ events, event.Progresses

namespace Loader

variable {diagnostic : Diagnostic} {m : Machine}

theorem wrote_fail (diagnostic : Diagnostic) :
    Program.Within Machine.Wrote (fail diagnostic : Program α) :=
  .bind (Program.wrote_writePieces _ _) fun _ => .throw _

theorem fail_reports {k : Kernel} (later : k.history <:+ m.kernel.history)
    (stores : k.Stores ((fail diagnostic : Program α).last m).kernel) :
    ∃ earlier, ((fail diagnostic : Program α).last m).kernel.errorOutput =
      earlier ++ (diagnostic.message ++ [ascii "\n"]).flatten := by
  have last : (fail diagnostic : Program α).last m = (Program.writePieces Kernel.standardError
      (diagnostic.message ++ [ascii "\n"])).last m := by
    rw [fail, Program.last_bind]
    cases (Program.writePieces Kernel.standardError (diagnostic.message ++ [ascii "\n"])).value? m <;>
      rfl
  obtain ⟨reporting, history, reports⟩ := Program.writePieces_stores Kernel.standardError
    (diagnostic.message ++ [ascii "\n"]) m
  obtain ⟨before, earlier⟩ := later
  obtain ⟨events, whole, written, progress⟩ := stores
  rw [last] at whole written ⊢
  rw [history, ← earlier, ← List.append_assoc, List.append_cancel_right_eq] at whole
  subst whole
  refine ⟨((before.filterMap Event.stored?) ++ k.written).reverse.flatten, ?_⟩
  rw [← reports fun event member => progress event (List.mem_append_left _ member),
    Kernel.errorOutput, written]
  simp

end Loader
end ElfRelay
