import ElfRelay.Resources
import ElfRelay.Proofs.Run
/-! What a mapping call can do. It is refused, or answered by something
prepared, and then leaves memory alone; or it replaces one range of the arena.
In any case it is the latest event of the history. -/
namespace ElfRelay

def Region.Covers (region : Region) (address : UInt64) : Prop :=
  (address - region.address).toNat < region.length.toNat
  deriving Decidable

theorem Region.Covers.bounds {region : Region} {address : UInt64}
    (fits : region.address.toNat + region.length.toNat ≤ UInt64.size)
    (covers : region.Covers address) : region.address.toNat ≤ address.toNat ∧
      address.toNat < region.address.toNat + region.length.toNat := by
  rw [Covers, UInt64.toNat_sub] at covers
  have := address.toNat_lt
  have := region.address.toNat_lt
  simp only [UInt64.size] at fits
  omega

theorem Region.encloses_iff {region : Region} {start length : UInt64} :
    region.encloses start length = true ↔ region.address.toNat ≤ start.toNat ∧
      start.toNat + length.toNat ≤ region.address.toNat + region.length.toNat := by
  rw [encloses, Bool.and_eq_true, decide_eq_true_eq, decide_eq_true_eq]

theorem Region.covers_of_encloses {outer inner : Region} {address : UInt64}
    (encloses : outer.encloses inner.address inner.length = true) (covers : inner.Covers address) :
    outer.Covers address := by
  rw [Region.encloses_iff] at encloses
  rw [Covers, UInt64.toNat_sub] at covers ⊢
  have := inner.address.toNat_lt
  have := outer.address.toNat_lt
  have := address.toNat_lt
  omega

namespace MapRequest

/-- Where a successful call that returned `place` has put something. -/
def range (request : MapRequest) (place : UInt64) : Region :=
  ⟨if request.isFixed then request.address else place, request.length⟩

variable (length protection place offset : UInt64)

@[simp] theorem anywhere_isFixed (descriptor : UInt32) :
    (anywhere length protection descriptor offset).isFixed = false := by
  change (privateCopy &&& fixedAddress != 0) = false
  decide

@[simp] theorem anywhere_isAnonymous (descriptor : UInt32) :
    (anywhere length protection descriptor offset).isAnonymous = false := by
  change (privateCopy &&& anonymousMemory != 0) = false
  decide

@[simp] theorem inPlace_isFixed (descriptor : Option UInt32) :
    (inPlace place length protection descriptor offset).isFixed = true := by
  cases descriptor with
  | none =>
    change ((privateCopy ||| fixedAddress ||| anonymousMemory) &&& fixedAddress != 0) = true
    decide
  | some descriptor =>
    change ((privateCopy ||| fixedAddress) &&& fixedAddress != 0) = true
    decide

@[simp] theorem inPlace_isAnonymous (descriptor : Option UInt32) :
    (inPlace place length protection descriptor offset).isAnonymous = descriptor.isNone := by
  cases descriptor with
  | none =>
    change ((privateCopy ||| fixedAddress ||| anonymousMemory) &&& anonymousMemory != 0) = true
    decide
  | some descriptor =>
    change ((privateCopy ||| fixedAddress) &&& anonymousMemory != 0) = false
    decide

@[simp] theorem inPlace_address (descriptor : Option UInt32) :
    (inPlace place length protection descriptor offset).address = place := by
  cases descriptor <;> rfl

@[simp] theorem inPlace_length (descriptor : Option UInt32) :
    (inPlace place length protection descriptor offset).length = length := by
  cases descriptor <;> rfl

@[simp] theorem inPlace_protection (descriptor : Option UInt32) :
    (inPlace place length protection descriptor offset).protection = protection := by
  cases descriptor <;> rfl

end MapRequest

def Event.protection? (address : UInt64) : Event → Option UInt64
  | .mmap request result =>
    match Errno.ofResult result with
    | .ok place => if (request.range place).Covers address then some request.protection else none
    | .error _ => none
  | _ => none

namespace Kernel

/-- The protection an address has from the latest mapping call that covers it. -/
def protectionAt (k : Kernel) (address : UInt64) : Option UInt64 :=
  k.history.findSome? (Event.protection? address)

/-- The answers prepared for a kind of call only make it fail: none claims a
success that has no effect. -/
def OnlyFails (k : Kernel) (call : SystemCall) : Prop :=
  ∀ result, .fixed result ∈ k.pending call → ∃ errno, Errno.ofResult result = .error errno

theorem fixed_mem_pending {k : Kernel} {call : SystemCall} {result : UInt64}
    (next : k.answer call = .fixed result) : .fixed result ∈ k.pending call := by
  rw [answer] at next
  cases pending : k.pending call with
  | nil => simp [pending] at next
  | cons first rest =>
    simp only [pending, List.head?_cons, Option.getD_some] at next
    exact next ▸ List.mem_cons_self

theorem Wrote.onlyFails {before after : Kernel} {call : SystemCall} (wrote : before.Wrote after)
    (other : call ∉ outputCalls) (fails : before.OnlyFails call) : after.OnlyFails call := by
  intro result member
  rw [wrote.pending call other] at member
  exact fails result member

theorem Wrote.node? {before after : Kernel} (wrote : before.Wrote after) (descriptor : UInt32) :
    after.node? descriptor = before.node? descriptor := by
  rw [Kernel.node?, Kernel.node?, wrote.descriptors]

theorem Wrote.protectionAt {before after : Kernel} (wrote : before.Wrote after) (address : UInt64) :
    after.protectionAt address = before.protectionAt address := by
  obtain ⟨events, history, writes⟩ := wrote.history
  have none : events.findSome? (Event.protection? address) = none := by
    rw [List.findSome?_eq_none_iff]
    intro event member
    obtain ⟨_, _, _, rfl⟩ := writes event member
    rfl
  rw [Kernel.protectionAt, history, List.findSome?_append, none, Option.none_or, Kernel.protectionAt]

end Kernel

namespace Machine

variable (m : Machine) (request : MapRequest)

theorem mapAnswer_kernel : ∃ nextFree,
    (m.mapAnswer request).2.kernel = { m.kernel with nextFree := nextFree } := by
  rw [mapAnswer]
  split
  · exact ⟨_, rfl⟩
  · dsimp only
    split <;> exact ⟨_, rfl⟩

/-- The system after a mapping call: an answer is used up, the call is recorded,
and nothing but the next free address has changed. -/
theorem mmap_kernel : ∃ nextFree, (m.mmap request).2.kernel =
    { (m.kernel.answered .mmap).record (.mmap request (m.mmap request).1) with
      nextFree := nextFree } := by
  obtain ⟨nextFree, ruled⟩ := m.mapAnswer_kernel request
  unfold mmap
  cases m.kernel.answer .mmap with
  | fixed result => exact ⟨_, rfl⟩
  | atMost limit => exact ⟨nextFree, by simp only [ruled]; rfl⟩
  | ordinary => exact ⟨nextFree, by simp only [ruled]; rfl⟩

theorem mmap_heap : (m.mmap request).2.heap = m.heap := by
  have ruled : (m.mapAnswer request).2.heap = m.heap := by
    rw [mapAnswer]
    split
    · rfl
    · dsimp only
      split <;> rfl
  unfold mmap
  cases m.kernel.answer .mmap with
  | fixed result => rfl
  | _ => exact ruled

@[simp] theorem mmap_arena : (m.mmap request).2.kernel.arena = m.kernel.arena := by
  obtain ⟨_, eq⟩ := m.mmap_kernel request
  rw [eq]; rfl

@[simp] theorem mmap_node? (descriptor : UInt32) :
    (m.mmap request).2.kernel.node? descriptor = m.kernel.node? descriptor := by
  obtain ⟨_, eq⟩ := m.mmap_kernel request
  rw [eq]; rfl

theorem mmap_history : (m.mmap request).2.kernel.history =
    .mmap request (m.mmap request).1 :: m.kernel.history := by
  obtain ⟨_, eq⟩ := m.mmap_kernel request
  rw [eq]; rfl

theorem mmap_pending (call : SystemCall) : (m.mmap request).2.kernel.pending call =
    if call = .mmap then (m.kernel.pending call).tail else m.kernel.pending call := by
  obtain ⟨_, eq⟩ := m.mmap_kernel request
  rw [eq, ← Kernel.pending_answered]; rfl

theorem mmap_onlyFails {call : SystemCall} (fails : m.kernel.OnlyFails call) :
    (m.mmap request).2.kernel.OnlyFails call := by
  intro result member
  rw [mmap_pending] at member
  split at member
  · exact fails result (List.mem_of_mem_tail member)
  · exact fails result member

theorem mmap_protectionAt {place : UInt64} (address : UInt64)
    (success : Errno.ofResult (m.mmap request).1 = .ok place) :
    (m.mmap request).2.kernel.protectionAt address =
      if (request.range place).Covers address then some request.protection
      else m.kernel.protectionAt address := by
  rw [Kernel.protectionAt, mmap_history, List.findSome?_cons, Event.protection?, success]
  by_cases covered : (request.range place).Covers address <;> simp [covered, Kernel.protectionAt]

theorem mapSource_error {code : UInt64} (refused : m.mapSource request = .error code) :
    ∃ errno, Errno.ofResult (Kernel.failure code) = .error errno := by
  unfold mapSource at refused
  have known : code = 22 ∨ code = 75 ∨ code = 19 ∨ code = 9 := by
    split at refused
    · simp_all
    · split at refused
      · simp at refused
      · split at refused
        · simp_all
        · split at refused <;> simp_all
  rcases known with rfl | rfl | rfl | rfl <;> exact ⟨_, rfl⟩

theorem mapAnswer_cases :
    ((m.mapAnswer request).2 = m ∧
      ∃ errno, Errno.ofResult (m.mapAnswer request).1 = .error errno) ∨
    ∃ source, m.mapSource request = .ok source ∧
      m.kernel.arena.encloses (m.mapAddress request) request.length = true ∧
      (m.mapAnswer request).1 = m.mapAddress request ∧
      (m.mapAnswer request).2.memory =
        m.memory.overlay (m.mapAddress request) request.length.toNat source := by
  cases found : m.mapSource request with
  | error code =>
    have failed := mapSource_error m request found
    simp only [mapAnswer, found]
    exact .inl ⟨trivial, failed⟩
  | ok source =>
    simp only [mapAnswer, found]
    by_cases inside : m.kernel.arena.encloses (m.mapAddress request) request.length = true
    · exact .inr ⟨source, rfl, inside, by simp [inside], by simp [inside]⟩
    · exact .inl ⟨by simp [inside], by simp [inside]; exact ⟨_, rfl⟩⟩

/-- Without invented successes a call either fails and leaves memory alone, or
replaces one range of the arena. -/
theorem mmap_cases (fails : m.kernel.OnlyFails .mmap) :
    ((m.mmap request).2.memory = m.memory ∧
      ∃ errno, Errno.ofResult (m.mmap request).1 = .error errno) ∨
    ∃ source, m.mapSource request = .ok source ∧
      m.kernel.arena.encloses (m.mapAddress request) request.length = true ∧
      (m.mmap request).1 = m.mapAddress request ∧
      (m.mmap request).2.memory =
        m.memory.overlay (m.mapAddress request) request.length.toNat source := by
  have ruled := m.mapAnswer_cases request
  unfold mmap
  cases next : m.kernel.answer .mmap with
  | fixed result => exact .inl ⟨rfl, fails result (Kernel.fixed_mem_pending next)⟩
  | atMost limit =>
    rcases ruled with ⟨same, failed⟩ | placed
    · exact .inl ⟨by simp only [same], failed⟩
    · exact .inr placed
  | ordinary =>
    rcases ruled with ⟨same, failed⟩ | placed
    · exact .inl ⟨by simp only [same], failed⟩
    · exact .inr placed

theorem mmap_placed {place : UInt64} (fails : m.kernel.OnlyFails .mmap)
    (success : Errno.ofResult (m.mmap request).1 = .ok place) :
    ∃ source, m.mapSource request = .ok source ∧ place = m.mapAddress request ∧
      m.kernel.arena.encloses place request.length = true ∧
      (m.mmap request).2.memory = m.memory.overlay place request.length.toNat source := by
  rcases m.mmap_cases request fails with ⟨-, errno, failed⟩ | ⟨source, found, inside, result, memory⟩
  · rw [failed] at success; contradiction
  · have same : place = m.mapAddress request := by
      rw [result, Errno.ofResult] at success
      split at success
      · contradiction
      · exact (Except.ok.inj success).symm
    subst same
    exact ⟨source, found, rfl, inside, memory⟩

theorem mapSource_file {source : Nat → UInt8} (file : request.isAnonymous = false)
    (found : m.mapSource request = .ok source) :
    ∃ contents, m.kernel.node? request.descriptor = some (.regular contents) ∧
      request.length ≠ 0 ∧ source = fun i => contents.getD (request.offset.toNat + i) 0 := by
  unfold mapSource at found
  simp only [file] at found
  split at found
  · contradiction
  · next accepted =>
    simp only [Bool.false_eq_true, if_false] at found
    split at found
    · contradiction
    · split at found
      · next contents node =>
        refine ⟨contents, node, fun zero => accepted (by simp [zero]), ?_⟩
        exact (Except.ok.inj found).symm
      · contradiction
      · contradiction

theorem length_ne_zero_of_file {source : Nat → UInt8} (file : request.isAnonymous = false)
    (found : m.mapSource request = .ok source) : request.length ≠ 0 :=
  (m.mapSource_file request file found).elim fun _ facts => facts.2.1

theorem mapSource_anonymous {source : Nat → UInt8} (empty : request.isAnonymous = true)
    (found : m.mapSource request = .ok source) : source = fun _ => 0 := by
  unfold mapSource at found
  simp only [empty] at found
  split at found
  · contradiction
  · exact (Except.ok.inj found).symm

end Machine
end ElfRelay
