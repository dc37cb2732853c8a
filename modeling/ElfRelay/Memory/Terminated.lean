import ElfRelay.Memory
/-! Sequences in memory that end in a zero: strings and lists of pointers.
The length of one is the first index at which a zero stands; as the address
space is finite, the search is too. -/
namespace ElfRelay

/-- The least index from `index` on at which `stop` holds, looking at no more
than `bound` of them. -/
def firstIndexFrom (stop : Nat → Bool) : Nat → Nat → Nat
  | 0, index => index
  | bound + 1, index => if stop index then index else firstIndexFrom stop bound (index + 1)

def firstIndex (stop : Nat → Bool) (bound : Nat) : Nat := firstIndexFrom stop bound 0

theorem firstIndexFrom_eq (stop : Nat → Bool) {bound index target : Nat}
    (low : index ≤ target) (high : target < index + bound) (stops : stop target = true)
    (earlier : ∀ i, index ≤ i → i < target → stop i = false) :
    firstIndexFrom stop bound index = target := by
  induction bound generalizing index with
  | zero => omega
  | succ bound ih =>
    by_cases here : index = target
    · subst here; simp [firstIndexFrom, stops]
    · have goesOn : stop index = false := earlier index (Nat.le_refl _) (by omega)
      simp only [firstIndexFrom, goesOn]
      exact ih (by omega) (by omega) fun i hi => earlier i (by omega)

theorem firstIndex_eq (stop : Nat → Bool) {bound target : Nat} (high : target < bound)
    (stops : stop target = true) (earlier : ∀ i, i < target → stop i = false) :
    firstIndex stop bound = target :=
  firstIndexFrom_eq stop (Nat.zero_le _) (by omega) stops fun i _ => earlier i

theorem firstIndexFrom_spec (stop : Nat → Bool) (bound index : Nat) :
    firstIndexFrom stop bound index ≤ index + bound ∧
      (∀ i, index ≤ i → i < firstIndexFrom stop bound index → stop i = false) ∧
      (firstIndexFrom stop bound index < index + bound →
        stop (firstIndexFrom stop bound index) = true) := by
  induction bound generalizing index with
  | zero => exact ⟨Nat.le_refl _, fun i low high => absurd high (Nat.not_lt.mpr low), fun below =>
      absurd below (Nat.lt_irrefl _)⟩
  | succ bound ih =>
    rw [firstIndexFrom]
    split
    · next stops =>
      exact ⟨by omega, fun i low high => absurd high (Nat.not_lt.mpr low), fun _ => stops⟩
    · next goesOn =>
      obtain ⟨within, earlier, stops⟩ := ih (index + 1)
      refine ⟨by omega, fun i low high => ?_, fun below => stops (by omega)⟩
      by_cases here : i = index
      · subst here; simpa using goesOn
      · exact earlier i (by omega) high

theorem firstIndex_le (stop : Nat → Bool) (bound : Nat) : firstIndex stop bound ≤ bound := by
  have := (firstIndexFrom_spec stop bound 0).1
  rw [firstIndex]
  omega

theorem firstIndex_earlier (stop : Nat → Bool) {bound i : Nat}
    (earlier : i < firstIndex stop bound) : stop i = false :=
  (firstIndexFrom_spec stop bound 0).2.1 i (Nat.zero_le i) earlier

theorem firstIndex_stops (stop : Nat → Bool) {bound : Nat} (found : firstIndex stop bound < bound) :
    stop (firstIndex stop bound) = true :=
  (firstIndexFrom_spec stop bound 0).2.2 (by rw [Nat.zero_add]; exact found)

theorem firstIndex_congr {stop other : Nat → Bool} {bound : Nat}
    (same : ∀ i, i < bound → i ≤ firstIndex stop bound → other i = stop i) :
    firstIndex other bound = firstIndex stop bound := by
  rcases Nat.lt_or_ge (firstIndex stop bound) bound with found | beyond
  · refine firstIndex_eq other found ?_ fun i earlier => ?_
    · rw [same _ found (Nat.le_refl _), firstIndex_stops stop found]
    · rw [same i (Nat.lt_trans earlier found) (Nat.le_of_lt earlier),
        firstIndex_earlier stop earlier]
  · have whole := Nat.le_antisymm (firstIndex_le stop bound) beyond
    rw [whole]
    refine Nat.le_antisymm (firstIndex_le other bound) (Nat.not_lt.mp fun found => ?_)
    have before : firstIndex other bound < firstIndex stop bound := by rw [whole]; exact found
    have stops := firstIndex_stops other found
    rw [same _ found (Nat.le_of_lt before), firstIndex_earlier stop before] at stops
    contradiction

namespace Memory

def stringLength (m : Memory) (start : UInt64) : Nat :=
  firstIndex (fun i => m.read (start + i.toUInt64) == 0) UInt64.size

/-- The string at `start`, without the NUL that ends it. -/
def string (m : Memory) (start : UInt64) : Bytes := m.readBytes start (m.stringLength start)

def wordAt (m : Memory) (start : UInt64) (index : Nat) : UInt64 :=
  m.readWord (start + 8 * index.toUInt64)

/-- How many words stand at `start` before the first null one. -/
def pointerCount (m : Memory) (start : UInt64) : Nat :=
  firstIndex (fun i => m.wordAt start i == 0) (UInt64.size / 8)

def strings (m : Memory) (start : UInt64) : List Bytes :=
  (List.range (m.pointerCount start)).map fun i => m.string (m.wordAt start i)

/-- A string and the NUL that ends it. -/
def writeString (m : Memory) (start : UInt64) (text : Bytes) : Memory :=
  m.writeBytes start (text ++ [0])

end Memory
end ElfRelay
