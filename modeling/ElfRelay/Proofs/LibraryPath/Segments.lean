import ElfRelay.LibraryPath
import Mathlib
/-! The segments of a joined library path. An empty segment stands for the current
directory, so two paths that have none should be joined to one that has none. That is
so unless there is nothing to put behind the first path: the separator, chosen by the
first path alone, is then the last byte, and what follows it counts as a segment. -/
namespace ElfRelay.LibraryPath

variable {existing supplementary : Bytes}

/-- The segments of a search path, which stand between its colons. An empty path has none. -/
def segments (path : Bytes) : List Bytes := if path = [] then [] else path.splitOn colon

def withoutFinalColon (path : Bytes) : Bytes :=
  if path.getLast? = some colon then path.dropLast else path

theorem segments_of_ne_nil {path : Bytes} (nonempty : path ≠ []) :
    segments path = path.splitOn colon := if_neg nonempty

/-- There is one colon between two paths, whether the first one has brought it or not. -/
theorem join_eq (nonempty : existing ≠ []) (supplementary : Bytes) :
    join existing supplementary = withoutFinalColon existing ++ colon :: supplementary := by
  rw [join, separator, withoutFinalColon]
  by_cases ended : existing.getLast? = some colon
  · obtain ⟨front, rfl⟩ := List.getLast?_eq_some_iff.mp ended
    simp
  · simp [nonempty, ended]

/-- Joining splits where the colon is. -/
theorem segments_join (nonempty : existing ≠ []) (supplementary : Bytes) :
    segments (join existing supplementary) =
      (withoutFinalColon existing).splitOn colon ++ supplementary.splitOn colon := by
  have joined := join_eq nonempty supplementary
  have present : join existing supplementary ≠ [] := by
    rw [joined]
    simp
  rw [segments_of_ne_nil present, joined, List.splitOn_append_cons_self]

theorem withoutFinalColon_eq_nil (nonempty : existing ≠ []) :
    withoutFinalColon existing = [] ↔ existing = [colon] := by
  rw [withoutFinalColon]
  by_cases ended : existing.getLast? = some colon
  · obtain ⟨front, rfl⟩ := List.getLast?_eq_some_iff.mp ended
    simp
  · rw [if_neg ended]
    refine iff_of_false nonempty fun only => ended ?_
    rw [only, List.getLast?_singleton]

/-- Splitting finds an empty segment in a path that has none only if the path is empty. -/
theorem nil_mem_splitOn {path : Bytes} (clean : [] ∉ segments path) :
    [] ∈ path.splitOn colon ↔ path = [] := by
  by_cases empty : path = []
  · subst empty
    exact iff_of_true (List.mem_singleton_self []) rfl
  · rw [← segments_of_ne_nil empty]
    exact iff_of_false clean empty

/-- Two paths without empty segments, the first of which may end in a colon, are joined to
one without empty segments exactly when the second one is not empty, or when both are.
The segments are then those of the first followed by those of the second. A path of
nothing but a colon is the other exception, as the colon has nothing before it. -/
theorem nil_not_mem_segments_join_iff
    (first : [] ∉ segments (withoutFinalColon existing)) (second : [] ∉ segments supplementary) :
    ([] ∉ segments (join existing supplementary) ↔
      existing = [] ∨ existing ≠ [colon] ∧ supplementary ≠ []) ∧
    ([] ∉ segments (join existing supplementary) →
      segments (join existing supplementary) =
        segments (withoutFinalColon existing) ++ segments supplementary) ∧
    (existing ≠ [] → supplementary = [] →
      segments (join existing supplementary) =
        (withoutFinalColon existing).splitOn colon ++ [[]]) := by
  rcases eq_or_ne existing [] with rfl | nonempty
  · exact ⟨iff_of_true second (.inl rfl), fun _ => rfl, fun present => absurd rfl present⟩
  · have split := segments_join nonempty supplementary
    have condition : [] ∉ segments (join existing supplementary) ↔
        existing ≠ [colon] ∧ supplementary ≠ [] := by
      rw [split, List.mem_append, not_or, nil_mem_splitOn first, nil_mem_splitOn second,
        withoutFinalColon_eq_nil nonempty]
    refine ⟨condition.trans (by simp [nonempty]), fun clean => ?_, fun _ empty => ?_⟩
    · obtain ⟨front, back⟩ := condition.mp clean
      have present := (withoutFinalColon_eq_nil nonempty).not.mpr front
      rw [split, segments_of_ne_nil present, segments_of_ne_nil back]
    · rw [split, empty]
      rfl

theorem nil_not_mem_segments_join_lib :
    [] ∉ segments (join (ascii "/usr/lib:/lib:") (ascii "/nix/lib")) ∧
      segments (join (ascii "/usr/lib:/lib:") (ascii "/nix/lib")) =
        [ascii "/usr/lib", ascii "/lib", ascii "/nix/lib"] := by
  obtain ⟨condition, split, _⟩ := nil_not_mem_segments_join_iff
    (show [] ∉ segments (withoutFinalColon (ascii "/usr/lib:/lib:")) by decide)
    (show [] ∉ segments (ascii "/nix/lib") by decide)
  have clean := condition.mpr (.inr (by decide))
  exact ⟨clean, (split clean).trans (by decide)⟩

/-- A path and an empty one: neither has an empty segment, but what they are joined to has. -/
theorem segments_join_gain_empty :
    [] ∉ segments (withoutFinalColon (ascii "/usr/lib")) ∧ [] ∉ segments [] ∧
      segments (join (ascii "/usr/lib") []) = [ascii "/usr/lib", []] := by
  decide

end ElfRelay.LibraryPath
