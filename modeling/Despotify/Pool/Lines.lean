import Mathlib.Data.List.Basic

/-!
# Streams of lines

What of a stream lies in front of the separators, and what is behind the last one.

* `whole_append`, `tail_append`: a stream that comes in two parts.
* `whole_line`, `tail_line`: the first line.
-/

namespace Lines

variable {α : Type} [BEq α] [LawfulBEq α] {sep : α} {s line rest : List α}

/-- The lines that end with a separator, without it. -/
def whole (sep : α) (s : List α) : List (List α) := (s.splitOn sep).dropLast

/-- What is behind the last separator. -/
def tail (sep : α) (s : List α) : List α := (s.splitOn sep).getLast (List.splitOn_ne_nil sep s)

theorem whole_of_not_mem (h : sep ∉ s) : whole sep s = [] := by
  rw [whole, List.splitOn_eq_singleton h]
  rfl

theorem tail_of_not_mem (h : sep ∉ s) : tail sep s = s := by
  unfold tail
  simp only [List.splitOn_eq_singleton h, List.getLast_singleton]

theorem whole_line (h : sep ∉ line) : whole sep (line ++ sep :: rest) = line :: whole sep rest := by
  rw [whole, List.splitOn_append_cons_self_of_not_mem h,
    List.dropLast_cons_of_ne_nil (List.splitOn_ne_nil sep rest)]
  rfl

theorem tail_line (h : sep ∉ line) : tail sep (line ++ sep :: rest) = tail sep rest := by
  unfold tail
  simp only [List.splitOn_append_cons_self_of_not_mem h,
    List.getLast_cons (List.splitOn_ne_nil sep rest)]

/-- **Two parts**: the unfinished line of the first one is continued by the second one. -/
theorem whole_append (s rest : List α) :
    whole sep (s ++ rest) = whole sep s ++ whole sep (tail sep s ++ rest) := by
  induction hn : s.length using Nat.strongRecOn generalizing s with
  | ind n ih =>
    by_cases hmem : sep ∈ s
    · obtain ⟨line, later, rfl, hline⟩ := List.eq_append_cons_of_mem hmem
      have hlater := ih later.length (by
        rw [← hn, List.length_append, List.length_cons]
        omega) later rfl
      rw [List.append_assoc, List.cons_append, whole_line hline, whole_line hline, tail_line hline,
        hlater, List.cons_append]
    · rw [whole_of_not_mem hmem, tail_of_not_mem hmem, List.nil_append]

theorem tail_append (s rest : List α) : tail sep (s ++ rest) = tail sep (tail sep s ++ rest) := by
  induction hn : s.length using Nat.strongRecOn generalizing s with
  | ind n ih =>
    by_cases hmem : sep ∈ s
    · obtain ⟨line, later, rfl, hline⟩ := List.eq_append_cons_of_mem hmem
      have hlater := ih later.length (by
        rw [← hn, List.length_append, List.length_cons]
        omega) later rfl
      rw [List.append_assoc, List.cons_append, tail_line hline, tail_line hline, hlater]
    · rw [tail_of_not_mem hmem]

end Lines
