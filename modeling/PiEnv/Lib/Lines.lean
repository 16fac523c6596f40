import Mathlib.Data.List.Infix

/-!
# Lines of a stream

A stream is cut at its separators: what stands before each of them is a line,
and what follows the last one is left to be completed.
-/

namespace Lines

variable {α : Type} [BEq α] (sep : α)

def whole (text : List α) : List (List α) := (text.splitOn sep).dropLast

def left (text : List α) : List α := (text.splitOn sep).getLast?.getD []

omit [BEq α] in
/-- Lines with their separators. -/
def ended (lines : List (List α)) : List α := lines.flatMap (· ++ [sep])

variable {sep} [LawfulBEq α] {text line : List α} {lines : List (List α)}

-- -----
-- Where a text is cut
-- -----

theorem whole_of_not_mem (h : sep ∉ text) : whole sep text = [] := by
  rw [whole, List.splitOn_eq_singleton h]
  rfl

theorem left_of_not_mem (h : sep ∉ text) : left sep text = text := by
  rw [left, List.splitOn_eq_singleton h]
  rfl

theorem whole_cut (xs ys : List α) :
    whole sep (xs ++ sep :: ys) = xs.splitOn sep ++ whole sep ys := by
  rw [whole, List.splitOn_append_cons_self, List.dropLast_append_of_ne_nil (List.splitOn_ne_nil sep ys)]
  rfl

theorem left_cut (xs ys : List α) : left sep (xs ++ sep :: ys) = left sep ys := by
  have hne := List.splitOn_ne_nil sep ys
  rw [left, List.splitOn_append_cons_self, List.getLast?_append_of_ne_nil _ hne]
  rfl

/-- A text without separators, or one cut at its last. -/
theorem last_cut (sep : α) (text : List α) :
    sep ∉ text ∨ ∃ xs ys, text = xs ++ sep :: ys ∧ sep ∉ ys := by
  by_cases h : sep ∈ text.reverse
  · obtain ⟨ys, xs, he, hys⟩ := List.eq_append_cons_of_mem h
    refine .inr ⟨xs.reverse, ys.reverse, ?_, by simpa using hys⟩
    simpa using congrArg List.reverse he
  · exact .inl (by simpa using h)

-- -----
-- A text that comes in pieces
-- -----

theorem whole_append (text more : List α) :
    whole sep (text ++ more) = whole sep text ++ whole sep (left sep text ++ more) := by
  rcases last_cut sep text with h | ⟨xs, ys, rfl, hys⟩
  · rw [whole_of_not_mem h, left_of_not_mem h, List.nil_append]
  · rw [List.append_assoc, List.cons_append, whole_cut, whole_cut, left_cut, left_of_not_mem hys,
      whole_of_not_mem hys, List.append_nil]

theorem left_append (text more : List α) :
    left sep (text ++ more) = left sep (left sep text ++ more) := by
  rcases last_cut sep text with h | ⟨xs, ys, rfl, hys⟩
  · rw [left_of_not_mem h]
  · rw [List.append_assoc, List.cons_append, left_cut, left_cut, left_of_not_mem hys]

theorem length_left (sep : α) (text : List α) : (left sep text).length ≤ text.length := by
  rcases last_cut sep text with h | ⟨xs, ys, rfl, hys⟩
  · rw [left_of_not_mem h]
  · rw [left_cut, left_of_not_mem hys, List.length_append, List.length_cons]
    omega

-- -----
-- Lines with their separators
-- -----

omit [BEq α] [LawfulBEq α] in
theorem ended_cons : ended sep (line :: lines) = line ++ sep :: ended sep lines := by
  rw [ended, List.flatMap_cons, List.append_assoc]
  rfl

theorem whole_ended (h : ∀ line ∈ lines, sep ∉ line) : whole sep (ended sep lines) = lines := by
  induction lines with
  | nil => exact whole_of_not_mem List.not_mem_nil
  | cons line lines ih =>
    have hline := h line List.mem_cons_self
    have hlines := ih fun l hl => h l (List.mem_cons_of_mem _ hl)
    rw [ended_cons, whole_cut, List.splitOn_eq_singleton hline, hlines]
    rfl

end Lines
