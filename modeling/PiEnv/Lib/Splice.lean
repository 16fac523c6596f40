import Mathlib.Data.List.Flatten
import Mathlib.Data.List.Basic

/-!
# Replacement of several ranges at once

Edits of a list, each the replacement of a range of positions. They are applied
at once where every position keeps its element unless a range covers it, and
the replacement of a range stands where the range began. Applied one after the
other, from the last range to the first, edits whose ranges do not overlap give
the same.
-/

namespace Splice

structure Edit (α : Type) where
  start : Nat
  stop : Nat
  text : List α
deriving DecidableEq, Repr

section
variable {α : Type}

def Edit.covers (edit : Edit α) (i : Nat) : Bool := edit.start ≤ i && i < edit.stop

/-- What stands in the result for the position `i` of the content. -/
def atPosition (content : List α) (edits : List (Edit α)) (i : Nat) : List α :=
  (edits.filter (·.start == i)).flatMap (·.text) ++
    if edits.any (·.covers i) then [] else content[i]?.toList

def simultaneous (content : List α) (edits : List (Edit α)) : List α :=
  (List.range (content.length + 1)).flatMap (atPosition content edits)

/-- The two ranges share a position, or one is an insertion inside the other. -/
def Overlap (a b : Edit α) : Prop := a.start < b.stop ∧ b.start < a.stop

instance : DecidableRel (Overlap (α := α)) := fun _ _ => inferInstanceAs (Decidable (_ ∧ _))

structure Fits (content : List α) (edit : Edit α) : Prop where
  ordered : edit.start ≤ edit.stop
  within : edit.stop ≤ content.length

def replace (content : List α) (edit : Edit α) : List α :=
  content.take edit.start ++ edit.text ++ content.drop edit.stop

/-- One edit ends before the next begins. -/
def Separated (edits : List (Edit α)) : Prop := edits.Pairwise fun a b => a.stop ≤ b.start

/-- The result from a position on, of separated edits. -/
def between (content : List α) (position : Nat) : List (Edit α) → List α
  | [] => content.drop position
  | edit :: rest =>
    (content.take edit.start).drop position ++ edit.text ++ between content edit.stop rest

variable {content : List α} {edits rest : List (Edit α)} {edit : Edit α} {position i : Nat}

-- -----
-- One after the other
-- -----

theorem foldr_replace (hfits : ∀ e ∈ edits, Fits content e) (hseparated : Separated edits)
    (hafter : ∀ e ∈ edits, position ≤ e.start) :
    edits.foldr (fun e text => replace text e) content =
      content.take position ++ between content position edits := by
  induction edits generalizing position with
  | nil => simp [between]
  | cons edit rest ih =>
    obtain ⟨hnext, hrest⟩ := List.pairwise_cons.mp hseparated
    have hfit := hfits edit List.mem_cons_self
    have hposition := hafter edit List.mem_cons_self
    have hlength : (content.take edit.stop).length = edit.stop :=
      List.length_take_of_le hfit.within
    rw [List.foldr_cons, ih (fun e he => hfits e (List.mem_cons_of_mem _ he)) hrest hnext]
    have htake : (content.take edit.stop ++ between content edit.stop rest).take edit.start =
        content.take edit.start := by
      rw [List.take_append_of_le_length (hlength.symm ▸ hfit.ordered), List.take_take,
        Nat.min_eq_left hfit.ordered]
    have hdrop : (content.take edit.stop ++ between content edit.stop rest).drop edit.stop =
        between content edit.stop rest := List.drop_left' hlength
    have hsplit : content.take position ++ (content.take edit.start).drop position =
        content.take edit.start := by
      have hboth := List.take_append_drop position (content.take edit.start)
      rwa [List.take_take, Nat.min_eq_left hposition] at hboth
    calc replace (content.take edit.stop ++ between content edit.stop rest) edit
        = content.take edit.start ++ edit.text ++ between content edit.stop rest := by
          rw [replace, htake, hdrop]
      _ = content.take position ++ (content.take edit.start).drop position ++ edit.text ++
            between content edit.stop rest := by rw [hsplit]
      _ = content.take position ++ between content position (edit :: rest) := by
          simp only [between, List.append_assoc]

-- -----
-- At once
-- -----

theorem atPosition_before (h : ∀ e ∈ edits, i < e.start) :
    atPosition content edits i = content[i]?.toList := by
  have hnone : edits.filter (·.start == i) = [] := by
    rw [List.filter_eq_nil_iff]
    intro e he
    have := h e he
    simp only [beq_iff_eq]
    omega
  have huncovered : edits.any (·.covers i) = false := by
    rw [List.any_eq_false]
    intro e he
    have := h e he
    simp only [Edit.covers, Bool.and_eq_true, decide_eq_true_eq]
    omega
  simp [atPosition, hnone, huncovered]

/-- An insertion comes before what else there is at its position. -/
theorem atPosition_insertion (h : edit.stop = edit.start) :
    atPosition content (edit :: rest) edit.start = edit.text ++ atPosition content rest edit.start := by
  simp [atPosition, Edit.covers, h]

theorem atPosition_start (h : edit.start < edit.stop) (hrest : ∀ e ∈ rest, edit.start < e.start) :
    atPosition content (edit :: rest) edit.start = edit.text := by
  have hnone : rest.filter (·.start == edit.start) = [] := by
    rw [List.filter_eq_nil_iff]
    intro e he
    have := hrest e he
    simp only [beq_iff_eq]
    omega
  simp [atPosition, Edit.covers, h, hnone]

theorem atPosition_covered (hstart : edit.start < i) (hstop : i < edit.stop)
    (hrest : ∀ e ∈ rest, i < e.start) : atPosition content (edit :: rest) i = [] := by
  have hnone : (edit :: rest).filter (·.start == i) = [] := by
    rw [List.filter_eq_nil_iff]
    intro e he
    simp only [beq_iff_eq]
    rcases List.mem_cons.mp he with rfl | he
    · omega
    · have := hrest e he
      omega
  have hcovers : edit.covers i = true := by
    simp only [Edit.covers, Bool.and_eq_true, decide_eq_true_eq]
    omega
  simp [atPosition, hnone, hcovers]

theorem atPosition_behind (hstart : edit.start < i) (hstop : edit.stop ≤ i) :
    atPosition content (edit :: rest) i = atPosition content rest i := by
  have hother : (edit.start == i) = false := by
    simp only [beq_eq_false_iff_ne]
    omega
  have hcovers : edit.covers i = false := by
    simp only [Edit.covers, Bool.and_eq_false_iff, decide_eq_false_iff_not]
    omega
  simp [atPosition, hother, hcovers]

theorem flatMap_congr_range {β : Type} {f g : Nat → List β} {start count : Nat}
    (h : ∀ i, start ≤ i → i < start + count → f i = g i) :
    (List.range' start count).flatMap f = (List.range' start count).flatMap g := by
  refine List.flatMap_congr fun i hi => ?_
  rw [List.mem_range'_1] at hi
  exact h i hi.1 hi.2

/-- The elements between two positions. -/
theorem flatMap_kept (start count : Nat) :
    (List.range' start count).flatMap (fun i => content[i]?.toList) =
      (content.take (start + count)).drop start := by
  induction count generalizing start with
  | zero => simp
  | succ count ih =>
    rw [List.range'_succ, List.flatMap_cons, ih]
    by_cases h : start < content.length
    · rw [List.getElem?_eq_getElem h, Option.toList_some,
        List.drop_eq_getElem_cons (i := start) (by simp; omega)]
      simp [Nat.add_right_comm, Nat.add_assoc]
    · have hnone := List.getElem?_eq_none (Nat.le_of_not_lt h)
      have hlast : content.length ≤ start := Nat.le_of_not_lt h
      rw [hnone, List.drop_of_length_le (by simp; omega), List.drop_of_length_le (by simp; omega)]
      rfl

/-- The positions of an edit, with what the edits behind it leave of the last. -/
theorem flatMap_edit (hordered : edit.start ≤ edit.stop) (hrest : ∀ e ∈ rest, edit.stop ≤ e.start)
    (count : Nat) :
    (List.range' edit.start (edit.stop - edit.start + (count + 1))).flatMap
        (atPosition content (edit :: rest)) =
      edit.text ++ (List.range' edit.stop (count + 1)).flatMap (atPosition content rest) := by
  have hbehind (start count : Nat) (hstart : edit.start < start) (hstop : edit.stop ≤ start) :
      (List.range' start count).flatMap (atPosition content (edit :: rest)) =
        (List.range' start count).flatMap (atPosition content rest) :=
    flatMap_congr_range fun i hi _ =>
      atPosition_behind (Nat.lt_of_lt_of_le hstart hi) (Nat.le_trans hstop hi)
  rcases Nat.eq_or_lt_of_le hordered with hempty | hlong
  · rw [← hempty, Nat.sub_self, Nat.zero_add, List.range'_succ, List.flatMap_cons, List.flatMap_cons,
      atPosition_insertion hempty.symm, hbehind _ _ (Nat.lt_succ_self _) (by omega),
      List.append_assoc]
  · obtain ⟨covered, hcovered⟩ : ∃ covered, edit.stop = edit.start + 1 + covered :=
      ⟨edit.stop - (edit.start + 1), by omega⟩
    have hlength : edit.stop - edit.start + (count + 1) = covered + 1 + (count + 1) := by omega
    have hinside : (List.range' (edit.start + 1) covered).flatMap
        (atPosition content (edit :: rest)) = [] := by
      rw [List.flatMap_eq_nil_iff]
      intro i hi
      rw [List.mem_range'_1] at hi
      exact atPosition_covered (by omega) (by omega) fun e he =>
        Nat.lt_of_lt_of_le (by omega) (hrest e he)
    rw [hlength, ← List.range'_append_1, List.flatMap_append, List.range'_succ, List.flatMap_cons,
      hinside, atPosition_start hlong fun e he => Nat.lt_of_lt_of_le hlong (hrest e he),
      List.append_nil, show edit.start + (covered + 1) = edit.stop by omega,
      hbehind _ _ hlong (Nat.le_refl _)]

theorem flatMap_between (hfits : ∀ e ∈ edits, Fits content e) (hseparated : Separated edits)
    (hafter : ∀ e ∈ edits, position ≤ e.start) (hposition : position ≤ content.length) :
    (List.range' position (content.length - position + 1)).flatMap (atPosition content edits) =
      between content position edits := by
  induction edits generalizing position with
  | nil =>
    rw [flatMap_congr_range fun i _ _ => atPosition_before (by simp), flatMap_kept, between,
      List.take_of_length_le (by omega)]
  | cons edit rest ih =>
    obtain ⟨hnext, hrest⟩ := List.pairwise_cons.mp hseparated
    have hfit := hfits edit List.mem_cons_self
    have hstart := hafter edit List.mem_cons_self
    have hordered := hfit.ordered
    have hwithin := hfit.within
    have hcount : content.length - position + 1 = (edit.start - position) +
        (edit.stop - edit.start + (content.length - edit.stop + 1)) := by omega
    have hbefore : (List.range' position (edit.start - position)).flatMap
        (atPosition content (edit :: rest)) = (content.take edit.start).drop position := by
      rw [flatMap_congr_range (g := fun i => content[i]?.toList) fun i _ hi =>
          atPosition_before fun e he => ?_, flatMap_kept, Nat.add_sub_cancel' hstart]
      rcases List.mem_cons.mp he with rfl | he
      · omega
      · have := hnext e he
        omega
    rw [hcount, ← List.range'_append_1, List.flatMap_append, hbefore, Nat.add_sub_cancel' hstart,
      flatMap_edit hordered hnext, ih (fun e he => hfits e (List.mem_cons_of_mem _ he)) hrest hnext
        hwithin, between, List.append_assoc]

/-- Separated edits, applied from the last to the first, are applied at once. -/
theorem foldr_replace_simultaneous (hfits : ∀ e ∈ edits, Fits content e)
    (hseparated : Separated edits) :
    edits.foldr (fun e text => replace text e) content = simultaneous content edits := by
  have hbetween := flatMap_between hfits hseparated (fun _ _ => Nat.zero_le _) (Nat.zero_le _)
  rw [foldr_replace hfits hseparated (fun _ _ => Nat.zero_le _), simultaneous,
    List.range_eq_range', List.take_zero, List.nil_append, ← hbetween, Nat.sub_zero]

-- -----
-- The order of the edits
-- -----

/-- Only the order of the edits at one position matters. -/
theorem simultaneous_congr {edits' : List (Edit α)} (hperm : edits.Perm edits')
    (hsame : ∀ i, edits.filter (·.start == i) = edits'.filter (·.start == i)) :
    simultaneous content edits = simultaneous content edits' := by
  refine List.flatMap_congr fun i _ => ?_
  have hany : edits.any (·.covers i) = edits'.any (·.covers i) := by
    rw [Bool.eq_iff_iff, List.any_eq_true, List.any_eq_true]
    simp only [hperm.mem_iff]
  rw [atPosition, atPosition, hsame, hany]

end

end Splice
