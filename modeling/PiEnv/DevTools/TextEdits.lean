import Mathlib.Data.List.Pairwise
import PiEnv.DevTools.WorkspaceEdit
import PiEnv.Lib.Program
import PiEnv.Lib.Splice

/-!
# Edits of one text

Where a position of a protocol is in a text, whatever its line breaks are, and
what the edits of a text give: they are applied at once, and refused where two
of them overlap.
-/

namespace PiEnv.DevTools

open Js

-- -----
-- Lines and positions
-- -----

/-- A text without a line break. -/
structure Unbroken (text : Str) : Prop where
  no_cr : CR ∉ text
  no_lf : LF ∉ text

/-- A line break, before the rest of a content. A `\r` before a `\n` ends no
line by itself. -/
inductive LineBreak : Str → Str → Prop
  | lf {rest : Str} : LineBreak [LF] rest
  | crlf {rest : Str} : LineBreak [CR, LF] rest
  | cr {rest : Str} (h : rest.head? ≠ some LF) : LineBreak [CR] rest

/-- A number of whole lines, with their breaks, before the rest of a content. -/
inductive Lines : Nat → Str → Str → Prop
  | nil {rest : Str} : Lines 0 [] rest
  | cons {n : Nat} {text ending before rest : Str} (htext : Unbroken text)
      (hbreak : LineBreak ending (before ++ rest)) (hlines : Lines n before rest) :
      Lines (n + 1) (text ++ (ending ++ before)) rest

/-- The position is so far into the content. -/
def Denotes (content : Str) (position : LspPosition) (offset : Nat) : Prop :=
  ∃ before text rest, content = before ++ (text ++ rest) ∧
    Lines position.line before (text ++ rest) ∧ Unbroken text ∧
      text.length = position.character ∧ offset = before.length + text.length

section
variable {text ending rest content before tail : Str} {start index offset n : Nat} {u : UInt16}

theorem Unbroken.cons (hcr : u ≠ CR) (hlf : u ≠ LF) (htext : Unbroken text) :
    Unbroken (u :: text) :=
  ⟨by simp [hcr.symm, htext.no_cr], by simp [hlf.symm, htext.no_lf]⟩

theorem Unbroken.append {other : Str} (htext : Unbroken text) (hother : Unbroken other) :
    Unbroken (text ++ other) :=
  ⟨by simp [htext.no_cr, hother.no_cr], by simp [htext.no_lf, hother.no_lf]⟩

theorem lineBoundsFrom_cons (hcr : u ≠ CR) (hlf : u ≠ LF) :
    lineBoundsFrom start index (u :: rest) = lineBoundsFrom start (index + 1) rest := by
  rw [lineBoundsFrom.eq_def]
  split
  · rename_i heq
    cases heq
  · rename_i heq
    exact absurd (List.cons.inj heq).1 hcr
  · rename_i heq
    exact absurd (List.cons.inj heq).1 hcr
  · rename_i heq
    exact absurd (List.cons.inj heq).1 hlf
  · rename_i heq
    obtain ⟨-, rfl⟩ := List.cons.inj heq
    rfl

theorem lineBoundsFrom_unbroken (htext : Unbroken text) :
    lineBoundsFrom start index (text ++ rest) = lineBoundsFrom start (index + text.length) rest := by
  induction text generalizing index with
  | nil => rfl
  | cons u text ih =>
    obtain ⟨hcr, hlf⟩ := htext
    simp only [List.mem_cons, not_or] at hcr hlf
    rw [List.cons_append, lineBoundsFrom_cons (Ne.symm hcr.1) (Ne.symm hlf.1), ih ⟨hcr.2, hlf.2⟩,
      List.length_cons, Nat.add_assoc, Nat.add_comm 1]

theorem lineBoundsFrom_break (hbreak : LineBreak ending rest) :
    lineBoundsFrom start index (ending ++ rest) = ⟨start, index⟩ ::
      lineBoundsFrom (index + ending.length) (index + ending.length) rest := by
  cases hbreak with
  | lf => rfl
  | crlf => rfl
  | cr h =>
    cases rest with
    | nil => rfl
    | cons v rest =>
      have hv : v ≠ 10 := by simpa [LF] using h
      show lineBoundsFrom start index (13 :: v :: rest) = _
      rw [lineBoundsFrom.eq_def]
      split
      · rename_i heq
        cases heq
      · rename_i heq
        exact absurd (List.cons.inj (List.cons.inj heq).2).1 hv
      · rename_i heq
        obtain ⟨-, rfl⟩ := List.cons.inj heq
        rfl
      · rename_i heq
        exact absurd (List.cons.inj heq).1 (by decide)
      · rename_i hcr _ heq
        exact absurd (List.cons.inj heq).1.symm (by simpa using hcr)

/-- What stands behind a whole line: a line break, or nothing. -/
def LineEnd (tail : Str) : Prop :=
  tail = [] ∨ ∃ ending rest, tail = ending ++ rest ∧ LineBreak ending rest

/-- The rest of the line that a content begins with. -/
theorem exists_line (content : Str) :
    ∃ text tail, content = text ++ tail ∧ Unbroken text ∧ LineEnd tail := by
  induction content with
  | nil => exact ⟨[], [], rfl, ⟨by simp, by simp⟩, .inl rfl⟩
  | cons u content ih =>
    by_cases hlf : u = LF
    · subst hlf
      exact ⟨[], LF :: content, rfl, ⟨by simp, by simp⟩, .inr ⟨[LF], content, rfl, .lf⟩⟩
    · by_cases hcr : u = CR
      · subst hcr
        refine ⟨[], CR :: content, rfl, ⟨by simp, by simp⟩, .inr ?_⟩
        by_cases hnext : content.head? = some LF
        · obtain ⟨rest, rfl⟩ := List.head?_eq_some_iff.mp hnext
          exact ⟨[CR, LF], rest, rfl, .crlf⟩
        · exact ⟨[CR], content, rfl, .cr hnext⟩
      · obtain ⟨text, tail, rfl, htext, htail⟩ := ih
        exact ⟨u :: text, tail, rfl, htext.cons hcr hlf, htail⟩

theorem lineBoundsFrom_line (htext : Unbroken text) (htail : LineEnd tail) :
    (lineBoundsFrom start index (text ++ tail))[0]? = some ⟨start, index + text.length⟩ := by
  rw [lineBoundsFrom_unbroken htext]
  rcases htail with rfl | ⟨ending, rest, rfl, hbreak⟩
  · rfl
  · rw [lineBoundsFrom_break hbreak]
    rfl

/-- The bounds of a line are where it stands behind the lines before it. -/
theorem lineBoundsFrom_get (start : Nat) (content : Str) (n : Nat) {bounds : LineBounds} :
    (lineBoundsFrom start start content)[n]? = some bounds ↔
      ∃ before text tail, content = before ++ (text ++ tail) ∧ Lines n before (text ++ tail) ∧
        Unbroken text ∧ LineEnd tail ∧
          bounds = ⟨start + before.length, start + before.length + text.length⟩ := by
  induction n generalizing start content with
  | zero =>
    constructor
    · intro hbounds
      obtain ⟨text, tail, rfl, htext, htail⟩ := exists_line content
      rw [lineBoundsFrom_line htext htail] at hbounds
      exact ⟨[], text, tail, rfl, .nil, htext, htail, (Option.some.inj hbounds).symm⟩
    · rintro ⟨before, text, tail, rfl, hlines, htext, htail, rfl⟩
      cases hlines
      exact lineBoundsFrom_line htext htail
  | succ n ih =>
    constructor
    · intro hbounds
      obtain ⟨text, tail, rfl, htext, htail⟩ := exists_line content
      rw [lineBoundsFrom_unbroken htext] at hbounds
      rcases htail with rfl | ⟨ending, rest, rfl, hbreak⟩
      · cases hbounds
      · rw [lineBoundsFrom_break hbreak, List.getElem?_cons_succ, ih] at hbounds
        obtain ⟨before, line, tail, rfl, hlines, hline, htail, rfl⟩ := hbounds
        refine ⟨text ++ (ending ++ before), line, tail, by simp, .cons htext hbreak hlines, hline,
          htail, ?_⟩
        simp only [List.length_append, Nat.add_assoc]
    · rintro ⟨before, line, tail, rfl, hlines, hline, htail, rfl⟩
      cases hlines with
      | @cons _ text ending before _ htext hbreak hlines =>
        rw [List.append_assoc, List.append_assoc, lineBoundsFrom_unbroken htext,
          lineBoundsFrom_break hbreak, List.getElem?_cons_succ, ih]
        refine ⟨before, line, tail, rfl, hlines, hline, htail, ?_⟩
        simp only [List.length_append, Nat.add_assoc]

/-- A position is accepted exactly where it is in the content. -/
theorem positionOffset_ok (label : Str) {position : LspPosition} :
    positionOffset (getLineBounds content) position label = .ok offset ↔
      Denotes content position offset := by
  constructor
  · intro hok
    unfold positionOffset at hok
    split at hok
    · cases hok
    · rename_i bounds hbounds
      obtain ⟨before, text, tail, rfl, hlines, htext, -, rfl⟩ :=
        (lineBoundsFrom_get 0 content position.line).mp hbounds
      split at hok
      · cases hok
      · rename_i hwithin
        obtain rfl := Except.ok.inj hok
        have hlength : (text.take position.character).length = position.character :=
          List.length_take_of_le (by simp only at hwithin; omega)
        have hboth : text.take position.character ++ (text.drop position.character ++ tail) =
            text ++ tail := by
          rw [← List.append_assoc, List.take_append_drop]
        refine ⟨before, text.take position.character, text.drop position.character ++ tail,
          by rw [hboth], by rw [hboth]; exact hlines, ?_, hlength, by simp [hlength]⟩
        exact ⟨fun h => htext.no_cr (List.mem_of_mem_take h),
          fun h => htext.no_lf (List.mem_of_mem_take h)⟩
  · rintro ⟨before, text, rest, rfl, hlines, htext, hlength, rfl⟩
    obtain ⟨more, tail, rfl, hmore, htail⟩ := exists_line rest
    rw [← List.append_assoc text] at hlines ⊢
    have hbounds := (lineBoundsFrom_get 0 _ position.line).mpr
      ⟨before, text ++ more, tail, rfl, hlines, htext.append hmore, htail, rfl⟩
    rw [getLineBounds, positionOffset, hbounds]
    simp [← hlength]

theorem Denotes.unique {position : LspPosition} {offset' : Nat}
    (h : Denotes content position offset) (h' : Denotes content position offset') :
    offset = offset' := by
  have hok := (positionOffset_ok []).mpr h
  rw [(positionOffset_ok []).mpr h'] at hok
  exact (Except.ok.inj hok).symm

theorem Denotes.le_length {position : LspPosition} (h : Denotes content position offset) :
    offset ≤ content.length := by
  obtain ⟨before, text, rest, rfl, -, -, -, rfl⟩ := h
  simp

end

-- -----
-- Ranges
-- -----

abbrev Replacement := Splice.Edit UInt16

def OffsetEdit.replacement (edit : OffsetEdit) : Replacement :=
  ⟨edit.start, edit.stop, edit.newText⟩

/-- The range of the edit is this one, and is not reversed. -/
structure DenotesEdit (content : Str) (edit : LspTextEdit) (replacement : Replacement) : Prop where
  start : Denotes content edit.range.start replacement.start
  stop : Denotes content edit.range.stop replacement.stop
  ordered : replacement.start ≤ replacement.stop
  text : replacement.text = edit.newText

section
variable {content : Str} {file : WorkspaceFileEdits} {edit : LspTextEdit} {index : Nat}
  {offsets : List OffsetEdit}

theorem DenotesEdit.fits {replacement : Replacement} (h : DenotesEdit content edit replacement) :
    Splice.Fits content replacement :=
  ⟨h.ordered, h.stop.le_length⟩

theorem DenotesEdit.unique {replacement replacement' : Replacement}
    (h : DenotesEdit content edit replacement) (h' : DenotesEdit content edit replacement') :
    replacement = replacement' := by
  cases replacement
  cases replacement'
  rw [Splice.Edit.mk.injEq]
  exact ⟨h.start.unique h'.start, h.stop.unique h'.stop, h.text.trans h'.text.symm⟩

theorem offsetEdit_ok {offset : OffsetEdit} :
    offsetEdit (getLineBounds content) file edit index = .ok offset ↔
      DenotesEdit content edit offset.replacement ∧ offset.index = index := by
  constructor
  · intro hok
    obtain ⟨start, hstart, hok⟩ := Effects.bind_eq_ok.mp hok
    obtain ⟨stop, hstop, hok⟩ := Effects.bind_eq_ok.mp hok
    split at hok
    · cases hok
    · rename_i hordered
      obtain rfl := Except.ok.inj hok
      exact ⟨⟨(positionOffset_ok _).mp hstart, (positionOffset_ok _).mp hstop,
        Nat.le_of_not_lt hordered, rfl⟩, rfl⟩
  · rintro ⟨hdenotes, rfl⟩
    have hstart := hdenotes.start
    have hstop := hdenotes.stop
    obtain ⟨start, stop, newText, index⟩ := offset
    refine Effects.bind_eq_ok.mpr ⟨start, (positionOffset_ok _).mpr hstart, ?_⟩
    refine Effects.bind_eq_ok.mpr ⟨stop, (positionOffset_ok _).mpr hstop, ?_⟩
    have hordered : start ≤ stop := hdenotes.ordered
    rw [if_neg (Nat.not_lt.mpr hordered), ← hdenotes.text]
    rfl

/-- What the edits are turned into: their ranges, in their order. -/
structure Offsets (content : Str) (edits : List LspTextEdit) (first : Nat)
    (offsets : List OffsetEdit) : Prop where
  denotes : List.Forall₂ (DenotesEdit content) edits (offsets.map (·.replacement))
  indices : offsets.map (·.index) = List.range' first edits.length

theorem mapM_offsetEdit_ok {edits : List LspTextEdit} {first : Nat} :
    (edits.zipIdx first).mapM (fun (edit, index) => offsetEdit (getLineBounds content) file edit index)
      = .ok offsets ↔ Offsets content edits first offsets := by
  induction edits generalizing first offsets with
  | nil =>
    constructor
    · intro hok
      obtain rfl := Except.ok.inj hok
      exact ⟨.nil, rfl⟩
    · rintro ⟨hdenotes, -⟩
      obtain rfl := List.map_eq_nil_iff.mp (List.forall₂_nil_left_iff.mp hdenotes)
      rfl
  | cons edit edits ih =>
    rw [List.zipIdx_cons, List.mapM_cons]
    constructor
    · intro hok
      obtain ⟨offset, hoffset, hok⟩ := Effects.bind_eq_ok.mp hok
      obtain ⟨others, hothers, hok⟩ := Effects.bind_eq_ok.mp hok
      obtain rfl := Except.ok.inj hok
      obtain ⟨hdenotes, hindex⟩ := offsetEdit_ok.mp hoffset
      obtain ⟨hrest, hindices⟩ := ih.mp hothers
      refine ⟨.cons hdenotes hrest, ?_⟩
      simp only [List.map_cons, hindex, hindices, List.length_cons, List.range'_succ]
    · rintro ⟨hdenotes, hindices⟩
      cases offsets with
      | nil => cases hdenotes
      | cons offset others =>
        obtain ⟨hfirst, hrest⟩ := List.forall₂_cons.mp hdenotes
        simp only [List.map_cons, List.length_cons, List.range'_succ, List.cons.injEq] at hindices
        refine Effects.bind_eq_ok.mpr ⟨offset, offsetEdit_ok.mpr ⟨hfirst, hindices.1⟩, ?_⟩
        exact Effects.bind_eq_ok.mpr ⟨others, ih.mpr ⟨hrest, hindices.2⟩, rfl⟩

theorem denotesEdits_fits {edits : List LspTextEdit} {replacements : List Replacement}
    (h : List.Forall₂ (DenotesEdit content) edits replacements) :
    ∀ replacement ∈ replacements, Splice.Fits content replacement := by
  induction h with
  | nil => simp
  | cons hfirst _ ih =>
    intro replacement hmem
    rcases List.mem_cons.mp hmem with rfl | hmem
    · exact hfirst.fits
    · exact ih replacement hmem

theorem denotesEdits_unique {edits : List LspTextEdit} {replacements replacements' : List Replacement}
    (h : List.Forall₂ (DenotesEdit content) edits replacements)
    (h' : List.Forall₂ (DenotesEdit content) edits replacements') : replacements = replacements' := by
  induction h generalizing replacements' with
  | nil => exact (List.forall₂_nil_left_iff.mp h').symm
  | @cons edit replacement edits replacements hfirst hrest ih =>
    cases h' with
    | cons hfirst' hrest' => rw [hfirst.unique hfirst', ih hrest']

theorem Offsets.fits {edits : List LspTextEdit} {first : Nat}
    (h : Offsets content edits first offsets) :
    ∀ offset ∈ offsets, Splice.Fits content offset.replacement :=
  fun _ hmem => denotesEdits_fits h.denotes _ (List.mem_map_of_mem hmem)

theorem Offsets.ordered {edits : List LspTextEdit} {first : Nat}
    (h : Offsets content edits first offsets) : ∀ offset ∈ offsets, offset.start ≤ offset.stop :=
  fun offset hmem => (h.fits offset hmem).ordered

end

-- -----
-- Orders
-- -----

instance : IsTrans OffsetEdit ascending :=
  ⟨fun a b c hab hbc => by unfold ascending at *; omega⟩

instance : Std.Total ascending :=
  ⟨fun a b => by unfold ascending; omega⟩

instance : IsTrans OffsetEdit descending :=
  ⟨fun a b c hab hbc => by unfold descending at *; omega⟩

instance : Std.Total descending :=
  ⟨fun a b => by unfold descending; omega⟩

/-- The two ranges do not overlap, and both are insertions where they start at
one position. -/
def Compatible (a b : Replacement) : Prop :=
  ¬ Splice.Overlap a b ∧ (a.start = b.start → a.stop = a.start ∧ b.stop = b.start)

theorem Compatible.symm {a b : Replacement} (h : Compatible a b) : Compatible b a :=
  ⟨fun ⟨hb, ha⟩ => h.1 ⟨ha, hb⟩, fun hsame => (h.2 hsame.symm).symm⟩

instance : Std.Symm Compatible := ⟨fun _ _ h => h.symm⟩

theorem Compatible.separated {a b : Replacement} (h : Compatible a b) (hb : b.start ≤ b.stop)
    (hsorted : a.start ≤ b.start) : a.stop ≤ b.start := by
  by_contra hnot
  have hstop : b.stop ≤ a.start := by
    by_contra hlong
    exact h.1 ⟨Nat.lt_of_not_le hlong, Nat.lt_of_not_le hnot⟩
  have hsame : a.start = b.start := by omega
  have := (h.2 hsame).1
  omega

section
variable {offsets : List OffsetEdit}

theorem compatible_perm {offsets' : List OffsetEdit} (hperm : offsets.Perm offsets') :
    offsets.Pairwise (fun a b => Compatible a.replacement b.replacement) ↔
      offsets'.Pairwise fun a b => Compatible a.replacement b.replacement :=
  hperm.pairwise_iff fun h => h.symm

theorem overlapping_eq_false (hordered : ∀ offset ∈ offsets, offset.start ≤ offset.stop) :
    overlapping offsets = false ↔ offsets.Pairwise fun a b => a.stop ≤ b.start := by
  induction offsets with
  | nil => simp [overlapping]
  | cons left rest ih =>
    have ih := ih fun offset hmem => hordered offset (List.mem_cons_of_mem _ hmem)
    cases rest with
    | nil => simp [overlapping]
    | cons right rest =>
      have hright := hordered right (by simp)
      rw [overlapping, Bool.or_eq_false_iff, decide_eq_false_iff_not, Nat.not_lt, ih,
        List.pairwise_cons (a := left)]
      refine and_congr_left fun hpairs => ⟨fun hnext offset hmem => ?_, fun hall => hall _ (by simp)⟩
      rcases List.mem_cons.mp hmem with rfl | hmem
      · exact hnext
      · have := (List.pairwise_cons.mp hpairs).1 offset hmem
        omega

/-- The check refuses every list but those of compatible edits. -/
theorem not_overlapping_iff (hordered : ∀ offset ∈ offsets, offset.start ≤ offset.stop) :
    overlapping (offsets.insertionSort ascending) = false ↔
      offsets.Pairwise fun a b => Compatible a.replacement b.replacement := by
  have hperm := List.perm_insertionSort ascending offsets
  have hsorted := List.pairwise_insertionSort ascending offsets
  have hall : ∀ offset ∈ offsets.insertionSort ascending, offset.start ≤ offset.stop :=
    fun offset hmem => hordered offset (hperm.mem_iff.mp hmem)
  rw [overlapping_eq_false hall, ← compatible_perm hperm]
  constructor
  · intro hseparated
    refine (hsorted.and hseparated).imp_of_mem fun {a b} ha hb hboth => ?_
    obtain ⟨horder, hstop⟩ := hboth
    have hbstop := hall b hb
    refine ⟨fun hoverlap => Nat.not_lt.mpr hstop hoverlap.2, fun hsame => ?_⟩
    have hastop := hall a ha
    simp only [OffsetEdit.replacement] at hsame ⊢
    unfold ascending at horder
    omega
  · intro hcompatible
    refine (hsorted.and hcompatible).imp_of_mem fun {a b} _ hb hboth => ?_
    obtain ⟨horder, hpair⟩ := hboth
    refine hpair.separated (hall b hb) ?_
    unfold ascending at horder
    simp only [OffsetEdit.replacement]
    omega

-- -----
-- Application
-- -----

theorem replaceRange_eq (updated : Str) (edit : OffsetEdit) :
    replaceRange updated edit = Splice.replace updated edit.replacement := rfl

/-- Of one start, both sorted lists have the edits in the order of the array. -/
theorem filter_start_descending (hindices : offsets.Pairwise fun a b => a.index < b.index) (i : Nat) :
    (offsets.insertionSort descending).reverse.filter (·.start == i) =
      offsets.filter (·.start == i) := by
  have hperm : (offsets.insertionSort descending).reverse.Perm offsets :=
    (List.reverse_perm _).trans (List.perm_insertionSort ..)
  have hnodup : (offsets.map (·.index)).Nodup :=
    List.pairwise_map.mpr (hindices.imp Nat.ne_of_lt)
  have hantisymm (a b : OffsetEdit)
      (ha : a ∈ (offsets.insertionSort descending).reverse.filter (·.start == i))
      (hb : b ∈ offsets.filter (·.start == i)) (hab : a.index ≤ b.index) (hba : b.index ≤ a.index) :
      a = b :=
    List.inj_on_of_nodup_map hnodup (hperm.mem_iff.mp (List.mem_of_mem_filter ha))
      (List.mem_of_mem_filter hb) (Nat.le_antisymm hab hba)
  refine List.Perm.eq_of_pairwise hantisymm ?_ ?_ (hperm.filter _)
  · have hsorted := (List.pairwise_reverse.mpr
      (List.pairwise_insertionSort descending offsets)).filter (·.start == i)
    refine hsorted.imp_of_mem fun {a b} ha hb horder => ?_
    have hastart := (List.mem_filter.mp ha).2
    have hbstart := (List.mem_filter.mp hb).2
    simp only [beq_iff_eq] at hastart hbstart
    unfold descending at horder
    omega
  · exact (hindices.filter _).imp Nat.le_of_lt

/-- Compatible edits are applied at once. -/
theorem foldl_replaceRange {content : Str}
    (hfits : ∀ offset ∈ offsets, Splice.Fits content offset.replacement)
    (hindices : offsets.Pairwise fun a b => a.index < b.index)
    (hcompatible : offsets.Pairwise fun a b => Compatible a.replacement b.replacement) :
    (offsets.insertionSort descending).foldl replaceRange content =
      Splice.simultaneous content (offsets.map (·.replacement)) := by
  have hperm : (offsets.insertionSort descending).reverse.Perm offsets :=
    (List.reverse_perm _).trans (List.perm_insertionSort ..)
  have hsorted := List.pairwise_reverse.mpr (List.pairwise_insertionSort descending offsets)
  have hseparated : Splice.Separated
      ((offsets.insertionSort descending).reverse.map (·.replacement)) := by
    rw [Splice.Separated, List.pairwise_map]
    refine (hsorted.and ((compatible_perm hperm).mpr hcompatible)).imp_of_mem fun {a b} _ hb hboth => ?_
    obtain ⟨horder, hpair⟩ := hboth
    refine hpair.separated (hfits b (hperm.mem_iff.mp hb)).ordered ?_
    unfold descending at horder
    simp only [OffsetEdit.replacement]
    omega
  have hall : ∀ e ∈ (offsets.insertionSort descending).reverse.map (·.replacement),
      Splice.Fits content e :=
    List.forall_mem_map.mpr fun offset hmem => hfits offset (hperm.mem_iff.mp hmem)
  have hsimultaneous := Splice.foldr_replace_simultaneous hall hseparated
  rw [List.foldr_map, List.foldr_reverse] at hsimultaneous
  simp only [← replaceRange_eq] at hsimultaneous
  rw [hsimultaneous]
  refine Splice.simultaneous_congr (hperm.map _) fun i => ?_
  rw [List.filter_map, List.filter_map]
  exact congrArg _ (filter_start_descending hindices i)

end

section
variable {content : Str} {file : WorkspaceFileEdits} {offsets : List OffsetEdit} {result : Str}

theorem Offsets.indices_sorted (h : Offsets content file.edits 0 offsets) :
    offsets.Pairwise fun a b => a.index < b.index := by
  rw [← List.pairwise_map (f := OffsetEdit.index) (R := (· < ·)), h.indices]
  exact List.pairwise_lt_range'

/-- What is accepted, and what comes of it. -/
theorem applyTextEdits_ok : applyTextEdits content file = .ok result ↔
    ∃ offsets, Offsets content file.edits 0 offsets ∧
      offsets.Pairwise (fun a b => Compatible a.replacement b.replacement) ∧
        result = Splice.simultaneous content (offsets.map (·.replacement)) := by
  unfold applyTextEdits
  rw [Effects.bind_eq_ok]
  refine exists_congr fun offsets => ?_
  rw [mapM_offsetEdit_ok]
  refine and_congr_right fun hoffsets => ?_
  rw [← not_overlapping_iff hoffsets.ordered]
  split
  · rename_i hoverlapping
    simp [hoverlapping]
  · rename_i hfree
    rw [Bool.not_eq_true] at hfree
    have happly := foldl_replaceRange hoffsets.fits hoffsets.indices_sorted
      ((not_overlapping_iff hoffsets.ordered).mp hfree)
    rw [happly, and_iff_right hfree]
    exact ⟨fun hok => (Except.ok.inj hok).symm, fun hsame => congrArg Except.ok hsame.symm⟩

/-- What is accepted is applied at once, to the ranges that the positions
denote, and edits two of which overlap are refused. -/
theorem applyTextEdits_simultaneous (content : Str) (file : WorkspaceFileEdits) :
    (∀ result, applyTextEdits content file = .ok result → ∃ replacements,
      List.Forall₂ (DenotesEdit content) file.edits replacements ∧
        result = Splice.simultaneous content replacements) ∧
    ∀ (i j : Nat) (left right : LspTextEdit) (a b : Replacement), i < j →
      file.edits[i]? = some left → file.edits[j]? = some right →
        DenotesEdit content left a → DenotesEdit content right b → Splice.Overlap a b →
          ∃ failure, applyTextEdits content file = .error failure := by
  constructor
  · intro result hok
    obtain ⟨offsets, hoffsets, -, rfl⟩ := applyTextEdits_ok.mp hok
    exact ⟨_, hoffsets.denotes, rfl⟩
  · intro i j left right a b hij hleft hright ha hb hoverlap
    cases happlied : applyTextEdits content file with
    | error failure => exact ⟨failure, rfl⟩
    | ok result =>
      obtain ⟨offsets, hoffsets, hcompatible, -⟩ := applyTextEdits_ok.mp happlied
      have hlength := hoffsets.denotes.length_eq
      rw [List.length_map] at hlength
      obtain ⟨hi, rfl⟩ := List.getElem?_eq_some_iff.mp hleft
      obtain ⟨hj, rfl⟩ := List.getElem?_eq_some_iff.mp hright
      have hda := hoffsets.denotes.get hi (by simpa [← hlength] using hi)
      have hdb := hoffsets.denotes.get hj (by simpa [← hlength] using hj)
      rw [ha.unique hda, hb.unique hdb] at hoverlap
      have hpair := List.pairwise_iff_getElem.mp hcompatible i j (hlength ▸ hi) (hlength ▸ hj) hij
      exact absurd (by simpa using hoverlap) hpair.1

/-- A replacement at the end of the first line and an insertion on the second. -/
def twoLineEdits : WorkspaceFileEdits :=
  ⟨lit "/w/a", [⟨⟨⟨1, 0⟩, ⟨1, 0⟩⟩, lit "x"⟩, ⟨⟨⟨0, 1⟩, ⟨0, 2⟩⟩, lit "y"⟩], .undefined⟩

theorem applyTextEdits_simultaneous_lines : ∃ replacements,
    List.Forall₂ (DenotesEdit (lit "ab\r\ncd")) twoLineEdits.edits replacements ∧
      lit "ay\r\nxcd" = Splice.simultaneous (lit "ab\r\ncd") replacements :=
  (applyTextEdits_simultaneous (lit "ab\r\ncd") twoLineEdits).1 _ rfl

/-- Edits that do not overlap are accepted, unless an insertion starts where a
range that is not empty does. -/
theorem applyTextEdits_accepts_iff {replacements : List Replacement}
    (hdenotes : List.Forall₂ (DenotesEdit content) file.edits replacements)
    (hvalid : replacements.Pairwise fun a b => ¬ Splice.Overlap a b) :
    (∃ result, applyTextEdits content file = .ok result) ↔
      ∀ a ∈ replacements, ∀ b ∈ replacements,
        a.start = b.start → a.stop = a.start → b.stop = b.start := by
  constructor
  · rintro ⟨result, hok⟩ a ha b hb hsame hempty
    obtain ⟨offsets, hoffsets, hcompatible, -⟩ := applyTextEdits_ok.mp hok
    obtain rfl := denotesEdits_unique hdenotes hoffsets.denotes
    by_cases heq : a = b
    · exact heq ▸ hempty
    · have hpair := (List.pairwise_map.mpr hcompatible).forall ha hb heq
      exact (hpair.2 hsame).2
  · intro halone
    let offsets := replacements.zipIdx.map fun (r, index) =>
      OffsetEdit.mk r.start r.stop r.text index
    have hreplacements : offsets.map (·.replacement) = replacements := by
      simp [offsets, OffsetEdit.replacement, Function.comp_def]
    have hindices : offsets.map (·.index) = List.range' 0 file.edits.length := by
      simp [offsets, Function.comp_def, hdenotes.length_eq]
    have hoffsets : Offsets content file.edits 0 offsets := ⟨hreplacements.symm ▸ hdenotes, hindices⟩
    refine ⟨_, applyTextEdits_ok.mpr ⟨offsets, hoffsets, ?_, rfl⟩⟩
    rw [← List.pairwise_map (f := OffsetEdit.replacement), hreplacements]
    refine hvalid.imp_of_mem fun {a b} ha hb hfree => ⟨hfree, fun hsame => ?_⟩
    have hafits := (denotesEdits_fits hdenotes a ha).ordered
    have hbfits := (denotesEdits_fits hdenotes b hb).ordered
    have hforward := halone a ha b hb hsame
    have hbackward := halone b hb a ha hsame.symm
    by_cases hempty : a.stop = a.start
    · exact ⟨hempty, hforward hempty⟩
    · have hother : b.stop = b.start := by
        by_contra hlong
        exact hfree ⟨by omega, by omega⟩
      exact ⟨hbackward hother, hother⟩

theorem denotes_of_offset {position : LspPosition} {offset : Nat}
    (h : positionOffset (getLineBounds content) position [] = .ok offset) :
    Denotes content position offset := (positionOffset_ok []).mp h

theorem twoLineEdits_denote : List.Forall₂ (DenotesEdit (lit "ab\r\ncd")) twoLineEdits.edits
    [⟨4, 4, lit "x"⟩, ⟨1, 2, lit "y"⟩] :=
  .cons ⟨denotes_of_offset rfl, denotes_of_offset rfl, by decide, rfl⟩
    (.cons ⟨denotes_of_offset rfl, denotes_of_offset rfl, by decide, rfl⟩ .nil)

theorem applyTextEdits_accepts_iff_lines :
    (∃ result, applyTextEdits (lit "ab\r\ncd") twoLineEdits = .ok result) ↔
      ∀ a ∈ [(⟨4, 4, lit "x"⟩ : Replacement), ⟨1, 2, lit "y"⟩],
        ∀ b ∈ [(⟨4, 4, lit "x"⟩ : Replacement), ⟨1, 2, lit "y"⟩],
          a.start = b.start → a.stop = a.start → b.stop = b.start :=
  applyTextEdits_accepts_iff twoLineEdits_denote (by decide)

/-- An insertion, and after it in the array the replacement of what it stands before. -/
def insertAndReplace : WorkspaceFileEdits :=
  ⟨lit "/w/a", [⟨⟨⟨0, 0⟩, ⟨0, 0⟩⟩, lit "x"⟩, ⟨⟨⟨0, 0⟩, ⟨0, 1⟩⟩, lit "y"⟩], .undefined⟩

theorem insertAndReplace_refused :
    ¬ ∀ (content : Str) (file : WorkspaceFileEdits) (replacements : List Replacement),
      List.Forall₂ (DenotesEdit content) file.edits replacements →
        (replacements.Pairwise fun a b => ¬ Splice.Overlap a b) →
          ∃ result, applyTextEdits content file = .ok result := by
  intro hclaim
  obtain ⟨result, hok⟩ := hclaim (lit "ab") insertAndReplace [⟨0, 0, lit "x"⟩, ⟨0, 1, lit "y"⟩]
    (.cons ⟨denotes_of_offset rfl, denotes_of_offset rfl, by decide, rfl⟩
      (.cons ⟨denotes_of_offset rfl, denotes_of_offset rfl, by decide, rfl⟩ .nil)) (by decide)
  have hrefused : applyTextEdits (lit "ab") insertAndReplace =
      .error (workspaceEditError (lit "/w/a contains overlapping text edits.")) := rfl
  rw [hrefused] at hok
  cases hok

end

end PiEnv.DevTools
