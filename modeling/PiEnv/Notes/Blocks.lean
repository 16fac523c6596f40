import Mathlib.Data.List.GetD
import PiEnv.Notes.CollectionPolicy

/-!
# Items stay where they were put

An item is a block of lines: its marker and first text line, then each further
text line behind two spaces. An append replaces a placeholder line, inserts
its block at a line boundary, or adds a section at the end; none of these cuts
into a block that is already there, unless the placeholder it replaces is that
block's own first line.
-/

namespace PiEnv.Notes

open Js

def indent : Str := lit "  "

theorem indent_eq : indent = [space, space] := by decide

/-- The further lines of a block, each on a line of its own. -/
inductive Continued : List Str → Str → Prop
  | nil : Continued [] []
  | cons {newline line tail : Str} {rest : List Str} (hn : newline = [LF] ∨ newline = CRLF)
      (ht : Continued rest tail) : Continued (line :: rest) (newline ++ indent ++ line ++ tail)

/-- `block` is the marker and every line of the trimmed text. -/
def IsBlock (heading : Heading) (text block : Str) : Prop :=
  ∃ first rest tail, splitLines (trim text) = first :: rest ∧ Continued rest tail ∧
    block = marker heading ++ first ++ tail

def AtLineStart (before : Str) : Prop := before = [] ∨ [LF] <:+ before

def AtLineEnd (after : Str) : Prop := after = [] ∨ [LF] <+: after ∨ CRLF <+: after

/-- The block stands in the note on lines of its own, behind `position` units. -/
def HoldsAt (content block : Str) (position : Nat) : Prop :=
  ∃ before after, content = before ++ block ++ after ∧ before.length = position ∧
    AtLineStart before ∧ AtLineEnd after

def Holds (content block : Str) : Prop := ∃ position, HoldsAt content block position

/-- The whole item stands in the note. -/
def HasItem (content : Str) (heading : Heading) (text : Str) : Prop :=
  ∃ block, IsBlock heading text block ∧ Holds content block

-- -----
-- The shape of a block
-- -----

/-- Every line but the first is indented, and the text does not end in white
space. This holds of a block and of what follows any of its line breaks. -/
structure Indented (text : Str) : Prop where
  indented : ∀ {before after : Str}, text = before ++ LF :: after → indent <+: after
  closed : ∃ front last, text = front ++ [last] ∧ isSpace last = false

/-- What the placement argument needs of a block. -/
structure BlockShape (block : Str) : Prop extends Indented block where
  dash : ∃ rest, block = 45 :: space :: rest

/-- After a line break of a block's own come its indent and its line. -/
theorem continued_break {line tail before after : Str} (hline : LF ∉ line)
    (ih : ∀ {front : Str}, tail = front ++ LF :: after → indent <+: after)
    (h : LF :: (indent ++ line ++ tail) = before ++ LF :: after) : indent <+: after := by
  cases before with
  | nil => exact ⟨line ++ tail, by simpa using (List.cons.inj h).2⟩
  | cons u before =>
    have hs : (indent ++ line) ++ tail = before ++ LF :: after := by
      simpa using (List.cons.inj h).2
    have hn : LF ∉ indent ++ line := by
      simpa [indent_eq, hline] using (by decide : LF ≠ space)
    obtain ⟨front, -, ht⟩ := before_of_not_mem hs hn
    exact ih ht

theorem Continued.indented {rest : List Str} {tail before after : Str} (h : Continued rest tail)
    (hl : ∀ line ∈ rest, LF ∉ line) (ht : tail = before ++ LF :: after) : indent <+: after := by
  induction h generalizing before with
  | nil => simp at ht
  | @cons newline line tail rest hn _ ih =>
    have hline : LF ∉ line := hl line (by simp)
    have hrest : ∀ l ∈ rest, LF ∉ l := fun l hm => hl l (List.mem_cons_of_mem _ hm)
    rcases hn with rfl | rfl
    · exact continued_break hline (ih hrest) (by simpa using ht)
    · cases before with
      | nil => simp [CRLF, LF, CR] at ht
      | cons u before =>
        have hb : LF :: (indent ++ line ++ tail) = before ++ LF :: after := by
          simpa [CRLF] using (List.cons.inj (show CR :: _ = u :: _ by simpa [CRLF] using ht)).2
        exact continued_break hline (ih hrest) hb

theorem Continued.last {rest : List Str} {tail : Str} (h : Continued rest tail) {lines : List Str}
    {before : Str} {u : UInt16} (hr : rest = lines ++ [before ++ [u]]) :
    ∃ front, tail = front ++ [u] := by
  induction h generalizing lines with
  | nil => simp at hr
  | @cons newline line tail rest hn ht ih =>
    cases lines with
    | nil =>
      simp only [List.nil_append, List.cons.injEq] at hr
      obtain ⟨rfl, rfl⟩ := hr
      cases ht
      exact ⟨newline ++ indent ++ before, by simp⟩
    | cons l lines =>
      simp only [List.cons_append, List.cons.injEq] at hr
      obtain ⟨front, rfl⟩ := ih hr.2
      exact ⟨newline ++ indent ++ line ++ front, by simp⟩

theorem marker_dash (heading : Heading) : ∃ rest, marker heading = 45 :: space :: rest := by
  cases heading <;> exact ⟨_, rfl⟩

theorem not_mem_marker (heading : Heading) : LF ∉ marker heading := by
  cases heading <;> decide

theorem IsBlock.shape {heading : Heading} {text block : Str} (h : IsBlock heading text block)
    (ht : trim text ≠ []) : BlockShape block := by
  obtain ⟨first, rest, tail, hsplit, hcont, rfl⟩ := h
  have hlines : ∀ line ∈ first :: rest, LF ∉ line := hsplit ▸ not_mem_splitLines
  refine ⟨⟨?_, ?_⟩, ?_⟩
  · intro before after he
    have hn : LF ∉ marker heading ++ first := by
      simp [not_mem_marker heading, hlines first (by simp)]
    obtain ⟨front, -, ht⟩ := before_of_not_mem he hn
    exact hcont.indented (fun line hm => hlines line (List.mem_cons_of_mem _ hm)) ht
  · -- The block ends as the trimmed text does.
    have hlast := trim_getLast ht
    have hlf : (trim text).getLast ht ≠ LF := by
      intro he
      rw [he] at hlast
      exact absurd hlast (by decide)
    have he : ([] : Str).reverse ++ trim text = (trim text).dropLast ++ [(trim text).getLast ht] := by
      simp [List.dropLast_append_getLast]
    obtain ⟨lines, before, hl⟩ := getLast_splitLinesAux hlf he
    rw [← splitLines, hsplit] at hl
    cases lines with
    | nil =>
      simp only [List.nil_append, List.cons.injEq] at hl
      obtain ⟨rfl, rfl⟩ := hl
      cases hcont
      exact ⟨marker heading ++ before, _, by simp, hlast⟩
    | cons l lines =>
      simp only [List.cons_append, List.cons.injEq] at hl
      obtain ⟨front, rfl⟩ := hcont.last hl.2
      exact ⟨marker heading ++ first ++ front, _, by simp, hlast⟩
  · obtain ⟨m, hm⟩ := marker_dash heading
    exact ⟨m ++ first ++ tail, by simp [hm]⟩

/-- The block that `appendSectionItem` writes. -/
theorem isBlock_bulletOf {heading : Heading} {newline text : Str}
    (hn : newline = [LF] ∨ newline = CRLF) :
    IsBlock heading text (bulletOf heading newline (trim text)) := by
  have key : ∀ (first : Str) (rest : List Str), ∃ tail, Continued rest tail ∧
      join (newline ++ indent) (first :: rest) = first ++ tail := by
    intro first rest
    induction rest generalizing first with
    | nil => exact ⟨[], .nil, by simp⟩
    | cons line rest ih =>
      obtain ⟨tail, hc, he⟩ := ih line
      refine ⟨_, .cons hn hc, ?_⟩
      simp only [join, List.intercalate_cons_cons] at he ⊢
      rw [he]
      simp
  cases hs : splitLines (trim text) with
  | nil => exact absurd hs (splitLinesAux_ne_nil _ _)
  | cons first rest =>
    obtain ⟨tail, hc, he⟩ := key first rest
    exact ⟨first, rest, tail, hs, hc, by simp [bulletOf, hs, ← he, indent]⟩

/-- A new Worklog record splits on line feeds alone, so a carriage return
before one stays, and with it makes the line's own CRLF. -/
theorem continued_split_LF (acc s : Str) : ∃ first rest tail,
    splitLinesAux acc s = first :: rest ∧ Continued rest tail ∧
      join ([LF] ++ indent) (splitAux [LF] 0 acc s) = first ++ tail := by
  fun_induction splitLinesAux acc s with
  | case1 acc => exact ⟨_, _, [], rfl, .nil, by simp [splitAux]⟩
  | case2 acc rest ih =>
    obtain ⟨first, lines, tail, hs, hc, he⟩ := ih
    refine ⟨acc.reverse, first :: lines, CRLF ++ indent ++ first ++ tail, by rw [hs],
      .cons (.inr rfl) hc, ?_⟩
    have hj : ([LF] ++ indent).intercalate _ = _ := he
    simp [splitAux, List.isPrefixOf, LF, CR, CRLF,
      List.intercalate_cons_of_ne_nil (splitAux_ne_nil _ _ _ _)] at hj ⊢
    rw [hj]
  | case3 acc rest ih =>
    obtain ⟨first, lines, tail, hs, hc, he⟩ := ih
    refine ⟨acc.reverse, first :: lines, [LF] ++ indent ++ first ++ tail, by rw [hs],
      .cons (.inl rfl) hc, ?_⟩
    have hj : ([LF] ++ indent).intercalate _ = _ := he
    simp [splitAux, List.isPrefixOf, LF,
      List.intercalate_cons_of_ne_nil (splitAux_ne_nil _ _ _ _)] at hj ⊢
    rw [hj]
  | case4 acc u rest _ hlf ih =>
    obtain ⟨first, lines, tail, hs, hc, he⟩ := ih
    have hu : (LF == u) = false := by simpa [LF] using fun h => hlf h.symm
    exact ⟨first, lines, tail, hs, hc, by simpa [splitAux, List.isPrefixOf, hu] using he⟩

-- -----
-- What an append does to the text
-- -----

def headOf (newline : Str) : List Str → Str
  | [] => []
  | lines => join newline lines ++ newline

def tailOf (newline : Str) : List Str → Str
  | [] => []
  | lines => newline ++ join newline lines

theorem join_around (newline : Str) (xs : List Str) (line : Str) (ys : List Str) :
    join newline (xs ++ line :: ys) = headOf newline xs ++ line ++ tailOf newline ys := by
  have hy : join newline (line :: ys) = line ++ tailOf newline ys := by
    cases ys <;> simp [tailOf, join]
  cases xs with
  | nil => simpa [headOf] using hy
  | cons x xs => rw [join_append (by simp) (by simp), hy]; simp [headOf]

theorem headOf_ends (newline : Str) (xs : List Str) :
    headOf newline xs = [] ∨ newline <:+ headOf newline xs := by
  cases xs
  · exact .inl rfl
  · exact .inr ⟨_, rfl⟩

theorem tailOf_starts (newline : Str) (ys : List Str) :
    tailOf newline ys = [] ∨ newline <+: tailOf newline ys := by
  cases ys
  · exact .inl rfl
  · exact .inr ⟨_, rfl⟩

/-- Lines an insertion may stand before: blank ones, then a level-two heading
or nothing. -/
def Trailing (lines : List Str) : Prop :=
  ∃ blanks rest, lines = blanks ++ rest ∧ (∀ line ∈ blanks, trim line = []) ∧
    (rest = [] ∨ ∃ line rest', rest = line :: rest' ∧ startsLevelTwo line = true)

/-- Where the placeholder begins that an append replaces, if it finds one. -/
def replacedAt (content : Str) (heading : Heading) : Option Nat :=
  let lines := split (newlineOf content) content
  match sectionBounds lines heading with
  | none => none
  | some bounds =>
    (placeholderIndex lines heading bounds).map fun index =>
      (headOf (newlineOf content) (lines.take index)).length

/-- The three ways an append changes a text; the position is where the one that
replaces a line does so. -/
inductive Edit (newline : Str) (heading : Heading) (bullet : Str) : Option Nat → Str → Str → Prop
  | addSection {content gap : Str}
      (hg : gap = newline ++ newline ∨ newline <:+ content ∧ gap = newline ∨
        content = [] ∧ gap = []) :
      Edit newline heading bullet none content
        (content ++ gap ++ lit "## " ++ heading.text ++ newline ++ newline ++ bullet ++ newline)
  | replacePlaceholder {before line after : Str} (hl : isPlaceholder heading line = true)
      (hb : before = [] ∨ newline <:+ before) (ha : after = [] ∨ newline <+: after) :
      Edit newline heading bullet (some before.length) (before ++ line ++ after)
        (before ++ bullet ++ after)
  | insertLine {before : Str} {rest : List Str} (hr : Trailing rest) :
      Edit newline heading bullet none (before ++ tailOf newline rest)
        (before ++ newline ++ bullet ++ tailOf newline rest)

theorem length_visibleFrom (fence : Option Fence) (lines : List Str) :
    (visibleFrom fence lines).length = lines.length := by
  induction lines generalizing fence with
  | nil => cases fence <;> rfl
  | cons line rest ih =>
    cases fence with
    | some f => simp [visibleFrom, ih]
    | none =>
      rw [visibleFrom]
      split <;> simp [ih]

theorem sectionBounds_spec {lines : List Str} {heading : Heading} {bounds : Bounds}
    (h : sectionBounds lines heading = some bounds) :
    0 < bounds.start ∧ bounds.start ≤ bounds.stop ∧ bounds.stop ≤ lines.length ∧
      (bounds.stop = lines.length ∨ startsLevelTwo (lines.getD bounds.stop []) = true) := by
  unfold sectionBounds at h
  simp only at h
  split at h
  · simp at h
  · rename_i headingIndex hh
    obtain ⟨hlt, -⟩ := List.findIdx?_eq_some_iff_getElem.mp hh
    have hlen : headingIndex < lines.length := by
      simpa [visibleMarkdownLines, length_visibleFrom] using hlt
    split at h
    · cases h
      exact ⟨Nat.succ_pos _, hlen, Nat.le_refl _, .inl rfl⟩
    · rename_i relativeEnd hr
      obtain ⟨hlt', hp, -⟩ := List.findIdx?_eq_some_iff_getElem.mp hr
      have hend : headingIndex + 1 + relativeEnd < lines.length := by
        simp [visibleMarkdownLines, length_visibleFrom] at hlt'
        omega
      cases h
      have hidx : headingIndex + relativeEnd + 1 = headingIndex + 1 + relativeEnd := by omega
      simp only [List.getElem_drop, List.getElem_zip, Bool.and_eq_true] at hp
      refine ⟨Nat.succ_pos _, by simp only; omega, by simp only; omega, .inr ?_⟩
      simp only [hidx]
      rw [List.getD_eq_getElem _ _ hend]
      exact hp.2

theorem placeholderIndex_spec {lines : List Str} {heading : Heading} {bounds : Bounds} {index : Nat}
    (h : placeholderIndex lines heading bounds = some index) :
    index < bounds.stop ∧ isPlaceholder heading (lines.getD index []) = true := by
  have hp := List.find?_some h
  have hm := List.mem_of_find?_eq_some h
  simp only [List.mem_range'_1] at hm
  simp only [Bool.and_eq_true] at hp
  exact ⟨by omega, hp.2⟩

theorem insertPosition_spec (lines : List Str) (start : Nat) {stop : Nat} (h : start ≤ stop) :
    start ≤ insertPosition lines start stop ∧ insertPosition lines start stop ≤ stop ∧
      ∀ j, insertPosition lines start stop ≤ j → j < stop → trim (lines.getD j []) = [] := by
  induction stop with
  | zero => exact ⟨h, Nat.le_refl _, fun j _ hj => absurd hj (Nat.not_lt_zero j)⟩
  | succ n ih =>
    rw [insertPosition]
    split
    · rename_i hc
      simp only [Bool.and_eq_true, decide_eq_true_eq, List.isEmpty_iff] at hc
      obtain ⟨h₁, h₂, h₃⟩ := ih (by omega)
      refine ⟨h₁, by omega, fun j hj hlt => ?_⟩
      by_cases he : j = n
      · exact he ▸ hc.2
      · exact h₃ j hj (by omega)
    · exact ⟨h, Nat.le_refl _, fun j hj hlt => by omega⟩

theorem trailing_of_bounds {lines : List Str} {heading : Heading} {bounds : Bounds}
    (h : sectionBounds lines heading = some bounds) :
    Trailing (lines.drop (insertPosition lines bounds.start bounds.stop)) := by
  obtain ⟨-, hle, hlen, hstop⟩ := sectionBounds_spec h
  obtain ⟨-, hpos, hblank⟩ := insertPosition_spec lines bounds.start hle
  generalize hk : insertPosition lines bounds.start bounds.stop = k at *
  refine ⟨(lines.drop k).take (bounds.stop - k), lines.drop bounds.stop, ?_, ?_, ?_⟩
  · have := List.take_append_drop (bounds.stop - k) (lines.drop k)
    rw [List.drop_drop, show k + (bounds.stop - k) = bounds.stop by omega] at this
    exact this.symm
  · intro line hm
    obtain ⟨j, hj, rfl⟩ := List.mem_iff_getElem.mp hm
    simp only [List.length_take, List.length_drop] at hj
    have := hblank (k + j) (by omega) (by omega)
    rw [List.getD_eq_getElem _ _ (by omega)] at this
    simpa using this
  · rcases hstop with he | hs
    · exact .inl (by simp [he])
    · rcases Nat.lt_or_ge bounds.stop lines.length with hlt | hge
      · rw [List.getD_eq_getElem _ _ hlt] at hs
        exact .inr ⟨_, _, List.drop_eq_getElem_cons hlt, hs⟩
      · exact .inl (by simp [hge])

theorem newlineOf_cases (content : Str) : newlineOf content = [LF] ∨ newlineOf content = CRLF := by
  unfold newlineOf
  split
  · exact .inr rfl
  · exact .inl rfl

theorem normalizeItemText_ok {text normalized : Str} (h : normalizeItemText text = .ok normalized) :
    normalized = trim text ∧ trim text ≠ [] := by
  unfold normalizeItemText at h
  simp only at h
  split at h
  · simp at h
  · rename_i hne
    cases h
    exact ⟨rfl, by simpa using hne⟩

theorem appendSectionItem_edit {content content' text : Str} {heading : Heading}
    (h : appendSectionItem content heading text = .ok content') :
    trim text ≠ [] ∧ Edit (newlineOf content) heading
      (bulletOf heading (newlineOf content) (trim text)) (replacedAt content heading)
        content content' := by
  cases hn : normalizeItemText text with
  | error e => simp [appendSectionItem, hn, bind, Except.bind] at h
  | ok normalized =>
    obtain ⟨rfl, hne⟩ := normalizeItemText_ok hn
    refine ⟨hne, ?_⟩
    have hnl : newlineOf content ≠ [] := by
      rcases newlineOf_cases content with he | he <;> simp [he, CRLF]
    unfold replacedAt
    generalize hN : newlineOf content = newline at *
    have hlines := join_split hnl content
    simp only [appendSectionItem, hn, hN, bind, Except.bind] at h
    split at h
    · -- No such section: the note keeps its text and gains one.
      rename_i hb
      cases h
      simp only [hb]
      refine .addSection ?_
      split
      · rename_i h0
        exact .inr (.inr ⟨List.eq_nil_of_length_eq_zero h0, rfl⟩)
      · split
        · rename_i _ hs
          exact .inr (.inl ⟨List.isSuffixOf_iff_suffix.mp hs, rfl⟩)
        · exact .inl rfl
    · rename_i bounds hb
      obtain ⟨hpos, hle, hlen, -⟩ := sectionBounds_spec hb
      split at h
      · -- A placeholder of the section gives way to the item.
        rename_i index hi
        obtain ⟨hlt, hp⟩ := placeholderIndex_spec hi
        have hidx : index < (split newline content).length := by omega
        rw [List.getD_eq_getElem _ _ hidx] at hp
        have hc : content = headOf newline ((split newline content).take index) ++
            (split newline content)[index] ++
              tailOf newline ((split newline content).drop (index + 1)) := by
          rw [← join_around, ← List.drop_eq_getElem_cons hidx, List.take_append_drop, hlines]
        cases h
        rw [List.set_eq_take_append_cons_drop, if_pos hidx, join_around]
        simp only [hb, hi, Option.map_some]
        conv => arg 5; rw [hc]
        exact .replacePlaceholder hp (headOf_ends ..) (tailOf_starts ..)
      · -- The item goes in behind the section's last line of text.
        rename_i hi
        obtain ⟨hge, hle', -⟩ := insertPosition_spec (split newline content) bounds.start hle
        have htr := trailing_of_bounds hb
        generalize hk : insertPosition (split newline content) bounds.start bounds.stop = k at *
        have hkl : k ≤ (split newline content).length := by omega
        have htake : (split newline content).take k ≠ [] := by
          intro h0
          rw [List.take_eq_nil_iff] at h0
          rcases h0 with h0 | h0
          · omega
          · exact split_ne_nil _ _ h0
        have hc : content = join newline ((split newline content).take k) ++
            tailOf newline ((split newline content).drop k) := by
          conv => lhs; rw [← hlines, ← List.take_append_drop k (split newline content)]
          cases hd : (split newline content).drop k with
          | nil => simp [tailOf]
          | cons line rest => rw [join_append htake (by simp)]; simp [tailOf]
        cases h
        rw [join_around]
        simp only [hb, hi, Option.map_none]
        conv => arg 5; rw [hc]
        have hhead : headOf newline ((split newline content).take k) =
            join newline ((split newline content).take k) ++ newline := by
          cases ht : (split newline content).take k with
          | nil => exact absurd ht htake
          | cons => rfl
        rw [hhead]
        exact .insertLine htr

-- -----
-- A new block stands in the note
-- -----

theorem atLineStart_of_newline {newline before : Str} (hn : newline = [LF] ∨ newline = CRLF)
    (h : before = [] ∨ newline <:+ before) : AtLineStart before := by
  rcases h with h | h
  · exact .inl h
  · refine .inr (List.IsSuffix.trans ?_ h)
    rcases hn with rfl | rfl
    · exact List.suffix_rfl
    · exact ⟨[CR], rfl⟩

theorem atLineEnd_of_newline {newline after : Str} (hn : newline = [LF] ∨ newline = CRLF)
    (h : after = [] ∨ newline <+: after) : AtLineEnd after := by
  rcases h with h | h
  · exact .inl h
  · rcases hn with rfl | rfl
    · exact .inr (.inl h)
    · exact .inr (.inr h)

theorem break_suffix {before after : Str} (h : [LF] <:+ before ++ after) (ha : after ≠ []) :
    [LF] <:+ after :=
  List.suffix_of_suffix_length_le h (List.suffix_append ..)
    (Nat.succ_le_of_lt (List.length_pos_iff.mpr ha))

theorem AtLineStart.behind {before after more : Str} (h : AtLineStart (before ++ after))
    (ha : after ≠ []) : AtLineStart (more ++ after) := by
  rcases h with h | h
  · exact absurd (List.append_eq_nil_iff.mp h).2 ha
  · exact .inr ((break_suffix h ha).trans (List.suffix_append ..))

theorem AtLineEnd.front {after more more' : Str} (h : AtLineEnd (after ++ more)) (ha : after ≠ [])
    (hcr : after = [CR] → [LF] <+: more → [LF] <+: more') : AtLineEnd (after ++ more') := by
  match after, ha with
  | u :: rest, _ =>
    rcases h with h | ⟨t, h⟩ | ⟨t, h⟩
    · simp at h
    · obtain ⟨rfl, -⟩ := List.cons.inj h
      exact .inr (.inl ⟨rest ++ more', rfl⟩)
    · obtain ⟨hu, h'⟩ := List.cons.inj h
      cases rest with
      | nil =>
        obtain ⟨t', ht⟩ := hcr (by rw [← hu]) ⟨t, h'⟩
        exact .inr (.inr ⟨t', by simp [← ht, ← hu, CRLF]⟩)
      | cons v rest =>
        obtain ⟨hv, -⟩ := List.cons.inj h'
        exact .inr (.inr ⟨rest ++ more', by simp [← hu, ← hv, CRLF]⟩)

theorem AtLineEnd.append {after more : Str} (h : AtLineEnd after) (hne : after ≠ []) :
    AtLineEnd (after ++ more) := by
  rcases h with h | h | h
  · exact absurd h hne
  · exact .inr (.inl (h.trans (List.prefix_append ..)))
  · exact .inr (.inr (h.trans (List.prefix_append ..)))

section
variable {newline bullet block content content' : Str} {heading : Heading} {replaced : Option Nat}

theorem Edit.holds_new (h : Edit newline heading bullet replaced content content')
    (hn : newline = [LF] ∨ newline = CRLF) : Holds content' bullet := by
  cases h with
  | addSection =>
    refine ⟨_, _, newline, rfl, rfl, ?_, atLineEnd_of_newline hn (.inr List.prefix_rfl)⟩
    exact atLineStart_of_newline hn (.inr (List.suffix_append ..))
  | replacePlaceholder _ hb ha =>
    exact ⟨_, _, _, rfl, rfl, atLineStart_of_newline hn hb, atLineEnd_of_newline hn ha⟩
  | insertLine =>
    refine ⟨_, _, _, rfl, rfl, ?_, atLineEnd_of_newline hn (tailOf_starts ..)⟩
    exact atLineStart_of_newline hn (.inr (List.suffix_append ..))

-- -----
-- The blocks that stood there still do
-- -----

/-- The first line of a block, with its carriage return if it has one. -/
def headLine (block : Str) : Str := block.takeWhile (· != LF)

theorem newline_head {after : Str} (hn : newline = [LF] ∨ newline = CRLF)
    (h : newline <+: after) : ∃ u rest, after = u :: rest ∧ (u = LF ∨ u = CR) := by
  obtain ⟨rest, rfl⟩ := h
  rcases hn with rfl | rfl
  · exact ⟨LF, rest, rfl, .inl rfl⟩
  · exact ⟨CR, LF :: rest, rfl, .inr rfl⟩

theorem BlockShape.not_after_newline (hb : BlockShape block) {after rest : Str}
    (hn : newline = [LF] ∨ newline = CRLF) (ha : after = [] ∨ newline <+: after)
    (he : after = block ++ rest) : False := by
  obtain ⟨tail, rfl⟩ := hb.dash
  rcases ha with rfl | ha
  · simp at he
  · obtain ⟨u, more, rfl, hu⟩ := newline_head hn ha
    have := (List.cons.inj he).1
    rcases hu with rfl | rfl <;> exact absurd this (by decide)

theorem BlockShape.ends (hb : BlockShape block) {front : Str} {u : UInt16}
    (h : block = front ++ [u]) : isSpace u = false := by
  obtain ⟨front', last, rfl, hl⟩ := hb.closed
  exact (List.cons.inj (List.append_inj' h rfl).2).1 ▸ hl

theorem spaces_to_break {spaces after : Str} (hs : ∀ u ∈ spaces, isSpace u = true)
    (hn : newline = [LF] ∨ newline = CRLF) (ha : after = [] ∨ newline <+: after) :
    ∀ u ∈ (spaces ++ after).takeWhile (· != LF), isSpace u = true := by
  induction spaces with
  | nil =>
    rcases ha with rfl | ⟨rest, rfl⟩
    · simp
    · rcases hn with rfl | rfl
      · simp
      · simp [CRLF, LF, CR, show isSpace 13 = true by decide]
  | cons v spaces ih =>
    rw [List.cons_append, List.takeWhile_cons]
    split
    · intro u hu
      rcases List.mem_cons.mp hu with rfl | hu
      · exact hs u (by simp)
      · exact ih (fun w hw => hs w (List.mem_cons_of_mem _ hw)) u hu
    · simp

theorem headLine_append (block : Str) {after : Str} (ha : AtLineEnd after) :
    headLine (block ++ after) = headLine block ∨
      headLine (block ++ after) = headLine block ++ [CR] := by
  unfold headLine
  rw [List.takeWhile_append]
  split
  · rename_i hlen
    have hblock : block.takeWhile (· != LF) = block :=
      (List.takeWhile_prefix _).eq_of_length hlen
    rcases ha with rfl | ⟨rest, rfl⟩ | ⟨rest, rfl⟩
    · exact .inl (by simp [hblock])
    · exact .inl (by simp [hblock])
    · refine .inr ?_
      have hcr : (CRLF ++ rest).takeWhile (· != LF) = [CR] := by simp [CRLF, CR, LF]
      rw [hcr, hblock]
  · exact .inl rfl

theorem not_mem_blankItem (heading : Heading) : LF ∉ blankItem heading := by
  cases heading <;> decide

theorem isPlaceholder_iff {line : Str} : isPlaceholder heading line = true ↔
    ∃ spaces, line = blankItem heading ++ spaces ∧ ∀ u ∈ spaces, isSpace u = true := by
  simp only [isPlaceholder, Bool.and_eq_true, List.isPrefixOf_iff_prefix, List.all_eq_true]
  constructor
  · rintro ⟨⟨spaces, rfl⟩, h⟩
    exact ⟨spaces, rfl, by simpa using h⟩
  · rintro ⟨spaces, rfl, h⟩
    exact ⟨List.prefix_append .., by simpa using h⟩

/-- A placeholder where a block starts is that block's first line. -/
theorem headLine_of_placeholder {line after rest : Str} (hl : isPlaceholder heading line = true)
    (hn : newline = [LF] ∨ newline = CRLF) (ha : after = [] ∨ newline <+: after)
    (hr : AtLineEnd rest) (he : line ++ after = block ++ rest) :
    isPlaceholder heading (headLine block) = true := by
  obtain ⟨spaces, rfl, hs⟩ := isPlaceholder_iff.mp hl
  have hsp := spaces_to_break hs hn ha
  generalize hsp' : (spaces ++ after).takeWhile (· != LF) = spaces' at hsp
  have hhead : headLine (block ++ rest) = blankItem heading ++ spaces' := by
    have hblank : ∀ u ∈ blankItem heading, (u != LF) = true := by
      intro u hu
      have : u ≠ LF := by
        rintro rfl
        exact not_mem_blankItem heading hu
      simpa using this
    rw [headLine, ← he, List.append_assoc, List.takeWhile_append_of_pos hblank, hsp']
  rcases headLine_append block hr with h | h
  · exact isPlaceholder_iff.mpr ⟨spaces', h.symm.trans hhead, hsp⟩
  · rw [h] at hhead
    rcases List.eq_nil_or_concat' spaces' with rfl | ⟨front, u, rfl⟩
    · -- The blank item itself does not end in a carriage return.
      have := congrArg List.getLast? hhead
      cases heading <;> simp [blankItem, lit, units, CR] at this
    · have : headLine block ++ [CR] = (blankItem heading ++ front) ++ [u] := by simpa using hhead
      refine isPlaceholder_iff.mpr ⟨front, (List.append_inj' this rfl).1, fun v hv => ?_⟩
      exact hsp v (by simp [hv])

/-- No line of a block but its first can begin where a dash stands. -/
theorem BlockShape.no_dash_inside (hb : BlockShape block) {front inner rest after : Str}
    (he : block = front ++ inner) (hf : [LF] <:+ front) (h : 45 :: rest = inner ++ after) :
    False := by
  obtain ⟨f, rfl⟩ := hf
  have hf' : block = f ++ LF :: inner := by simpa using he
  obtain ⟨more, hm⟩ := hb.indented hf'
  rw [← hm, indent_eq] at h
  exact absurd (List.cons.inj h).1 (by decide)

theorem dash_of_placeholder {line : Str} (hl : isPlaceholder heading line = true) :
    ∃ rest, line = 45 :: rest := by
  obtain ⟨spaces, rfl, -⟩ := isPlaceholder_iff.mp hl
  cases heading <;> exact ⟨_, rfl⟩

/-- A line break inside a placeholder line is followed by white space only. -/
theorem no_block_in_placeholder {line front inner : Str} (hl : isPlaceholder heading line = true)
    (he : line = front ++ inner) (hf : [LF] <:+ front) :
    ∀ u ∈ inner, isSpace u = true := by
  obtain ⟨spaces, rfl, hs⟩ := isPlaceholder_iff.mp hl
  obtain ⟨f, rfl⟩ := hf
  have he' : blankItem heading ++ spaces = f ++ LF :: inner := by simpa using he
  obtain ⟨rest, -, hsp⟩ := before_of_not_mem he' (not_mem_blankItem heading)
  exact fun u hu => hs u (by simp [hsp, hu])

theorem BlockShape.not_break (hb : BlockShape block) : ¬ [LF] <:+ block := by
  rintro ⟨front, hf⟩
  exact absurd (hb.ends hf.symm) (by decide)

theorem BlockShape.ne_nil (hb : BlockShape block) : block ≠ [] := by
  obtain ⟨tail, hd⟩ := hb.dash
  simp [hd]

theorem holds_replace {before line after : Str} (hb : BlockShape block)
    (hn : newline = [LF] ∨ newline = CRLF) (hl : isPlaceholder heading line = true)
    (hbefore : before = [] ∨ newline <:+ before) (hafter : after = [] ∨ newline <+: after)
    (hp : ¬ HoldsAt (before ++ line ++ after) block before.length)
    (hc : Holds (before ++ line ++ after) block) : Holds (before ++ bullet ++ after) block := by
  obtain ⟨-, pre, post, he, rfl, hpre, hpost⟩ := hc
  obtain ⟨dashed, hline⟩ := dash_of_placeholder hl
  have hstart : ∀ {rest : Str}, AtLineEnd rest → line ++ after ≠ block ++ rest := by
    intro rest hr hx
    exact hp ⟨before, rest, by simp [hx], rfl, atLineStart_of_newline hn hbefore, hr⟩
  rw [List.append_assoc, List.append_assoc] at he
  rcases List.append_eq_append_iff.mp he with ⟨a, rfl, hx⟩ | ⟨c, rfl, hx⟩
  · rcases List.append_eq_append_iff.mp hx with ⟨c, rfl, rfl⟩ | ⟨c, hac, hrest⟩
    · -- The block lies behind the replaced line.
      have hc : c ≠ [] := by
        rintro rfl
        exact hb.not_after_newline hn hafter rfl
      rw [← List.append_assoc] at hpre
      exact ⟨_, before ++ bullet ++ c, post, by simp, rfl, hpre.behind hc, hpost⟩
    · cases a with
      | nil => exact (hstart hpost hx).elim
      | cons u a =>
        -- The block would start behind a line break within the line.
        have hsp : ∀ v ∈ c, isSpace v = true :=
          no_block_in_placeholder hl hac (break_suffix (hpre.resolve_left (by simp)) (by simp))
        cases c with
        | nil => exact (hb.not_after_newline hn hafter (by simpa using hrest.symm)).elim
        | cons v c =>
          obtain ⟨tail, hd⟩ := hb.dash
          rw [hd] at hrest
          have hv : 45 = v := (List.cons.inj hrest).1
          exact absurd (hsp v (by simp)) (by rw [← hv]; decide)
  · have hbreak : ∀ {xs ys : Str}, pre ++ c = xs ++ ys → ys ≠ [] → [LF] <:+ ys := by
      intro xs ys hxy hys
      have := atLineStart_of_newline hn hbefore
      rw [hxy] at this
      exact break_suffix (this.resolve_left (by simp [hys])) hys
    rcases List.append_eq_append_iff.mp hx with ⟨d, rfl, rfl⟩ | ⟨d, hblock, hrest⟩
    · -- The block lies before the replaced line.
      refine ⟨_, pre, d ++ (bullet ++ after), by simp, rfl, hpre, hpost.front ?_ ?_⟩
      · rintro rfl
        exact hb.not_break (hbreak (congrArg (pre ++ ·) (List.append_nil block)) hb.ne_nil)
      · rintro - ⟨t, ht⟩
        rw [hline] at ht
        exact absurd (List.cons.inj ht).1 (by decide)
    · cases c with
      | nil => exact (hstart hpost (by simpa [hblock] using hrest)).elim
      | cons u c =>
        -- The line would start inside the block.
        rw [hline] at hrest
        exact (hb.no_dash_inside hblock (hbreak rfl (by simp)) hrest).elim

theorem newline_spaces (hn : newline = [LF] ∨ newline = CRLF) :
    ∀ u ∈ newline, isSpace u = true := by
  rcases hn with rfl | rfl <;> exact List.all_eq_true.mp (by decide)

theorem newline_ends (hn : newline = [LF] ∨ newline = CRLF) : ∃ front, newline = front ++ [LF] := by
  rcases hn with rfl | rfl
  · exact ⟨[], rfl⟩
  · exact ⟨[CR], rfl⟩

theorem Indented.not_spaces {text : Str} (hi : Indented text) :
    ¬ ∀ u ∈ text, isSpace u = true := by
  intro h
  obtain ⟨front, last, rfl, hl⟩ := hi.closed
  simp [h last (by simp)] at hl

theorem Indented.behind {text before after : Str} (hi : Indented text)
    (hn : newline = [LF] ∨ newline = CRLF) (he : text = before ++ newline ++ after) :
    Indented after ∧ indent <+: after := by
  obtain ⟨front, rfl⟩ := newline_ends hn
  have he' : text = (before ++ front) ++ LF :: after := by simpa using he
  obtain ⟨f, last, hf, hl⟩ := hi.closed
  have hne : LF ≠ last := by
    rintro rfl
    exact absurd hl (by decide)
  obtain ⟨front', hlast⟩ := ends_after (he'.symm.trans hf) hne
  refine ⟨⟨fun {b a} ha => ?_, front', last, hlast, hl⟩, hi.indented he'⟩
  have hb : text = (before ++ front ++ LF :: b) ++ LF :: a := by simp [he', ha]
  exact hi.indented hb

/-- Indented text does not reach into lines an insertion stands before: the
blank ones hold no text, and the heading is not indented. -/
theorem Indented.not_trailing {text rest : Str} (hi : Indented text) (hs : indent <+: text)
    (hn : newline = [LF] ∨ newline = CRLF) {lines : List Str} (hr : Trailing lines)
    (h : join newline lines = text ++ rest) : False := by
  obtain ⟨blanks, tail, rfl, hblank, htail⟩ := hr
  induction blanks generalizing text with
  | nil =>
    obtain ⟨more, hm⟩ := hs
    rw [indent_eq] at hm
    rcases htail with rfl | ⟨line, lines, rfl, hl⟩
    · simp [join, ← hm] at h
    · have hj := (join_around newline [] line lines).symm.trans h
      unfold startsLevelTwo at hl
      split at hl
      · simp [headOf, ← hm, space] at hj
      · simp [headOf, ← hm, space] at hj
      · simp at hl
  | cons line blanks ih =>
    have hspaces := trim_eq_nil (hblank line (by simp))
    have hrest : ∀ l ∈ blanks, trim l = [] := fun l hl => hblank l (List.mem_cons_of_mem _ hl)
    have hlong : ∀ {a : Str}, (∀ u ∈ a, isSpace u = true) → text ≠ line ++ a := by
      rintro a ha rfl
      exact hi.not_spaces (fun u hu => (List.mem_append.mp hu).elim (hspaces u) (ha u))
    have hj := (join_around newline [] line (blanks ++ tail)).symm.trans h
    simp only [headOf, List.nil_append] at hj
    rcases List.append_eq_append_iff.mp hj with ⟨a, hline, ht⟩ | ⟨a, hline, -⟩
    · cases hbt : blanks ++ tail with
      | nil =>
        rw [hbt] at ht
        have ha := List.append_eq_nil_iff.mp ht.symm
        exact hlong (by simp [ha.1]) hline
      | cons l ls =>
        rw [hbt, tailOf, ← hbt] at ht
        · rcases List.append_eq_append_iff.mp ht with ⟨b, rfl, hb⟩ | ⟨b, hb, -⟩
          · -- The text goes on behind this blank line's break.
            obtain ⟨hi', hs'⟩ := hi.behind hn (by simpa using hline)
            exact ih hi' hs' hb hrest
          · exact hlong (fun u hu => newline_spaces hn u (by simp [hb, hu])) hline
        · simp
    · exact hi.not_spaces (fun u hu => hspaces u (by simp [hline, hu]))

theorem BlockShape.not_within (hb : BlockShape block) (hn : newline = [LF] ∨ newline = CRLF)
    {lines : List Str} (hr : Trailing lines) {front inner rest : Str}
    (he : block = front ++ inner) (hi : inner ≠ []) (h : tailOf newline lines = inner ++ rest) :
    False := by
  cases hl : lines with
  | nil => simp [hl, tailOf, hi] at h
  | cons l ls =>
    rw [hl, tailOf, ← hl] at h
    · rcases List.append_eq_append_iff.mp h with ⟨a, rfl, hj⟩ | ⟨a, hnl, -⟩
      · obtain ⟨hi', hs'⟩ := hb.behind hn (show block = front ++ newline ++ a by simp [he])
        exact hi'.not_trailing hs' hn hr hj
      · obtain ⟨init, u, rfl⟩ := (List.eq_nil_or_concat' inner).resolve_left hi
        have hu := hb.ends (show block = (front ++ init) ++ [u] by simp [he])
        simp [newline_spaces hn u (by simp [hnl])] at hu
    · simp

theorem holds_insert {before : Str} {rest : List Str} (hb : BlockShape block)
    (hn : newline = [LF] ∨ newline = CRLF) (hr : Trailing rest)
    (hc : Holds (before ++ tailOf newline rest) block) :
    Holds (before ++ newline ++ bullet ++ tailOf newline rest) block := by
  obtain ⟨-, pre, post, he, rfl, hpre, hpost⟩ := hc
  have hafter := tailOf_starts newline rest
  have hmore : AtLineEnd (newline ++ bullet ++ tailOf newline rest) :=
    atLineEnd_of_newline hn (.inr ⟨bullet ++ tailOf newline rest, by simp⟩)
  rw [List.append_assoc] at he
  rcases List.append_eq_append_iff.mp he with ⟨a, rfl, hx⟩ | ⟨c, rfl, hx⟩
  · -- The block lies behind the inserted line.
    have ha : a ≠ [] := by
      rintro rfl
      exact hb.not_after_newline hn hafter hx
    exact ⟨_, before ++ newline ++ bullet ++ a, post, by simp [hx], rfl, hpre.behind ha, hpost⟩
  · rcases List.append_eq_append_iff.mp hx with ⟨d, rfl, rfl⟩ | ⟨d, rfl, hrest⟩
    · -- The block lies before the inserted line.
      refine ⟨_, pre, d ++ (newline ++ bullet ++ tailOf newline rest), by simp, rfl, hpre, ?_⟩
      by_cases hd : d = []
      · simpa [hd] using hmore
      · refine hpost.front hd fun _ hlf => ?_
        rcases hn with rfl | rfl
        · exact ⟨bullet ++ tailOf [LF] rest, by simp⟩
        · obtain ⟨t, ht⟩ := hlf
          rcases hafter with h0 | ⟨t', ht'⟩
          · simp [h0] at ht
          · rw [← ht'] at ht
            exact absurd (List.cons.inj ht).1 (by decide)
    · by_cases hd : d = []
      · exact ⟨_, pre, newline ++ bullet ++ tailOf newline rest, by simp [hd], rfl, hpre, hmore⟩
      · exact (hb.not_within hn hr rfl hd hrest).elim

/-- A block in a note outlasts an append, unless the append replaces the very
placeholder line the block starts with. -/
theorem Edit.holds_old (h : Edit newline heading bullet replaced content content')
    (hn : newline = [LF] ∨ newline = CRLF) (hb : BlockShape block)
    (hp : ∀ position, replaced = some position → ¬ HoldsAt content block position)
    (hc : Holds content block) : Holds content' block := by
  cases h with
  | @addSection content gap hg =>
    obtain ⟨-, pre, post, rfl, rfl, hpre, hpost⟩ := hc
    refine ⟨_, pre, post ++ (gap ++ lit "## " ++ heading.text ++ newline ++ newline ++ bullet ++
      newline), by simp, rfl, hpre, ?_⟩
    by_cases hne : post = []
    · subst hne
      rcases hg with rfl | ⟨hs, -⟩ | ⟨he, -⟩
      · exact atLineEnd_of_newline hn (.inr ⟨newline ++ lit "## " ++ heading.text ++ newline ++
          newline ++ bullet ++ newline, by simp⟩)
      · obtain ⟨front, rfl⟩ := newline_ends hn
        have hlf : [LF] <:+ pre ++ block :=
          (List.suffix_append ..).trans (by simpa using hs)
        exact (hb.not_break (break_suffix hlf hb.ne_nil)).elim
      · simp [hb.ne_nil] at he
    · exact hpost.append hne
  | replacePlaceholder hl hbefore hafter =>
    exact holds_replace hb hn hl hbefore hafter (hp _ rfl) hc
  | insertLine hr => exact holds_insert hb hn hr hc

/-- A line that is replaced was a placeholder. -/
theorem Edit.not_at {position : Nat} (h : Edit newline heading bullet (some position) content content')
    (hn : newline = [LF] ∨ newline = CRLF) (hp : isPlaceholder heading (headLine block) = false) :
    ¬ HoldsAt content block position := by
  generalize hr : some position = replaced at h
  cases h with
  | addSection => simp at hr
  | insertLine => simp at hr
  | @replacePlaceholder before line after hl _ hafter =>
    rintro ⟨pre, post, he, hlen, -, hpost⟩
    simp only [Option.some.injEq] at hr
    rw [List.append_assoc, List.append_assoc] at he
    have hx := (List.append_inj he (hr.symm.trans hlen.symm)).2
    simp [headLine_of_placeholder hl hn hafter hpost hx] at hp

end

-- -----
-- Items
-- -----

theorem not_placeholder {heading : Heading} {front rest : Str} {u : UInt16}
    (hf : (blankItem heading).length ≤ front.length) (hu : isSpace u = false) :
    isPlaceholder heading (front ++ u :: rest) = false := by
  rw [Bool.eq_false_iff]
  intro h
  obtain ⟨spaces, he, hs⟩ := isPlaceholder_iff.mp h
  obtain ⟨more, rfl⟩ : ∃ more, front = blankItem heading ++ more := by
    have := List.prefix_of_prefix_length_le ⟨spaces, he.symm⟩ ⟨u :: rest, rfl⟩ hf
    exact ⟨_, this.choose_spec.symm⟩
  have hsp : spaces = more ++ u :: rest := by simpa using he.symm
  simp [hs u (by simp [hsp])] at hu

theorem isPlaceholder_CR {heading : Heading} {line : Str}
    (h : isPlaceholder heading (line ++ [CR]) = true) : isPlaceholder heading line = true := by
  obtain ⟨spaces, he, hs⟩ := isPlaceholder_iff.mp h
  rcases List.eq_nil_or_concat' spaces with rfl | ⟨front, u, rfl⟩
  · have := congrArg List.getLast? he
    cases heading <;> simp [blankItem, lit, units, CR] at this
  · have he' : line ++ [CR] = (blankItem heading ++ front) ++ [u] := by simpa using he
    exact isPlaceholder_iff.mpr
      ⟨front, (List.append_inj' he' rfl).1, fun v hv => hs v (by simp [hv])⟩

theorem IsBlock.first_line {heading : Heading} {text block : Str} (h : IsBlock heading text block) :
    headLine block = marker heading ++ (splitLines (trim text)).headD [] ∨
      headLine block = marker heading ++ (splitLines (trim text)).headD [] ++ [CR] := by
  obtain ⟨first, rest, tail, hsplit, hcont, rfl⟩ := h
  have hlf : ∀ u ∈ marker heading ++ first, (u != LF) = true := by
    intro u hu
    have hn : LF ∉ marker heading ++ first := by
      have hl : ∀ line ∈ first :: rest, LF ∉ line := hsplit ▸ not_mem_splitLines
      simp [not_mem_marker heading, hl first (by simp)]
    have : u ≠ LF := by
      rintro rfl
      exact hn hu
    simpa using this
  simp only [hsplit, List.headD_cons, headLine, List.takeWhile_append_of_pos hlf]
  cases hcont with
  | nil => exact .inl (by simp)
  | cons hn _ =>
    rcases hn with rfl | rfl
    · exact .inl (by simp)
    · exact .inr (by simp [CRLF, CR, LF])

/-- Only a placeholder in Follow-ups can be an item's first line, and only
that of an item of another section. -/
theorem IsBlock.not_placeholder {heading heading' : Heading} {text block : Str}
    (h : IsBlock heading' text block) (ht : trim text ≠ [])
    (hp : ¬ (heading = .followUps ∧ heading' ≠ .followUps)) :
    isPlaceholder heading (headLine block) = false := by
  obtain ⟨u, rest, hu⟩ := List.exists_cons_of_ne_nil ht
  have hsp := trim_head hu
  obtain ⟨more, lines, hs⟩ := head_splitLines rest hsp
  have key : isPlaceholder heading (marker heading' ++ (splitLines (trim text)).headD []) = false := by
    rw [hu, hs]
    refine Notes.not_placeholder ?_ hsp
    cases heading <;> cases heading' <;> first | decide | exact absurd (by decide) hp
  rcases h.first_line with he | he
  · rw [he, key]
  · rw [he, Bool.eq_false_iff]
    intro hc
    rw [isPlaceholder_CR hc] at key
    exact absurd key (by decide)

theorem hasItem_append {content content' text : Str} {heading : Heading}
    (h : appendSectionItem content heading text = .ok content') : HasItem content' heading text :=
  have he := (appendSectionItem_edit h).2
  ⟨_, isBlock_bulletOf (newlineOf_cases content), he.holds_new (newlineOf_cases content)⟩

/-- The append would replace the first line of the item. -/
def Overwrites (content : Str) (heading heading' : Heading) (text' : Str) : Prop :=
  ∃ position block, replacedAt content heading = some position ∧ IsBlock heading' text' block ∧
    HoldsAt content block position

/-- An append leaves every item in the note, except that one to Follow-ups may
replace an item of another section that reads as an empty checkbox. -/
theorem HasItem.append {content content' text text' : Str} {heading heading' : Heading}
    (h : appendSectionItem content heading text = .ok content')
    (hi : HasItem content heading' text') (ht : trim text' ≠ [])
    (hp : heading = .followUps → heading' ≠ .followUps →
      ¬ Overwrites content heading heading' text') : HasItem content' heading' text' := by
  obtain ⟨block, hb, hh⟩ := hi
  have he := (appendSectionItem_edit h).2
  refine ⟨block, hb, he.holds_old (newlineOf_cases content) (hb.shape ht) (fun position hr ha => ?_) hh⟩
  by_cases hf : heading = .followUps ∧ heading' ≠ .followUps
  · exact hp hf.1 hf.2 ⟨position, block, hr, hb, ha⟩
  · rw [hr] at he
    exact he.not_at (newlineOf_cases content) (hb.not_placeholder ht hf) ha

theorem hasItem_newInboxNote {kind : InboxItemKind} {content text : Str}
    (h : newInboxNote kind text = .ok content) :
    HasItem content (if kind = .followup then .followUps else .notes) text :=
  hasItem_append h

theorem hasItem_newWorklogRecord {date content text : Str}
    (h : newWorklogRecord date text = .ok content) : HasItem content .worklog text := by
  simp only [newWorklogRecord, bind, Except.bind] at h
  split at h
  · simp at h
  · split at h
    · simp at h
    · rename_i isoDate _ _ normalized hn
      obtain ⟨rfl, hne⟩ := normalizeItemText_ok hn
      obtain ⟨first, rest, tail, hs, hc, hj⟩ := continued_split_LF [] (trim text)
      refine ⟨_, ⟨first, rest, tail, hs, hc, rfl⟩, ?_⟩
      have hj' : join (lit "\n  ") (split [LF] (trim text)) = first ++ tail := hj
      simp only [pure, Except.pure, Except.ok.injEq, hj'] at h
      refine ⟨_, lit "---\ntype: record\ndate: " ++ isoDate ++ lit "\n---\n# Record — " ++ date ++
        lit "\n\n## Worklog\n\n", [LF], ?_, rfl, ?_, .inr (.inl List.prefix_rfl)⟩
      · have hl : lit "\n\n## Worklog\n\n- " = lit "\n\n## Worklog\n\n" ++ marker .worklog := by decide
        have hlf : lit "\n" = [LF] := by decide
        rw [← h, hl, hlf]
        simp
      · refine .inr (List.IsSuffix.trans ?_ (List.suffix_append ..))
        exact ⟨lit "\n\n## Worklog\n", by decide⟩

end PiEnv.Notes
