import PiEnv.Notes.Reading
import PiEnv.Notes.SectionLines

/-!
# What the reader sees of an append

The writer splits a note by one line ending, the reader by either. Seen by the
reader, too, an append keeps the lines in front of the block and those behind
it, and drops at most a placeholder and blank lines that hung on to it.
-/

namespace PiEnv.Notes

open Js

/-- Where an append goes: the kept text in front, what is put between it and
the item, what the item replaces, and the kept text behind. -/
structure Spot where
  front : Str
  opening : Str
  gone : Str
  closing : Str
  back : Str

def gapOf (newline content : Str) : Str :=
  if content.length = 0 then []
  else if newline.isSuffixOf content then newline
  else newline ++ newline

def spotOf (content : Str) (heading : Heading) : Spot :=
  let newline := newlineOf content
  let lines := split newline content
  match sectionBounds lines heading with
  | none =>
    ⟨content, gapOf newline content ++ lit "## " ++ heading.text ++ newline ++ newline, [], newline,
      []⟩
  | some bounds =>
    match placeholderIndex lines heading bounds with
    | some index =>
      ⟨headOf newline (lines.take index), [], lines.getD index [], [],
        tailOf newline (lines.drop (index + 1))⟩
    | none =>
      let insertAt := insertPosition lines bounds.start bounds.stop
      ⟨join newline (lines.take insertAt), newline, [], [], tailOf newline (lines.drop insertAt)⟩

/-- The reader's lines in front of the item. -/
def linesBefore (content : Str) (heading : Heading) : List Str :=
  (splitLines ((spotOf content heading).front ++ (spotOf content heading).opening)).dropLast

/-- The lines behind a block that this text follows. -/
def linesOfTail (newline tail : Str) : List Str :=
  if tail = [] then [] else splitLines (tail.drop newline.length)

/-- The reader's lines behind the item. -/
def linesBehind (content : Str) (heading : Heading) : List Str :=
  linesOfTail (newlineOf content) ((spotOf content heading).closing ++ (spotOf content heading).back)

/-- The item's lines as the reader sees them. -/
def linesOfItem (content : Str) (heading : Heading) (text : Str) : List Str :=
  (blockLines heading text).map (seen (newlineOf content))

-- -----
-- Blank text
-- -----

theorem trim_of_spaces {s : Str} (h : ∀ u ∈ s, isSpace u = true) : trim s = [] := by
  have hd : s.dropWhile isSpace = [] := List.dropWhile_eq_nil_iff.mpr h
  simp [trim, trimEnd, hd]

/-- The first line begins with what was read, and no line has other units than
the text. -/
theorem splitLinesAux_cover (acc s : Str) :
    ∃ more rest, splitLinesAux acc s = (acc.reverse ++ more) :: rest ∧ more <+: s ∧
      ∀ line ∈ rest, ∀ u ∈ line, u ∈ s := by
  fun_induction splitLinesAux acc s with
  | case1 acc => exact ⟨[], [], by simp, by simp, by simp⟩
  | case2 acc rest ih =>
    obtain ⟨more, lines, he, hm, hl⟩ := ih
    refine ⟨[], splitLinesAux [] rest, by simp, by simp, fun line hline u hu => ?_⟩
    rw [he] at hline
    rcases List.mem_cons.mp hline with rfl | hline
    · simp [hm.subset hu]
    · simp [hl line hline u hu]
  | case3 acc rest ih =>
    obtain ⟨more, lines, he, hm, hl⟩ := ih
    refine ⟨[], splitLinesAux [] rest, by simp, by simp, fun line hline u hu => ?_⟩
    rw [he] at hline
    rcases List.mem_cons.mp hline with rfl | hline
    · simp [hm.subset hu]
    · simp [hl line hline u hu]
  | case4 acc v rest _ _ ih =>
    obtain ⟨more, lines, he, hm, hl⟩ := ih
    exact ⟨v :: more, lines, by simpa using he, List.cons_prefix_cons.mpr ⟨rfl, hm⟩,
      fun line hline u hu => List.mem_cons_of_mem _ (hl line hline u hu)⟩

/-- White space behind a beginning without line breaks. -/
theorem splitLines_spaces {start spaces : Str} (hb : start.all (fun u => u != 10 && u != 13) = true)
    (hs : ∀ u ∈ spaces, isSpace u = true) :
    ∃ more blanks, splitLines (start ++ spaces) = (start ++ more) :: blanks ∧
      (∀ u ∈ more, isSpace u = true) ∧ ∀ line ∈ blanks, trim line = [] := by
  obtain ⟨more, blanks, he, hm, hl⟩ := splitLinesAux_cover start.reverse spaces
  refine ⟨more, blanks, ?_, fun u hu => hs u (hm.subset hu),
    fun line hline => trim_of_spaces fun u hu => hs u (hl line hline u hu)⟩
  have happ := splitLinesAux_append hb [] spaces
  simp only [List.append_nil] at happ
  rw [splitLines, happ, he, List.reverse_reverse]

theorem endedLines_eq_dropLast {newline : Str} (hn : newline = [LF] ∨ newline = CRLF) (s : Str) :
    endedLines newline s = (splitLines (s ++ newline)).dropLast := by
  have h := splitLines_append hn s []
  rw [List.append_nil] at h
  have hnil : splitLines [] = [[]] := rfl
  rw [h, hnil, List.dropLast_concat]

theorem endedLines_spaces {newline start spaces : Str} (hn : newline = [LF] ∨ newline = CRLF)
    (hb : start.all (fun u => u != 10 && u != 13) = true) (hs : ∀ u ∈ spaces, isSpace u = true) :
    ∃ more blanks, endedLines newline (start ++ spaces) = (start ++ more) :: blanks ∧
      (∀ u ∈ more, isSpace u = true) ∧ ∀ line ∈ blanks, trim line = [] := by
  have hspaces : ∀ u ∈ spaces ++ newline, isSpace u = true := fun u hu =>
    (List.mem_append.mp hu).elim (hs u) (newline_spaces hn u)
  obtain ⟨more, blanks, he, hm, hl⟩ := splitLines_spaces hb hspaces
  have hd := endedLines_eq_dropLast hn (start ++ spaces)
  rw [List.append_assoc, he] at hd
  cases blanks with
  | nil => exact absurd hd (endedLines_ne_nil _ _)
  | cons line blanks =>
    exact ⟨more, (line :: blanks).dropLast, hd, hm, fun l h => hl l (List.mem_of_mem_dropLast h)⟩

/-- Lines an insertion may stand before are such lines for the reader, too. -/
theorem trailing_splitLines {newline : Str} (hn : newline = [LF] ∨ newline = CRLF) {lines : List Str}
    (h : Trailing lines) (hne : lines ≠ []) : Trailing (splitLines (join newline lines)) := by
  obtain ⟨blanks, rest, rfl, hblank, hrest⟩ := h
  induction blanks with
  | nil =>
    rcases hrest with rfl | ⟨line, rest, rfl, hl⟩
    · exact absurd rfl hne
    · obtain ⟨s, hs, hsp⟩ : ∃ s, join newline (line :: rest) = 35 :: 35 :: s ∧
          (s = [] ∨ ∃ u t, s = u :: t ∧ isSpace u = true) := by
        have hj := join_around newline [] line rest
        have htail : tailOf newline rest = [] ∨ ∃ u t, tailOf newline rest = u :: t ∧
            isSpace u = true := by
          rcases tailOf_starts newline rest with ht | ⟨t, ht⟩
          · exact .inl ht
          · obtain ⟨u, units, rfl⟩ : ∃ u units, newline = u :: units := by
              rcases hn with rfl | rfl <;> exact ⟨_, _, rfl⟩
            exact .inr ⟨u, units ++ t, ht.symm, newline_spaces hn u (by simp)⟩
        simp only [headOf, List.nil_append] at hj
        unfold startsLevelTwo at hl
        split at hl
        · exact ⟨_, hj, htail⟩
        · rename_i u t
          exact ⟨u :: t ++ tailOf newline rest, hj, .inr ⟨u, _, rfl, hl⟩⟩
        · simp at hl
      obtain ⟨more, lines, he, hm, -⟩ := splitLinesAux_cover [35, 35] s
      have hsplit : splitLines (35 :: 35 :: s) = (35 :: 35 :: more) :: lines := he
      rw [List.nil_append, hs, hsplit]
      refine ⟨[], _, rfl, by simp, .inr ⟨_, _, rfl, ?_⟩⟩
      cases more with
      | nil => rfl
      | cons v more =>
        rcases hsp with rfl | ⟨u, t, rfl, hu⟩
        · simp at hm
        · obtain ⟨rfl, -⟩ := List.cons_prefix_cons.mp hm
          exact hu
  | cons blank blanks ih =>
    have hspaces := trim_eq_nil (hblank blank (by simp))
    have hmore : ∀ line ∈ blanks, trim line = [] := fun l hl => hblank l (List.mem_cons_of_mem _ hl)
    have hstart : ([] : Str).all (fun u => u != 10 && u != 13) = true := rfl
    by_cases htail : blanks ++ rest = []
    · obtain ⟨more, lines, he, hm, hl⟩ := splitLines_spaces hstart hspaces
      rw [List.nil_append] at he
      rw [List.cons_append, htail, join, List.intercalate_singleton, he]
      exact ⟨_, [], (List.append_nil _).symm,
        List.forall_mem_cons.mpr ⟨trim_of_spaces (by simpa using hm), hl⟩, .inl rfl⟩
    · obtain ⟨more, lines, he, hm, hl⟩ := endedLines_spaces hn hstart hspaces
      obtain ⟨blanks', rest', he', hb', hr'⟩ := ih htail hmore
      rw [List.nil_append] at he
      rw [List.cons_append, join, List.intercalate_cons_of_ne_nil htail, splitLines_append hn, he, he']
      refine ⟨(([] ++ more) :: lines) ++ blanks', rest', by simp, fun line hline => ?_, hr'⟩
      rcases List.mem_append.mp hline with hline | hline
      · rcases List.mem_cons.mp hline with rfl | hline
        · exact trim_of_spaces (by simpa using hm)
        · exact hl line hline
      · exact hb' line hline

-- -----
-- In front of a block, and from it on
-- -----

/-- How the reader's lines of a note change where this text is kept in front:
those in front of the block and those behind it, and the ones the note had. -/
inductive LineEdit (heading : Heading) (newline kept : Str) : List Str → List Str → List Str → Prop
  | replaced {before behind blanks : List Str} {more : Str} (hm : ∀ u ∈ more, isSpace u = true)
      (hb : ∀ line ∈ blanks, trim line = []) :
      LineEdit heading newline kept before behind
        (before ++ (blankItem heading ++ more) :: (blanks ++ behind))
  | inserted {before behind : List Str} (ht : Trailing behind) :
      LineEdit heading newline kept before behind (before ++ behind)
  | ended : LineEdit heading newline kept (endedLines newline kept) [] (splitLines kept)
  | added {gap : List Str} (hg : gap = [] ∨ gap = [[]]) :
      LineEdit heading newline kept
        (endedLines newline kept ++ gap ++ [lit "## " ++ heading.text, []]) [[]] (splitLines kept)
  | started : LineEdit heading newline kept [lit "## " ++ heading.text, []] [[]] [[]]

section
variable {newline : Str}

theorem splitLines_head (hn : newline = [LF] ∨ newline = CRLF) {head : Str}
    (hh : head = [] ∨ newline <:+ head) (rest : Str) :
    splitLines (head ++ rest) = (splitLines head).dropLast ++ splitLines rest := by
  rcases hh with rfl | ⟨front, rfl⟩
  · rfl
  · rw [splitLines_append hn, endedLines_eq_dropLast hn]

theorem linesOfTail_append (t : Str) (hn : newline = [LF] ∨ newline = CRLF) :
    linesOfTail newline (newline ++ t) = splitLines t := by
  have hne : newline ++ t ≠ [] := by
    rcases hn with rfl | rfl <;> simp [CRLF]
  rw [linesOfTail, if_neg hne, List.drop_left]

theorem splitLines_tail (hn : newline = [LF] ∨ newline = CRLF) {s tail : Str}
    (ht : tail = [] ∨ newline <+: tail) :
    splitLines (s ++ tail) =
      (if tail = [] then splitLines s else endedLines newline s) ++ linesOfTail newline tail := by
  rcases ht with rfl | ⟨t, rfl⟩
  · simp [linesOfTail]
  · have hne : newline ++ t ≠ [] := by
      rcases hn with rfl | rfl <;> simp [CRLF]
    rw [← List.append_assoc, splitLines_append hn, if_neg hne, linesOfTail_append t hn]

/-- A block and what follows it. -/
theorem splitLines_block (hn : newline = [LF] ∨ newline = CRLF) {heading : Heading} {text tail : Str}
    (h : trim text ≠ []) (ht : tail = [] ∨ newline <+: tail) :
    splitLines (bulletOf heading newline (trim text) ++ tail) =
      (blockLines heading text).map (seen newline) ++ linesOfTail newline tail := by
  have hended : endedLines newline (bulletOf heading newline (trim text)) =
      (blockLines heading text).map (seen newline) := by
    rw [bulletOf_eq_join]
    exact endedLines_join hn (not_mem_blockLines heading text) (blockLines_ne_nil heading text)
  have hblock : IsBlock heading text (bulletOf heading newline (trim text)) := isBlock_bulletOf hn
  obtain ⟨front, last, hlast, hspace⟩ := (hblock.shape h).closed
  have hcr : (bulletOf heading newline (trim text)).getLast? ≠ some CR := by
    rw [hlast, List.getLast?_concat, Ne, Option.some.injEq]
    rintro rfl
    exact absurd hspace (by decide)
  rw [splitLines_tail hn ht, ← endedLines_eq_splitLines hn hcr, hended]
  simp

theorem endedLines_nil (hn : newline = [LF] ∨ newline = CRLF) : endedLines newline [] = [[]] := by
  rcases hn with rfl | rfl <;> rfl

theorem endedLines_header (hn : newline = [LF] ∨ newline = CRLF) (heading : Heading) :
    endedLines newline (lit "## " ++ heading.text ++ newline) = [lit "## " ++ heading.text, []] := by
  have hlf : LF ∉ lit "## " ++ heading.text := by cases heading <;> decide
  have hseen : seen newline (lit "## " ++ heading.text) = lit "## " ++ heading.text := by
    have hcr : chomp (lit "## " ++ heading.text) = lit "## " ++ heading.text := by
      cases heading <;> decide
    unfold seen
    split
    · exact hcr
    · rfl
  have h := endedLines_append hn (lit "## " ++ heading.text) []
  rw [List.append_nil, endedLines_of_not_mem hn hlf, endedLines_nil hn, hseen] at h
  exact h

/-- What a spot is for the reader. -/
structure SpotLines (heading : Heading) (newline content : Str) (spot : Spot) : Prop where
  head : spot.front ++ spot.opening = [] ∨ newline <:+ spot.front ++ spot.opening
  tail : spot.closing ++ spot.back = [] ∨ newline <+: spot.closing ++ spot.back
  edit : LineEdit heading newline spot.front (splitLines (spot.front ++ spot.opening)).dropLast
    (linesOfTail newline (spot.closing ++ spot.back)) (splitLines content)

theorem addedSpot_lines (hn : newline = [LF] ∨ newline = CRLF) (heading : Heading) (content : Str) :
    SpotLines heading newline content ⟨content, gapOf newline content ++ lit "## " ++ heading.text ++
      newline ++ newline, [], newline, []⟩ := by
  have hbefore : (splitLines (content ++ (gapOf newline content ++ lit "## " ++ heading.text ++
      newline ++ newline))).dropLast = endedLines newline (content ++ gapOf newline content ++
        (lit "## " ++ heading.text ++ newline)) := by
    rw [endedLines_eq_dropLast hn]
    simp
  have htail : linesOfTail newline (newline ++ []) = [[]] := by
    rw [linesOfTail_append [] hn]
    rfl
  refine ⟨.inr ⟨content ++ (gapOf newline content ++ lit "## " ++ heading.text ++ newline), by simp⟩,
    .inr ⟨[], by simp⟩, ?_⟩
  simp only
  rw [hbefore, htail, gapOf]
  split
  · rename_i hlen
    obtain rfl := List.eq_nil_of_length_eq_zero hlen
    rw [List.nil_append, List.nil_append, endedLines_header hn]
    exact .started
  · split
    · rw [endedLines_append hn, endedLines_header hn]
      have hadded : LineEdit heading newline content (endedLines newline content ++ [] ++
          [lit "## " ++ heading.text, []]) [[]] (splitLines content) := .added (.inl rfl)
      simpa using hadded
    · have hmid := endedLines_append hn [] (lit "## " ++ heading.text ++ newline)
      rw [endedLines_nil hn, endedLines_header hn, List.nil_append] at hmid
      rw [← List.append_assoc content, List.append_assoc (content ++ newline), endedLines_append hn, hmid]
      have hadded : LineEdit heading newline content (endedLines newline content ++ [[]] ++
          [lit "## " ++ heading.text, []]) [[]] (splitLines content) := .added (.inr rfl)
      simpa using hadded

theorem placeholderSpot_lines (hn : newline = [LF] ∨ newline = CRLF) {heading : Heading}
    {before line after content : Str} (hc : content = before ++ line ++ after)
    (hl : isPlaceholder heading line = true) (hb : before = [] ∨ newline <:+ before)
    (ha : after = [] ∨ newline <+: after) :
    SpotLines heading newline content ⟨before, [], line, [], after⟩ := by
  have hstart : (blankItem heading).all (fun u => u != 10 && u != 13) = true := by
    cases heading <;> decide
  obtain ⟨spaces, rfl, hs⟩ := isPlaceholder_iff.mp hl
  refine ⟨by simpa using hb, ha, ?_⟩
  simp only [List.append_nil, List.nil_append]
  rw [hc, List.append_assoc, splitLines_head hn hb, splitLines_tail hn ha]
  split
  · obtain ⟨more, blanks, he, hm, hbl⟩ := splitLines_spaces hstart hs
    rw [he]
    exact .replaced hm hbl
  · obtain ⟨more, blanks, he, hm, hbl⟩ := endedLines_spaces hn hstart hs
    rw [he]
    exact .replaced hm hbl

theorem insertSpot_lines (hn : newline = [LF] ∨ newline = CRLF) (heading : Heading) {content : Str}
    {front back : List Str} (hc : content = join newline front ++ tailOf newline back)
    (ht : Trailing back) :
    SpotLines heading newline content ⟨join newline front, newline, [], [], tailOf newline back⟩ := by
  refine ⟨.inr (List.suffix_append ..), tailOf_starts newline back, ?_⟩
  simp only [List.nil_append]
  rw [← endedLines_eq_dropLast hn, hc]
  cases back with
  | nil =>
    simp only [tailOf, List.append_nil]
    exact .ended
  | cons line rest =>
    rw [tailOf, ← List.append_assoc, splitLines_append hn, linesOfTail_append _ hn]
    · exact .inserted (trailing_splitLines hn ht (by simp))
    · simp
end

/-- The text before a line boundary and from it on. -/
theorem join_take_drop {newline content : Str} {lines : List Str} {k : Nat}
    (h : join newline lines = content) (hk : lines.take k ≠ []) :
    content = join newline (lines.take k) ++ tailOf newline (lines.drop k) := by
  rw [← List.take_append_drop k lines] at h
  cases hd : lines.drop k with
  | nil => simpa [hd, tailOf] using h.symm
  | cons line rest =>
    rw [hd, join_append hk (by simp)] at h
    simpa [tailOf] using h.symm

theorem spotOf_lines (content : Str) (heading : Heading) :
    SpotLines heading (newlineOf content) content (spotOf content heading) := by
  have hn := newlineOf_cases content
  have hlines := join_split (newlineOf_ne_nil content) content
  unfold spotOf
  simp only
  split
  · exact addedSpot_lines hn heading content
  · rename_i bounds hb
    obtain ⟨hpos, hle, hlen, -⟩ := sectionBounds_spec hb
    split
    · rename_i index hi
      obtain ⟨hlt, hp⟩ := placeholderIndex_spec hi
      have hidx : index < (split (newlineOf content) content).length := by omega
      refine placeholderSpot_lines hn ?_ hp (headOf_ends ..) (tailOf_starts ..)
      rw [List.getD_eq_getElem _ _ hidx, ← join_around, ← List.drop_eq_getElem_cons hidx,
        List.take_append_drop, hlines]
    · obtain ⟨hge, hle', -⟩ :=
        insertPosition_spec (split (newlineOf content) content) bounds.start hle
      refine insertSpot_lines hn heading ?_ (trailing_of_bounds hb)
      have htake : (split (newlineOf content) content).take
          (insertPosition (split (newlineOf content) content) bounds.start bounds.stop) ≠ [] := by
        rw [Ne, List.take_eq_nil_iff, not_or]
        exact ⟨by omega, split_ne_nil _ _⟩
      exact join_take_drop hlines htake

/-- The text of a note that gained an item. -/
theorem appendSectionItem_spot {content result text : Str} {heading : Heading}
    (h : appendSectionItem content heading text = .ok result) :
    trim text ≠ [] ∧ result = (spotOf content heading).front ++ (spotOf content heading).opening ++
      (bulletOf heading (newlineOf content) (trim text) ++
        ((spotOf content heading).closing ++ (spotOf content heading).back)) := by
  cases hn : normalizeItemText text with
  | error e => simp [appendSectionItem, hn, bind, Except.bind] at h
  | ok normalized =>
    obtain ⟨rfl, hne⟩ := normalizeItemText_ok hn
    refine ⟨hne, ?_⟩
    simp only [appendSectionItem, hn, bind, Except.bind] at h
    unfold spotOf
    simp only
    split at h
    · rename_i hb
      cases h
      simp [hb, gapOf]
    · rename_i bounds hb
      obtain ⟨hpos, hle, hlen, -⟩ := sectionBounds_spec hb
      split at h
      · rename_i index hi
        obtain ⟨hlt, -⟩ := placeholderIndex_spec hi
        have hidx : index < (split (newlineOf content) content).length := by omega
        cases h
        simp [hb, hi, List.set_eq_take_append_cons_drop, hidx, join_around]
      · rename_i hi
        obtain ⟨hge, -, -⟩ :=
          insertPosition_spec (split (newlineOf content) content) bounds.start hle
        have htake : (split (newlineOf content) content).take
            (insertPosition (split (newlineOf content) content) bounds.start bounds.stop) ≠ [] := by
          rw [Ne, List.take_eq_nil_iff, not_or]
          exact ⟨by omega, split_ne_nil _ _⟩
        cases h
        simp only [hb, hi, join_around, List.nil_append, List.append_assoc]
        cases ht : (split (newlineOf content) content).take
            (insertPosition (split (newlineOf content) content) bounds.start bounds.stop) with
        | nil => exact absurd ht htake
        | cons line rest => simp [headOf]

/-- The reader's lines of a note that gained an item. -/
theorem appendSectionItem_lines {content result text : Str} {heading : Heading}
    (h : appendSectionItem content heading text = .ok result) :
    splitLines result = linesBefore content heading ++
        (linesOfItem content heading text ++ linesBehind content heading) ∧
      LineEdit heading (newlineOf content) (spotOf content heading).front
        (linesBefore content heading) (linesBehind content heading) (splitLines content) := by
  obtain ⟨hne, rfl⟩ := appendSectionItem_spot h
  have hs := spotOf_lines content heading
  have hn := newlineOf_cases content
  refine ⟨?_, hs.edit⟩
  rw [splitLines_head hn hs.head, splitLines_block hn hne hs.tail]
  rfl

end PiEnv.Notes
