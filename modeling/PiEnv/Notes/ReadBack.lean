import PiEnv.Notes.ReaderLines

/-!
# An appended item is read back

The extractor gives the appended item back when the reader comes to its line
inside the section and outside every code fence, and the line reads as a bullet
of the section: its text holds no line terminator and, where tasks are not
meant, no checkbox.
-/

namespace PiEnv.Notes

open Js Reading

/-- The kind of the items of a section; a Worklog item has none. -/
def kindOf : Heading → Option InboxItemKind
  | .followUps => some .followup
  | .notes => some .note
  | .worklog => none

/-- What the extractor of a section returns, each item with its kind. -/
def returned (heading : Heading) (content date sourcePath : Str) :
    List (WorklogItem × Option InboxItemKind) :=
  match heading with
  | .worklog => (extractWorklogItems content date sourcePath).map fun item => (item, none)
  | _ => (extractInboxItems content date sourcePath).map fun item =>
      (item.toWorklogItem, some item.kind)

/-- The extractor returns at this position an item that it did not return
before, of the section's kind, whose text starts with `start`. -/
def ReadBack (heading : Heading) (content result date sourcePath : Str) (position : Nat)
    (start : Str) : Prop :=
  ∃ item, (item, kindOf heading) ∈ returned heading result date sourcePath ∧
    (item, kindOf heading) ∉ returned heading content date sourcePath ∧
    item.position = position ∧ start <+: item.text

/-- The line at which the item goes into the note, counted from one. -/
def itemPosition (content : Str) (heading : Heading) : Nat := (linesBefore content heading).length + 1

/-- In front of the item the reader is inside the section and in no fence. -/
def Receives (content : Str) (heading : Heading) : Prop :=
  after heading start (linesBefore content heading) = ⟨none, .inside⟩

instance (content : Str) (heading : Heading) : Decidable (Receives content heading) :=
  inferInstanceAs (Decidable (_ = _))

/-- The line reads as the text of a bullet of the section. -/
def Plain (heading : Heading) (line : Str) : Prop :=
  line.any isLineTerminator = false ∧
    (heading ≠ .followUps → matchFollowup (lit "- " ++ line) = none)

instance (heading : Heading) (line : Str) : Decidable (Plain heading line) :=
  inferInstanceAs (Decidable (_ ∧ _))

def firstLine (text : Str) : Str := (splitLines (trim text)).headD []

-- -----
-- What a bullet reads as
-- -----

theorem mem_returned {heading : Heading} {content date sourcePath : Str} {item : WorklogItem} :
    (item, kindOf heading) ∈ returned heading content date sourcePath ↔
      ∃ parsed ∈ extractListItems content heading (kindOf heading) date sourcePath,
        parsed.item = item := by
  cases heading with
  | worklog => simp [returned, extractWorklogItems, kindOf]
  | followUps =>
    simp only [returned, kindOf, extractInboxItems, List.mem_map, List.mem_mergeSort,
      List.mem_append, inboxItemsOf]
    constructor
    · rintro ⟨_, ⟨parsed, hp, rfl⟩ | ⟨parsed, hp, rfl⟩, he⟩
      · exact ⟨parsed, hp, (Prod.mk.inj he).1⟩
      · simp at he
    · rintro ⟨parsed, hp, rfl⟩
      exact ⟨_, .inl ⟨parsed, hp, rfl⟩, rfl⟩
  | notes =>
    simp only [returned, kindOf, extractInboxItems, List.mem_map, List.mem_mergeSort,
      List.mem_append, inboxItemsOf]
    constructor
    · rintro ⟨_, ⟨parsed, hp, rfl⟩ | ⟨parsed, hp, rfl⟩, he⟩
      · simp at he
      · exact ⟨parsed, hp, (Prod.mk.inj he).1⟩
    · rintro ⟨parsed, hp, rfl⟩
      exact ⟨_, .inr ⟨parsed, hp, rfl⟩, rfl⟩

theorem afterSpace_text {u : UInt16} {line : Str} (hu : isSpace u = false) :
    afterSpace (space :: u :: line) =
      if (u :: line).any isLineTerminator = true then none else some (u :: line) := by
  have hs : isSpace space = true := by decide
  have hd : (space :: u :: line).dropWhile isSpace = u :: line := by
    simp [hs, hu]
  simp only [afterSpace, hd, hs, Bool.true_and, Bool.not_eq_true']
  cases (u :: line).any isLineTerminator <;> rfl

theorem trim_text {u : UInt16} {line : Str} (hu : isSpace u = false) :
    trim (u :: line) = trimEnd (u :: line) ∧ trimEnd (u :: line) ≠ [] := by
  constructor
  · simp [trim, hu]
  · intro h
    have hall := List.rdropWhile_eq_nil_iff.mp h
    simp [hall u (by simp)] at hu

/-- The first line of an appended block, read back. -/
theorem parse_marked (heading : Heading) {u : UInt16} {line : Str} (hu : isSpace u = false) :
    ∃ checked, parseListItem (marker heading ++ u :: line) (kindOf heading) =
      if Plain heading (u :: line) then some (trimEnd (u :: line), checked) else none := by
  obtain ⟨htrim, hne⟩ := @trim_text u line hu
  have hafter := @afterSpace_text u line hu
  have hbullet : ∀ kind : Option InboxItemKind, kind ≠ some .followup →
      parseListItem (lit "- " ++ u :: line) kind =
        if (u :: line).any isLineTerminator = false ∧ matchFollowup (lit "- " ++ u :: line) = none
        then some (trimEnd (u :: line), none) else none := by
    intro kind hk
    have hlit : lit "- " = [45, 32] := by decide
    have hmatch : matchBullet (lit "- " ++ u :: line) = afterSpace (space :: u :: line) := by
      rw [hlit]
      rfl
    simp only [parseListItem, if_neg hk, hmatch, hafter]
    by_cases hf : matchFollowup (lit "- " ++ u :: line) = none
    · by_cases ht : (u :: line).any isLineTerminator = true
      · simp only [hf, ht]
        rfl
      · simp only [hf, ht, Bool.not_eq_true] at ht ⊢
        simp [htrim, hne]
    · simp [hf]
  cases heading with
  | followUps =>
    have hlit : lit "- [ ] " = [45, 32, 91, 32, 93, 32] := by decide
    have hmatch : matchFollowup (marker .followUps ++ u :: line) =
        (afterSpace (space :: u :: line)).map fun text => (32, some text) := by
      rw [marker, hlit]
      rfl
    refine ⟨some false, ?_⟩
    simp only [parseListItem, kindOf, hmatch, hafter, ↓reduceIte]
    by_cases ht : (u :: line).any isLineTerminator = true
    · have hp : ¬ Plain .followUps (u :: line) := fun h => by simp [h.1] at ht
      rw [if_neg hp, if_pos ht]
      rfl
    · have hp : Plain .followUps (u :: line) := ⟨by simpa using ht, fun h => absurd rfl h⟩
      rw [if_pos hp, if_neg ht]
      simp [htrim, hne]
  | notes =>
    refine ⟨none, ?_⟩
    rw [marker, hbullet _ (by decide)]
    · simp [Plain]
    · simp
  | worklog =>
    refine ⟨none, ?_⟩
    rw [marker, hbullet _ (by decide)]
    · simp [Plain]
    · simp

/-- A line that does not start with a dash is no item. -/
theorem parse_not_dash {line : Str} (h : ∀ rest, line ≠ 45 :: rest) (kind : Option InboxItemKind) :
    parseListItem line kind = none := by
  have hf : matchFollowup line = none := by
    unfold matchFollowup
    split
    · exact absurd rfl (h _)
    · rfl
  have hb : matchBullet line = none := by
    unfold matchBullet
    split
    · exact absurd rfl (h _)
    · rfl
  simp only [parseListItem, hf, hb]
  have htrim : trim [] = [] := rfl
  split <;> simp [htrim]

theorem afterSpace_spaces {spaces : Str} (h : ∀ u ∈ spaces, isSpace u = true) :
    afterSpace spaces = none ∨ afterSpace spaces = some [] := by
  cases spaces with
  | nil => exact .inl rfl
  | cons u spaces =>
    have hd : (u :: spaces).dropWhile isSpace = [] := List.dropWhile_eq_nil_iff.mpr h
    refine .inr ?_
    simp only [afterSpace, hd, h u (by simp)]
    rfl

/-- A placeholder is no item of any kind. -/
theorem parse_placeholder {heading : Heading} {more : Str} (h : ∀ u ∈ more, isSpace u = true)
    (kind : Option InboxItemKind) : parseListItem (blankItem heading ++ more) kind = none := by
  have htrim : trim [] = [] := rfl
  have hbullet : parseListItem (lit "-" ++ more) kind = none := by
    have hlit : lit "-" = [45] := by decide
    have hf : matchFollowup (lit "-" ++ more) = none := by
      rw [hlit]
      unfold matchFollowup
      split
      · rename_i mark rest he
        have htail : more = 32 :: 91 :: mark :: 93 :: rest := (List.cons.inj he).2
        exact absurd (h 91 (by simp [htail])) (by decide)
      · rfl
    have hb : matchBullet (lit "-" ++ more) = afterSpace more := by
      rw [hlit]
      rfl
    simp only [parseListItem, hf, hb]
    rcases afterSpace_spaces h with ha | ha <;> simp [ha, htrim]
  cases heading with
  | notes => exact hbullet
  | worklog => exact hbullet
  | followUps =>
    have hlit : lit "- [ ]" = [45, 32, 91, 32, 93] := by decide
    have hf : ∃ text, matchFollowup (lit "- [ ]" ++ more) = some (32, text) ∧
        trim (text.getD []) = [] := by
      rw [hlit]
      cases more with
      | nil => exact ⟨none, rfl, htrim⟩
      | cons u more =>
        have hd : (u :: more).dropWhile isSpace = [] := List.dropWhile_eq_nil_iff.mpr h
        have ha : afterSpace (u :: more) = some [] := by
          simp only [afterSpace, hd, h u (by simp)]
          rfl
        refine ⟨some [], ?_, htrim⟩
        simp [matchFollowup, ha]
    obtain ⟨text, hm, ht⟩ := hf
    simp [parseListItem, blankItem, hm, ht]

-- -----
-- The item's line
-- -----

theorem length_endedLines {newline : Str} (hn : newline = [LF] ∨ newline = CRLF) (s : Str) :
    (endedLines newline s).length = (splitLines s).length := by
  have hl : ∀ lines : List Str, (chompEnded lines).length = lines.length := by
    intro lines
    induction lines with
    | nil => rfl
    | cons line rest ih =>
      cases rest with
      | nil => rfl
      | cons next rest => simpa [chompEnded] using ih
  rcases hn with rfl | rfl
  · rw [splitLines_eq, hl]
    simp [endedLines]
  · rw [CRLF, endedLines_CRLF]

/-- The note had no item where the new one goes. -/
theorem LineEdit.old_line {heading : Heading} {newline : Str} (hn : newline = [LF] ∨ newline = CRLF)
    {kept : Str} {before behind old : List Str} (h : LineEdit heading newline kept before behind old)
    {front back : List Str} {line : Str} (he : old = front ++ line :: back)
    (hlen : front.length = before.length) (kind : Option InboxItemKind) :
    parseListItem line kind = none := by
  have hshort : ∀ {lines : List Str}, old.length = lines.length → ¬ lines.length ≤ before.length := by
    intro lines hold hle
    have := congrArg List.length he
    simp only [List.length_append, List.length_cons] at this
    omega
  cases h with
  | @replaced before behind blanks more hm hb =>
    obtain ⟨-, htail⟩ := List.append_inj he hlen.symm
    obtain ⟨rfl, -⟩ := List.cons.inj htail
    exact parse_placeholder hm kind
  | @inserted before behind ht =>
    obtain ⟨-, htail⟩ := List.append_inj he hlen.symm
    refine parse_not_dash ?_ kind
    rintro rest rfl
    obtain ⟨blanks, rest', rfl, hblank, hrest⟩ := ht
    cases blanks with
    | nil =>
      rcases hrest with rfl | ⟨first, more, rfl, hl⟩
      · simp at htail
      · obtain ⟨rfl, -⟩ := List.cons.inj htail
        simp [startsLevelTwo] at hl
    | cons blank blanks =>
      obtain ⟨rfl, -⟩ := List.cons.inj htail
      have hspaces := trim_eq_nil (hblank (45 :: rest) (by simp))
      exact absurd (hspaces 45 (by simp)) (by decide)
  | ended => exact absurd (length_endedLines hn kept).ge (hshort rfl)
  | added hg =>
    refine absurd ?_ (hshort rfl)
    have := length_endedLines hn kept
    simp only [List.length_append, List.length_cons]
    omega
  | started => exact absurd (by simp) (hshort rfl)

theorem openingFence_dash (line : Str) : openingFence (45 :: line) = none := by
  simp [openingFence, fenceRun, space, backtick, tilde]

theorem seen_append {newline start line : Str} (h : line ≠ []) :
    seen newline (start ++ line) = start ++ seen newline line := by
  unfold seen chomp
  obtain ⟨front, last, rfl⟩ := (List.eq_nil_or_concat' line).resolve_left h
  split
  · simp only [← List.append_assoc, List.getLast?_concat, List.dropLast_concat]
    split
    · rfl
    · exact List.append_assoc ..
  · rfl

theorem seen_prefix (newline line : Str) : seen newline line <+: line := by
  unfold seen chomp
  split
  · split
    · exact List.dropLast_prefix line
    · exact List.prefix_rfl
  · exact List.prefix_rfl

theorem trimEnd_seen (newline line : Str) : trimEnd (seen newline line) = trimEnd line := by
  unfold seen chomp
  split
  · split
    · rename_i hcr
      obtain ⟨front, last, rfl⟩ := (List.eq_nil_or_concat' line).resolve_left (by rintro rfl; simp at hcr)
      have hlast : last = CR := by simpa using hcr
      have hspace : isSpace CR = true := by decide
      rw [hlast, List.dropLast_concat, trimEnd, trimEnd, List.rdropWhile_concat_pos _ _ _ hspace]
    · rfl
  · rfl

theorem firstLine_head {text : Str} (h : trim text ≠ []) :
    ∃ u more, firstLine text = u :: more ∧ isSpace u = false := by
  obtain ⟨u, s, hu⟩ := List.exists_cons_of_ne_nil h
  have hsp := trim_head hu
  obtain ⟨more, rest, he⟩ := head_splitLines s hsp
  exact ⟨u, more, by rw [firstLine, hu, he]; rfl, hsp⟩

theorem linesOfItem_cons (content : Str) (heading : Heading) {text : Str} (h : trim text ≠ []) :
    ∃ rest, linesOfItem content heading text =
      (marker heading ++ seen (newlineOf content) (firstLine text)) :: rest := by
  obtain ⟨u, more, hfirst, -⟩ := firstLine_head h
  have hne : firstLine text ≠ [] := by simp [hfirst]
  unfold linesOfItem blockLines
  cases hs : splitLines (trim text) with
  | nil => exact absurd hs (splitLinesAux_ne_nil _ _)
  | cons first rest =>
    have hf : firstLine text = first := by rw [firstLine, hs]; rfl
    exact ⟨_, by rw [List.map_cons, ← hf, seen_append hne]⟩

/-- The first line as it is seen starts as the first line does. -/
theorem seen_firstLine (newline : Str) {text : Str} (h : trim text ≠ []) :
    ∃ u more, seen newline (firstLine text) = u :: more ∧ isSpace u = false := by
  obtain ⟨u, more, hfirst, hu⟩ := firstLine_head h
  have hpre := seen_prefix newline (firstLine text)
  have htrim := trimEnd_seen newline (firstLine text)
  cases hs : seen newline (firstLine text) with
  | nil =>
    rw [hs, hfirst] at htrim
    exact absurd htrim.symm (trim_text hu).2
  | cons v more' =>
    rw [hs, hfirst] at hpre
    exact ⟨v, more', rfl, (List.cons_prefix_cons.mp hpre).1 ▸ hu⟩

/-- What the extractor makes of the item's line. -/
theorem readBack_line {content result text : Str} {heading : Heading}
    (h : appendSectionItem content heading text = .ok result) (date sourcePath start : Str) :
    ReadBack heading content result date sourcePath (itemPosition content heading) start ↔
      Receives content heading ∧ Plain heading (seen (newlineOf content) (firstLine text)) ∧
        start <+: trimEnd (firstLine text) := by
  obtain ⟨hne, -⟩ := appendSectionItem_spot h
  obtain ⟨hlines, hedit⟩ := appendSectionItem_lines h
  obtain ⟨rest, hitem⟩ := linesOfItem_cons content heading hne
  obtain ⟨u, more, hseen, hu⟩ := seen_firstLine (newlineOf content) hne
  obtain ⟨checked, hparse⟩ := @parse_marked heading u more hu
  have htrim := trimEnd_seen (newlineOf content) (firstLine text)
  rw [hitem, List.cons_append] at hlines
  rw [hseen] at hlines htrim ⊢
  have hshows : ∀ fence, shows fence (marker heading ++ u :: more) = fence.isNone := by
    intro fence
    obtain ⟨tail, hdash⟩ := marker_dash heading
    rw [hdash, shows]
    simp [openingFence_dash]
  have hold : ∀ item : WorklogItem, item.position = itemPosition content heading →
      (item, kindOf heading) ∉ returned heading content date sourcePath := by
    intro item hpos hmem
    obtain ⟨parsed, hp, rfl⟩ := mem_returned.mp hmem
    rw [extractListItems_eq, mem_readItems] at hp
    obtain ⟨front, line, back, he, hat⟩ := hp
    obtain ⟨-, -, t, c, hline, hparsed⟩ := itemAt_eq_some.mp hat
    have hlen : front.length = (linesBefore content heading).length := by
      rw [hparsed] at hpos
      simpa [itemPosition] using hpos
    rw [hedit.old_line (newlineOf_cases content) he hlen] at hline
    cases hline
  constructor
  · rintro ⟨item, hmem, -, hpos, hstart⟩
    obtain ⟨parsed, hp, rfl⟩ := mem_returned.mp hmem
    rw [extractListItems_eq, hlines, mem_readItems_line (by simpa [itemPosition] using hpos)] at hp
    obtain ⟨hplace, hshow, t, c, hline, hparsed⟩ := itemAt_eq_some.mp hp
    rw [hshows] at hshow
    rw [hparse] at hline
    split at hline
    · rename_i hplain
      cases hline
      refine ⟨?_, hplain, ?_⟩
      · unfold Receives
        cases hr : after heading Reading.start (linesBefore content heading)
        rw [hr] at hplace hshow
        simp_all
      · rw [hparsed] at hstart
        rw [← htrim]
        exact hstart
    · cases hline
  · rintro ⟨hreceives, hplain, hstart⟩
    rw [if_pos hplain] at hparse
    unfold Receives at hreceives
    refine ⟨⟨date, trimEnd (u :: more), collectNestedDetails (body heading (next heading ⟨none, .inside⟩
      (marker heading ++ u :: more)) (rest ++ linesBehind content heading)), sourcePath,
        itemPosition content heading⟩, mem_returned.mpr ⟨⟨_, checked⟩, ?_, rfl⟩, hold _ rfl, rfl, ?_⟩
    · rw [extractListItems_eq, hlines, mem_readItems_line (by simp [itemPosition]), hreceives,
        itemAt_eq_some]
      exact ⟨rfl, by simp [hshows], _, _, hparse, by simp [itemPosition]⟩
    · rw [htrim]
      exact hstart

theorem prefix_trimEnd {line : Str} : line <+: trimEnd line ↔ trimEnd line = line := by
  constructor
  · exact fun h => (List.Sublist.antisymm h.sublist (trimEnd_isPrefix line).sublist).symm
  · intro h
    rw [h]

/-- An appended item is read back, at its line, exactly where the reader comes
to it inside the section and outside every fence and its first line reads as a
bullet; its text is that line but for white space at its end. -/
theorem appendSectionItem_readBack (content : Str) (heading : Heading) (text date sourcePath : Str)
    (h : trim text ≠ []) :
    ∃ result, appendSectionItem content heading text = .ok result ∧
      (ReadBack heading content result date sourcePath (itemPosition content heading)
          (firstLine text) ↔
        Receives content heading ∧ Plain heading (seen (newlineOf content) (firstLine text)) ∧
          trimEnd (firstLine text) = firstLine text) ∧
      (ReadBack heading content result date sourcePath (itemPosition content heading)
          (trimEnd (firstLine text)) ↔
        Receives content heading ∧ Plain heading (seen (newlineOf content) (firstLine text))) := by
  obtain ⟨result, hresult, -⟩ := appendSectionItem_single_insertion content heading text h
  refine ⟨result, hresult, ?_, ?_⟩
  · rw [readBack_line hresult, prefix_trimEnd]
  · rw [readBack_line hresult]
    exact ⟨fun ⟨hr, hp, _⟩ => ⟨hr, hp⟩, fun ⟨hr, hp⟩ => ⟨hr, hp, List.prefix_rfl⟩⟩

/-- The Inbox of a new day. -/
theorem milk_readBack :
    ∃ result, appendSectionItem [] .notes (lit "milk\n2 l") = .ok result ∧
      (ReadBack .notes [] result (lit "2026-01-02") (lit "inbox/20260102.md") (itemPosition [] .notes)
          (firstLine (lit "milk\n2 l")) ↔
        Receives [] .notes ∧ Plain .notes (seen (newlineOf []) (firstLine (lit "milk\n2 l"))) ∧
          trimEnd (firstLine (lit "milk\n2 l")) = firstLine (lit "milk\n2 l")) ∧
      (ReadBack .notes [] result (lit "2026-01-02") (lit "inbox/20260102.md") (itemPosition [] .notes)
          (trimEnd (firstLine (lit "milk\n2 l"))) ↔
        Receives [] .notes ∧ Plain .notes (seen (newlineOf []) (firstLine (lit "milk\n2 l")))) :=
  appendSectionItem_readBack [] .notes (lit "milk\n2 l") (lit "2026-01-02") (lit "inbox/20260102.md")
    (by decide)

example : Receives [] .notes ∧ Plain .notes (lit "milk") ∧ ¬ Plain .notes (lit "[ ] milk") := by
  decide +kernel

/-- A note whose text reads as a checkbox is no item at all. -/
theorem checkbox_never_read :
    ∃ result, appendSectionItem [] .notes (lit "[ ] milk") = .ok result ∧
      ¬ ∃ item, (item, kindOf .notes) ∈
          returned .notes result (lit "2026-01-02") (lit "inbox/20260102.md") ∧
        (item, kindOf .notes) ∉ returned .notes [] (lit "2026-01-02") (lit "inbox/20260102.md") ∧
        firstLine (lit "[ ] milk") <+: item.text := by
  refine ⟨lit "## Notes\n\n- [ ] milk\n", by decide +kernel, ?_⟩
  rintro ⟨item, hmem, -⟩
  obtain ⟨parsed, hp, -⟩ := mem_returned.mp hmem
  have hnone : (extractListItems (lit "## Notes\n\n- [ ] milk\n") .notes (some .note)
      (lit "2026-01-02") (lit "inbox/20260102.md")).isEmpty = true := by decide +kernel
  rw [kindOf, List.isEmpty_iff.mp hnone] at hp
  simp at hp

end PiEnv.Notes
