import PiEnv.Lib.Splitting
import PiEnv.Notes.Blocks

/-!
# An append is one insertion

Split by its line ending, a note that gained an item has the lines it had, in
their order, and among them the lines of one block: inside the section's
bounds, or in the place of a blank placeholder of the section, or in a section
added behind everything else.
-/

namespace PiEnv.Notes

open Js

/-- The marker with the first text line, then each further one behind its indent. -/
def blockLines (heading : Heading) (text : Str) : List Str :=
  match splitLines (trim text) with
  | [] => []
  | first :: rest => (marker heading ++ first) :: rest.map (indent ++ ·)

/-- The lines of a section that holds the block alone. -/
def sectionLines (heading : Heading) (text : Str) : List Str :=
  (lit "## " ++ heading.text) :: [] :: (blockLines heading text ++ [[]])

/-- `result` is the note with one block put into its lines. -/
inductive SingleInsertion (heading : Heading) (text content result : Str) : Prop
  | inserted {bounds : Bounds} {insertAt : Nat}
      (hb : sectionBounds (split (newlineOf content) content) heading = some bounds)
      (hge : bounds.start ≤ insertAt) (hle : insertAt ≤ bounds.stop)
      (hr : split (newlineOf content) result =
        (split (newlineOf content) content).take insertAt ++ blockLines heading text ++
          (split (newlineOf content) content).drop insertAt)
  | replaced {bounds : Bounds} {index : Nat}
      (hb : sectionBounds (split (newlineOf content) content) heading = some bounds)
      (hge : bounds.start ≤ index) (hlt : index < bounds.stop)
      (hv : (visibleMarkdownLines (split (newlineOf content) content)).getD index false = true)
      (hp : isPlaceholder heading ((split (newlineOf content) content).getD index []) = true)
      (hr : split (newlineOf content) result =
        (split (newlineOf content) content).take index ++ blockLines heading text ++
          (split (newlineOf content) content).drop (index + 1))
  | started (hc : content = [])
      (hr : split (newlineOf content) result = sectionLines heading text)
  | added {gap : List Str} (hc : content ≠ [])
      (hb : sectionBounds (split (newlineOf content) content) heading = none)
      (hp : content <+: result) (hg : gap = [] ∨ gap = [[]])
      (hr : split (newlineOf content) result =
        split (newlineOf content) content ++ gap ++ sectionLines heading text)

-- -----
-- Lines that split as they were joined
-- -----

theorem newlineOf_ne_nil (content : Str) : newlineOf content ≠ [] := by
  rcases newlineOf_cases content with h | h <;> simp [h, CRLF]

/-- Neither line ending overlaps itself. -/
theorem whole_of_not_infix {newline part : Str} (hn : newline = [LF] ∨ newline = CRLF)
    (h : ¬ newline <:+: part) : Whole newline part := by
  intro front back he
  rcases List.eq_nil_or_concat' back with rfl | ⟨back, u, rfl⟩
  · rfl
  · exfalso
    rcases hn with rfl | rfl
    · have he' : part ++ [LF] = (front ++ [LF] ++ back) ++ [u] := by simpa using he
      exact h ⟨front, back, (List.append_inj' he' rfl).1.symm⟩
    · have he' : (part ++ [CR]) ++ [LF] = (front ++ CRLF ++ back) ++ [u] := by
        simpa [CRLF] using he
      have hcr := (List.append_inj' he' rfl).1
      rcases List.eq_nil_or_concat' back with rfl | ⟨back, v, rfl⟩
      · have hc : part ++ [CR] = (front ++ [CR]) ++ [LF] := by simpa [CRLF] using hcr
        exact absurd (List.append_inj' hc rfl).2 (by decide)
      · have hc : part ++ [CR] = (front ++ CRLF ++ back) ++ [v] := by simpa using hcr
        exact h ⟨front, back, (List.append_inj' hc rfl).1.symm⟩

theorem whole_of_not_mem {newline part : Str} (hn : newline = [LF] ∨ newline = CRLF)
    (h : LF ∉ part) : Whole newline part := by
  refine whole_of_not_infix hn fun hi => h (hi.subset ?_)
  rcases hn with rfl | rfl <;> simp [CRLF]

theorem whole_split (content : Str) :
    ∀ line ∈ split (newlineOf content) content, Whole (newlineOf content) line := fun _ hm =>
  whole_of_not_infix (newlineOf_cases content) (not_infix_of_mem_split (newlineOf_ne_nil content) hm)

theorem blockLines_ne_nil (heading : Heading) (text : Str) : blockLines heading text ≠ [] := by
  unfold blockLines
  split
  · rename_i h
    exact absurd h (splitLinesAux_ne_nil _ _)
  · simp

theorem not_mem_blockLines (heading : Heading) (text : Str) :
    ∀ line ∈ blockLines heading text, LF ∉ line := by
  unfold blockLines
  cases hs : splitLines (trim text) with
  | nil => simp
  | cons first rest =>
    have hlf : ∀ line ∈ first :: rest, LF ∉ line := hs ▸ not_mem_splitLines
    intro line hm
    rcases List.mem_cons.mp hm with rfl | hm
    · simp [not_mem_marker heading, hlf first (by simp)]
    · obtain ⟨l, hl, rfl⟩ := List.mem_map.mp hm
      simpa [indent_eq, hlf l (List.mem_cons_of_mem _ hl)] using (by decide : LF ≠ space)

theorem not_mem_sectionLines (heading : Heading) (text : Str) :
    ∀ line ∈ sectionLines heading text, LF ∉ line := by
  intro line hm
  simp only [sectionLines, List.mem_cons, List.mem_append, List.not_mem_nil, or_false] at hm
  rcases hm with rfl | rfl | hm | rfl
  · cases heading <;> decide
  · simp
  · exact not_mem_blockLines heading text line hm
  · simp

theorem bulletOf_eq_join (heading : Heading) (newline text : Str) :
    bulletOf heading newline (trim text) = join newline (blockLines heading text) := by
  have key : ∀ (rest : List Str) (front line : Str), front ++ join (newline ++ indent) (line :: rest) =
      join newline ((front ++ line) :: rest.map (indent ++ ·)) := by
    intro rest
    induction rest with
    | nil => simp [join]
    | cons next rest ih =>
      intro front line
      have hnext := ih indent next
      simp only [join, List.map_cons, List.intercalate_cons_cons] at hnext ⊢
      rw [← hnext]
      simp
  cases hs : splitLines (trim text) with
  | nil => exact absurd hs (splitLinesAux_ne_nil _ _)
  | cons first rest => simpa [bulletOf, blockLines, hs, indent] using key rest (marker heading) first

/-- A joined block among other lines. -/
theorem join_block {sep : Str} {block : List Str} (hb : block ≠ []) (xs ys : List Str) :
    join sep (xs ++ join sep block :: ys) = join sep (xs ++ block ++ ys) := by
  induction xs with
  | nil =>
    cases ys with
    | nil => simp [join]
    | cons y ys =>
      rw [List.nil_append, List.nil_append, join_append hb (by simp), join,
        List.intercalate_cons_cons]
  | cons x xs ih =>
    have hl : xs ++ join sep block :: ys ≠ [] := by simp
    have hr : xs ++ block ++ ys ≠ [] := by simp [hb]
    simp only [join, List.cons_append, List.intercalate_cons_of_ne_nil hl,
      List.intercalate_cons_of_ne_nil hr]
    exact congrArg (x ++ sep ++ ·) ih

theorem join_sectionLines (heading : Heading) (newline text : Str) :
    join newline (sectionLines heading text) = lit "## " ++ heading.text ++ newline ++ newline ++
      bulletOf heading newline (trim text) ++ newline := by
  have hj : join newline (blockLines heading text ++ [[]]) =
      join newline (blockLines heading text) ++ newline ++ join newline [[]] :=
    join_append (blockLines_ne_nil heading text) (by simp)
  rw [sectionLines, join, List.intercalate_cons_cons, List.intercalate_cons_of_ne_nil (by simp),
    bulletOf_eq_join]
  rw [join] at hj
  rw [hj]
  simp [join]

theorem placeholderIndex_inside {lines : List Str} {heading : Heading} {bounds : Bounds} {index : Nat}
    (h : placeholderIndex lines heading bounds = some index) :
    bounds.start ≤ index ∧ (visibleMarkdownLines lines).getD index false = true := by
  have hp := List.find?_some h
  have hm := List.mem_of_find?_eq_some h
  simp only [List.mem_range'_1] at hm
  simp only [Bool.and_eq_true] at hp
  exact ⟨hm.1, hp.1⟩

-- -----
-- The insertion
-- -----

/-- A block among lines of the note splits into its own lines and theirs. -/
theorem split_around {content text : Str} {heading : Heading} {front back : List Str}
    (hf : ∀ line ∈ front, line ∈ split (newlineOf content) content)
    (hb : ∀ line ∈ back, line ∈ split (newlineOf content) content) :
    split (newlineOf content) (join (newlineOf content)
      (front ++ bulletOf heading (newlineOf content) (trim text) :: back)) =
      front ++ blockLines heading text ++ back := by
  rw [bulletOf_eq_join, join_block (blockLines_ne_nil heading text)]
  refine split_of_whole (newlineOf_ne_nil content) (fun line hm => ?_)
    (by simp [blockLines_ne_nil heading text])
  simp only [List.mem_append] at hm
  rcases hm with (hm | hm) | hm
  · exact whole_split content line (hf line hm)
  · exact whole_of_not_mem (newlineOf_cases content) (not_mem_blockLines heading text line hm)
  · exact whole_split content line (hb line hm)

theorem split_newSection {content text : Str} {heading : Heading} {front : List Str}
    (hf : ∀ line ∈ front, Whole (newlineOf content) line) :
    split (newlineOf content) (join (newlineOf content) (front ++ sectionLines heading text)) =
      front ++ sectionLines heading text := by
  refine split_of_whole (newlineOf_ne_nil content) (fun line hm => ?_) (by simp [sectionLines])
  rcases List.mem_append.mp hm with hm | hm
  · exact hf line hm
  · exact whole_of_not_mem (newlineOf_cases content) (not_mem_sectionLines heading text line hm)

/-- The note, a gap and the new section, as joined lines. -/
theorem join_added (content text : Str) (heading : Heading) (gap : List Str) :
    join (newlineOf content) (split (newlineOf content) content ++ gap ++ sectionLines heading text) =
      content ++ newlineOf content ++ headOf (newlineOf content) gap ++
        join (newlineOf content) (sectionLines heading text) := by
  have hs : sectionLines heading text ≠ [] := by simp [sectionLines]
  have hc := join_split (newlineOf_ne_nil content) content
  cases gap with
  | nil =>
    rw [List.append_nil, join_append (split_ne_nil _ _) hs, hc]
    simp [headOf]
  | cons line gap =>
    rw [List.append_assoc, join_append (split_ne_nil _ _) (by simp), hc, join_append (by simp) hs]
    simp [headOf]

theorem added_insertion {content text : Str} {heading : Heading}
    (hb : sectionBounds (split (newlineOf content) content) heading = none) :
    SingleInsertion heading text content
      (content ++ (if content.length = 0 then []
        else if (newlineOf content).isSuffixOf content then newlineOf content
        else newlineOf content ++ newlineOf content) ++
        join (newlineOf content) (sectionLines heading text)) := by
  have hnil : ∀ line ∈ [([] : Str)], Whole (newlineOf content) line := by
    intro line hm
    rw [List.mem_singleton.mp hm]
    exact whole_of_not_mem (newlineOf_cases content) (by simp)
  by_cases hc : content = []
  · refine .started hc ?_
    have hs : split (newlineOf content) (join (newlineOf content) ([] ++ sectionLines heading text)) =
        [] ++ sectionLines heading text := split_newSection (by simp)
    simpa [hc] using hs
  · have hlen : content.length ≠ 0 := by simpa using hc
    rw [if_neg hlen]
    split
    · have hj := join_added content text heading []
      simp only [headOf, List.append_nil] at hj
      refine .added hc hb ⟨_, (List.append_assoc ..).symm⟩ (.inl rfl) ?_
      rw [← hj, split_newSection (whole_split content)]
      simp
    · have hj := join_added content text heading [[]]
      simp only [headOf, join, List.intercalate_singleton, List.nil_append] at hj
      refine .added hc hb ⟨_, (List.append_assoc ..).symm⟩ (.inr rfl) ?_
      rw [← List.append_assoc content, ← hj]
      refine split_newSection fun line hm => ?_
      exact (List.mem_append.mp hm).elim (whole_split content line) (hnil line)

theorem appendSectionItem_single_insertion (content : Str) (heading : Heading) (text : Str)
    (h : trim text ≠ []) :
    ∃ result, appendSectionItem content heading text = .ok result ∧
      SingleInsertion heading text content result := by
  have hn : normalizeItemText text = .ok (trim text) := by simp [normalizeItemText, h]
  simp only [appendSectionItem, hn, bind, Except.bind]
  split
  · -- No such section.
    rename_i hb
    refine ⟨_, rfl, ?_⟩
    have hs := @added_insertion content text heading hb
    rw [join_sectionLines] at hs
    simpa using hs
  · rename_i bounds hb
    obtain ⟨-, hle, hlen, -⟩ := sectionBounds_spec hb
    split
    · -- A placeholder of the section.
      rename_i index hi
      obtain ⟨hlt, hp⟩ := placeholderIndex_spec hi
      obtain ⟨hge, hv⟩ := placeholderIndex_inside hi
      have hidx : index < (split (newlineOf content) content).length := by omega
      refine ⟨_, rfl, .replaced hb hge hlt hv hp ?_⟩
      rw [List.set_eq_take_append_cons_drop, if_pos hidx]
      exact split_around (fun _ => List.mem_of_mem_take) (fun _ => List.mem_of_mem_drop)
    · -- Behind the last line of the section that holds text.
      obtain ⟨hge, hle', -⟩ :=
        insertPosition_spec (split (newlineOf content) content) bounds.start hle
      refine ⟨_, rfl, .inserted hb hge hle' ?_⟩
      exact split_around (fun _ => List.mem_of_mem_take) (fun _ => List.mem_of_mem_drop)

/-- A note whose section holds an item and ends in a blank line. -/
theorem second_item_inserted :
    ∃ result, appendSectionItem (lit "## Notes\n\n- one\n\n## Follow-ups\n") .notes (lit "two\nmore") =
      .ok result ∧ SingleInsertion .notes (lit "two\nmore")
        (lit "## Notes\n\n- one\n\n## Follow-ups\n") result :=
  appendSectionItem_single_insertion _ .notes _ (by decide)

end PiEnv.Notes
