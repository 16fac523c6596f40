import PiEnv.Notes.ReadBack

/-!
# Items an append leaves alone

The items in front of a new block and those behind it are returned as before
when the block's lines leave the code fences as they found them. Where no
fence is open, the block may also leave one open that hides no bullet; where
one is open, no line of the block may close it.
-/

namespace PiEnv.Notes

open Js Reading

/-- An item but for its place in the note. -/
def WorklogItem.unplaced (item : WorklogItem) : WorklogItem := { item with position := 0 }

def InboxItem.unplaced (item : InboxItem) : InboxItem := { item with position := 0 }

def ParsedItem.unplaced (parsed : ParsedItem) : ParsedItem := ⟨parsed.item.unplaced, parsed.checked⟩

/-- Every item of the note is an item of the result, but for its place. -/
def Keeps (content result : Str) : Prop :=
  ∀ date sourcePath,
    ((extractInboxItems content date sourcePath).map InboxItem.unplaced).Subperm
        ((extractInboxItems result date sourcePath).map InboxItem.unplaced) ∧
      ((extractWorklogItems content date sourcePath).map WorklogItem.unplaced).Subperm
        ((extractWorklogItems result date sourcePath).map WorklogItem.unplaced)

/-- The fence that is open behind these lines. -/
def fenceAfter (fence : Option Fence) (lines : List Str) : Option Fence := lines.foldl nextFence fence

/-- The block's lines leave the fences as they find them, or hide no bullet. -/
def LeavesFences (fence : Option Fence) (block behind : List Str) : Prop :=
  match fence with
  | none => fenceAfter none block = none ∨ ∀ line ∈ behind, startsItem line = false
  | some fence => ∀ line ∈ block, isClosingFence line fence = false

/-- The line ending behind the text in front of the spot makes no fence of its
last line. -/
def Settled (content : Str) (heading : Heading) : Prop :=
  fenceAfter none (splitLines (spotOf content heading).front) =
    fenceAfter none (endedLines (newlineOf content) (spotOf content heading).front)

/-- What an append must not disturb. -/
def Quiet (content : Str) (heading : Heading) (text : Str) : Prop :=
  Settled content heading ∧
    LeavesFences (fenceAfter none (linesBefore content heading)) (linesOfItem content heading text)
      (linesBehind content heading)

-- -----
-- Items of part of the lines
-- -----

section
variable {heading : Heading} {kind : Option InboxItemKind} {date sourcePath : Str}

theorem fence_after (reading : Reading) (lines : List Str) :
    (after heading reading lines).fence = fenceAfter reading.fence lines := by
  induction lines generalizing reading with
  | nil => rfl
  | cons line rest ih => exact ih _

/-- The items of the first lines. -/
def itemsIn (heading : Heading) (kind : Option InboxItemKind) (date sourcePath : Str) :
    Reading → List Str → List Str → List ParsedItem
  | _, [], _ => []
  | reading, line :: rest, back =>
    ((itemAt heading kind date sourcePath reading 0 line (rest ++ back)).map
        ParsedItem.unplaced).toList ++
      itemsIn heading kind date sourcePath (next heading reading line) rest back

theorem itemAt_unplaced (reading : Reading) (index : Nat) (line : Str) (rest : List Str) :
    (itemAt heading kind date sourcePath reading index line rest).map ParsedItem.unplaced =
      (itemAt heading kind date sourcePath reading 0 line rest).map ParsedItem.unplaced := by
  unfold itemAt
  split
  · simp only [Option.map_map]
    rfl
  · rfl

theorem readItems_append (reading : Reading) (index : Nat) (front back : List Str) :
    (readItems heading kind date sourcePath reading index (front ++ back)).map ParsedItem.unplaced =
      itemsIn heading kind date sourcePath reading front back ++
        (readItems heading kind date sourcePath (after heading reading front) 0 back).map
          ParsedItem.unplaced := by
  have hindex : ∀ (back : List Str) (reading : Reading) (index : Nat),
      (readItems heading kind date sourcePath reading index back).map ParsedItem.unplaced =
        (readItems heading kind date sourcePath reading 0 back).map ParsedItem.unplaced := by
    intro back
    induction back with
    | nil => intros; rfl
    | cons line rest ih =>
      intro reading index
      simp only [readItems, List.map_append, ← Option.toList_map]
      rw [itemAt_unplaced, ih _ (index + 1), ih _ (0 + 1)]
  induction front generalizing reading index with
  | nil => exact hindex back reading index
  | cons line rest ih =>
    simp only [List.cons_append, readItems, List.map_append, ← Option.toList_map, itemsIn]
    rw [itemAt_unplaced, ih, List.append_assoc, after_cons]

/-- What a scan for details makes of the lines behind. -/
def detailsFrom (heading : Heading) (reading : Reading) (lines : List Str) : List Str :=
  collectNestedDetails (body heading reading lines)

theorem detailsFrom_congr {reading : Reading} {front back back' : List Str}
    (h : detailsFrom heading (after heading reading front) back =
      detailsFrom heading (after heading reading front) back') :
    detailsFrom heading reading (front ++ back) = detailsFrom heading reading (front ++ back') := by
  induction front generalizing reading with
  | nil => exact h
  | cons line rest ih =>
    have hrest := @ih (next heading reading line) h
    unfold detailsFrom at hrest ⊢
    rw [List.cons_append, List.cons_append, body, body]
    split
    · exact hrest
    · split
      · rfl
      · simp only [collectNestedDetails, hrest]
    · rfl

theorem itemsIn_congr {reading : Reading} {front back back' : List Str}
    (h : detailsFrom heading (after heading reading front) back =
      detailsFrom heading (after heading reading front) back') :
    itemsIn heading kind date sourcePath reading front back =
      itemsIn heading kind date sourcePath reading front back' := by
  induction front generalizing reading with
  | nil => rfl
  | cons line rest ih =>
    have hdetails := @detailsFrom_congr heading (next heading reading line) rest back back' h
    simp only [itemsIn, ih h]
    unfold itemAt
    unfold detailsFrom at hdetails
    rw [hdetails]

theorem itemsIn_append (reading : Reading) (xs ys back : List Str) :
    itemsIn heading kind date sourcePath reading (xs ++ ys) back =
      itemsIn heading kind date sourcePath reading xs (ys ++ back) ++
        itemsIn heading kind date sourcePath (after heading reading xs) ys back := by
  induction xs generalizing reading with
  | nil => rfl
  | cons line rest ih => simp only [List.cons_append, itemsIn, ih, List.append_assoc, after_cons]

theorem nextPlace_ne_before {place : Place} (h : place ≠ .before) (line : Str) (visible : Bool) :
    nextPlace heading place line visible ≠ .before := by
  cases place with
  | before => exact absurd rfl h
  | inside =>
    simp only [nextPlace]
    split <;> simp
  | behind => simp [nextPlace]

theorem after_ne_before {reading : Reading} (h : reading.place ≠ .before) (lines : List Str) :
    (after heading reading lines).place ≠ .before := by
  induction lines generalizing reading with
  | nil => exact h
  | cons line rest ih => exact ih (nextPlace_ne_before h line _)

/-- In front of the section there is nothing. -/
theorem itemsIn_before {reading : Reading} {front : List Str}
    (h : (after heading reading front).place = .before) (back : List Str) :
    itemsIn heading kind date sourcePath reading front back = [] := by
  induction front generalizing reading with
  | nil => rfl
  | cons line rest ih =>
    have hplace : reading.place = .before := by
      by_contra hne
      exact after_ne_before hne (line :: rest) h
    have hnone : itemAt heading kind date sourcePath reading 0 line (rest ++ back) = none := by
      simp [itemAt, hplace]
    rw [itemsIn, hnone, ih h]
    rfl

/-- The items in front of a cut depend on what follows only by the details that
a scan in the section picks up there. -/
theorem itemsIn_same {reading : Reading} {front back back' : List Str}
    (h : (after heading reading front).place = .inside →
      detailsFrom heading (after heading reading front) back =
        detailsFrom heading (after heading reading front) back') :
    itemsIn heading kind date sourcePath reading front back =
      itemsIn heading kind date sourcePath reading front back' := by
  cases hp : (after heading reading front).place with
  | before => rw [itemsIn_before hp, itemsIn_before hp]
  | inside => exact itemsIn_congr (h hp)
  | behind =>
    refine itemsIn_congr ?_
    have hr : after heading reading front = ⟨(after heading reading front).fence, .behind⟩ := by
      rw [← hp]
    rw [hr, detailsFrom, detailsFrom, body_behind, body_behind]

-- -----
-- Lines that change nothing
-- -----

theorem nextPlace_of_head {line : Str} (h : line.head? ≠ some 35) (place : Place) (visible : Bool) :
    nextPlace heading place line visible = place := by
  have hlevel : startsLevelTwo line = false := by
    unfold startsLevelTwo
    split <;> simp_all
  have hheader : (trimEnd line == lit "## " ++ heading.text) = false := by
    rw [beq_eq_false_iff_ne]
    intro he
    have hpre := trimEnd_isPrefix line
    have hlit : lit "## " = 35 :: lit "# " := by decide
    rw [he, hlit, List.cons_append] at hpre
    obtain ⟨rest, hrest⟩ := hpre
    exact h (by rw [← hrest]; rfl)
  cases place <;> simp [nextPlace, hlevel, hheader]

theorem fenceRun_head {u : UInt16} {line : Str} (h1 : u ≠ space) (h2 : u ≠ backtick) (h3 : u ≠ tilde) :
    fenceRun (u :: line) = none := by
  simp [fenceRun, h1, h2, h3]

theorem fenceRun_blank {line : Str} (h : trim line = []) : fenceRun line = none := by
  have hall := trim_eq_nil h
  unfold fenceRun
  simp only
  split
  · rfl
  · split
    · rfl
    · rename_i c rest he
      have hc : isSpace c = true := by
        have hmem : c ∈ line.dropWhile (· == space) := by simp [he]
        exact hall c ((List.dropWhile_suffix _).subset hmem)
      have hne : (c == backtick || c == tilde) = false := by
        rw [Bool.eq_false_iff]
        intro hfence
        simp only [Bool.or_eq_true, beq_iff_eq] at hfence
        rcases hfence with rfl | rfl <;> exact absurd hc (by decide)
      simp [hne]

theorem nextFence_of_run {line : Str} (h : fenceRun line = none) (fence : Option Fence) :
    nextFence fence line = fence := by
  cases fence <;> simp [nextFence, openingFence, isClosingFence, h]

theorem head_of_blank {line : Str} (h : trim line = []) : line.head? ≠ some 35 := by
  intro hhead
  obtain ⟨rest, rfl⟩ := List.head?_eq_some_iff.mp hhead
  exact absurd (trim_eq_nil h 35 (by simp)) (by decide)

/-- Neither a fence nor a heading. -/
theorem next_inert {line : Str} (hr : fenceRun line = none) (hh : line.head? ≠ some 35)
    (reading : Reading) : next heading reading line = reading := by
  rw [next, nextFence_of_run hr, nextPlace_of_head hh]

theorem after_inert {lines : List Str}
    (h : ∀ line ∈ lines, fenceRun line = none ∧ line.head? ≠ some 35) (reading : Reading) :
    after heading reading lines = reading := by
  induction lines with
  | nil => rfl
  | cons line rest ih =>
    obtain ⟨hr, hh⟩ := h line List.mem_cons_self
    rw [after_cons, next_inert hr hh, ih fun l hm => h l (List.mem_cons_of_mem _ hm)]

/-- Lines that are no headings leave the reader where it is. -/
theorem after_place {lines : List Str} (h : ∀ line ∈ lines, line.head? ≠ some 35) (reading : Reading) :
    (after heading reading lines).place = reading.place := by
  induction lines generalizing reading with
  | nil => rfl
  | cons line rest ih =>
    rw [after_cons, ih fun l hm => h l (List.mem_cons_of_mem _ hm)]
    exact nextPlace_of_head (h line List.mem_cons_self) _ _

/-- Lines in an open fence that none of them closes. -/
theorem next_hidden {line : Str} {fence : Fence} (h : isClosingFence line fence = false) (place : Place) :
    next heading ⟨some fence, place⟩ line = ⟨some fence, place⟩ := by
  cases place <;> simp [next, nextFence, nextPlace, shows, h]

theorem after_hidden {lines : List Str} {fence : Fence}
    (h : ∀ line ∈ lines, isClosingFence line fence = false) (place : Place) :
    after heading ⟨some fence, place⟩ lines = ⟨some fence, place⟩ := by
  induction lines with
  | nil => rfl
  | cons line rest ih =>
    rw [after_cons, next_hidden (h line List.mem_cons_self), ih fun l hm => h l (List.mem_cons_of_mem _ hm)]

theorem details_hidden {lines : List Str} {fence : Fence}
    (h : ∀ line ∈ lines, isClosingFence line fence = false) (back : List Str) :
    detailsFrom heading ⟨some fence, .inside⟩ (lines ++ back) =
      detailsFrom heading ⟨some fence, .inside⟩ back := by
  induction lines with
  | nil => rfl
  | cons line rest ih =>
    have hrest := ih fun l hm => h l (List.mem_cons_of_mem _ hm)
    unfold detailsFrom at hrest ⊢
    rw [List.cons_append, body, next_hidden (h line List.mem_cons_self), ← hrest]
    have hshows : shows (some fence) line = false := rfl
    simp [hshows, collectNestedDetails]

theorem isClosingFence_of_run {line : Str} (h : fenceRun line = none) (fence : Fence) :
    isClosingFence line fence = false := by
  simp [isClosingFence, h]

-- -----
-- Where a scan for details ends
-- -----

/-- Blank lines are passed over. -/
theorem details_blank {line : Str} (h : trim line = []) (back : List Str) :
    detailsFrom heading ⟨none, .inside⟩ (line :: back) = detailsFrom heading ⟨none, .inside⟩ back := by
  have hr := fenceRun_blank h
  have hshows : shows none line = true := by simp [shows, openingFence, hr]
  have hlevel : startsLevelTwo line = false := by
    unfold startsLevelTwo
    split
    · exact absurd h (by decide)
    · exact absurd (trim_eq_nil h 35 (by simp)) (by decide)
    · rfl
  have hspaces := trim_eq_nil h
  have hitem : startsItem line = false := by
    unfold startsItem
    split
    · exact absurd (hspaces 45 (by simp)) (by decide)
    · rfl
  have hdetail : isDetail line = false := by
    unfold isDetail
    split
    · rename_i u rest
      split
      · rename_i v more he
        have hv : v ∈ u :: rest := (List.dropWhile_suffix _).subset (by rw [he]; simp)
        simp [hspaces v hv]
      · simp
    · rfl
  rw [detailsFrom, body, next_inert hr (head_of_blank h)]
  simp [hshows, hlevel, collectNestedDetails, hitem, hdetail, h, detailsFrom]

theorem details_stop {line : Str} (hs : shows none line = true)
    (h : startsLevelTwo line = true ∨ startsItem line = true ∨
      isDetail line = false ∧ trim line ≠ []) (back : List Str) :
    detailsFrom heading ⟨none, .inside⟩ (line :: back) = [] := by
  rw [detailsFrom, body]
  by_cases hl : startsLevelTwo line = true
  · simp [hs, hl, collectNestedDetails]
  · rcases h with h | h | ⟨h, hne⟩
    · exact absurd h hl
    · simp [hs, hl, collectNestedDetails, h]
    · simp [hs, hl, collectNestedDetails, h, hne]

theorem details_trailing {lines : List Str} (h : Trailing lines) :
    detailsFrom heading ⟨none, .inside⟩ lines = [] := by
  obtain ⟨blanks, rest, rfl, hblank, hrest⟩ := h
  induction blanks with
  | nil =>
    rcases hrest with rfl | ⟨line, rest, rfl, hl⟩
    · rfl
    · refine details_stop ?_ (.inl hl) rest
      have hrun : fenceRun line = none := by
        unfold startsLevelTwo at hl
        split at hl
        · rfl
        · exact fenceRun_head (by decide) (by decide) (by decide)
        · simp at hl
      simp [shows, openingFence, hrun]
  | cons line blanks ih =>
    rw [List.cons_append, details_blank (hblank line (by simp))]
    exact ih fun l hm => hblank l (List.mem_cons_of_mem _ hm)

theorem parse_startsItem {line : Str} {found : Str × Option Bool}
    (h : parseListItem line kind = some found) : startsItem line = true := by
  by_contra hne
  have hspace : isSpace 32 = true := by decide
  have hf : matchFollowup line = none := by
    unfold matchFollowup
    split
    · exact absurd (by simpa [startsItem] using hspace) hne
    · rfl
  have hb : matchBullet line = none := by
    unfold matchBullet
    split
    · rename_i rest
      unfold afterSpace
      split
      · rename_i u more
        have hu : isSpace u = false := by simpa [startsItem] using hne
        simp [hu]
      · rfl
    · rfl
  have htrim : trim [] = [] := rfl
  simp only [parseListItem, hf, hb] at h
  split at h <;> simp [htrim] at h

/-- Without bullets there are no items. -/
theorem readItems_none {lines : List Str} (h : ∀ line ∈ lines, startsItem line = false)
    (reading : Reading) (index : Nat) :
    readItems heading kind date sourcePath reading index lines = [] := by
  rw [List.eq_nil_iff_forall_not_mem]
  intro parsed hp
  obtain ⟨front, line, back, rfl, hat⟩ := mem_readItems.mp hp
  obtain ⟨-, -, t, c, hline, -⟩ := itemAt_eq_some.mp hat
  have hstarts := parse_startsItem hline
  rw [h line (by simp)] at hstarts
  cases hstarts

-- -----
-- The lines of a block
-- -----

theorem head_linesOfItem (content : Str) (heading : Heading) (text : Str) :
    ∀ line ∈ linesOfItem content heading text, line.head? ≠ some 35 := by
  intro line hm
  obtain ⟨raw, hraw, rfl⟩ := List.mem_map.mp hm
  have hhead : raw.head? ≠ some 35 := by
    unfold blockLines at hraw
    split at hraw
    · simp at hraw
    · rcases List.mem_cons.mp hraw with rfl | hraw
      · obtain ⟨rest, hdash⟩ := marker_dash heading
        simp [hdash]
      · obtain ⟨l, -, rfl⟩ := List.mem_map.mp hraw
        simp [indent_eq, space]
  intro h
  obtain ⟨rest, hs⟩ := List.head?_eq_some_iff.mp h
  obtain ⟨more, hmore⟩ := seen_prefix (newlineOf content) raw
  exact hhead (by rw [← hmore, hs]; rfl)

theorem details_item (content : Str) (heading' : Heading) {text : Str} (h : trim text ≠ [])
    (back : List Str) :
    detailsFrom heading ⟨none, .inside⟩ (linesOfItem content heading' text ++ back) = [] := by
  obtain ⟨rest, hitem⟩ := linesOfItem_cons content heading' h
  obtain ⟨tail, hdash⟩ := marker_dash heading'
  rw [hitem, List.cons_append, hdash]
  refine details_stop ?_ (.inr (.inl ?_)) _
  · rw [List.cons_append, shows, openingFence_dash]
    rfl
  · rfl

theorem placeholder_inert {heading' : Heading} {more : Str} {blanks : List Str} (hb : ∀ line ∈ blanks, trim line = []) :
    ∀ line ∈ (blankItem heading' ++ more) :: blanks, fenceRun line = none ∧ line.head? ≠ some 35 := by
  obtain ⟨tail, hdash⟩ : ∃ tail, blankItem heading' = 45 :: tail := by
    cases heading' <;> exact ⟨_, rfl⟩
  refine List.forall_mem_cons.mpr ⟨?_, fun line hline =>
    ⟨fenceRun_blank (hb line hline), head_of_blank (hb line hline)⟩⟩
  rw [hdash]
  exact ⟨fenceRun_head (by decide) (by decide) (by decide), by simp⟩

theorem details_placeholder {heading' : Heading} {more : Str} (back : List Str) :
    detailsFrom heading ⟨none, .inside⟩ ((blankItem heading' ++ more) :: back) = [] := by
  obtain ⟨tail, hdash⟩ : ∃ tail, blankItem heading' = 45 :: tail := by
    cases heading' <;> exact ⟨_, rfl⟩
  rw [hdash, List.cons_append]
  refine details_stop ?_ (.inr (.inr ⟨?_, ?_⟩)) _
  · rw [shows, openingFence_dash]
    rfl
  · simp [isDetail]
  · intro h
    exact absurd (trim_eq_nil h 45 (by simp)) (by decide)

theorem itemsIn_none {lines : List Str} (h : ∀ line ∈ lines, parseListItem line kind = none)
    (reading : Reading) (back : List Str) :
    itemsIn heading kind date sourcePath reading lines back = [] := by
  induction lines generalizing reading with
  | nil => rfl
  | cons line rest ih =>
    have hnone : itemAt heading kind date sourcePath reading 0 line (rest ++ back) = none := by
      simp [itemAt, h line List.mem_cons_self]
    rw [itemsIn, hnone, ih fun l hm => h l (List.mem_cons_of_mem _ hm)]
    rfl

-- -----
-- The last line of a note
-- -----

theorem splitLines_ended {newline : Str} (hn : newline = [LF] ∨ newline = CRLF) (s : Str) :
    ∃ lines last last', splitLines s = lines ++ [last] ∧ endedLines newline s = lines ++ [last'] ∧
      (last = last' ∨ last = last' ++ [CR]) := by
  rcases hn with rfl | rfl
  · obtain ⟨parts, part, hparts⟩ :=
      (List.eq_nil_or_concat' (split [LF] s)).resolve_left (split_ne_nil _ _)
    refine ⟨parts.map chomp, part, chomp part, ?_, ?_, ?_⟩
    · rw [splitLines_eq, hparts, chompEnded_append _ (by simp)]
      rfl
    · simp [endedLines, hparts]
    · by_cases hcr : part.getLast? = some CR
      · obtain ⟨front, rfl⟩ := List.getLast?_eq_some_iff.mp hcr
        exact .inr (by rw [chomp_CR])
      · exact .inl (chomp_of_ne hcr).symm
  · obtain ⟨lines, last, hlines⟩ :=
      (List.eq_nil_or_concat' (splitLines s)).resolve_left (splitLinesAux_ne_nil _ _)
    exact ⟨lines, last, last, hlines, by rw [CRLF, endedLines_CRLF, hlines], .inl rfl⟩

theorem afterSpace_CR {rest text : Str} (h : afterSpace rest = some text)
    (hl : rest.getLast? = some CR) : text = [] := by
  unfold afterSpace at h
  split at h
  · rename_i u more
    dsimp only at h
    split at h
    · rename_i hc
      cases h
      simp only [Bool.and_eq_true, Bool.not_eq_true', List.any_eq_false] at hc
      by_contra hne
      obtain ⟨front, hfront⟩ := List.dropWhile_suffix (l := u :: more) isSpace
      have hlast : ((u :: more).dropWhile isSpace).getLast? = some CR := by
        rw [← hfront, List.getLast?_append_of_ne_nil _ hne] at hl
        exact hl
      exact hc.2 CR (List.mem_of_getLast? hlast) (by decide)
    · cases h
  · cases h

/-- A line that ends in a carriage return of its own is no item. -/
theorem parse_CR (line : Str) : parseListItem (line ++ [CR]) kind = none := by
  have hend : ∀ {u : UInt16} {rest : Str}, line ++ [CR] = u :: rest → u ≠ CR →
      rest.getLast? = some CR := by
    intro u rest he hu
    have hlast := congrArg List.getLast? he
    rw [List.getLast?_concat] at hlast
    cases rest with
    | nil => exact absurd (by simpa using hlast.symm) hu
    | cons v rest => simpa using hlast.symm
  have htrim : trim [] = [] := rfl
  have hf : ∀ mark text, matchFollowup (line ++ [CR]) = some (mark, text) → trim (text.getD []) = [] := by
    intro mark text h
    unfold matchFollowup at h
    split at h
    · rename_i m rest he
      split at h
      · split at h
        · cases h
          exact htrim
        · rename_i hm hne
          obtain ⟨t, ht, h⟩ := Option.map_eq_some_iff.mp h
          cases h
          have hrest : rest.getLast? = some CR := by
            obtain ⟨v, more, rfl⟩ := List.exists_cons_of_ne_nil hne
            simpa [List.getLast?_cons_cons] using hend he (by decide)
          rw [Option.getD_some, afterSpace_CR ht hrest, htrim]
      · cases h
    · cases h
  have hb : ∀ text, matchBullet (line ++ [CR]) = some text → trim text = [] := by
    intro text h
    unfold matchBullet at h
    split at h
    · rename_i rest he
      rw [afterSpace_CR h (hend he (by decide)), htrim]
    · cases h
  unfold parseListItem
  simp only
  split
  · split
    · rename_i mark text he
      simp [hf mark text he]
    · rfl
  · split
    · rfl
    · cases he : matchBullet (line ++ [CR]) with
      | none => simp [htrim]
      | some text => simp [hb text he]

theorem mem_dropWhile {α : Type} {p : α → Bool} {x : α} {xs : List α} (hx : x ∈ xs)
    (hp : p x = false) : x ∈ xs.dropWhile p := by
  rw [← List.takeWhile_append_dropWhile (p := p) (l := xs), List.mem_append] at hx
  rcases hx with hx | hx
  · rw [List.mem_takeWhile_imp hx] at hp
    cases hp
  · exact hx

theorem drop_takeWhile {α : Type} (p : α → Bool) (xs : List α) :
    xs.drop (xs.takeWhile p).length = xs.dropWhile p := by
  have h : (xs.takeWhile p ++ xs.dropWhile p).drop (xs.takeWhile p).length = xs.dropWhile p :=
    List.drop_left
  rwa [List.takeWhile_append_dropWhile] at h

theorem openingFence_CR (line : Str) : openingFence (line ++ [CR]) = none := by
  unfold openingFence
  split
  · rename_i c run info hrun
    have hinfo : CR ∈ info := by
      unfold fenceRun at hrun
      simp only at hrun
      split at hrun
      · cases hrun
      · split at hrun
        · cases hrun
        · rename_i d rest he
          have hrest : CR ∈ d :: rest := he ▸ mem_dropWhile (by simp) (by decide)
          split at hrun
          · rename_i hd
            obtain ⟨rfl, rfl, rfl⟩ : _ ∧ _ ∧ _ := by simpa only [Option.some.injEq, Prod.mk.injEq] using hrun
            have hne : (CR == d) = false := by
              rw [Bool.eq_false_iff]
              intro hcr
              rw [← eq_of_beq hcr] at hd
              exact absurd hd (by decide)
            rw [he, drop_takeWhile]
            exact mem_dropWhile hrest hne
          · cases hrun
    have hany : info.any isLineTerminator = true := List.any_eq_true.mpr ⟨CR, hinfo, by decide⟩
    simp [hany]
  · rfl

theorem startsLevelTwo_CR (line : Str) : startsLevelTwo (line ++ [CR]) = startsLevelTwo line := by
  match line with
  | [] => rfl
  | [u] => simp [startsLevelTwo, CR]
  | u :: v :: rest =>
    by_cases hu : u = 35
    · by_cases hv : v = 35
      · subst hu hv
        cases rest with
        | nil => rfl
        | cons w rest => rfl
      · simp [startsLevelTwo, hv]
    · simp [startsLevelTwo, hu]

theorem trim_CR (line : Str) : trim (line ++ [CR]) = trim line := by
  have hcr : isSpace CR = true := by decide
  rw [trim, trim, List.dropWhile_append]
  split
  · rename_i h
    rw [List.isEmpty_iff.mp h, List.dropWhile_cons_of_pos hcr]
    rfl
  · exact List.rdropWhile_concat_pos _ _ _ hcr

theorem isDetail_CR (line : Str) : isDetail (line ++ [CR]) = isDetail line := by
  cases line with
  | nil => rfl
  | cons u rest =>
    have hcr : ((CR == 32) || (CR == 9)) = false := by decide
    have hspace : isSpace CR = true := by decide
    have happ := @List.dropWhile_append _ (fun u : UInt16 => u == 32 || u == 9) (u :: rest) [CR]
    cases hd : (u :: rest).dropWhile fun u => u == 32 || u == 9 with
    | nil =>
      have hend : (u :: rest ++ [CR]).dropWhile (fun u => u == 32 || u == 9) = [CR] := by
        rw [happ, hd]
        simp [hcr]
      simp only [isDetail, List.cons_append] at hend ⊢
      simp [hend, hd, hspace]
    | cons v more =>
      have hend : (u :: rest ++ [CR]).dropWhile (fun u => u == 32 || u == 9) = v :: (more ++ [CR]) := by
        rw [happ, hd]
        rfl
      simp only [isDetail, List.cons_append] at hend ⊢
      simp [hend, hd]

/-- A scan that goes on to the last line, and past it finds nothing. -/
theorem details_CR {fence : Option Fence} {line : Str} {back : List Str}
    (hopen : fence = none → openingFence line = none)
    (hback : (next heading ⟨fence, .inside⟩ line).place = .inside →
      detailsFrom heading (next heading ⟨fence, .inside⟩ line) back = []) :
    detailsFrom heading ⟨fence, .inside⟩ [line ++ [CR]] =
      detailsFrom heading ⟨fence, .inside⟩ (line :: back) := by
  cases fence with
  | some fence =>
    have hplace : (next heading ⟨some fence, .inside⟩ line).place = .inside := by
      simp [next, nextPlace, shows]
    have hrest := hback hplace
    unfold detailsFrom at hrest ⊢
    simp [body, shows, collectNestedDetails, hrest]
  | none =>
    have hshows : shows none line = true := by simp [shows, hopen rfl]
    have hshows' : shows none (line ++ [CR]) = true := by simp [shows, openingFence_CR]
    by_cases hl : startsLevelTwo line = true
    · have hl' := (startsLevelTwo_CR line).trans hl
      rw [details_stop hshows' (.inl hl'), details_stop hshows (.inl hl)]
    · have hl' : ¬ startsLevelTwo (line ++ [CR]) = true := by rwa [startsLevelTwo_CR]
      have hplace : (next heading ⟨none, .inside⟩ line).place = .inside := by
        simp [next, nextPlace, hl]
      have hrest := hback hplace
      by_cases hd : isDetail line = true
      · -- A detail is no bullet.
        have hitem : ∀ tail : Str, startsItem (line ++ tail) = false := by
          intro tail
          unfold isDetail at hd
          split at hd
          · rename_i u rest
            simp only [Bool.and_eq_true, Bool.or_eq_true, beq_iff_eq] at hd
            rcases hd.1 with rfl | rfl <;> rfl
          · cases hd
        have hitem' := hitem []
        rw [List.append_nil] at hitem'
        unfold detailsFrom at hrest ⊢
        simp [body, hshows, hshows', hl, hl', collectNestedDetails, hitem, hitem', hd, isDetail_CR,
          trim_CR, hrest]
      · unfold detailsFrom at hrest ⊢
        simp [body, hshows, hshows', hl, hl', collectNestedDetails, hd, isDetail_CR, trim_CR, hrest]

/-- The items of a note to whose last line a line ending is put. -/
theorem kept_front {newline : Str} (hn : newline = [LF] ∨ newline = CRLF) {content : Str}
    (hf : fenceAfter none (splitLines content) = fenceAfter none (endedLines newline content))
    {back : List Str}
    (hback : (after heading start (endedLines newline content)).place = .inside →
      detailsFrom heading (after heading start (endedLines newline content)) back = []) :
    (itemsIn heading kind date sourcePath start (splitLines content) []).Sublist
      (itemsIn heading kind date sourcePath start (endedLines newline content) back) := by
  obtain ⟨lines, last, last', hs, he, hlast⟩ := splitLines_ended hn content
  rw [hs, he] at hf ⊢
  rw [he] at hback
  rcases hlast with rfl | rfl
  · have hsame : itemsIn heading kind date sourcePath start (lines ++ [last]) [] =
        itemsIn heading kind date sourcePath start (lines ++ [last]) back :=
      itemsIn_same fun hin => by rw [hback hin]; rfl
    rw [hsame]
  · have hopen : (after heading start lines).fence = none → openingFence last' = none := by
      intro hnone
      rw [fence_after] at hnone
      simp only [fenceAfter, List.foldl_append, List.foldl_cons, List.foldl_nil] at hf hnone
      have hstart : (start : Reading).fence = none := rfl
      rw [hstart] at hnone
      rw [hnone] at hf
      simpa [nextFence, openingFence_CR] using hf.symm
    have hnone : itemsIn heading kind date sourcePath (after heading start lines) [last' ++ [CR]] [] =
        [] := itemsIn_none (List.forall_mem_singleton.mpr (parse_CR last')) _ _
    have hsame : itemsIn heading kind date sourcePath start lines ([last' ++ [CR]] ++ []) =
        itemsIn heading kind date sourcePath start lines ([last'] ++ back) := by
      refine itemsIn_same fun hin => ?_
      have hr : after heading start lines = ⟨(after heading start lines).fence, .inside⟩ := by
        rw [← hin]
      rw [hr]
      rw [after_append, hr] at hback
      exact details_CR hopen hback
    rw [itemsIn_append, itemsIn_append, hnone, hsame, List.append_nil]
    exact List.sublist_append_left _ _

-- -----
-- The append
-- -----

section
variable {content text : Str} {heading' : Heading} {reading : Reading} {behind : List Str}

/-- A scan in the section does not see the block. -/
theorem details_block (hne : trim text ≠ [])
    (hq : LeavesFences reading.fence (linesOfItem content heading' text) behind)
    (hp : reading.place = .inside) (back : List Str)
    (hback : reading.fence = none → detailsFrom heading reading back = []) :
    detailsFrom heading reading (linesOfItem content heading' text ++ back) =
      detailsFrom heading reading back := by
  obtain ⟨fence, place⟩ := reading
  obtain rfl : place = .inside := hp
  cases fence with
  | none => rw [details_item content heading' hne, hback rfl]
  | some fence => exact details_hidden hq back

theorem kept_behind (hq : LeavesFences reading.fence (linesOfItem content heading' text) behind) :
    ((readItems heading kind date sourcePath reading 0 behind).map ParsedItem.unplaced).Sublist
      ((readItems heading kind date sourcePath
        (after heading reading (linesOfItem content heading' text)) 0 behind).map
          ParsedItem.unplaced) := by
  obtain ⟨fence, place⟩ := reading
  cases fence with
  | none =>
    rcases hq with hclosed | hno
    · have hsame : after heading ⟨none, place⟩ (linesOfItem content heading' text) = ⟨none, place⟩ := by
        have hfence : (after heading ⟨none, place⟩ (linesOfItem content heading' text)).fence =
            fenceAfter none (linesOfItem content heading' text) := fence_after _ _
        have hplace : (after heading ⟨none, place⟩ (linesOfItem content heading' text)).place = place :=
          after_place (head_linesOfItem content heading' text) _
        rw [hclosed] at hfence
        cases hr : after heading ⟨none, place⟩ (linesOfItem content heading' text)
        rw [hr] at hfence hplace
        simp_all
      rw [hsame]
    · rw [readItems_none hno]
      exact List.nil_sublist _
  | some fence => rw [after_hidden hq place]
end

section
variable {content result text : Str} {heading' : Heading}

theorem fenceRun_header (heading : Heading) (gap : List Str) (hg : gap = [] ∨ gap = [[]]) :
    ∀ line ∈ gap ++ [lit "## " ++ heading.text, []], fenceRun line = none := by
  intro line hm
  have hline : line = [] ∨ line = lit "## " ++ heading.text := by
    rcases hg with rfl | rfl <;> simp at hm <;> tauto
  rcases hline with rfl | rfl
  · rfl
  · exact fenceRun_head (by decide) (by decide) (by decide)

/-- A new section ends a scan, too. -/
theorem details_section {gap : List Str} (hg : gap = [] ∨ gap = [[]]) (back : List Str) :
    detailsFrom heading ⟨none, .inside⟩ (gap ++ [lit "## " ++ heading'.text, []] ++ back) = [] := by
  have hheader : ∀ rest, detailsFrom heading ⟨none, .inside⟩
      ((lit "## " ++ heading'.text) :: rest) = [] := by
    intro rest
    refine details_stop ?_ (.inl ?_) rest
    · have hrun : fenceRun (lit "## " ++ heading'.text) = none :=
        fenceRun_head (by decide) (by decide) (by decide)
      simp [shows, openingFence, hrun]
    · cases heading' <;> decide
  rcases hg with rfl | rfl
  · exact hheader _
  · simp only [List.cons_append, List.nil_append]
    rw [details_blank rfl]
    exact hheader _

theorem fenceAfter_run {lines : List Str} (h : ∀ line ∈ lines, fenceRun line = none)
    (fence : Option Fence) : fenceAfter fence lines = fence := by
  induction lines generalizing fence with
  | nil => rfl
  | cons line rest ih =>
    have hrest := ih (fun l hm => h l (List.mem_cons_of_mem _ hm)) fence
    rw [fenceAfter, List.foldl_cons, nextFence_of_run (h line List.mem_cons_self)]
    exact hrest

section
variable {before behind : List Str} (hne : trim text ≠ [])
  (hq : LeavesFences (after heading start before).fence (linesOfItem content heading' text) behind)
include hne hq

theorem kept_inserted (ht : Trailing behind) :
    ((readItems heading kind date sourcePath start 0 (before ++ behind)).map
        ParsedItem.unplaced).Sublist
      ((readItems heading kind date sourcePath start 0
        (before ++ (linesOfItem content heading' text ++ behind))).map ParsedItem.unplaced) := by
  have hsame : itemsIn heading kind date sourcePath start before behind =
      itemsIn heading kind date sourcePath start before
        (linesOfItem content heading' text ++ behind) := by
    refine itemsIn_same fun hin => (details_block hne hq hin behind fun hnone => ?_).symm
    have hr : after heading start before = ⟨none, .inside⟩ := by rw [← hin, ← hnone]
    rw [hr]
    exact details_trailing ht
  rw [readItems_append, readItems_append, readItems_append, hsame]
  exact ((kept_behind hq).trans (List.sublist_append_right _ _)).append_left _

theorem kept_replaced {blanks : List Str} {more : Str} (hm : ∀ u ∈ more, isSpace u = true)
    (hb : ∀ line ∈ blanks, trim line = []) :
    ((readItems heading kind date sourcePath start 0
        (before ++ (((blankItem heading' ++ more) :: blanks) ++ behind))).map
          ParsedItem.unplaced).Sublist
      ((readItems heading kind date sourcePath start 0
        (before ++ (linesOfItem content heading' text ++ behind))).map ParsedItem.unplaced) := by
  have hinert := @placeholder_inert heading' more blanks hb
  have hparse : ∀ line ∈ (blankItem heading' ++ more) :: blanks, parseListItem line kind = none := by
    refine List.forall_mem_cons.mpr ⟨parse_placeholder hm kind, fun line hline => ?_⟩
    refine parse_not_dash (fun rest he => ?_) kind
    rw [he] at hline
    exact absurd (trim_eq_nil (hb _ hline) 45 (by simp)) (by decide)
  have hsame : itemsIn heading kind date sourcePath start before
      (((blankItem heading' ++ more) :: blanks) ++ behind) =
        itemsIn heading kind date sourcePath start before
          (linesOfItem content heading' text ++ behind) := by
    refine itemsIn_same fun hin => ?_
    cases hf : (after heading start before).fence with
    | none =>
      have hr : after heading start before = ⟨none, .inside⟩ := by rw [← hin, ← hf]
      rw [hr, details_item content heading' hne]
      exact details_placeholder _
    | some fence =>
      have hr : after heading start before = ⟨some fence, .inside⟩ := by rw [← hin, ← hf]
      rw [hf] at hq
      rw [hr, details_hidden hq]
      exact details_hidden (fun line hline => isClosingFence_of_run (hinert line hline).1 fence) behind
  rw [readItems_append, readItems_append, itemsIn_none hparse, after_inert hinert, hsame,
    readItems_append, readItems_append, List.nil_append]
  exact ((kept_behind hq).trans (List.sublist_append_right _ _)).append_left _
end

/-- A block at the end of a note, in its last section or in a new one. -/
theorem kept_ended {newline kept : Str} (hn : newline = [LF] ∨ newline = CRLF) (hne : trim text ≠ [])
    (hf : fenceAfter none (splitLines kept) = fenceAfter none (endedLines newline kept))
    {opening behind : List Str}
    (hq : LeavesFences (after heading start (endedLines newline kept ++ opening)).fence
      (linesOfItem content heading' text) behind)
    (ho : ∀ line ∈ opening, fenceRun line = none)
    (hend : opening = [] ∨
      ∀ back, detailsFrom heading ⟨none, .inside⟩ (opening ++ back) = [])
    (hbehind : ∀ line ∈ behind, line = []) :
    ((readItems heading kind date sourcePath start 0 (splitLines kept)).map
        ParsedItem.unplaced).Sublist
      ((readItems heading kind date sourcePath start 0 (endedLines newline kept ++ opening ++
        (linesOfItem content heading' text ++ behind))).map ParsedItem.unplaced) := by
  have hfront := @kept_front heading kind date sourcePath newline hn kept hf
    (opening ++ (linesOfItem content heading' text ++ behind)) fun hin => by
      have hfence : (after heading start (endedLines newline kept ++ opening)).fence =
          (after heading start (endedLines newline kept)).fence := by
        rw [after_append, fence_after, fenceAfter_run ho]
      rw [hfence] at hq
      cases hr : (after heading start (endedLines newline kept)).fence with
      | none =>
        have hat : after heading start (endedLines newline kept) = ⟨none, .inside⟩ := by
          rw [← hin, ← hr]
        rw [hat]
        rcases hend with rfl | hend
        · exact details_item content heading' hne _
        · exact hend _
      | some fence =>
        have hat : after heading start (endedLines newline kept) = ⟨some fence, .inside⟩ := by
          rw [← hin, ← hr]
        rw [hr] at hq
        have hblank : ∀ line ∈ behind, isClosingFence line fence = false := fun line hm => by
          rw [hbehind line hm]
          rfl
        rw [hat, details_hidden fun line hm => isClosingFence_of_run (ho line hm) fence,
          details_hidden hq, ← List.append_nil behind, details_hidden hblank]
        rfl
  have hold : (readItems heading kind date sourcePath start 0 (splitLines kept)).map
      ParsedItem.unplaced = itemsIn heading kind date sourcePath start (splitLines kept) [] := by
    have happ := @readItems_append heading kind date sourcePath start 0 (splitLines kept) []
    simpa [readItems] using happ
  rw [hold, List.append_assoc, readItems_append]
  exact hfront.trans (List.sublist_append_left _ _)

/-- The items of one section, but for their places. -/
theorem kept_items (h : appendSectionItem content heading' text = .ok result)
    (hq : Quiet content heading' text) :
    ((extractListItems content heading kind date sourcePath).map ParsedItem.unplaced).Sublist
      ((extractListItems result heading kind date sourcePath).map ParsedItem.unplaced) := by
  obtain ⟨hne, -⟩ := appendSectionItem_spot h
  obtain ⟨hlines, hedit⟩ := appendSectionItem_lines h
  have hn := newlineOf_cases content
  obtain ⟨hsettled, hleaves⟩ := hq
  unfold Settled at hsettled
  have hfence : (after heading start (linesBefore content heading')).fence =
      fenceAfter none (linesBefore content heading') := fence_after start _
  rw [← hfence] at hleaves
  rw [extractListItems_eq, extractListItems_eq, hlines]
  generalize linesBehind content heading' = behind at *
  generalize linesBefore content heading' = before at *
  generalize splitLines content = old at *
  cases hedit with
  | inserted ht => exact kept_inserted hne hleaves ht
  | replaced hm hb => exact kept_replaced hne hleaves hm hb
  | ended =>
    have hopening := List.append_nil (endedLines (newlineOf content) (spotOf content heading').front)
    rw [← hopening] at hleaves ⊢
    exact kept_ended hn hne hsettled hleaves (by simp) (.inl rfl) (by simp)
  | @added gap hg =>
    have hopening := List.append_assoc (endedLines (newlineOf content) (spotOf content heading').front)
      gap [lit "## " ++ heading'.text, []]
    rw [hopening] at hleaves ⊢
    exact kept_ended hn hne hsettled hleaves (fenceRun_header heading' _ hg)
      (.inr fun back => details_section hg back) (by simp)
  | started =>
    have hnone : readItems heading kind date sourcePath start 0 [[]] = [] := by
      simp [readItems, itemAt, start]
    rw [hnone]
    exact List.nil_sublist _
end

end

theorem kept_inboxItems {content result text : Str} {heading : Heading}
    (h : appendSectionItem content heading text = .ok result) (hq : Quiet content heading text)
    (other : Heading) (kind : InboxItemKind) (date sourcePath : Str) :
    ((inboxItemsOf content other kind date sourcePath).map InboxItem.unplaced).Sublist
      ((inboxItemsOf result other kind date sourcePath).map InboxItem.unplaced) := by
  have hmap : ∀ note, (inboxItemsOf note other kind date sourcePath).map InboxItem.unplaced =
      ((extractListItems note other (some kind) date sourcePath).map ParsedItem.unplaced).map
        fun parsed => ⟨parsed.item, kind, parsed.checked⟩ := by
    intro note
    simp only [inboxItemsOf, List.map_map]
    rfl
  rw [hmap, hmap]
  exact (kept_items h hq).map _

/-- An append whose block leaves the code fences as it found them removes and
alters no item of the note. -/
theorem appendSectionItem_keeps {content result text : Str} {heading : Heading}
    (h : appendSectionItem content heading text = .ok result) (hq : Quiet content heading text) :
    Keeps content result := by
  intro date sourcePath
  constructor
  · have hsub := (kept_inboxItems h hq .followUps .followup date sourcePath).append
      (kept_inboxItems h hq .notes .note date sourcePath)
    rw [← List.map_append, ← List.map_append] at hsub
    have hperm : ∀ note, ((extractInboxItems note date sourcePath).map InboxItem.unplaced).Perm
        ((inboxItemsOf note .followUps .followup date sourcePath ++
          inboxItemsOf note .notes .note date sourcePath).map InboxItem.unplaced) :=
      fun note => (List.mergeSort_perm _ _).map _
    exact (hperm content).subperm.trans (hsub.subperm.trans (hperm result).symm.subperm)
  · have hmap : ∀ note, (extractWorklogItems note date sourcePath).map WorklogItem.unplaced =
        ((extractListItems note .worklog none date sourcePath).map ParsedItem.unplaced).map (·.item) := by
      intro note
      simp only [extractWorklogItems, List.map_map]
      rfl
    rw [hmap, hmap]
    exact ((kept_items h hq).map _).subperm

instance (fence : Option Fence) (block behind : List Str) : Decidable (LeavesFences fence block behind) := by
  unfold LeavesFences
  cases fence <;> infer_instance

instance (content : Str) (heading : Heading) (text : Str) : Decidable (Quiet content heading text) :=
  inferInstanceAs (Decidable (_ = _ ∧ _))

/-- A fenced text in front of another section. -/
theorem fencedText_keeps :
    Keeps (lit "## Notes\n\n## Worklog\n\n- a\n")
      (lit "## Notes\n- x\n  ```\n  y\n  ```\n\n## Worklog\n\n- a\n") :=
  appendSectionItem_keeps (show appendSectionItem (lit "## Notes\n\n## Worklog\n\n- a\n") .notes
    (lit "x\n```\ny\n```") = _ by decide +kernel) (by decide +kernel)

/-- A text that opens a fence hides the sections behind it. -/
theorem openFence_hides :
    ∃ result, appendSectionItem (lit "## Notes\n\n## Worklog\n\n- a\n") .notes (lit "x\n```") =
      .ok result ∧ ¬ Keeps (lit "## Notes\n\n## Worklog\n\n- a\n") result := by
  refine ⟨lit "## Notes\n- x\n  ```\n\n## Worklog\n\n- a\n", by decide +kernel, fun h => ?_⟩
  have hlen := (h (lit "2026-01-02") (lit "records/2026/01/02.md")).2.length_le
  exact absurd hlen (by decide +kernel)

end PiEnv.Notes
