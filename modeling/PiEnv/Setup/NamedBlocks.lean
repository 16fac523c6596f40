import PiEnv.Setup.BlockTurns

/-!
# Reconciled files

A file whose blocks take their turns without one of them losing its markers is laid out
as before: the text around the regions of the blocks stays, and the blocks that were not
there follow at the end.
-/

namespace PiEnv.Setup

open Js Markers

-- -----
-- Layouts
-- -----

/-- A block in a file, with what stands between its markers and what follows it. -/
structure Region (α : Type) where
  block : NamedBlock
  old : List α
  after : List α

/-- A block at the end of a file, with the new lines before it. -/
structure Insertion where
  separator : Str
  block : NamedBlock

section
variable {α : Type} (mark : Mark → List α) (ofStr : Str → List α)

def Region.original (region : Region α) : List α :=
  mark region.block.start ++ (region.old ++ (mark region.block.stop ++ region.after))

def Region.rewritten (region : Region α) : List α :=
  mark region.block.start ++
    (ofStr region.block.inner ++ (mark region.block.stop ++ region.after))

def Insertion.written (insertion : Insertion) : List α :=
  ofStr insertion.separator ++ (mark insertion.block.start ++
    (ofStr insertion.block.inner ++ (mark insertion.block.stop ++ ofStr [LF])))

/-- A file and what it becomes: only what is between the markers of its regions changes, and
blocks are added at its end, after new lines. -/
def LaidOut (first next : List α) (blocks : List NamedBlock) : Prop :=
  ∃ (head : List α) (regions : List (Region α)) (inserted : List Insertion),
    first = head ++ regions.flatMap (·.original mark) ∧
    next = head ++ regions.flatMap (·.rewritten mark ofStr) ++
      inserted.flatMap (·.written mark ofStr) ∧
    (∀ insertion ∈ inserted, ∀ u ∈ insertion.separator, u = LF) ∧
    (regions.map (·.block) ++ inserted.map (·.block)).Perm blocks

end

def tokenMark (mark : Mark) : FileTokens := [.inr mark]

def regionTokens (regions : List (Region (UInt16 ⊕ Mark))) : FileTokens :=
  regions.flatMap (·.rewritten tokenMark ofText)

def originalTokens (regions : List (Region (UInt16 ⊕ Mark))) : FileTokens :=
  regions.flatMap (·.original tokenMark)

def insertedTokens (inserted : List Insertion) : FileTokens :=
  inserted.flatMap (·.written tokenMark ofText)

-- -----
-- A new region
-- -----

section
variable {block : NamedBlock} {first tokens tokens' before between after head tail : FileTokens}

@[simp] theorem region_cons (region : Region (UInt16 ⊕ Mark))
    (regions : List (Region (UInt16 ⊕ Mark))) :
    regionTokens (region :: regions) = .inr region.block.start ::
      (ofText region.block.inner ++ .inr region.block.stop :: (region.after ++ regionTokens regions)) := by
  simp [regionTokens, Region.rewritten, tokenMark]

@[simp] theorem original_cons (region : Region (UInt16 ⊕ Mark))
    (regions : List (Region (UInt16 ⊕ Mark))) :
    originalTokens (region :: regions) = .inr region.block.start ::
      (region.old ++ .inr region.block.stop :: (region.after ++ originalTokens regions)) := by
  simp [originalTokens, Region.original, tokenMark]

/-- The first marker from the regions on is that of a region. -/
theorem not_stop_first {regions : List (Region (UInt16 ⊕ Mark))} {between : FileTokens}
    (he : .inr block.stop ∉ tail) (hbetween : ∀ region ∈ regions, .inr region.block.start ∉ between) :
    regionTokens regions ++ tail ≠ between ++ .inr block.stop :: after := by
  intro h
  cases regions with
  | nil =>
    have hmem : .inr block.stop ∈ tail := by
      rw [show tail = between ++ .inr block.stop :: after from h]
      simp
    exact he hmem
  | cons region regions =>
    rw [region_cons] at h
    cases between with
    | nil => cases (List.cons.inj h).1
    | cons token between =>
      rw [← (List.cons.inj h).1] at hbetween
      exact hbetween region List.mem_cons_self List.mem_cons_self

theorem split_head {regions : List (Region (UInt16 ⊕ Mark))} {behind : FileTokens}
    (h : behind ++ (regionTokens regions ++ tail) = between ++ .inr block.stop :: after)
    (he : .inr block.stop ∉ tail)
    (hbetween : ∀ region ∈ regions, .inr region.block.start ∉ between) :
    ∃ head' regions', head' ++ originalTokens regions' =
        (before ++ .inr block.start :: behind) ++ originalTokens regions ∧
      head' ++ (regionTokens regions' ++ tail) =
        before ++ .inr block.start :: (ofText block.inner ++ .inr block.stop :: after) ∧
      (regions'.map (·.block)).Perm (block :: regions.map (·.block)) := by
  rcases append_eq_cut h with ⟨rest, rfl, rfl⟩ | ⟨more, rfl, hmore⟩
  · refine ⟨before, ⟨block, between, rest⟩ :: regions, ?_, ?_, .rfl⟩
    · simp
    · simp
  · refine absurd hmore (not_stop_first he fun region hmem hin => ?_)
    exact hbetween region hmem (List.mem_append_right _ hin)

/-- Both markers of a block stand in one text between the regions. -/
theorem split_regions {regions : List (Region (UInt16 ⊕ Mark))}
    (h : head ++ (regionTokens regions ++ tail) =
      before ++ .inr block.start :: (between ++ .inr block.stop :: after))
    (hother : ∀ region ∈ regions, region.block.name ≠ block.name)
    (hs : .inr block.start ∉ tail) (he : .inr block.stop ∉ tail)
    (hbetween : ∀ region ∈ regions, .inr region.block.start ∉ between) :
    ∃ head' regions', head' ++ originalTokens regions' = head ++ originalTokens regions ∧
      head' ++ (regionTokens regions' ++ tail) =
        before ++ .inr block.start :: (ofText block.inner ++ .inr block.stop :: after) ∧
      (regions'.map (·.block)).Perm (block :: regions.map (·.block)) := by
  induction regions generalizing head before with
  | nil =>
    rcases append_eq_cut h with ⟨behind, rfl, hbehind⟩ | ⟨more, -, hmore⟩
    · exact split_head hbehind.symm he hbetween
    · have hmem : .inr block.start ∈ tail := by
        rw [show tail = more ++ .inr block.start :: (between ++ .inr block.stop :: after) from hmore]
        simp
      exact absurd hmem hs
  | cons region regions ih =>
    rcases append_eq_cut h with ⟨behind, rfl, hbehind⟩ | ⟨more, rfl, hmore⟩
    · exact split_head hbehind.symm he hbetween
    · -- the marker comes after those of the first region
      have hregion : .inr block.start ∉ tokenMark region.block.start ++
          (ofText region.block.inner ++ tokenMark region.block.stop) := by
        have hne := (hother region List.mem_cons_self).symm
        simp [tokenMark, hne]
      have hfirst : (tokenMark region.block.start ++
          (ofText region.block.inner ++ tokenMark region.block.stop)) ++
          (region.after ++ (regionTokens regions ++ tail)) =
          more ++ .inr block.start :: (between ++ .inr block.stop :: after) := by
        rw [← hmore, region_cons]
        simp [tokenMark]
      rcases append_eq_cut hfirst with ⟨behind, hbehind, -⟩ | ⟨skipped, rfl, hskipped⟩
      · rw [hbehind] at hregion
        simp at hregion
      · obtain ⟨head', regions', horiginal, hrewritten, hperm⟩ := ih hskipped
          (fun other hmem => hother other (List.mem_cons_of_mem _ hmem))
          fun other hmem => hbetween other (List.mem_cons_of_mem _ hmem)
        refine ⟨head, ⟨region.block, region.old, head'⟩ :: regions', ?_, ?_, ?_⟩
        · simp [horiginal]
        · simp [hrewritten, tokenMark]
        · exact (hperm.cons region.block).trans (.swap _ _ _)

-- -----
-- A turn in a layout
-- -----

variable {blocks done : List NamedBlock}

theorem mem_insertedTokens {inserted : List Insertion} {mark : Mark}
    (h : .inr mark ∈ insertedTokens inserted) :
    ∃ insertion ∈ inserted, mark = insertion.block.start ∨ mark = insertion.block.stop := by
  obtain ⟨insertion, hmem, h⟩ := List.mem_flatMap.mp h
  refine ⟨insertion, hmem, ?_⟩
  simpa [Insertion.written, tokenMark] using h

/-- A marker that is there once and stays is not removed. -/
theorem not_mem_between {mark : Mark} (hs : mark ≠ block.start) (he : mark ≠ block.stop)
    (honce : (marks (before ++ .inr block.start :: (between ++ .inr block.stop :: after))).count
      mark ≤ 1)
    (hkept : mark ∈ marks (before ++ .inr block.start ::
      (ofText block.inner ++ .inr block.stop :: after))) : .inr mark ∉ between := by
  intro hin
  have hbetween := List.count_pos_iff.mpr (mem_marks.mpr hin)
  have hrest : 0 < (marks before).count mark ∨ 0 < (marks after).count mark := by
    simpa [hs, he, List.count_pos_iff] using hkept
  simp only [marks_append, marks_mark, List.count_append, List.count_cons] at honce
  omega

theorem LaidOut.turn (h : LaidOut tokenMark ofText first tokens done)
    (hturn : TokenTurn block tokens tokens') (hother : ∀ other ∈ done, other.name ≠ block.name)
    (honce : ∀ other ∈ done, (marks tokens).count other.start ≤ 1)
    (hkept : ∀ other ∈ done, other.start ∈ marks tokens') :
    LaidOut tokenMark ofText first tokens' (block :: done) := by
  obtain ⟨head, regions, inserted, rfl, htokens, hseparators, hperm⟩ := h
  have hregion : ∀ region ∈ regions, region.block ∈ done := fun region hmem =>
    hperm.mem_iff.mp (List.mem_append_left _ (List.mem_map_of_mem hmem))
  have hinserted : ∀ insertion ∈ inserted, insertion.block ∈ done := fun insertion hmem =>
    hperm.mem_iff.mp (List.mem_append_right _ (List.mem_map_of_mem hmem))
  cases hturn with
  | insert hs he =>
    refine ⟨head, regions, inserted ++ [⟨leadIn (text tokens), block⟩], rfl, ?_, ?_, ?_⟩
    · rw [List.flatMap_append, List.flatMap_singleton, ← List.append_assoc, ← htokens]
      simp [Insertion.written, tokenMark]
    · intro insertion hmem
      rcases List.mem_append.mp hmem with earlier | here
      · exact hseparators insertion earlier
      · rw [List.mem_singleton.mp here]
        exact fun u hu => mem_leadIn hu
    · rw [List.map_append, ← List.append_assoc]
      exact (List.perm_append_singleton block _).trans (hperm.cons block)
  | @rewrite before between after hs he =>
    have htail : ∀ mark, mark = block.start ∨ mark = block.stop →
        .inr mark ∉ insertedTokens inserted := by
      intro mark hmark hmem
      obtain ⟨insertion, hin, heq⟩ := mem_insertedTokens hmem
      have hne := hother _ (hinserted insertion hin)
      rcases hmark with rfl | rfl <;> rcases heq with heq | heq
      · exact hne (Mark.start.inj heq).symm
      · cases heq
      · cases heq
      · exact hne (Mark.stop.inj heq).symm
    have hbetween : ∀ region ∈ regions, .inr region.block.start ∉ between := by
      intro region hmem
      have hne := hother _ (hregion region hmem)
      refine not_mem_between (by simpa using hne) (by simp) (honce _ (hregion region hmem))
        (hkept _ (hregion region hmem))
    rw [List.append_assoc] at htokens
    obtain ⟨head', regions', horiginal, hrewritten, hperm'⟩ := split_regions htokens.symm
      (fun region hmem => hother _ (hregion region hmem)) (htail _ (.inl rfl)) (htail _ (.inr rfl))
      hbetween
    refine ⟨head', regions', inserted, horiginal.symm, ?_, hseparators, ?_⟩
    · rw [List.append_assoc]
      exact hrewritten.symm
    · exact (hperm'.append_right _).trans (hperm.cons block)

-- -----
-- Runs
-- -----

/-- The blocks that had their turn are laid out, each with its markers once. -/
structure Settled (first tokens : FileTokens) (done : List NamedBlock) : Prop where
  laid : LaidOut tokenMark ofText first tokens done
  once : ∀ block ∈ done, (marks tokens).count block.start ≤ 1 ∧ (marks tokens).count block.stop ≤ 1

theorem Settled.init (tokens : FileTokens) : Settled tokens tokens [] :=
  ⟨⟨tokens, [], [], by simp, by simp, by simp, .rfl⟩, by simp⟩

theorem Settled.turn (h : Settled first tokens done) (hturn : TokenTurn block tokens tokens')
    (hother : ∀ other ∈ done, other.name ≠ block.name)
    (hkept : ∀ other ∈ done, other.start ∈ marks tokens') : Settled first tokens' (block :: done) := by
  refine ⟨h.laid.turn hturn hother (fun other hmem => (h.once other hmem).1) hkept, ?_⟩
  intro other hmem
  rcases List.mem_cons.mp hmem with rfl | earlier
  · obtain ⟨hs, he⟩ := hturn.marks.count_self
    exact ⟨hs.le, he.le⟩
  · have hne := hother other earlier
    obtain ⟨hs, he⟩ := h.once other earlier
    exact ⟨(hturn.marks.count_le (by simpa using hne) (by simp)).trans hs,
      (hturn.marks.count_le (by simp) (by simpa using hne)).trans he⟩

theorem Settled.turns (h : Settled first tokens done) (hturns : TokenTurns blocks tokens tokens')
    (hother : ∀ other ∈ done, ∀ block ∈ blocks, other.name ≠ block.name)
    (hnames : (blocks.map (·.name)).Nodup)
    (hkept : ∀ other ∈ blocks.reverse ++ done, other.start ∈ marks tokens') :
    Settled first tokens' (blocks.reverse ++ done) := by
  induction hturns generalizing done with
  | nil => exact h
  | @cons block blocks tokens middle tokens' first rest ih =>
    rw [List.map_cons, List.nodup_cons] at hnames
    rw [List.reverse_cons, List.append_assoc] at hkept ⊢
    have hlater : ∀ other ∈ done, other.start ∈ marks middle := by
      intro other hmem
      refine rest.marks.mem_of_mem ?_ (hkept other (by simp [hmem]))
      intro name hname
      obtain ⟨later, hlater, rfl⟩ := List.mem_map.mp hname
      have hne := hother other hmem later (List.mem_cons_of_mem _ hlater)
      simp [hne]
    refine ih (h.turn first (fun other hmem => hother other hmem block List.mem_cons_self) hlater)
      ?_ hnames.2 hkept
    intro other hmem later hlater
    rcases List.mem_cons.mp hmem with rfl | earlier
    · intro heq
      exact hnames.1 (heq ▸ List.mem_map_of_mem hlater)
    · exact hother other earlier later (List.mem_cons_of_mem _ hlater)

theorem not_mem_of_count {mark : Mark} (h : (marks (before ++ .inr mark :: after)).count mark ≤ 1) :
    .inr mark ∉ before ++ after := by
  simp only [marks_append, marks_mark, List.count_append, List.count_cons_self] at h
  rw [← mem_marks, ← List.count_eq_zero, marks_append, List.count_append]
  omega

/-- Each block that had its turn stands in the file once. -/
theorem Settled.stands (h : Settled first tokens done) (hmem : block ∈ done) :
    ∃ before after, tokens = before ++ .inr block.start ::
        (ofText block.inner ++ .inr block.stop :: after) ∧
      .inr block.start ∉ before ++ after ∧ .inr block.stop ∉ before ++ after := by
  obtain ⟨head, regions, inserted, -, rfl, -, hperm⟩ := h.laid
  have hcut : ∃ before after, head ++ regions.flatMap (·.rewritten tokenMark ofText) ++
      inserted.flatMap (·.written tokenMark ofText) = before ++ .inr block.start ::
        (ofText block.inner ++ .inr block.stop :: after) := by
    rcases List.mem_append.mp (hperm.mem_iff.mpr hmem) with hregion | hinsertion
    · obtain ⟨region, hin, rfl⟩ := List.mem_map.mp hregion
      obtain ⟨xs, ys, rfl⟩ := List.append_of_mem hin
      refine ⟨head ++ xs.flatMap (·.rewritten tokenMark ofText), region.after ++
        (ys.flatMap (·.rewritten tokenMark ofText) ++
          inserted.flatMap (·.written tokenMark ofText)), ?_⟩
      simp [Region.rewritten, tokenMark]
    · obtain ⟨insertion, hin, rfl⟩ := List.mem_map.mp hinsertion
      obtain ⟨xs, ys, rfl⟩ := List.append_of_mem hin
      refine ⟨head ++ (regions.flatMap (·.rewritten tokenMark ofText) ++
        (xs.flatMap (·.written tokenMark ofText) ++ ofText insertion.separator)), ofText [LF] ++
          ys.flatMap (·.written tokenMark ofText), ?_⟩
      simp [Insertion.written, tokenMark]
  obtain ⟨before, after, heq⟩ := hcut
  obtain ⟨hs, he⟩ := h.once block hmem
  rw [heq] at hs he
  refine ⟨before, after, heq, by simpa using not_mem_of_count hs, ?_⟩
  have hsame : before ++ .inr block.start :: (ofText block.inner ++ .inr block.stop :: after) =
      (before ++ .inr block.start :: ofText block.inner) ++ .inr block.stop :: after := by simp
  rw [hsame] at he
  simpa using not_mem_of_count he

-- -----
-- Correct calls
-- -----

/-- A block stands in a text with its trimmed body, and its markers nowhere else. -/
def ContainsOnce (block : NamedBlock) (next : Str) : Prop :=
  ∃ before after, next = before ++ blockText block.body block.start.text block.stop.text ++ after ∧
    OnlyAt block.start.text next before.length ∧
    OnlyAt block.stop.text next (before.length + (block.start.text ++ block.inner).length)

/-- A call throws for markers that are not well paired only. Otherwise its result has each block
once, is laid out as before, and stays as it is in another call. -/
structure Correct (blocks : List NamedBlock) (current : Str) : Prop where
  throws : (∃ message, reconcileNamedBlocks current blocks = .error message) ↔
    ∃ block ∈ blocks, ¬ WellPaired block.start.text block.stop.text current
  contains : ∀ result, reconcileNamedBlocks current blocks = .ok result →
    ∀ block ∈ blocks, ContainsOnce block result.next
  laidOut : ∀ result, reconcileNamedBlocks current blocks = .ok result →
    LaidOut Mark.text id current result.next blocks
  again : ∀ result, reconcileNamedBlocks current blocks = .ok result →
    reconcileNamedBlocks result.next blocks = .ok ⟨result.next, []⟩

/-- The turns go through exactly when the markers of each name are paired before the first of
them, and no name loses its markers in the turn of a later one. -/
def Settles (names : List Str) (marks : List Mark) : Prop :=
  ((∃ marks', Turns names marks marks') ↔ ∀ name ∈ names, ∃ marks', Turn name marks marks') ∧
    ∀ marks', Turns names marks marks' →
      ∀ name ∈ names, .start name ∈ marks' ∧ .stop name ∈ marks'

section
variable {names : List Str} (hsep : Separate Mark.text (· ∈ knownMarks names))
  (ht : Tight Mark.text (· ∈ knownMarks names) tokens) (hnamed : Named names blocks)
include hsep ht

theorem wellPaired_iff_turn (hname : block.name ∈ names) :
    WellPaired block.start.text block.stop.text (text tokens) ↔
      ∃ marks', Turn block.name (marks tokens) marks' := by
  rw [wellPaired_iff hsep ht hname]
  constructor
  · rintro ⟨tokens', hturn⟩
    exact ⟨_, hturn.marks⟩
  · rintro ⟨marks', hturn⟩
    obtain ⟨tokens', hlift, -⟩ := hturn.lift
    exact ⟨tokens', hlift⟩

include hnamed

theorem ok_iff_turns : (∃ result, reconcileNamedBlocks (text tokens) blocks = .ok result) ↔
    ∃ marks', Turns (blocks.map (·.name)) (marks tokens) marks' := by
  constructor
  · rintro ⟨result, h⟩
    obtain ⟨tokens', hturns, -⟩ := tokenTurns_of_ok hsep hnamed ht h
    exact ⟨_, hturns.marks⟩
  · rintro ⟨marks', hturns⟩
    obtain ⟨tokens', hlift, -⟩ := hturns.lift
    obtain ⟨changed, h⟩ := hlift.reconcile hsep hnamed ht []
    exact ⟨_, h⟩

theorem throws_iff : (∃ message, reconcileNamedBlocks (text tokens) blocks = .error message) ↔
    ¬ ∃ marks', Turns (blocks.map (·.name)) (marks tokens) marks' := by
  rw [← ok_iff_turns hsep ht hnamed]
  cases reconcileNamedBlocks (text tokens) blocks with
  | ok result => simp
  | error message => simp

omit hnamed in
theorem containsOnce_of_stands (hname : block.name ∈ names)
    (heq : tokens = before ++ .inr block.start :: (ofText block.inner ++ .inr block.stop :: after))
    (hs : .inr block.start ∉ before ++ after) (he : .inr block.stop ∉ before ++ after) :
    ContainsOnce block (text tokens) := by
  obtain ⟨hstart, hstop⟩ := mem_knownMarks hname
  refine ⟨text before, text after, ?_, (ht.onlyAt_iff hsep hstart _).mpr ⟨before, _, heq, ?_, ?_, rfl⟩,
    (ht.onlyAt_iff hsep hstop _).mpr
      ⟨before ++ .inr block.start :: ofText block.inner, after, ?_, ?_, ?_, ?_⟩⟩
  · rw [heq]
    simp [text, blockText, NamedBlock.inner]
  all_goals simp_all

omit hnamed in
/-- Another turn of a block that stands in a file leaves it as it is. -/
theorem reconcileLoop_stands (hstands : ∀ block ∈ blocks, block.name ∈ names ∧
      ∃ before after, tokens = before ++ .inr block.start ::
          (ofText block.inner ++ .inr block.stop :: after) ∧
        .inr block.start ∉ before ++ after ∧ .inr block.stop ∉ before ++ after)
    (changed : List Str) :
    reconcileLoop (text tokens) changed blocks = .ok ⟨text tokens, changed⟩ := by
  induction blocks with
  | nil => rfl
  | cons block blocks ih =>
    obtain ⟨hname, before, after, heq, hs, he⟩ := hstands block List.mem_cons_self
    have hturn : TokenTurn block tokens tokens := by
      rw [heq]
      exact .rewrite (by simpa using hs) (by simpa using he)
    rw [reconcileLoop, hturn.reconcile hsep hname ht]
    dsimp only
    rw [if_neg (by simp)]
    exact ih fun other hmem => hstands other (List.mem_cons_of_mem _ hmem)

end

/-- The region of a file, as text. -/
def Region.text (region : Region (UInt16 ⊕ Mark)) : Region UInt16 :=
  ⟨region.block, Setup.text region.old, Setup.text region.after⟩

theorem LaidOut.text (h : LaidOut tokenMark ofText first tokens blocks) :
    LaidOut Mark.text id (Setup.text first) (Setup.text tokens) blocks := by
  obtain ⟨head, regions, inserted, rfl, rfl, hseparators, hperm⟩ := h
  refine ⟨Setup.text head, regions.map Region.text, inserted, ?_, ?_, hseparators, ?_⟩
  · rw [Setup.text, render_append, render_flatMap, List.flatMap_map]
    simp [Region.original, tokenMark, Region.text]
  · rw [Setup.text, render_append, render_append, render_flatMap, render_flatMap, List.flatMap_map]
    simp [Region.rewritten, Insertion.written, tokenMark, Region.text]
  · rw [List.map_map]
    exact hperm

/-- The markers of distinct names are distinct. -/
theorem nodup_knownMarks {names : List Str} (h : names.Nodup) : (knownMarks names).Nodup := by
  refine List.nodup_flatMap.mpr ⟨fun name _ => by simp, h.imp fun hne => ?_⟩
  simp [Function.onFun, hne.symm]

/-- Calls are correct for exactly the files whose blocks settle: it depends on nothing but the
order of the markers in the file. -/
theorem reconcileNamedBlocks_correct (blocks : List NamedBlock) (current : Str)
    (hnames : (blocks.map (·.name)).Nodup)
    (hsep : Separate Mark.text (· ∈ knownMarks (blocks.map (·.name))))
    (hbodies : ∀ block ∈ blocks, Unmarked (blocks.map (·.name)) block.body) :
    Correct blocks current ↔ Settles (blocks.map (·.name))
      (marksOf Mark.text (knownMarks (blocks.map (·.name))) current) := by
  have hnamed : Named (blocks.map (·.name)) blocks := fun block hmem =>
    ⟨List.mem_map_of_mem hmem, hbodies block hmem⟩
  obtain ⟨tokens, ht, rfl⟩ := exists_tight hsep current
  rw [marksOf_render hsep (nodup_knownMarks hnames) ht]
  have hpaired : (∃ block ∈ blocks, ¬ WellPaired block.start.text block.stop.text (text tokens)) ↔
      ¬ ∀ name ∈ blocks.map (·.name), ∃ marks', Turn name (marks tokens) marks' := by
    rw [List.forall_mem_map]
    push Not
    refine exists_congr fun block => and_congr_right fun hmem => ?_
    rw [wellPaired_iff_turn hsep ht (List.mem_map_of_mem hmem), not_exists]
  have hthrows := throws_iff hsep ht hnamed
  constructor
  · intro h
    refine ⟨not_iff_not.mp (hthrows.symm.trans (h.throws.trans hpaired)), ?_⟩
    intro marks' hturns name hname
    obtain ⟨tokens', hlift, rfl⟩ := hturns.lift
    have ht' := hlift.tight hsep hnamed ht
    obtain ⟨changed, hok⟩ := hlift.reconcile hsep hnamed ht []
    obtain ⟨block, hmem, rfl⟩ := List.mem_map.mp hname
    obtain ⟨before, after, -, hs, he⟩ := h.contains _ hok block hmem
    obtain ⟨hstart, hstop⟩ := mem_knownMarks hname
    refine ⟨mem_marks.mpr ?_, mem_marks.mpr ?_⟩
    · obtain ⟨xs, ys, heq, -⟩ := (ht'.occursAt_iff hstart _).mp ((hs _).mpr rfl)
      simp [heq]
    · obtain ⟨xs, ys, heq, -⟩ := (ht'.occursAt_iff hstop _).mp ((he _).mpr rfl)
      simp [heq]
  · rintro ⟨hthrough, hkept⟩
    have hsettled : ∀ result, reconcileNamedBlocks (text tokens) blocks = .ok result →
        ∃ tokens', Tight Mark.text (· ∈ knownMarks (blocks.map (·.name))) tokens' ∧
          result.next = text tokens' ∧ Settled tokens tokens' blocks.reverse := by
      intro result hok
      obtain ⟨tokens', hturns, hnext⟩ := tokenTurns_of_ok hsep hnamed ht hok
      refine ⟨tokens', hturns.tight hsep hnamed ht, hnext, ?_⟩
      rw [← List.append_nil blocks.reverse]
      refine (Settled.init tokens).turns hturns (by simp) hnames fun block hmem => ?_
      have hin : block ∈ blocks := by simpa using hmem
      exact (hkept _ hturns.marks _ (List.mem_map_of_mem hin)).1
    constructor
    · rw [hthrows, hpaired, hthrough]
    · intro result hok block hmem
      obtain ⟨tokens', ht', hnext, settled⟩ := hsettled result hok
      obtain ⟨before, after, heq, hs, he⟩ := settled.stands (List.mem_reverse.mpr hmem)
      rw [hnext]
      exact containsOnce_of_stands hsep ht' (List.mem_map_of_mem hmem) heq hs he
    · intro result hok
      obtain ⟨tokens', -, hnext, settled⟩ := hsettled result hok
      obtain ⟨head, regions, inserted, hfirst, hlast, hseparators, hperm⟩ := settled.laid.text
      rw [hnext]
      exact ⟨head, regions, inserted, hfirst, hlast, hseparators,
        hperm.trans (List.reverse_perm blocks)⟩
    · intro result hok
      obtain ⟨tokens', ht', hnext, settled⟩ := hsettled result hok
      rw [hnext]
      refine reconcileLoop_stands hsep ht' (fun block hmem => ?_) []
      exact ⟨List.mem_map_of_mem hmem, settled.stands (List.mem_reverse.mpr hmem)⟩

/-- The markers of names without angle brackets do not overlap. -/
theorem separate_of_plain {names : List Str} (h : ∀ name ∈ names, Plain name) :
    Separate Mark.text (· ∈ knownMarks names) := by
  refine separate_of_framed Mark.text _ (fun mark hmark => Mark.framed ?_) fun _ _ _ _ heq =>
    Mark.text_injective heq
  obtain ⟨name, hname, hmem⟩ := List.mem_flatMap.mp hmark
  rcases List.mem_cons.mp hmem with rfl | hmem
  · exact h name hname
  · rw [List.mem_singleton.mp hmem]
    exact h name hname

/-- Two blocks of one file. -/
def guides : List NamedBlock :=
  [⟨lit "append-system", lit "Be brief."⟩, ⟨lit "correspondence", lit "Be kind."⟩]

theorem guides_plain : ∀ name ∈ guides.map (·.name), Plain name := by
  simp only [guides, Plain]
  decide

theorem guides_unmarked : ∀ block ∈ guides, Unmarked (guides.map (·.name)) block.body := by
  simp only [guides, Unmarked]
  decide

theorem reconcileNamedBlocks_correct_guides :
    Correct guides (lit "Mine.") ↔ Settles (guides.map (·.name))
      (marksOf Mark.text (knownMarks (guides.map (·.name))) (lit "Mine.")) :=
  reconcileNamedBlocks_correct guides (lit "Mine.") (by decide) (separate_of_plain guides_plain)
    guides_unmarked

/-- The region of the second block around the first block. -/
def nested : Str :=
  (Mark.start (lit "correspondence")).text ++ [LF] ++
    blockText (lit "Be brief.") (Mark.start (lit "append-system")).text
      (Mark.stop (lit "append-system")).text ++ [LF] ++ (Mark.stop (lit "correspondence")).text

/-- The first block is removed again in the turn of the second. -/
theorem nested_incorrect :
    reconcileNamedBlocks nested guides = .ok ⟨blockText (lit "Be kind.")
        (Mark.start (lit "correspondence")).text (Mark.stop (lit "correspondence")).text,
      [lit "correspondence"]⟩ ∧ ¬ Correct guides nested := by
  have hresult : reconcileNamedBlocks nested guides = .ok ⟨blockText (lit "Be kind.")
      (Mark.start (lit "correspondence")).text (Mark.stop (lit "correspondence")).text,
      [lit "correspondence"]⟩ := by
    decide +kernel
  refine ⟨hresult, fun correct => ?_⟩
  have hagain := correct.again _ hresult
  revert hagain
  decide +kernel

end

end PiEnv.Setup
