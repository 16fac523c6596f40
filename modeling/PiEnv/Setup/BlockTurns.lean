import PiEnv.Setup.ManagedBlock

/-!
# The turns of the blocks

What a turn does to a file can be read from its markers: a block whose two markers
are there once loses what is between them, a block without markers gets them at the
end, and with any other markers the turn throws.
-/

namespace PiEnv.Setup

open Js Markers

-- -----
-- Turns on the markers
-- -----

/-- What one turn leaves of the markers of a file. -/
inductive Turn (name : Str) : List Mark → List Mark → Prop
  | insert {marks : List Mark} (hs : .start name ∉ marks) (he : .stop name ∉ marks) :
      Turn name marks (marks ++ [.start name, .stop name])
  | rewrite {before between after : List Mark} (hs : .start name ∉ before ++ between ++ after)
      (he : .stop name ∉ before ++ between ++ after) :
      Turn name (before ++ .start name :: (between ++ .stop name :: after))
        (before ++ .start name :: .stop name :: after)

/-- The turns of several names, one after the other. -/
inductive Turns : List Str → List Mark → List Mark → Prop
  | nil {marks : List Mark} : Turns [] marks marks
  | cons {name : Str} {names : List Str} {marks marks' marks'' : List Mark}
      (first : Turn name marks marks') (rest : Turns names marks' marks'') :
      Turns (name :: names) marks marks''

section
variable {name : Str} {names : List Str} {marks marks' : List Mark} {mark : Mark}

theorem Turn.count_self (h : Turn name marks marks') :
    marks'.count (.start name) = 1 ∧ marks'.count (.stop name) = 1 := by
  cases h with
  | insert hs he => simp [List.count_eq_zero.mpr hs, List.count_eq_zero.mpr he]
  | @rewrite before between after hs he =>
    simp only [List.mem_append, not_or] at hs he
    simp [List.count_eq_zero.mpr, hs, he]

/-- A turn adds no markers of other names. -/
theorem Turn.count_le (h : Turn name marks marks') (hs : mark ≠ .start name)
    (he : mark ≠ .stop name) : marks'.count mark ≤ marks.count mark := by
  cases h with
  | insert _ _ => simp [hs.symm, he.symm]
  | rewrite _ _ =>
    simp only [List.count_append, List.count_cons]
    omega

/-- The marker of a name that has no turn was there before. -/
theorem Turns.mem_of_mem (h : Turns names marks marks')
    (hother : ∀ name ∈ names, mark ≠ .start name ∧ mark ≠ .stop name) (hmem : mark ∈ marks') :
    mark ∈ marks := by
  induction h with
  | nil => exact hmem
  | cons first _ ih =>
    have hlater := ih (fun name hname => hother name (List.mem_cons_of_mem _ hname)) hmem
    obtain ⟨hs, he⟩ := hother _ List.mem_cons_self
    exact List.count_pos_iff.mp (lt_of_lt_of_le (List.count_pos_iff.mpr hlater)
      (first.count_le hs he))

end

-- -----
-- Turns on the tokens
-- -----

abbrev FileTokens := Tokens UInt16 Mark

abbrev text (tokens : FileTokens) : Str := render Mark.text tokens

namespace NamedBlock

abbrev start (block : NamedBlock) : Mark := .start block.name

abbrev stop (block : NamedBlock) : Mark := .stop block.name

/-- What is written between the markers. -/
def inner (block : NamedBlock) : Str := [LF] ++ trim block.body ++ [LF]

end NamedBlock

inductive TokenTurn (block : NamedBlock) : FileTokens → FileTokens → Prop
  | insert {tokens : FileTokens} (hs : .inr block.start ∉ tokens) (he : .inr block.stop ∉ tokens) :
      TokenTurn block tokens (tokens ++ ofText (leadIn (text tokens)) ++
        .inr block.start :: (ofText block.inner ++ .inr block.stop :: ofText [LF]))
  | rewrite {before between after : FileTokens} (hs : .inr block.start ∉ before ++ between ++ after)
      (he : .inr block.stop ∉ before ++ between ++ after) :
      TokenTurn block (before ++ .inr block.start :: (between ++ .inr block.stop :: after))
        (before ++ .inr block.start :: (ofText block.inner ++ .inr block.stop :: after))

inductive TokenTurns : List NamedBlock → FileTokens → FileTokens → Prop
  | nil {tokens : FileTokens} : TokenTurns [] tokens tokens
  | cons {block : NamedBlock} {blocks : List NamedBlock} {tokens tokens' tokens'' : FileTokens}
      (first : TokenTurn block tokens tokens') (rest : TokenTurns blocks tokens' tokens'') :
      TokenTurns (block :: blocks) tokens tokens''

/-- The markers of names. -/
def knownMarks (names : List Str) : List Mark := names.flatMap fun name => [.start name, .stop name]

theorem mem_knownMarks {names : List Str} {name : Str} (h : name ∈ names) :
    .start name ∈ knownMarks names ∧ .stop name ∈ knownMarks names :=
  ⟨List.mem_flatMap.mpr ⟨name, h, by simp⟩, List.mem_flatMap.mpr ⟨name, h, by simp⟩⟩

/-- A body is without markers. -/
def Unmarked (names : List Str) (body : Str) : Prop :=
  ∀ mark ∈ knownMarks names, ¬ mark.text <:+: body

section
variable {block : NamedBlock} {blocks : List NamedBlock} {tokens tokens' : FileTokens}
  {names : List Str}

theorem TokenTurn.marks (h : TokenTurn block tokens tokens') :
    Turn block.name (Markers.marks tokens) (Markers.marks tokens') := by
  cases h with
  | insert hs he =>
    have hturn : Turn block.name (Markers.marks tokens)
        (Markers.marks tokens ++ [block.start, block.stop]) :=
      .insert (mem_marks.not.mpr hs) (mem_marks.not.mpr he)
    simpa using hturn
  | @rewrite before between after hs he =>
    have hturn : Turn block.name
        (Markers.marks before ++ block.start :: (Markers.marks between ++ block.stop :: Markers.marks after))
        (Markers.marks before ++ block.start :: block.stop :: Markers.marks after) := by
      refine .rewrite ?_ ?_
      · simpa [mem_marks] using hs
      · simpa [mem_marks] using he
    simpa using hturn

theorem marks_split {i : Mark} {before after : List Mark}
    (h : Markers.marks tokens = before ++ i :: after) :
    ∃ xs ys, tokens = xs ++ .inr i :: ys ∧ Markers.marks xs = before ∧ Markers.marks ys = after := by
  obtain ⟨xs, rest, rfl, hxs, hrest⟩ := List.filterMap_eq_append_iff.mp h
  obtain ⟨skipped, token, ys, rfl, hskipped, htoken, hys⟩ := List.filterMap_eq_cons_iff.mp hrest
  obtain rfl := Sum.getRight?_eq_some_iff.mp htoken
  have hnone : Markers.marks skipped = [] := List.filterMap_eq_nil_iff.mpr hskipped
  refine ⟨xs ++ skipped, ys, by simp, ?_, hys⟩
  rw [marks_append, hnone, List.append_nil]
  exact hxs

theorem Turn.lift {marks' : List Mark} (h : Turn block.name (Markers.marks tokens) marks') :
    ∃ tokens', TokenTurn block tokens tokens' ∧ Markers.marks tokens' = marks' := by
  generalize hmarks : Markers.marks tokens = marks at h
  cases h with
  | insert hs he =>
    subst hmarks
    refine ⟨_, .insert (mem_marks.not.mp hs) (mem_marks.not.mp he), ?_⟩
    simp
  | @rewrite before between after hs he =>
    obtain ⟨xs, rest, rfl, rfl, hrest⟩ := marks_split hmarks
    obtain ⟨ys, zs, rfl, rfl, rfl⟩ := marks_split hrest
    have hturn : TokenTurn block (xs ++ .inr block.start :: (ys ++ .inr block.stop :: zs))
        (xs ++ .inr block.start :: (ofText block.inner ++ .inr block.stop :: zs)) := by
      refine .rewrite ?_ ?_
      · simpa [mem_marks] using hs
      · simpa [mem_marks] using he
    exact ⟨_, hturn, by simp⟩

theorem TokenTurns.marks (h : TokenTurns blocks tokens tokens') :
    Turns (blocks.map (·.name)) (Markers.marks tokens) (Markers.marks tokens') := by
  induction h with
  | nil => exact .nil
  | cons first _ ih => exact .cons first.marks ih

theorem Turns.lift {marks' : List Mark}
    (h : Turns (blocks.map (·.name)) (Markers.marks tokens) marks') :
    ∃ tokens', TokenTurns blocks tokens tokens' ∧ Markers.marks tokens' = marks' := by
  induction blocks generalizing tokens with
  | nil =>
    cases h
    exact ⟨tokens, .nil, rfl⟩
  | cons block blocks ih =>
    cases h with
    | cons first rest =>
      obtain ⟨middle, hfirst, rfl⟩ := first.lift
      obtain ⟨tokens', hrest, hmarks⟩ := ih rest
      exact ⟨tokens', .cons hfirst hrest, hmarks⟩

-- -----
-- Tight files
-- -----

theorem mark_head (mark : Mark) : mark.text.head? = some 60 := by cases mark <;> rfl

theorem mark_getLast (mark : Mark) : mark.text.getLast? = some 62 := by
  cases mark <;> rw [Mark.text, List.getLast?_append] <;> rfl

theorem trim_within (s : Str) : trim s <:+: s :=
  (trimEnd_isPrefix _).isInfix.trans (List.dropWhile_suffix _).isInfix

theorem ofText_append (s t : Str) : (ofText (s ++ t) : FileTokens) = ofText s ++ ofText t :=
  List.map_append

variable (hsep : Separate Mark.text (· ∈ knownMarks names))
include hsep

theorem tight_append_LF {s : Str} (hs : ∀ u ∈ s, u = LF)
    (ht : Tight Mark.text (· ∈ knownMarks names) tokens) :
    Tight Mark.text (· ∈ knownMarks names) (tokens ++ ofText s) := by
  refine ht.append_ofText hsep fun mark _ u hu heq => ?_
  rw [mark_getLast, hs u hu] at heq
  exact absurd heq (by decide)

theorem tight_inner (hbody : Unmarked names block.body) :
    Tight Mark.text (· ∈ knownMarks names) (ofText block.inner) := by
  have hfirst : Tight Mark.text (· ∈ knownMarks names) (ofText ([LF] ++ trim block.body)) := by
    refine Tight.of_text fun mark hmark hin => ?_
    rcases List.infix_cons_iff.mp hin with ⟨rest, heq⟩ | hin
    · have hhead := congrArg List.head? heq
      rw [List.head?_append, mark_head] at hhead
      exact absurd (Option.some.inj hhead) (by decide)
    · exact hbody mark hmark (hin.trans (trim_within _))
  rw [NamedBlock.inner, ofText_append]
  exact tight_append_LF hsep (by simp) hfirst

theorem TokenTurn.tight (h : TokenTurn block tokens tokens') (hname : block.name ∈ names)
    (hbody : Unmarked names block.body) (ht : Tight Mark.text (· ∈ knownMarks names) tokens) :
    Tight Mark.text (· ∈ knownMarks names) tokens' := by
  obtain ⟨hstart, hstop⟩ := mem_knownMarks hname
  have hinner := tight_inner hsep hbody
  cases h with
  | insert _ _ =>
    have hlast : Tight Mark.text (· ∈ knownMarks names) ([] ++ ofText [LF]) :=
      tight_append_LF hsep (by simp) (Tight.nil hsep)
    exact (tight_append_LF hsep (fun u hu => mem_leadIn hu) ht).mark hsep hstart
      (hinner.mark hsep hstop hlast)
  | @rewrite before between after _ _ =>
    have hafter : Tight Mark.text (· ∈ knownMarks names)
        ((before ++ .inr block.start :: (between ++ [.inr block.stop])) ++ after) := by
      simpa using ht
    exact (ht.left hsep).mark hsep hstart (hinner.mark hsep hstop (hafter.right hsep))

-- -----
-- Calls are turns
-- -----

theorem wellPaired_iff (ht : Tight Mark.text (· ∈ knownMarks names) tokens) (hname : block.name ∈ names) :
    WellPaired block.start.text block.stop.text (text tokens) ↔
      ∃ tokens', TokenTurn block tokens tokens' := by
  obtain ⟨hstart, hstop⟩ := mem_knownMarks hname
  constructor
  · rintro (⟨hs, he⟩ | ⟨i, j, hij, hs, he⟩)
    · exact ⟨_, .insert ((ht.absent_iff hstart).mp hs) ((ht.absent_iff hstop).mp he)⟩
    · obtain ⟨before, rest, rfl, hb, hr, rfl⟩ := (ht.onlyAt_iff hsep hstart i).mp hs
      obtain ⟨before', after, heq, hb', ha', rfl⟩ := (ht.onlyAt_iff hsep hstop j).mp he
      rcases List.append_eq_append_iff.mp heq with ⟨more, rfl, hmore⟩ | ⟨more, rfl, -⟩
      · cases more with
        | nil => cases hmore
        | cons token between =>
          obtain ⟨rfl, rfl⟩ := List.cons.inj hmore
          refine ⟨_, .rewrite ?_ ?_⟩
          · simp_all
          · simp_all
      · rw [render_append, List.length_append] at hij
        omega
  · rintro ⟨tokens', hturn⟩
    cases hturn with
    | insert hs he => exact .inl ⟨(ht.absent_iff hstart).mpr hs, (ht.absent_iff hstop).mpr he⟩
    | @rewrite before between after hs he =>
      refine .inr ⟨_, _, ?_, (ht.onlyAt_iff hsep hstart _).mpr ⟨before, _, rfl, ?_, ?_, rfl⟩,
        (ht.onlyAt_iff hsep hstop _).mpr ⟨before ++ .inr block.start :: between, after, ?_, ?_, ?_, rfl⟩⟩
      · have hpos : 0 < block.start.text.length := List.length_pos_iff.mpr (hsep.ne_nil _ hstart)
        simp only [render_append, render_mark, List.length_append]
        omega
      all_goals simp_all

theorem TokenTurn.reconcile (h : TokenTurn block tokens tokens') (hname : block.name ∈ names)
    (ht : Tight Mark.text (· ∈ knownMarks names) tokens) :
    reconcileManagedBlock (text tokens) block.body block.start.text block.stop.text =
      .ok (text tokens') := by
  obtain ⟨hstart, hstop⟩ := mem_knownMarks hname
  cases h with
  | insert hs he =>
    rw [reconcile_absent ((ht.absent_iff hstart).mpr hs) ((ht.absent_iff hstop).mpr he)]
    simp [text, blockText, NamedBlock.inner]
  | @rewrite before between after hs he =>
    have hstartAt : OnlyAt block.start.text (text (before ++ .inr block.start ::
        (between ++ .inr block.stop :: after))) (text before).length :=
      (ht.onlyAt_iff hsep hstart _).mpr ⟨before, _, rfl, by simp_all, by simp_all, rfl⟩
    have hstopAt : OnlyAt block.stop.text (text (before ++ .inr block.start ::
        (between ++ .inr block.stop :: after))) (text (before ++ .inr block.start :: between)).length :=
      (ht.onlyAt_iff hsep hstop _).mpr
        ⟨before ++ .inr block.start :: between, after, by simp, by simp_all, by simp_all, rfl⟩
    have hlt : (text before).length < (text (before ++ .inr block.start :: between)).length := by
      have hpos : 0 < block.start.text.length := List.length_pos_iff.mpr (hsep.ne_nil _ hstart)
      simp only [text, render_append, render_mark, List.length_append]
      omega
    have htake : (text (before ++ .inr block.start :: (between ++ .inr block.stop :: after))).take
        (text before).length = text before := by
      simp only [text, render_append, List.take_left]
    have hdrop : (text (before ++ .inr block.start :: (between ++ .inr block.stop :: after))).drop
        ((text (before ++ .inr block.start :: between)).length + block.stop.text.length) =
          text after := by
      have hsplit : text (before ++ .inr block.start :: (between ++ .inr block.stop :: after)) =
          (text (before ++ .inr block.start :: between) ++ block.stop.text) ++ text after := by
        simp [text]
      rw [hsplit, ← List.length_append, List.drop_left]
    rw [reconcile_present hsep hstart hstop hstartAt hstopAt hlt, htake, hdrop]
    simp [text, blockText, NamedBlock.inner]

theorem tokenTurn_of_ok {next : Str} (hname : block.name ∈ names)
    (ht : Tight Mark.text (· ∈ knownMarks names) tokens)
    (h : reconcileManagedBlock (text tokens) block.body block.start.text block.stop.text = .ok next) :
    ∃ tokens', TokenTurn block tokens tokens' ∧ next = text tokens' := by
  obtain ⟨hstart, hstop⟩ := mem_knownMarks hname
  obtain ⟨tokens', hturn⟩ :=
    (wellPaired_iff hsep ht hname).mp (wellPaired_of_ok hsep hstart hstop h)
  exact ⟨tokens', hturn, Except.ok.inj (h.symm.trans (hturn.reconcile hsep hname ht))⟩

/-- The names of blocks whose bodies have no markers. -/
def Named (names : List Str) (blocks : List NamedBlock) : Prop :=
  ∀ block ∈ blocks, block.name ∈ names ∧ Unmarked names block.body

omit hsep in
theorem Named.tail (h : Named names (block :: blocks)) : Named names blocks :=
  fun other hother => h other (List.mem_cons_of_mem _ hother)

theorem TokenTurns.tight (h : TokenTurns blocks tokens tokens') (hnamed : Named names blocks)
    (ht : Tight Mark.text (· ∈ knownMarks names) tokens) :
    Tight Mark.text (· ∈ knownMarks names) tokens' := by
  induction h with
  | nil => exact ht
  | cons first _ ih =>
    obtain ⟨hname, hbody⟩ := hnamed _ List.mem_cons_self
    exact ih hnamed.tail (first.tight hsep hname hbody ht)

/-- A call goes through the turns. -/
theorem TokenTurns.reconcile (h : TokenTurns blocks tokens tokens') (hnamed : Named names blocks)
    (ht : Tight Mark.text (· ∈ knownMarks names) tokens) (changed : List Str) :
    ∃ changed', reconcileLoop (text tokens) changed blocks = .ok ⟨text tokens', changed'⟩ := by
  induction h generalizing changed with
  | nil => exact ⟨changed, rfl⟩
  | cons first _ ih =>
    obtain ⟨hname, hbody⟩ := hnamed _ List.mem_cons_self
    rw [reconcileLoop, first.reconcile hsep hname ht]
    exact ih hnamed.tail (first.tight hsep hname hbody ht) _

theorem tokenTurns_of_ok {changed : List Str} {result : Reconciled} (hnamed : Named names blocks)
    (ht : Tight Mark.text (· ∈ knownMarks names) tokens)
    (h : reconcileLoop (text tokens) changed blocks = .ok result) :
    ∃ tokens', TokenTurns blocks tokens tokens' ∧ result.next = text tokens' := by
  induction blocks generalizing tokens changed with
  | nil =>
    rw [← Except.ok.inj h]
    exact ⟨tokens, .nil, rfl⟩
  | cons block blocks ih =>
    obtain ⟨hname, hbody⟩ := hnamed _ List.mem_cons_self
    rw [reconcileLoop] at h
    split at h
    · cases h
    · rename_i next hnext
      obtain ⟨middle, hturn, rfl⟩ := tokenTurn_of_ok hsep hname ht hnext
      obtain ⟨tokens', hrest, heq⟩ := ih hnamed.tail (hturn.tight hsep hname hbody ht) h
      exact ⟨tokens', .cons hturn hrest, heq⟩

end

end PiEnv.Setup
