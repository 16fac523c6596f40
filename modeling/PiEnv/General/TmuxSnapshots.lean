import PiEnv.General.TmuxStatus
import PiEnv.Lib.JsonNumber

/-!
# What a window command compares

The text that a window command expects is told apart from every other text
that the panes of the window may have, where no option reads as a format and
none holds the end of one entry and the start of another. The status that it
stores is then the one of the panes as they are.
-/

namespace PiEnv.General

open Js Tmux Framing

-- -----
-- Plain texts
-- -----

/-- No `#` stands before what a format would put something else for. -/
def Steady (text : Str) : Prop := text.IsChain fun a b => ¬ (a = 35 ∧ (b = 35 ∨ b ∈ aliases))

instance (text : Str) : Decidable (Steady text) := inferInstanceAs (Decidable (List.IsChain _ text))

/-- A text that is itself in a format, and that holds no `~` before a `%`. -/
structure Plain (text : Str) : Prop where
  steady : Steady text
  unbroken : Unbroken 37 126 text

instance (text : Str) : Decidable (Plain text) :=
  decidable_of_iff (Steady text ∧ Unbroken 37 126 text)
    ⟨fun h => ⟨h.1, h.2⟩, fun h => ⟨h.steady, h.unbroken⟩⟩

theorem expand_steady {aliasOf : UInt16 → Option Str} (ha : ∀ u, u ∉ aliases → aliasOf u = none)
    (text : Str) (h : Steady text) : expand aliasOf text = text := by
  fun_induction expand aliasOf text with
  | case1 rest ih => exact absurd ⟨rfl, .inl rfl⟩ (List.isChain_cons_cons.mp h).1
  | case2 u rest hu value hvalue ih =>
    have hmem : u ∈ aliases := Classical.not_not.mp fun hno => nomatch (ha u hno).symm.trans hvalue
    exact absurd ⟨rfl, .inr hmem⟩ (List.isChain_cons_cons.mp h).1
  | case3 u rest hu hnone ih => rw [ih h.tail.tail]
  | case4 u rest hu ih => rw [ih h.tail]
  | case5 => rfl

theorem expand_cons {aliasOf : UInt16 → Option Str} {u : UInt16} (h : u ≠ 35) (rest : Str) :
    expand aliasOf (u :: rest) = u :: expand aliasOf rest :=
  expand.eq_2 aliasOf u rest fun _ _ hu _ => h hu

/-- A mark that is no part of an alias divides a format. -/
theorem expand_mark {aliasOf : UInt16 → Option Str} {mark : UInt16} (hmark : mark ≠ 35)
    (hnone : aliasOf mark = none) (xs ys : Str) :
    expand aliasOf (xs ++ mark :: ys) = expand aliasOf xs ++ mark :: expand aliasOf ys := by
  fun_induction expand aliasOf xs with
  | case1 rest ih => simp [expand, ih]
  | case2 u rest hu value hvalue ih => simp [expand, hu, hvalue, ih]
  | case3 u rest hu hunknown ih => simp [expand, hu, hunknown, ih]
  | case4 u rest hshort ih =>
    by_cases hsharp : u = 35
    · subst hsharp
      cases rest with
      | nil => simp [expand, hmark, hnone]
      | cons next rest => exact absurd rfl (hshort next rest rfl)
    · rw [List.cons_append, expand_cons hsharp, ih, List.cons_append]
  | case5 => exact expand_cons hmark ys

theorem aliasOf_none (s : Server) (pane : Pane) {u : UInt16} (h : u ∉ aliases) :
    s.aliasOf pane u = none := by
  have hD : u ≠ 68 := by
    rintro rfl
    exact h (by decide)
  simp [Server.aliasOf, h, hD]

theorem steady_mark {mark : UInt16} (h : mark ≠ 35 ∧ mark ∉ aliases) {xs ys : Str} :
    Steady (xs ++ mark :: ys) ↔ Steady xs ∧ Steady ys :=
  isChain_mark (by rintro a ⟨-, rfl | hm⟩; exacts [h.1 rfl, h.2 hm]) (fun _ hm => h.1 hm.1)

theorem plain_mark {mark : UInt16} (h : mark ≠ 35 ∧ mark ∉ aliases) (hm : mark ≠ 37 ∧ mark ≠ 126)
    {xs ys : Str} : Plain (xs ++ mark :: ys) ↔ Plain xs ∧ Plain ys := by
  have hu : Unbroken 37 126 (xs ++ mark :: ys) ↔ Unbroken 37 126 xs ∧ Unbroken 37 126 ys :=
    isChain_mark (fun _ ha => hm.1 ha.2) (fun _ ha => hm.2 ha.1)
  constructor
  · rintro ⟨hsteady, hunbroken⟩
    obtain ⟨hx, hy⟩ := (steady_mark h).mp hsteady
    obtain ⟨hx', hy'⟩ := hu.mp hunbroken
    exact ⟨⟨hx, hx'⟩, ⟨hy, hy'⟩⟩
  · rintro ⟨hx, hy⟩
    exact ⟨(steady_mark h).mpr ⟨hx.steady, hy.steady⟩, hu.mpr ⟨hx.unbroken, hy.unbroken⟩⟩

theorem plain_of_mem {text : Str} (h : ∀ u ∈ text, u ≠ 35 ∧ u ≠ 126) : Plain text :=
  ⟨isChain_of_mem fun u hu _ hm => (h u hu).1 hm.1, isChain_of_mem fun u hu _ hm => (h u hu).2 hm.1⟩

theorem plain_nil : Plain [] := plain_of_mem (by simp)

theorem plain_bar : ∀ {fields : List Str}, Plain (bar fields) ↔ ∀ field ∈ fields, Plain field
  | [] => by simpa [bar, join, List.intercalate] using plain_nil
  | [field] => by simp [bar, join, List.intercalate]
  | field :: next :: rest => by
    have hbar : bar (field :: next :: rest) = field ++ 124 :: bar (next :: rest) := by
      simp [bar, join, List.intercalate_cons_cons]
    rw [hbar, plain_mark (by decide) (by decide), plain_bar, List.forall_mem_cons (a := field)]

theorem bar_split (text : Str) : bar (split [124] text) = text := join_split (by decide) text

theorem isDigit_plain {u : UInt16} (h : isDigit u = true) : u ≠ 35 ∧ u ≠ 126 := by
  constructor <;> rintro rfl <;> exact absurd h (by decide)

theorem isUuidUnit_plain {u : UInt16} (h : isUuidUnit u = true) : u ≠ 35 ∧ u ≠ 126 := by
  constructor <;> rintro rfl <;> exact absurd h (by decide)

theorem Setup.plain_owner (setup : Setup) : Plain setup.owner := by
  refine plain_of_mem fun u hu => ?_
  rcases List.mem_append.mp hu with hdigit | hrest
  · exact isDigit_plain (isDigit_decimal hdigit)
  · rcases List.mem_cons.mp hrest with rfl | huuid
    · decide
    · exact isUuidUnit_plain (setup.uuid_units u huuid)

theorem StatusState.plain_name (state : StatusState) : Plain state.name := by
  cases state <;> decide

/-- A status that is written is plain if its color is. -/
theorem plain_status (state : StatusState) {seen color : Str} (hseen : seen = lit "0" ∨ seen = lit "1")
    (hcolor : Plain color) : Plain (bar [state.name, seen, color, lit "0"]) := by
  have hs : Plain seen := by rcases hseen with rfl | rfl <;> decide
  rw [plain_bar]
  simpa [state.plain_name, hs, hcolor] using (by decide : Plain (lit "0"))

-- -----
-- Reading a status
-- -----

/-- What the fields of a valid status are. -/
structure Fields (text : Str) (p : PaneStatus) : Prop where
  owner : p.owner ∈ split [124] text
  color : p.color ∈ split [124] text
  pid : ∃ pid, ownerPid p.owner = some pid
  pattern : colorPattern p.color = true

theorem parseText_fields {pane window : Nat} {text : Str} {p : PaneStatus}
    (h : parseText pane window text = some p) : p.pane = pane ∧ p.window = window ∧ Fields text p := by
  rw [parseText] at h
  split at h
  case h_2 => cases h
  case h_1 owner state seen color frame rest hsplit =>
    split at h
    case h_2 => cases h
    case h_1 pid status howner hstate =>
      split at h
      case isFalse => cases h
      case isTrue hok =>
        cases h
        exact ⟨rfl, rfl, by simp [hsplit], by simp [hsplit], ⟨pid, howner⟩, hok.2.1⟩

theorem ofName_name (state : StatusState) : StatusState.ofName state.name = some state := by
  cases state <;> rfl

theorem bar_not_mem_name (state : StatusState) : (124 : UInt16) ∉ state.name := by
  cases state <;> decide

/-- A status that is written reads as what it was made from. -/
theorem parseText_status {pane window pid : Nat} {owner seen color : Str} (state : StatusState)
    (hpid : ownerPid owner = some pid) (howner : (124 : UInt16) ∉ owner)
    (hseen : seen = lit "0" ∨ seen = lit "1") (hpattern : colorPattern color = true)
    (hcolor : (124 : UInt16) ∉ color) :
    parseText pane window (owner ++ 124 :: bar [state.name, seen, color, lit "0"]) =
      some ⟨pane, window, owner, bar [state.name, seen, color, lit "0"], state, seen = lit "1",
        color⟩ := by
  have hbar : owner ++ 124 :: bar [state.name, seen, color, lit "0"] =
      bar [owner, state.name, seen, color, lit "0"] := by
    simp [bar, join, List.intercalate]
  have hmem : ∀ field ∈ [owner, state.name, seen, color, lit "0"], (124 : UInt16) ∉ field := by
    intro field hfield
    simp only [List.mem_cons, List.not_mem_nil, or_false] at hfield
    rcases hfield with rfl | rfl | rfl | rfl | rfl
    · exact howner
    · exact bar_not_mem_name state
    · rcases hseen with rfl | rfl <;> decide
    · exact hcolor
    · decide
  have hzero : (lit "0").length = 1 ∧ ∀ u ∈ lit "0", isDigit u = true :=
    ⟨by decide, List.all_eq_true.mp (by decide)⟩
  rw [hbar, parseText, bar, split_join hmem (by simp)]
  simpa [hpid, ofName_name, hpattern, hseen] using hzero

/-- An acknowledged status reads as the status it was, seen. -/
theorem parseText_acknowledged {pane window : Nat} {text : Str} {p : PaneStatus}
    (h : Fields text p) :
    parseText pane window (p.owner ++ 124 :: acknowledged p) =
      some ⟨pane, window, p.owner, acknowledged p, p.state, true, p.color⟩ := by
  obtain ⟨pid, hpid⟩ := h.pid
  exact parseText_status p.state hpid (not_mem_split h.owner) (.inr rfl) h.pattern
    (not_mem_split h.color)

-- -----
-- Rows of a snapshot
-- -----

/-- What of a status is shown and what it is ranked by. -/
def PaneStatus.shown (p : PaneStatus) : Nat × StatusState × Bool × Str :=
  (p.pane, p.state, p.seen, p.color)

def shownOf (pane : Nat) (text : Str) : Option (Nat × StatusState × Bool × Str) :=
  (parseText pane 0 text).map PaneStatus.shown

theorem parseText_shown (pane window : Nat) (text : Str) :
    (parseText pane window text).map PaneStatus.shown = shownOf pane text := by
  rw [shownOf, parseText, parseText]
  split
  case h_2 => rfl
  case h_1 =>
    split
    case h_2 => rfl
    case h_1 => split <;> rfl

theorem row_split (row : Row) :
    ∃ token fields, split [124] row.text = token :: fields ∧ token ++ 124 :: bar fields = row.text := by
  obtain ⟨token, fields, ht⟩ := List.exists_cons_of_ne_nil (split_ne_nil [124] row.owner)
  obtain ⟨first, rest, hf⟩ := List.exists_cons_of_ne_nil (split_ne_nil [124] row.status)
  have hsplit : split [124] row.text = token :: (fields ++ first :: rest) := by
    have happend := split_append (c := 124) row.owner row.status
    rw [ht, hf] at happend
    simpa [Row.text] using happend
  refine ⟨token, fields ++ first :: rest, hsplit, ?_⟩
  obtain ⟨next, more, hcons⟩ := List.exists_cons_of_ne_nil (show fields ++ first :: rest ≠ [] by simp)
  rw [← bar_split row.text, hsplit, hcons]
  simp [bar, join, List.intercalate_cons_cons]

section
variable (alive : Nat → Bool) (viewed : Bool)

/-- What a row can come to. -/
inductive Acknowledged (row : Row) : Str × Option PaneStatus × List Command → Prop
  | invalid (h : parsePane row = none) : Acknowledged row (row.text, none, [])
  | gone (p : PaneStatus) (h : parsePane row = some p) :
    Acknowledged row (lit "|", none, [guarded p (unsetBoth p.pane)])
  | seen (p : PaneStatus) (h : parsePane row = some p) :
    Acknowledged row (p.owner ++ 124 :: acknowledged p, some { p with seen := true },
      [guarded p [.set p.pane .status (acknowledged p)]])
  | kept (p : PaneStatus) (h : parsePane row = some p) : Acknowledged row (row.text, some p, [])

theorem acknowledgeRow_cases (row : Row) : Acknowledged row (acknowledgeRow alive viewed row) := by
  rw [acknowledgeRow]
  split
  case h_1 hnone =>
    obtain ⟨token, fields, hsplit, htext⟩ := row_split row
    simp only [hsplit, htext]
    exact .invalid hnone
  case h_2 p hsome =>
    split
    · split
      · exact .seen p hsome
      · exact .kept p hsome
    · exact .gone p hsome

def rowText (row : Row) : Str := (acknowledgeRow alive viewed row).1

theorem rowText_plain {row : Row} (h : Plain row.text) : Plain (rowText alive viewed row) := by
  have hcase := acknowledgeRow_cases alive viewed row
  rw [rowText]
  generalize acknowledgeRow alive viewed row = result at hcase ⊢
  cases hcase with
  | invalid => exact h
  | gone => exact (by decide : Plain (lit "|"))
  | kept => exact h
  | seen p hp =>
    obtain ⟨-, -, hfields⟩ := parseText_fields hp
    have hparts : ∀ field ∈ split [124] row.text, Plain field := by
      rw [← plain_bar, bar_split]
      exact h
    refine (plain_mark (by decide) (by decide)).mpr ⟨hparts _ hfields.owner, ?_⟩
    exact plain_status p.state (.inr rfl) (hparts _ hfields.color)

/-- The text that is expected of a row reads as the status that was counted for it. -/
theorem rowText_shown (row : Row) :
    shownOf row.pane (rowText alive viewed row) =
      (acknowledgeRow alive viewed row).2.1.map PaneStatus.shown := by
  have hcase := acknowledgeRow_cases alive viewed row
  rw [rowText, ← parseText_shown row.pane row.window]
  generalize acknowledgeRow alive viewed row = result at hcase ⊢
  cases hcase with
  | invalid h => exact congrArg (Option.map _) h
  | gone => rfl
  | kept p h => exact congrArg (Option.map _) h
  | seen p h =>
    obtain ⟨hpane, -, hfields⟩ := parseText_fields h
    rw [parseText_acknowledged hfields]
    simp [PaneStatus.shown, hpane]

theorem acknowledge_panes (rows : List Row) :
    (acknowledge alive rows viewed).panes.map PaneStatus.shown =
      rows.filterMap fun row => shownOf row.pane (rowText alive viewed row) := by
  simp only [acknowledge, List.filterMap_map, List.map_filterMap]
  refine List.filterMap_congr fun row _ => ?_
  rw [rowText_shown]
  rfl

-- -----
-- Entries
-- -----

theorem expectedText_entries (rows : List Row) :
    expectedText (acknowledge alive rows viewed) =
      ((rows.insertionSort (·.pane ≤ ·.pane)).map fun row =>
        (row.pane, rowText alive viewed row)).flatMap fun e => entry e.1 e.2 := by
  have hvalues : (acknowledge alive rows viewed).values =
      rows.map fun row => (row.pane, entry row.pane (rowText alive viewed row)) := by
    simp [acknowledge, rowText]
  rw [expectedText, hvalues, ← List.map_insertionSort (r := fun a b : Row => a.pane ≤ b.pane)]
  · simp [List.flatMap_map]
  · exact fun _ _ _ _ => Iff.rfl

end

theorem paneTexts_entries (s : Server) (window : Nat) :
    s.paneTexts window =
      (((s.panesOf window).insertionSort (·.id ≤ ·.id)).map fun pane =>
        (pane.id, pane.row.text)).flatMap fun e => entry e.1 e.2 := by
  simp [Server.paneTexts, List.flatMap_map]

def body (e : Nat × Str) : Str := decimal e.1 ++ 124 :: e.2

theorem entries_frames (es : List (Nat × Str)) :
    (es.flatMap fun e => entry e.1 e.2) = frames 37 126 (es.map body) := by
  simp [frames, List.flatMap_map, frame, body, entry, paneId]

theorem body_unbroken {e : Nat × Str} (h : Plain e.2) : Unbroken 37 126 (body e) := by
  have hdigits : Plain (decimal e.1) := plain_of_mem fun u hu => isDigit_plain (isDigit_decimal hu)
  exact ((plain_mark (by decide) (by decide)).mpr ⟨hdigits, h⟩).unbroken

theorem takeWhile_decimal (n : Nat) (text : Str) :
    (decimal n ++ 124 :: text).takeWhile isDigit = decimal n := by
  rw [List.takeWhile_append_of_pos fun u hu => isDigit_decimal hu]
  simp [isDigit]

theorem body_injective {d e : Nat × Str} (h : body d = body e) : d = e := by
  have hdigits : decimal d.1 = decimal e.1 := by
    have htake := congrArg (List.takeWhile isDigit) h
    rwa [body, body, takeWhile_decimal, takeWhile_decimal] at htake
  have hid : d.1 = e.1 := by
    rw [← digitsValue_decimal d.1, hdigits, digitsValue_decimal]
  rw [body, body, hdigits] at h
  exact Prod.ext hid (List.cons.inj (List.append_cancel_left h)).2

theorem entries_injective {ds es : List (Nat × Str)} (hd : ∀ d ∈ ds, Plain d.2)
    (he : ∀ e ∈ es, Plain e.2)
    (h : (ds.flatMap fun e => entry e.1 e.2) = es.flatMap fun e => entry e.1 e.2) : ds = es := by
  rw [entries_frames, entries_frames] at h
  have hbodies := frames_injective (by decide)
    (List.forall_mem_map.mpr fun d hm => body_unbroken (hd d hm))
    (List.forall_mem_map.mpr fun e hm => body_unbroken (he e hm)) h
  exact List.map_injective_iff.mpr (fun _ _ => body_injective) hbodies

theorem entries_steady {es : List (Nat × Str)} (h : ∀ e ∈ es, Plain e.2) :
    Steady (es.flatMap fun e => entry e.1 e.2) := by
  induction es with
  | nil => exact List.IsChain.nil
  | cons e rest ih =>
    have hrest := ih fun e hm => h e (List.mem_cons_of_mem _ hm)
    have htext := (h e List.mem_cons_self).steady
    have hdigits : Plain (decimal e.1) := plain_of_mem fun u hu => isDigit_plain (isDigit_decimal hu)
    have hcons : ((e :: rest).flatMap fun e => entry e.1 e.2) =
        [] ++ 37 :: (decimal e.1 ++ 124 :: (e.2 ++ 126 :: rest.flatMap fun e => entry e.1 e.2)) := by
      simp [entry, paneId]
    rw [hcons, steady_mark (by decide), steady_mark (by decide), steady_mark (by decide)]
    exact ⟨List.IsChain.nil, hdigits.steady, htext, hrest⟩

-- -----
-- The winner
-- -----

def validPanes (s : Server) (window : Nat) : List PaneStatus :=
  (s.panesOf window).filterMap fun pane => parsePane pane.row

/-- The status of the highest priority, of the lowest pane where several have it. -/
def Highest (panes : List PaneStatus) (p : PaneStatus) : Prop :=
  p ∈ panes ∧ ∀ q ∈ panes, q.state.priority < p.state.priority ∨
    (q.state.priority = p.state.priority ∧ p.pane ≤ q.pane)

/-- The options of a window are those of the highest of these statuses. -/
def Shows (s : Server) (window : Nat) (panes : List PaneStatus) : Prop :=
  (panes = [] ∧ s.windowOption window .status = none ∧ s.windowOption window .rank = none) ∨
    ∃ p, Highest panes p ∧ s.windowOption window .status = some (indicator p) ∧
      s.windowOption window .rank = some (rank p)

instance : IsTrans PaneStatus PaneStatus.before :=
  ⟨fun a b c hab hbc => by unfold PaneStatus.before at *; omega⟩

instance : Std.Total PaneStatus.before :=
  ⟨fun a b => by unfold PaneStatus.before; omega⟩

theorem head_highest {panes : List PaneStatus} {p : PaneStatus}
    (h : (panes.insertionSort PaneStatus.before).head? = some p) : Highest panes p := by
  obtain ⟨rest, hcons⟩ := List.head?_eq_some_iff.mp h
  have hsorted := List.pairwise_insertionSort PaneStatus.before panes
  have hmem : ∀ q, q ∈ panes ↔ q = p ∨ q ∈ rest := fun q => by
    rw [← List.mem_insertionSort PaneStatus.before, hcons, List.mem_cons]
  rw [hcons, List.pairwise_cons] at hsorted
  refine ⟨(hmem p).mpr (.inl rfl), fun q hq => ?_⟩
  rcases (hmem q).mp hq with rfl | hrest
  · exact .inr ⟨rfl, le_rfl⟩
  · exact hsorted.1 q hrest

theorem Highest.of_shown {panes others : List PaneStatus} {p : PaneStatus} (h : Highest panes p)
    (hsame : (others.map PaneStatus.shown).Perm (panes.map PaneStatus.shown)) :
    ∃ q, Highest others q ∧ q.shown = p.shown := by
  obtain ⟨q, hq, hshown⟩ := List.mem_map.mp (hsame.mem_iff.mpr (List.mem_map_of_mem h.1))
  refine ⟨q, ⟨hq, fun r hr => ?_⟩, hshown⟩
  obtain ⟨r', hr', hshown'⟩ := List.mem_map.mp (hsame.mem_iff.mp (List.mem_map_of_mem hr))
  simp only [PaneStatus.shown, Prod.mk.injEq] at hshown hshown'
  rw [hshown.1, hshown.2.1, ← hshown'.1, ← hshown'.2.1]
  exact h.2 r' hr'

theorem indicator_shown {p q : PaneStatus} (h : q.shown = p.shown) :
    indicator q = indicator p ∧ rank q = rank p := by
  simp only [PaneStatus.shown, Prod.mk.injEq] at h
  simp [indicator, rank, h.2.1, h.2.2.1, h.2.2.2]

theorem setOptions_windowBody {s s' : Server} {window : Nat} {winner : Option PaneStatus}
    (h : s.setOptions (windowBody window winner) = some s') :
    s'.windowOption window .status = winner.map indicator ∧
      s'.windowOption window .rank = winner.map rank := by
  cases winner with
  | none =>
    simp only [windowBody, Server.setOptions, Server.setOption, Option.bind_eq_some_iff,
      Option.map_eq_some_iff] at h
    obtain ⟨s₁, ⟨_, -, rfl⟩, s₂, ⟨_, -, rfl⟩, h⟩ := h
    cases h
    simp [Server.updateWindow]
  | some p =>
    simp only [windowBody, Server.setOptions, Server.setOption, Option.bind_eq_some_iff,
      Option.map_eq_some_iff] at h
    obtain ⟨s₁, ⟨_, -, rfl⟩, s₂, ⟨_, -, rfl⟩, h⟩ := h
    cases h
    simp [Server.updateWindow]

theorem paneAt_window {s : Server} {window : Nat} {pane : Pane}
    (h : s.paneAt (.window window) = some pane) : pane.window = window := by
  have hmem : pane ∈ s.panesOf window := by
    rcases Option.or_eq_some_iff.mp h with hfind | ⟨-, hhead⟩
    · exact List.mem_of_find?_eq_some hfind
    · exact List.mem_of_head? hhead
  exact of_decide_eq_true (List.mem_filter.mp hmem).2

section
variable {alive : Nat → Bool} {viewed : Bool} {s : Server} {window : Nat} {rows : List Row}

/-- Where the texts of the panes are the expected ones, so are their statuses. -/
theorem validPanes_shown (hrows : ∀ row ∈ rows, Plain row.text)
    (hpanes : ∀ pane ∈ s.panesOf window, Plain pane.row.text)
    (h : s.paneTexts window = expectedText (acknowledge alive rows viewed)) :
    ((validPanes s window).map PaneStatus.shown).Perm
      ((acknowledge alive rows viewed).panes.map PaneStatus.shown) := by
  rw [paneTexts_entries, expectedText_entries] at h
  have hentries := entries_injective
    (List.forall_mem_map.mpr fun pane hm => hpanes pane ((List.mem_insertionSort _).mp hm))
    (List.forall_mem_map.mpr fun row hm =>
      rowText_plain alive viewed (hrows row ((List.mem_insertionSort _).mp hm))) h
  have hread := congrArg (List.filterMap fun e => shownOf e.1 e.2) hentries
  simp only [List.filterMap_map] at hread
  have hvalid : (validPanes s window).map PaneStatus.shown =
      (s.panesOf window).filterMap fun pane => shownOf pane.id pane.row.text := by
    simp only [validPanes, List.map_filterMap]
    exact List.filterMap_congr fun pane _ => parseText_shown pane.id pane.window _
  rw [hvalid, acknowledge_panes]
  have hleft := (List.perm_insertionSort (fun a b : Pane => a.id ≤ b.id) (s.panesOf window)).filterMap
    fun pane => shownOf pane.id pane.row.text
  have hright := (List.perm_insertionSort (fun a b : Row => a.pane ≤ b.pane) rows).filterMap
    fun row => shownOf row.pane (rowText alive viewed row)
  exact hleft.symm.trans ((List.Perm.of_eq hread).trans hright)

/-- A window command that takes effect shows the highest status of the panes as they are. -/
theorem windowCommand_shows {s' : Server} {command : Command} (hrows : ∀ row ∈ rows, Plain row.text)
    (hpanes : ∀ pane ∈ s.panesOf window, Plain pane.row.text)
    (hcommand : windowCommand window (acknowledge alive rows viewed) = some command)
    (heffect : s.takesEffect command = true) (hrun : s.run command = some s') :
    Shows s' window (validPanes s window) := by
  rw [windowCommand] at hcommand
  split at hcommand
  case isFalse => cases hcommand
  case isTrue =>
    obtain rfl := (Option.some.inj hcommand).symm
    obtain ⟨pane, hpane, hholds⟩ := s.effect_holds heffect
    have hwindow := paneAt_window hpane
    have hsteady : Steady (expectedText (acknowledge alive rows viewed)) := by
      rw [expectedText_entries]
      exact entries_steady (List.forall_mem_map.mpr fun row hm =>
        rowText_plain alive viewed (hrows row ((List.mem_insertionSort _).mp hm)))
    have hread := expand_steady (fun u hu => aliasOf_none s pane hu) _ hsteady
    have htexts : s.paneTexts window = expectedText (acknowledge alive rows viewed) := by
      have hequal := hholds
      rw [Condition.holds, hread, hwindow] at hequal
      exact eq_of_beq hequal
    have hshown := validPanes_shown hrows hpanes htexts
    rw [Server.run, hpane, Option.bind_some, if_pos hholds] at hrun
    obtain ⟨hstatus, hrank⟩ := setOptions_windowBody hrun
    cases hwinner : ((acknowledge alive rows viewed).panes.insertionSort PaneStatus.before).head? with
    | none =>
      have hnone : (acknowledge alive rows viewed).panes = [] := by
        have hlength := List.length_insertionSort PaneStatus.before (acknowledge alive rows viewed).panes
        rw [List.head?_eq_none_iff.mp hwinner] at hlength
        exact List.length_eq_zero_iff.mp hlength.symm
      rw [hnone] at hshown
      rw [hwinner] at hstatus hrank
      exact .inl ⟨List.map_eq_nil_iff.mp hshown.eq_nil, hstatus, hrank⟩
    | some p =>
      obtain ⟨q, hq, hsame⟩ := (head_highest hwinner).of_shown hshown
      obtain ⟨hindicator, hrank'⟩ := indicator_shown hsame
      rw [hwinner, Option.map_some] at hstatus hrank
      exact .inr ⟨q, hq, hstatus.trans (congrArg some hindicator.symm),
        hrank.trans (congrArg some hrank'.symm)⟩

end

end PiEnv.General
