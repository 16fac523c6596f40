import PiEnv.Lib.JsString

/-!
# Patterns

Regular expressions of a script as far as their repetitions are of single units:
a matcher that tries alternatives in their order, what it finds by the relation between
the places before and after a match, and the scan of a text for matches that do not
overlap. A match consumes something.
-/

namespace Js

-- -----
-- Patterns and the matcher
-- -----

inductive Pattern where
  | empty
  | one (p : UInt16 → Bool)
  | seq (first second : Pattern)
  | alt (first second : Pattern)
  /-- `p*` -/
  | many (p : UInt16 → Bool)
  /-- `p*?` -/
  | few (p : UInt16 → Bool)
  /-- `\b` -/
  | boundary
  | group (index : Nat) (body : Pattern)
  /-- `\1` -/
  | again (index : Nat)

/-- A place in a text: the unit before it, what follows, and the groups so far, the
latest first. -/
structure Cursor where
  before : Option UInt16
  rest : Str
  groups : List (Nat × Str)

namespace Cursor

def skip (cursor : Cursor) (xs rest : Str) : Cursor :=
  { cursor with before := xs.getLast?.or cursor.before, rest }

def isWord (u : UInt16) : Bool :=
  isDigit u || (65 ≤ u && u ≤ 90) || (97 ≤ u && u ≤ 122) || u == 95

def atBoundary (cursor : Cursor) : Bool :=
  cursor.before.any isWord != cursor.rest.head?.any isWord

/-- The text of a group; one that took no part is empty. -/
def text (cursor : Cursor) (index : Nat) : Str := (cursor.groups.lookup index).getD []

/-- The group is what lies between two places. -/
def close (start stop : Cursor) (index : Nat) : Cursor :=
  { stop with
    groups := (index, start.rest.take (start.rest.length - stop.rest.length)) :: stop.groups }

end Cursor

section
variable {β : Type}

/-- The longest run of units first. -/
def runMany (p : UInt16 → Bool) (groups : List (Nat × Str)) (k : Cursor → Option β) :
    Option UInt16 → Str → Option β
  | before, [] => k ⟨before, [], groups⟩
  | before, u :: rest =>
    if p u then (runMany p groups k (some u) rest).or (k ⟨before, u :: rest, groups⟩)
    else k ⟨before, u :: rest, groups⟩

/-- The shortest run of units first. -/
def runFew (p : UInt16 → Bool) (groups : List (Nat × Str)) (k : Cursor → Option β) :
    Option UInt16 → Str → Option β
  | before, [] => k ⟨before, [], groups⟩
  | before, u :: rest =>
    (k ⟨before, u :: rest, groups⟩).or
      (if p u then runFew p groups k (some u) rest else none)

def Pattern.run : Pattern → Cursor → (Cursor → Option β) → Option β
  | .empty, cursor, k => k cursor
  | .one p, cursor, k =>
    match cursor.rest with
    | [] => none
    | u :: rest => if p u then k (cursor.skip [u] rest) else none
  | .seq first second, cursor, k => first.run cursor fun cursor => second.run cursor k
  | .alt first second, cursor, k => (first.run cursor k).or (second.run cursor k)
  | .many p, cursor, k => runMany p cursor.groups k cursor.before cursor.rest
  | .few p, cursor, k => runFew p cursor.groups k cursor.before cursor.rest
  | .boundary, cursor, k => if cursor.atBoundary then k cursor else none
  | .group index body, cursor, k => body.run cursor fun stop => k (cursor.close stop index)
  | .again index, cursor, k =>
    let text := cursor.text index
    if text <+: cursor.rest then k (cursor.skip text (cursor.rest.drop text.length)) else none

end

namespace Pattern

/-- `p+` -/
def some1 (p : UInt16 → Bool) : Pattern := .seq (.one p) (.many p)

def optional (pattern : Pattern) : Pattern := .alt pattern .empty

def literal (text : Str) : Pattern := text.foldr (fun u => .seq (.one (· == u))) .empty

/-- A letter in the other case; other units as they are. -/
def swapCase (u : UInt16) : UInt16 :=
  if 65 ≤ u && u ≤ 90 then u + 32 else if 97 ≤ u && u ≤ 122 then u - 32 else u

/-- A text without regard to the case of its letters. -/
def anyCase (text : Str) : Pattern :=
  text.foldr (fun u => .seq (.one fun v => v == u || v == swapCase u)) .empty

def oneOf : List Pattern → Pattern
  | [] => .one fun _ => false
  | [pattern] => pattern
  | pattern :: rest => .alt pattern (oneOf rest)

def all : List Pattern → Pattern
  | [] => .empty
  | pattern :: rest => .seq pattern (all rest)

-- -----
-- What a pattern matches
-- -----

def Reaches : Pattern → Cursor → Cursor → Prop
  | .empty, start, stop => stop = start
  | .one p, start, stop =>
    ∃ u rest, p u = true ∧ start.rest = u :: rest ∧ stop = start.skip [u] rest
  | .seq first second, start, stop => ∃ mid, first.Reaches start mid ∧ second.Reaches mid stop
  | .alt first second, start, stop => first.Reaches start stop ∨ second.Reaches start stop
  | .many p, start, stop =>
    ∃ xs rest, (∀ u ∈ xs, p u = true) ∧ start.rest = xs ++ rest ∧ stop = start.skip xs rest
  | .few p, start, stop =>
    ∃ xs rest, (∀ u ∈ xs, p u = true) ∧ start.rest = xs ++ rest ∧ stop = start.skip xs rest
  | .boundary, start, stop => start.atBoundary = true ∧ stop = start
  | .group index body, start, stop =>
    ∃ mid, body.Reaches start mid ∧ stop = start.close mid index
  | .again index, start, stop =>
    ∃ rest, start.rest = start.text index ++ rest ∧ stop = start.skip (start.text index) rest

end Pattern

section
variable {β : Type} {p : UInt16 → Bool} {groups : List (Nat × Str)} {k : Cursor → Option β}

/-- Some run of units leads to the result. -/
def Runs (p : UInt16 → Bool) (groups : List (Nat × Str)) (before : Option UInt16) (s : Str)
    (stop : Cursor) : Prop :=
  ∃ xs rest, (∀ u ∈ xs, p u = true) ∧ s = xs ++ rest ∧
    stop = ⟨xs.getLast?.or before, rest, groups⟩

theorem Runs.nothing (before : Option UInt16) (s : Str) : Runs p groups before s ⟨before, s, groups⟩ :=
  ⟨[], s, by simp, rfl, rfl⟩

theorem Runs.more {before : Option UInt16} {u : UInt16} {s : Str} {stop : Cursor} (hu : p u = true)
    (h : Runs p groups (some u) s stop) : Runs p groups before (u :: s) stop := by
  obtain ⟨xs, rest, hxs, rfl, rfl⟩ := h
  refine ⟨u :: xs, rest, by simpa [hu] using hxs, rfl, ?_⟩
  cases xs <;> simp [List.getLast?_cons]

theorem Runs.cases {before : Option UInt16} {s : Str} {stop : Cursor}
    (h : Runs p groups before s stop) : stop = ⟨before, s, groups⟩ ∨
      ∃ u rest, s = u :: rest ∧ p u = true ∧ Runs p groups (some u) rest stop := by
  obtain ⟨xs, rest, hxs, rfl, rfl⟩ := h
  cases xs with
  | nil => exact .inl rfl
  | cons u xs =>
    rw [List.forall_mem_cons] at hxs
    refine .inr ⟨u, xs ++ rest, rfl, hxs.1, xs, rest, hxs.2, rfl, ?_⟩
    cases xs <;> simp [List.getLast?_cons]

theorem runMany_sound {before : Option UInt16} {s : Str} {result : β}
    (h : runMany p groups k before s = some result) :
    ∃ stop, Runs p groups before s stop ∧ k stop = some result := by
  induction s generalizing before with
  | nil => exact ⟨_, .nothing before [], h⟩
  | cons u rest ih =>
    rw [runMany] at h
    split at h
    · rename_i hu
      rcases Option.or_eq_some_iff.mp h with hmore | ⟨-, hhere⟩
      · obtain ⟨stop, hruns, hk⟩ := ih hmore
        exact ⟨stop, hruns.more hu, hk⟩
      · exact ⟨_, .nothing _ _, hhere⟩
    · exact ⟨_, .nothing _ _, h⟩

theorem runMany_complete {before : Option UInt16} {s : Str} {stop : Cursor}
    (h : Runs p groups before s stop) (hk : (k stop).isSome = true) :
    (runMany p groups k before s).isSome = true := by
  induction s generalizing before with
  | nil =>
    rcases h.cases with rfl | ⟨u, rest, hs, -⟩
    · exact hk
    · cases hs
  | cons u rest ih =>
    rw [runMany]
    rcases h.cases with rfl | ⟨v, rest', hs, hu, hruns⟩
    · split
      · rw [Option.isSome_or, hk, Bool.or_true]
      · exact hk
    · obtain ⟨rfl, rfl⟩ := List.cons.inj hs
      rw [if_pos hu, Option.isSome_or, ih hruns, Bool.true_or]

theorem runFew_sound {before : Option UInt16} {s : Str} {result : β}
    (h : runFew p groups k before s = some result) :
    ∃ stop, Runs p groups before s stop ∧ k stop = some result := by
  induction s generalizing before with
  | nil => exact ⟨_, .nothing before [], h⟩
  | cons u rest ih =>
    rw [runFew] at h
    rcases Option.or_eq_some_iff.mp h with hhere | ⟨-, hmore⟩
    · exact ⟨_, .nothing _ _, hhere⟩
    · split at hmore
      · rename_i hu
        obtain ⟨stop, hruns, hk⟩ := ih hmore
        exact ⟨stop, hruns.more hu, hk⟩
      · cases hmore

theorem runFew_complete {before : Option UInt16} {s : Str} {stop : Cursor}
    (h : Runs p groups before s stop) (hk : (k stop).isSome = true) :
    (runFew p groups k before s).isSome = true := by
  induction s generalizing before with
  | nil =>
    rcases h.cases with rfl | ⟨u, rest, hs, -⟩
    · exact hk
    · cases hs
  | cons u rest ih =>
    rw [runFew, Option.isSome_or]
    rcases h.cases with rfl | ⟨v, rest', hs, hu, hruns⟩
    · rw [hk, Bool.true_or]
    · obtain ⟨rfl, rfl⟩ := List.cons.inj hs
      rw [if_pos hu, ih hruns, Bool.or_true]

namespace Pattern

/-- What the matcher finds is a match. -/
theorem run_sound {pattern : Pattern} {start : Cursor} {result : β}
    (h : pattern.run start k = some result) :
    ∃ stop, pattern.Reaches start stop ∧ k stop = some result := by
  induction pattern generalizing start k with
  | empty => exact ⟨start, rfl, h⟩
  | one p =>
    rw [run.eq_def] at h
    dsimp only at h
    split at h
    · cases h
    · rename_i u rest hrest
      split at h
      · rename_i hu
        exact ⟨_, ⟨u, rest, hu, hrest, rfl⟩, h⟩
      · cases h
  | seq first second ihf ihs =>
    obtain ⟨mid, hfirst, hmid⟩ := ihf h
    obtain ⟨stop, hsecond, hk⟩ := ihs hmid
    exact ⟨stop, ⟨mid, hfirst, hsecond⟩, hk⟩
  | alt first second ihf ihs =>
    rcases Option.or_eq_some_iff.mp h with hfirst | ⟨-, hsecond⟩
    · obtain ⟨stop, hreaches, hk⟩ := ihf hfirst
      exact ⟨stop, .inl hreaches, hk⟩
    · obtain ⟨stop, hreaches, hk⟩ := ihs hsecond
      exact ⟨stop, .inr hreaches, hk⟩
  | many p => exact runMany_sound h
  | few p => exact runFew_sound h
  | boundary =>
    rw [run.eq_def] at h
    dsimp only at h
    split at h
    · rename_i hat
      exact ⟨start, ⟨hat, rfl⟩, h⟩
    · cases h
  | group index body ih =>
    obtain ⟨mid, hbody, hk⟩ := ih h
    exact ⟨_, ⟨mid, hbody, rfl⟩, hk⟩
  | again index =>
    rw [run.eq_def] at h
    dsimp only at h
    split at h
    · rename_i hprefix
      exact ⟨_, ⟨_, (List.prefix_iff_eq_append.mp hprefix).symm, rfl⟩, h⟩
    · cases h

/-- The matcher finds a match where there is one that the rest accepts. -/
theorem run_complete {pattern : Pattern} {start stop : Cursor}
    (h : pattern.Reaches start stop) (hk : (k stop).isSome = true) :
    (pattern.run start k).isSome = true := by
  induction pattern generalizing start stop k with
  | empty =>
    cases h
    exact hk
  | one p =>
    obtain ⟨u, rest, hu, hrest, rfl⟩ := h
    rw [run.eq_def]
    simpa only [hrest, hu, if_true] using hk
  | seq first second ihf ihs =>
    obtain ⟨mid, hfirst, hsecond⟩ := h
    exact ihf hfirst (ihs hsecond hk)
  | alt first second ihf ihs =>
    rw [run.eq_def]
    dsimp only
    rw [Option.isSome_or, Bool.or_eq_true]
    exact h.imp (fun hfirst => ihf hfirst hk) fun hsecond => ihs hsecond hk
  | many p => exact runMany_complete h hk
  | few p => exact runFew_complete h hk
  | boundary =>
    obtain ⟨hat, rfl⟩ := h
    rw [run.eq_def]
    simpa only [hat, if_true] using hk
  | group index body ih =>
    obtain ⟨mid, hbody, rfl⟩ := h
    exact ih hbody hk
  | again index =>
    obtain ⟨rest, hrest, rfl⟩ := h
    rw [run.eq_def]
    dsimp only
    rw [hrest, if_pos (List.prefix_append _ _), List.drop_left]
    exact hk

-- -----
-- Matches of given texts
-- -----

/-- The rest of a pattern gives a result behind a text, whatever stands before it. -/
def Yields (k : Cursor → Option β) (rest : Str) (groups : List (Nat × Str)) (result : β) : Prop :=
  ∀ before, k ⟨before, rest, groups⟩ = some result

variable {rest : Str} {result : β}

theorem Yields.one {u : UInt16} (hu : p u = true) (h : Yields k rest groups result) :
    Yields (fun cursor => (Pattern.one p).run cursor k) (u :: rest) groups result := by
  intro before
  show (Pattern.one p).run ⟨before, u :: rest, groups⟩ k = some result
  rw [run.eq_def]
  simp only [hu, if_true]
  exact h _

theorem Yields.empty (h : Yields k rest groups result) :
    Yields (fun cursor => Pattern.empty.run cursor k) rest groups result := h

theorem Yields.seq {first second : Pattern} {text : Str}
    (h : Yields (fun cursor => first.run cursor fun cursor => second.run cursor k) text groups result) :
    Yields (fun cursor => (Pattern.seq first second).run cursor k) text groups result := h

theorem Yields.literal (text : Str) (h : Yields k rest groups result) :
    Yields (fun cursor => (literal text).run cursor k) (text ++ rest) groups result := by
  induction text with
  | nil => exact h
  | cons u text ih => exact Yields.one (beq_self_eq_true u) ih

theorem runMany_all {xs : Str} (hxs : ∀ u ∈ xs, p u = true)
    (hrest : ∀ u ∈ rest.head?, p u = false) (h : Yields k rest groups result) :
    ∀ before, runMany p groups k before (xs ++ rest) = some result := by
  induction xs with
  | nil =>
    intro before
    cases rest with
    | nil => exact h before
    | cons u rest =>
      have hu : ¬ p u = true := by
        rw [hrest u rfl]
        exact Bool.false_ne_true
      rw [List.nil_append, runMany, if_neg hu]
      exact h before
  | cons u xs ih =>
    intro before
    rw [List.forall_mem_cons] at hxs
    rw [List.cons_append, runMany, if_pos hxs.1, ih hxs.2]
    rfl

/-- A run of units is taken as far as it goes. -/
theorem Yields.some1 {xs : Str} (hne : xs ≠ []) (hxs : ∀ u ∈ xs, p u = true)
    (hrest : ∀ u ∈ rest.head?, p u = false) (h : Yields k rest groups result) :
    Yields (fun cursor => (some1 p).run cursor k) (xs ++ rest) groups result := by
  cases xs with
  | nil => exact absurd rfl hne
  | cons u xs =>
    rw [List.forall_mem_cons] at hxs
    have hmore : Yields (fun cursor => (Pattern.many p).run cursor k) (xs ++ rest) groups result :=
      runMany_all hxs.2 hrest h
    exact Yields.one hxs.1 hmore

theorem Yields.group {index : Nat} {body : Pattern} {text : Str}
    (hbody : ∀ k : Cursor → Option β, Yields k rest groups result →
      Yields (fun cursor => body.run cursor k) (text ++ rest) groups result)
    (h : Yields k rest ((index, text) :: groups) result) :
    Yields (fun cursor => (Pattern.group index body).run cursor k) (text ++ rest) groups result := by
  intro before
  refine hbody (fun stop => k (Cursor.close ⟨before, text ++ rest, groups⟩ stop index)) ?_ before
  intro before'
  have htext : (text ++ rest).take ((text ++ rest).length - rest.length) = text := by
    rw [List.length_append, Nat.add_sub_cancel, List.take_left]
  show k ⟨before', rest, (index, (text ++ rest).take ((text ++ rest).length - rest.length)) :: groups⟩ =
    some result
  rw [htext]
  exact h before'

theorem Yields.optional {pattern : Pattern} {text : Str}
    (h : Yields (fun cursor => pattern.run cursor k) text groups result) :
    Yields (fun cursor => pattern.optional.run cursor k) text groups result := by
  intro before
  show (pattern.run ⟨before, text, groups⟩ k).or _ = some result
  have hfirst : pattern.run ⟨before, text, groups⟩ k = some result := h before
  rw [hfirst]
  rfl

theorem run_literal_none {u : UInt16} {text : Str} {start : Cursor} (hrest : start.rest.head? ≠ some u) :
    (literal (u :: text)).run start k = none := by
  obtain ⟨before, rest, groups⟩ := start
  show (Pattern.one (· == u)).run ⟨before, rest, groups⟩ (fun cursor => (literal text).run cursor k) = none
  rw [run.eq_def]
  cases rest with
  | nil => rfl
  | cons v rest =>
    have hne : (v == u) = false := beq_false_of_ne fun heq => hrest (congrArg some heq)
    simp only [hne, Bool.false_eq_true, if_false]

/-- What is optional is left out where it does not begin. -/
theorem Yields.leftOut {u : UInt16} {pattern : Pattern} (hrest : rest.head? ≠ some u)
    (h : Yields k rest groups result) :
    Yields (fun cursor => (Pattern.seq (Pattern.literal [u]) pattern).optional.run cursor k) rest groups
      result := by
  intro before
  have hnone : (Pattern.seq (Pattern.literal [u]) pattern).run ⟨before, rest, groups⟩ k = none := by
    exact run_literal_none hrest
  show ((Pattern.seq (Pattern.literal [u]) pattern).run ⟨before, rest, groups⟩ k).or _ = some result
  rw [hnone]
  exact h before

end Pattern

end

-- -----
-- Matches in a text
-- -----

/-- The text of a match and its groups. -/
structure Match where
  text : Str
  groups : List (Nat × Str)

def Match.group (found : Match) (index : Nat) : Option Str := found.groups.lookup index

def Match.of (start : Str) (stop : Cursor) : Match :=
  ⟨start.take (start.length - stop.rest.length), stop.groups⟩

namespace Pattern

def matchAt (pattern : Pattern) (before : Option UInt16) (s : Str) : Option Match :=
  pattern.run ⟨before, s, []⟩ fun stop => some (.of s stop)

/-- The units outside matches and the matches, from the left. -/
def scan (pattern : Pattern) : Nat → Option UInt16 → Str → List (UInt16 ⊕ Match)
  | _, _, [] => []
  | skip + 1, _, u :: rest => scan pattern skip (some u) rest
  | 0, before, u :: rest =>
    match pattern.matchAt before (u :: rest) with
    | some found => .inr found :: scan pattern (found.text.length - 1) (some u) rest
    | none => .inl u :: scan pattern 0 (some u) rest

def matchAll (pattern : Pattern) (s : Str) : List Match :=
  (pattern.scan 0 none s).filterMap Sum.getRight?

def replace (pattern : Pattern) (replacement : Match → Str) (s : Str) : Str :=
  (pattern.scan 0 none s).flatMap (Sum.elim ([·]) replacement)

/-- The replacements in the order of the matches, the first that throws ends it. -/
def replaceParts {ε : Type} (replacement : Match → Except ε Str) :
    List (UInt16 ⊕ Match) → Except ε Str
  | [] => .ok []
  | .inl u :: rest => do return u :: (← replaceParts replacement rest)
  | .inr found :: rest => do
    let text ← replacement found
    return text ++ (← replaceParts replacement rest)

/-- A replacement that may throw. -/
def replaceOrThrow {ε : Type} (pattern : Pattern) (replacement : Match → Except ε Str) (s : Str) :
    Except ε Str :=
  replaceParts replacement (pattern.scan 0 none s)

theorem Reaches.rest {pattern : Pattern} {start stop : Cursor} (h : pattern.Reaches start stop) :
    ∃ text, start.rest = text ++ stop.rest := by
  induction pattern generalizing start stop with
  | empty => exact ⟨[], by cases h; rfl⟩
  | one p =>
    obtain ⟨u, rest, -, hrest, rfl⟩ := h
    exact ⟨[u], hrest⟩
  | seq first second ihf ihs =>
    obtain ⟨mid, hfirst, hsecond⟩ := h
    obtain ⟨xs, hxs⟩ := ihf hfirst
    obtain ⟨ys, hys⟩ := ihs hsecond
    exact ⟨xs ++ ys, by rw [hxs, hys, List.append_assoc]⟩
  | alt first second ihf ihs =>
    cases h with
    | inl hfirst => exact ihf hfirst
    | inr hsecond => exact ihs hsecond
  | many p | few p =>
    obtain ⟨xs, rest, -, hrest, rfl⟩ := h
    exact ⟨xs, hrest⟩
  | boundary => exact ⟨[], by rw [h.2]; rfl⟩
  | group index body ih =>
    obtain ⟨mid, hbody, rfl⟩ := h
    obtain ⟨text, htext⟩ := ih hbody
    exact ⟨text, htext⟩
  | again index =>
    obtain ⟨rest, hrest, rfl⟩ := h
    exact ⟨_, hrest⟩

theorem matchAt_eq_some {pattern : Pattern} {before : Option UInt16} {s : Str} {found : Match}
    (h : pattern.matchAt before s = some found) :
    ∃ stop, pattern.Reaches ⟨before, s, []⟩ stop ∧ found = .of s stop ∧
      s = found.text ++ stop.rest := by
  obtain ⟨stop, hreaches, hfound⟩ := run_sound h
  obtain ⟨text, htext⟩ := hreaches.rest
  obtain rfl := Option.some.inj hfound
  have hs : s = text ++ stop.rest := htext
  refine ⟨stop, hreaches, rfl, ?_⟩
  simp [Match.of, hs]

theorem matchAt_isSome {pattern : Pattern} {before : Option UInt16} {s : Str} :
    (pattern.matchAt before s).isSome = true ↔ ∃ stop, pattern.Reaches ⟨before, s, []⟩ stop := by
  constructor
  · intro h
    obtain ⟨found, hfound⟩ := Option.isSome_iff_exists.mp h
    obtain ⟨stop, hreaches, -⟩ := matchAt_eq_some hfound
    exact ⟨stop, hreaches⟩
  · rintro ⟨stop, hreaches⟩
    exact run_complete hreaches rfl

/-- Nothing matches at any place of a text. -/
def Absent (pattern : Pattern) (before : Option UInt16) (s : Str) : Prop :=
  ∀ xs u ys, s = xs ++ u :: ys → pattern.matchAt (xs.getLast?.or before) (u :: ys) = none

theorem Absent.tail {pattern : Pattern} {before : Option UInt16} {u : UInt16} {s : Str}
    (h : pattern.Absent before (u :: s)) : pattern.Absent (some u) s := by
  intro xs v ys hs
  have hhere := h (u :: xs) v ys (by rw [hs]; rfl)
  cases xs <;> simpa [List.getLast?_cons] using hhere

theorem scan_absent {pattern : Pattern} {before : Option UInt16} {s : Str}
    (h : pattern.Absent before s) : pattern.scan 0 before s = s.map .inl := by
  induction s generalizing before with
  | nil => rfl
  | cons u s ih =>
    have hhere : pattern.matchAt before (u :: s) = none := h [] u s rfl
    rw [scan, hhere]
    exact congrArg (Sum.inl u :: ·) (ih h.tail)

theorem absent_of_scan {pattern : Pattern} {before : Option UInt16} {s : Str}
    (h : ∀ found, Sum.inr found ∉ pattern.scan 0 before s) : pattern.Absent before s := by
  induction s generalizing before with
  | nil =>
    intro xs u ys hs
    cases xs <;> cases hs
  | cons v s ih =>
    cases hhere : pattern.matchAt before (v :: s) with
    | some found =>
      rw [scan, hhere] at h
      exact absurd List.mem_cons_self (h found)
    | none =>
      rw [scan, hhere] at h
      have hrest := ih fun found hmem => h found (List.mem_cons_of_mem _ hmem)
      intro xs u ys hs
      cases xs with
      | nil =>
        obtain ⟨rfl, rfl⟩ := List.cons.inj hs
        exact hhere
      | cons w xs =>
        obtain ⟨rfl, hcut⟩ := List.cons.inj hs
        have hlater := hrest xs u ys hcut
        cases xs <;> simpa [List.getLast?_cons] using hlater

/-- A match of the scan is one at some place. -/
theorem mem_scan {pattern : Pattern} {skip : Nat} {before : Option UInt16} {s : Str} {found : Match}
    (h : Sum.inr found ∈ pattern.scan skip before s) :
    ∃ xs ys before', s = xs ++ ys ∧ pattern.matchAt before' ys = some found := by
  induction s generalizing skip before with
  | nil => cases skip <;> cases h
  | cons u s ih =>
    cases skip with
    | succ skip =>
      obtain ⟨xs, ys, before', rfl, hfound⟩ := ih h
      exact ⟨u :: xs, ys, before', rfl, hfound⟩
    | zero =>
      rw [scan] at h
      cases hhere : pattern.matchAt before (u :: s) with
      | none =>
        rw [hhere] at h
        cases h with
        | tail _ hmem =>
          obtain ⟨xs, ys, before', rfl, hfound⟩ := ih hmem
          exact ⟨u :: xs, ys, before', rfl, hfound⟩
      | some first =>
        rw [hhere] at h
        cases h with
        | head => exact ⟨[], u :: s, before, rfl, hhere⟩
        | tail _ hmem =>
          obtain ⟨xs, ys, before', rfl, hfound⟩ := ih hmem
          exact ⟨u :: xs, ys, before', rfl, hfound⟩

/-- A pattern whose matches are known is absent where none of them lies in the text. -/
theorem absent_iff {pattern : Pattern} {texts : Str → Prop} {before : Option UInt16} {s : Str}
    (hsound : ∀ before s found, pattern.matchAt before s = some found → texts found.text)
    (hcomplete : ∀ before text rest, texts text →
      text ≠ [] ∧ (pattern.matchAt before (text ++ rest)).isSome = true) :
    pattern.Absent before s ↔ ¬ ∃ text, texts text ∧ text <:+: s := by
  constructor
  · rintro habsent ⟨text, htext, xs, ys, rfl⟩
    obtain ⟨hne, -⟩ := hcomplete none text ys htext
    obtain ⟨u, more, rfl⟩ := List.exists_cons_of_ne_nil hne
    have hnone := habsent xs u (more ++ ys) (by simp)
    obtain ⟨-, hsome⟩ := hcomplete (xs.getLast?.or before) (u :: more) ys htext
    rw [List.cons_append, hnone] at hsome
    cases hsome
  · intro hnot xs u ys hs
    rw [Option.eq_none_iff_forall_not_mem]
    intro found hfound
    obtain ⟨stop, -, -, hcut⟩ := matchAt_eq_some hfound
    refine hnot ⟨found.text, hsound _ _ _ hfound, xs, stop.rest, ?_⟩
    rw [hs, hcut, List.append_assoc]

-- -----
-- What a replacement leaves
-- -----

/-- No match is empty. -/
def Consumes (pattern : Pattern) : Prop :=
  ∀ before s found, pattern.matchAt before s = some found → found.text ≠ []

/-- The scan loses nothing. -/
theorem pieces_scan {pattern : Pattern} (hp : pattern.Consumes) (skip : Nat)
    (before : Option UInt16) (s : Str) :
    (pattern.scan skip before s).flatMap (Sum.elim ([·]) Match.text) = s.drop skip := by
  induction s generalizing skip before with
  | nil => cases skip <;> rfl
  | cons u s ih =>
    cases skip with
    | succ skip => exact ih skip (some u)
    | zero =>
      rw [scan]
      cases hhere : pattern.matchAt before (u :: s) with
      | none => exact congrArg (u :: ·) (ih 0 (some u))
      | some found =>
        obtain ⟨stop, -, -, hs⟩ := matchAt_eq_some hhere
        obtain ⟨v, text, htext⟩ := List.exists_cons_of_ne_nil (hp _ _ _ hhere)
        rw [htext] at hs
        obtain ⟨rfl, hrest⟩ := List.cons.inj hs
        refine (congrArg (found.text ++ ·) (ih _ _)).trans ?_
        simp [htext, hrest]

section
variable {ε : Type} {replacement : Match → Except ε Str}

theorem replaceParts_inl (u : UInt16) (rest : List (UInt16 ⊕ Match)) :
    replaceParts replacement (.inl u :: rest) = (replaceParts replacement rest).map (u :: ·) := by
  simp only [replaceParts]
  cases replaceParts replacement rest <;> rfl

theorem replaceParts_units (s : Str) :
    replaceParts replacement (s.map .inl) = .ok s := by
  induction s with
  | nil => rfl
  | cons u s ih => rw [List.map_cons, replaceParts_inl, ih]; rfl

/-- It returns a text when none of the replacements throws. -/
theorem replaceParts_isOk {parts : List (UInt16 ⊕ Match)} :
    (∃ out, replaceParts replacement parts = .ok out) ↔
      ∀ found, Sum.inr found ∈ parts → ∃ text, replacement found = .ok text := by
  induction parts with
  | nil => simp [replaceParts]
  | cons part rest ih =>
    cases part with
    | inl u =>
      rw [replaceParts_inl]
      cases hrest : replaceParts replacement rest with
      | ok out => simpa [hrest, Except.map] using ih.mp ⟨out, hrest⟩
      | error thrown =>
        rw [hrest] at ih
        simpa [Except.map] using ih
    | inr found =>
      simp only [replaceParts, List.mem_cons, Sum.inr.injEq, forall_eq_or_imp, ← ih]
      cases replacement found <;> cases replaceParts replacement rest <;>
        simp [bind, Except.bind, pure, Except.pure]

/-- Replacements shorter than what they replace. -/
theorem length_replaceParts {parts : List (UInt16 ⊕ Match)} {out : Str}
    (h : replaceParts replacement parts = .ok out)
    (hshort : ∀ found text, Sum.inr found ∈ parts → replacement found = .ok text →
      text.length < found.text.length) :
    out.length + (parts.filterMap Sum.getRight?).length ≤
      (parts.flatMap (Sum.elim ([·]) Match.text)).length := by
  induction parts generalizing out with
  | nil =>
    obtain rfl := Except.ok.inj h
    exact Nat.le_refl _
  | cons part rest ih =>
    have hrest := fun found text hmem => hshort found text (List.mem_cons_of_mem _ hmem)
    cases part with
    | inl u =>
      rw [replaceParts_inl] at h
      cases hout : replaceParts replacement rest with
      | error thrown =>
        rw [hout] at h
        cases h
      | ok tail =>
        rw [hout] at h
        obtain rfl := Except.ok.inj h
        have hle := ih hout hrest
        have hskip : (Sum.inl u :: rest).filterMap Sum.getRight? = rest.filterMap Sum.getRight? :=
          rfl
        simp only [List.length_cons, hskip, List.flatMap_cons, Sum.elim_inl, List.length_append,
          List.length_nil]
        omega
    | inr found =>
      simp only [replaceParts] at h
      cases htext : replacement found with
      | error thrown =>
        rw [htext] at h
        cases h
      | ok text =>
        cases hout : replaceParts replacement rest with
        | error thrown =>
          rw [htext, hout] at h
          cases h
        | ok tail =>
          rw [htext, hout] at h
          obtain rfl := Except.ok.inj h
          have hle := ih hout hrest
          have hlt := hshort found text List.mem_cons_self htext
          simp only [List.length_append, List.filterMap_cons, Sum.getRight?_inr, List.length_cons,
            List.flatMap_cons, Sum.elim_inr]
          omega

end

/-- A text of the same length is the text itself, and nothing matched in it. -/
theorem replaceOrThrow_same {ε : Type} {pattern : Pattern} {replacement : Match → Except ε Str}
    {s out : Str} (hp : pattern.Consumes)
    (hshort : ∀ before ys found text, pattern.matchAt before ys = some found →
      replacement found = .ok text → text.length < found.text.length)
    (h : pattern.replaceOrThrow replacement s = .ok out) :
    out.length ≤ s.length ∧ (out.length = s.length → out = s ∧ pattern.Absent none s) := by
  have hle := length_replaceParts h fun found text hmem htext => by
    obtain ⟨xs, ys, before, -, hfound⟩ := mem_scan hmem
    exact hshort before ys found text hfound htext
  rw [pieces_scan hp, List.drop_zero] at hle
  refine ⟨by omega, fun hlength => ?_⟩
  have hnone : (pattern.scan 0 none s).filterMap Sum.getRight? = [] :=
    List.length_eq_zero_iff.mp (by omega)
  have habsent : pattern.Absent none s := by
    refine absent_of_scan fun found hmem => ?_
    have hmatch := List.mem_filterMap.mpr ⟨_, hmem, (rfl : Sum.getRight? (.inr found) = some found)⟩
    rw [hnone] at hmatch
    cases hmatch
  refine ⟨?_, habsent⟩
  rw [replaceOrThrow, scan_absent habsent, replaceParts_units] at h
  exact (Except.ok.inj h).symm

theorem replaceOrThrow_absent {ε : Type} {pattern : Pattern} {replacement : Match → Except ε Str}
    {s : Str} (h : pattern.Absent none s) : pattern.replaceOrThrow replacement s = .ok s := by
  rw [replaceOrThrow, scan_absent h, replaceParts_units]

-- -----
-- Texts and runs
-- -----

theorem skip_cons (start : Cursor) (u : UInt16) (xs rest rest' : Str) :
    (start.skip [u] rest).skip xs rest' = start.skip (u :: xs) rest' := by
  cases xs <;> simp [Cursor.skip, List.getLast?_cons]

theorem reaches_literal {text : Str} {start stop : Cursor} :
    (literal text).Reaches start stop ↔
      ∃ rest, start.rest = text ++ rest ∧ stop = start.skip text rest := by
  induction text generalizing start with
  | nil =>
    constructor
    · rintro rfl
      exact ⟨stop.rest, rfl, rfl⟩
    · rintro ⟨rest, rfl, rfl⟩
      rfl
  | cons u text ih =>
    constructor
    · rintro ⟨mid, ⟨v, rest, hv, hrest, rfl⟩, hmore⟩
      obtain ⟨rest', htext, rfl⟩ := ih.mp hmore
      obtain rfl := eq_of_beq hv
      exact ⟨rest', hrest.trans (congrArg (v :: ·) htext), skip_cons _ _ _ _ _⟩
    · rintro ⟨rest, hrest, rfl⟩
      exact ⟨_, ⟨u, text ++ rest, beq_self_eq_true u, hrest, rfl⟩,
        ih.mpr ⟨rest, rfl, (skip_cons _ _ _ _ _).symm⟩⟩

theorem reaches_some1 {p : UInt16 → Bool} {start stop : Cursor} :
    (some1 p).Reaches start stop ↔ ∃ xs rest, xs ≠ [] ∧ (∀ u ∈ xs, p u = true) ∧
      start.rest = xs ++ rest ∧ stop = start.skip xs rest := by
  constructor
  · rintro ⟨mid, ⟨u, rest, hu, hrest, rfl⟩, xs, rest', hxs, htext, rfl⟩
    exact ⟨u :: xs, rest', List.cons_ne_nil _ _, List.forall_mem_cons.mpr ⟨hu, hxs⟩,
      hrest.trans (congrArg (u :: ·) htext), skip_cons _ _ _ _ _⟩
  · rintro ⟨xs, rest, hne, hxs, hrest, rfl⟩
    obtain ⟨u, xs, rfl⟩ := List.exists_cons_of_ne_nil hne
    rw [List.forall_mem_cons] at hxs
    exact ⟨_, ⟨u, xs ++ rest, hxs.1, hrest, rfl⟩, xs, rest, hxs.2, rfl, (skip_cons _ _ _ _ _).symm⟩

end Pattern

-- -----
-- Texts without special characters
-- -----

/-- `s.replace(/text/g, replacement)` for such a text; units of a match are skipped. -/
def replaceTextAux (text replacement : Str) : Nat → Str → Str
  | _, [] => []
  | skip + 1, _ :: rest => replaceTextAux text replacement skip rest
  | 0, u :: rest =>
    if text <+: u :: rest then replacement ++ replaceTextAux text replacement (text.length - 1) rest
    else u :: replaceTextAux text replacement 0 rest

def replaceText (text replacement s : Str) : Str := replaceTextAux text replacement 0 s

section
variable {text replacement : Str}

@[simp] theorem replaceText_nil : replaceText text replacement [] = [] := rfl

theorem replaceTextAux_skip (skip : Nat) (s : Str) :
    replaceTextAux text replacement skip s = replaceText text replacement (s.drop skip) := by
  induction s generalizing skip with
  | nil => cases skip <;> rfl
  | cons u s ih =>
    cases skip with
    | zero => rfl
    | succ skip => exact ih skip

theorem replaceText_match (ht : text ≠ []) (rest : Str) :
    replaceText text replacement (text ++ rest) =
      replacement ++ replaceText text replacement rest := by
  obtain ⟨u, more, rfl⟩ := List.exists_cons_of_ne_nil ht
  have hprefix : u :: more <+: u :: (more ++ rest) := List.prefix_append _ _
  rw [replaceText, List.cons_append, replaceTextAux, if_pos hprefix, replaceTextAux_skip]
  simp

theorem replaceText_cons {u : UInt16} {rest : Str} (h : ¬ text <+: u :: rest) :
    replaceText text replacement (u :: rest) = u :: replaceText text replacement rest :=
  if_neg h

/-- Units with which the text does not start. -/
theorem replaceText_append {u : UInt16} {more xs : Str} (hxs : u ∉ xs) (rest : Str) :
    replaceText (u :: more) replacement (xs ++ rest) =
      xs ++ replaceText (u :: more) replacement rest := by
  induction xs with
  | nil => rfl
  | cons v xs ih =>
    rw [List.mem_cons, not_or] at hxs
    have hprefix : ¬ u :: more <+: v :: (xs ++ rest) := fun h =>
      hxs.1 (List.cons_prefix_cons.mp h).1
    rw [List.cons_append, replaceText_cons hprefix, ih hxs.2, List.cons_append]

theorem replaceText_absent {s : Str} (h : ¬ text <:+: s) : replaceText text replacement s = s := by
  induction s with
  | nil => rfl
  | cons u s ih =>
    rw [replaceText_cons fun hprefix => h hprefix.isInfix,
      ih fun hrest => h (hrest.trans (List.suffix_cons u s).isInfix)]

/-- A replacement shorter than the text makes what it changes shorter. -/
theorem length_replaceText (hshort : replacement.length < text.length) (s : Str) :
    (replaceText text replacement s).length ≤ s.length ∧
      ((replaceText text replacement s).length = s.length → ¬ text <:+: s) := by
  have hne : text ≠ [] := List.ne_nil_of_length_pos (Nat.zero_lt_of_lt hshort)
  induction hn : s.length using Nat.strongRecOn generalizing s with
  | ind n ih =>
    cases s with
    | nil =>
      refine ⟨Nat.zero_le _, fun _ hinfix => hne (List.infix_nil.mp hinfix)⟩
    | cons u s =>
      by_cases hprefix : text <+: u :: s
      · obtain ⟨rest, hrest⟩ := hprefix
        have hlength : text.length + rest.length = n := by
          rw [← hn, ← hrest, List.length_append]
        obtain ⟨hle, -⟩ := ih rest.length (by omega) rest rfl
        rw [← hrest, replaceText_match hne, List.length_append]
        exact ⟨by omega, fun heq => by omega⟩
      · rw [List.length_cons] at hn
        obtain ⟨hle, hsame⟩ := ih s.length (by omega) s rfl
        rw [replaceText_cons hprefix, List.length_cons]
        refine ⟨by omega, fun heq hinfix => ?_⟩
        rcases List.infix_cons_iff.mp hinfix with hhere | hlater
        · exact hprefix hhere
        · exact hsame (by omega) hlater

end

end Js
