import PiEnv.Lib.Search

/-!
# Managed blocks

A block of a file stands between two markers of its name. Each is rewritten in its
turn, or appended where its markers are not in the file.
-/

namespace PiEnv.Setup

open Js Markers

-- -----
-- One block
-- -----

def invalidMarkers (startMarker endMarker : Str) : Str :=
  lit "invalid managed block markers: " ++ startMarker ++ lit ", " ++ endMarker

def duplicateMarker (marker : Str) : Str := lit "duplicate managed block marker: " ++ marker

/-- The new lines before a block that is appended. -/
def separatorAfter (current : Str) : Str :=
  if [LF, LF].isSuffixOf current then [] else if [LF].isSuffixOf current then [LF] else [LF, LF]

def blockText (managed startMarker endMarker : Str) : Str :=
  startMarker ++ [LF] ++ trim managed ++ [LF] ++ endMarker

def reconcileManagedBlock (current managed startMarker endMarker : Str) : Except Str Str :=
  let block := blockText managed startMarker endMarker
  match indexOfText startMarker current, indexOfText endMarker current with
  | none, none =>
    if current.length = 0 then .ok (block ++ [LF])
    else .ok (current ++ separatorAfter current ++ block ++ [LF])
  | some start, some stop =>
    if stop < start then .error (invalidMarkers startMarker endMarker)
    else if (indexOfFrom startMarker current (start + startMarker.length)).isSome then
      .error (duplicateMarker startMarker)
    else if (indexOfFrom endMarker current (stop + endMarker.length)).isSome then
      .error (duplicateMarker endMarker)
    else .ok (current.take start ++ block ++ current.drop (stop + endMarker.length))
  | _, _ => .error (invalidMarkers startMarker endMarker)

-- -----
-- Several blocks
-- -----

structure NamedBlock where
  name : Str
  body : Str
  deriving DecidableEq

/-- The two markers of a name. -/
inductive Mark where
  | start (name : Str)
  | stop (name : Str)
  deriving DecidableEq

def Mark.text : Mark → Str
  | .start name => lit "<!-- pi-env:" ++ name ++ lit ":start -->"
  | .stop name => lit "<!-- pi-env:" ++ name ++ lit ":end -->"

structure Reconciled where
  next : Str
  changed : List Str
  deriving DecidableEq

def reconcileLoop (next : Str) (changed : List Str) : List NamedBlock → Except Str Reconciled
  | [] => .ok ⟨next, changed⟩
  | block :: rest =>
    match reconcileManagedBlock next block.body (Mark.start block.name).text
        (Mark.stop block.name).text with
    | .error message => .error message
    | .ok reconciled =>
      reconcileLoop reconciled (if reconciled ≠ next then changed ++ [block.name] else changed) rest

def reconcileNamedBlocks (current : Str) (blocks : List NamedBlock) : Except Str Reconciled :=
  reconcileLoop current [] blocks

-- -----
-- Markers
-- -----

/-- The fifth unit from the end tells the one marker from the other. -/
theorem Mark.start_ne_stop (name name' : Str) : (Mark.start name).text ≠ (Mark.stop name').text := by
  have hstart : ∀ s : Str, (s ++ lit ":start -->").reverse[4]? = some 116 := by
    intro s
    rw [List.reverse_append, List.getElem?_append_left (by decide)]
    decide
  have hstop : ∀ s : Str, (s ++ lit ":end -->").reverse[4]? = some 100 := by
    intro s
    rw [List.reverse_append, List.getElem?_append_left (by decide)]
    decide
  intro h
  have hunit := congrArg (fun s : Str => s.reverse[4]?) h
  simp only [Mark.text, hstart, hstop] at hunit
  exact absurd hunit (by decide)

theorem Mark.text_injective : Function.Injective Mark.text := by
  intro mark mark' h
  cases mark with
  | start name =>
    cases mark' with
    | start name' =>
      rw [Mark.text, Mark.text, List.append_cancel_right_eq, List.append_cancel_left_eq] at h
      rw [h]
    | stop name' => exact absurd h (start_ne_stop name name')
  | stop name =>
    cases mark' with
    | start name' => exact absurd h.symm (start_ne_stop name' name)
    | stop name' =>
      rw [Mark.text, Mark.text, List.append_cancel_right_eq, List.append_cancel_left_eq] at h
      rw [h]

/-- A name without angle brackets. -/
def Plain (name : Str) : Prop := 60 ∉ name ∧ 62 ∉ name

theorem framed_of_plain {name front back : Str} (h : Plain name)
    (hfront : 60 ∉ front ∧ 62 ∉ front) (hback : 60 ∉ back ∧ 62 ∉ back) :
    Framed 60 62 (60 :: front ++ name ++ (back ++ [62])) := by
  refine ⟨front ++ name ++ back, by simp, ?_, ?_⟩
  · simp [h.1, hfront.1, hback.1]
  · simp [h.2, hfront.2, hback.2]

theorem Mark.framed {mark : Mark} (h : match mark with | .start name | .stop name => Plain name) :
    Framed 60 62 mark.text := by
  have hfront : 60 :: lit "!-- pi-env:" = lit "<!-- pi-env:" := by decide
  cases mark with
  | start name =>
    have hback : lit ":start --" ++ [62] = lit ":start -->" := by decide
    rw [Mark.text, ← hfront, ← hback]
    exact framed_of_plain h (by decide) (by decide)
  | stop name =>
    have hback : lit ":end --" ++ [62] = lit ":end -->" := by decide
    rw [Mark.text, ← hfront, ← hback]
    exact framed_of_plain h (by decide) (by decide)

-- -----
-- The markers of one block
-- -----

/-- The two markers are both missing, or each is there once, in their order. -/
def WellPaired (startMarker endMarker current : Str) : Prop :=
  Absent startMarker current ∧ Absent endMarker current ∨
    ∃ i j, i < j ∧ OnlyAt startMarker current i ∧ OnlyAt endMarker current j

section
variable {current managed : Str} {listed : Mark → Prop} {name : Str}
  (hsep : Separate Mark.text listed) (hstart : listed (.start name)) (hstop : listed (.stop name))

/-- What is put before a block that is appended. -/
def leadIn (current : Str) : Str := if current.length = 0 then [] else separatorAfter current

theorem mem_leadIn {u : UInt16} (h : u ∈ leadIn current) : u = LF := by
  unfold leadIn separatorAfter at h
  split_ifs at h <;> simp_all

theorem reconcile_absent {startMarker endMarker : Str} (hs : Absent startMarker current)
    (he : Absent endMarker current) :
    reconcileManagedBlock current managed startMarker endMarker =
      .ok (current ++ leadIn current ++ blockText managed startMarker endMarker ++ [LF]) := by
  simp only [reconcileManagedBlock, indexOfText_eq_none.mpr hs, indexOfText_eq_none.mpr he, leadIn]
  split
  · rename_i h
    rw [List.length_eq_zero_iff.mp h]
    rfl
  · rfl

theorem rest_of_only {marker : Str} {i : Nat} (hne : marker ≠ []) (h : OnlyAt marker current i) :
    indexOfFrom marker current (i + marker.length) = none := by
  have hpos := List.length_pos_iff.mpr hne
  refine (indexOfFrom_eq_none ((h i).mpr rfl).le).mpr fun k hk hat => ?_
  have hsame := (h k).mp hat
  omega

include hsep

/-- The first place is the only one where there is none after it. -/
theorem only_of_rest {mark : Mark} (hmark : listed mark) {i : Nat}
    (hfirst : indexOfText mark.text current = some i)
    (hrest : indexOfFrom mark.text current (i + mark.text.length) = none) :
    OnlyAt mark.text current i := by
  obtain ⟨hat, hbefore⟩ := indexOfText_first hfirst
  rw [indexOfFrom_eq_none hat.le] at hrest
  intro k
  constructor
  · intro hk
    have hle : i ≤ k := Nat.le_of_not_lt fun hlt => hbefore k hlt hk
    have hpos := List.length_pos_iff.mpr (hsep.ne_nil mark hmark)
    rcases hsep.apart mark mark hmark hmark _ _ _ hk hat with left | right | ⟨same, -⟩
    · omega
    · exact absurd hk (hrest k right)
    · exact same
  · rintro rfl
    exact hat

include hstart hstop

theorem reconcile_present {i j : Nat} (hs : OnlyAt (Mark.start name).text current i)
    (he : OnlyAt (Mark.stop name).text current j) (hij : i < j) :
    reconcileManagedBlock current managed (Mark.start name).text (Mark.stop name).text =
      .ok (current.take i ++ blockText managed (Mark.start name).text (Mark.stop name).text ++
        current.drop (j + (Mark.stop name).text.length)) := by
  have hrest := rest_of_only (hsep.ne_nil _ hstart) hs
  have hrest' := rest_of_only (hsep.ne_nil _ hstop) he
  simp [reconcileManagedBlock, indexOfText_only hs, indexOfText_only he, hrest, hrest',
    Nat.not_lt_of_gt hij]

/-- A call throws when the markers are not well paired. -/
theorem wellPaired_of_ok {next : Str}
    (h : reconcileManagedBlock current managed (Mark.start name).text (Mark.stop name).text =
      .ok next) : WellPaired (Mark.start name).text (Mark.stop name).text current := by
  unfold reconcileManagedBlock at h
  cases hs : indexOfText (Mark.start name).text current with
  | none =>
    cases he : indexOfText (Mark.stop name).text current with
    | none => exact .inl ⟨indexOfText_eq_none.mp hs, indexOfText_eq_none.mp he⟩
    | some j => simp [hs, he] at h
  | some i =>
    cases he : indexOfText (Mark.stop name).text current with
    | none => simp [hs, he] at h
    | some j =>
      simp only [hs, he] at h
      split_ifs at h with hlt hdup hdup'
      have honly := only_of_rest hsep hstart hs (by simpa using hdup)
      have honly' := only_of_rest hsep hstop he (by simpa using hdup')
      refine .inr ⟨i, j, lt_of_le_of_ne (Nat.le_of_not_lt hlt) ?_, honly, honly'⟩
      rintro rfl
      have hpos := List.length_pos_iff.mpr (hsep.ne_nil _ hstart)
      have hpos' := List.length_pos_iff.mpr (hsep.ne_nil _ hstop)
      rcases hsep.apart _ _ hstart hstop _ _ _ ((honly i).mpr rfl) ((honly' i).mpr rfl) with
        left | right | ⟨-, same⟩
      · omega
      · omega
      · cases same

end

end PiEnv.Setup
