import PiEnv.Lib.JsonLength
import PiEnv.Notes.CollectionReads

/-!
# Exact edits

Each edit replaces the one place where its old text stands. The size of the
note is carried along from edit to edit; it is off by two bytes for every
surrogate pair that an edit cuts and for every one that it joins.
-/

namespace PiEnv.Notes

open Js

structure ExactEdit where
  oldText : Str
  newText : Str
  deriving DecidableEq, Repr

def payloadBytes (edits : List ExactEdit) (append : Option Str) : Nat :=
  (edits.map fun edit => byteLength edit.oldText + byteLength edit.newText).sum +
    byteLength (append.getD [])

def replaceAt (next : Str) (first : Nat) (edit : ExactEdit) : Str :=
  next.take first ++ edit.newText ++ next.drop (first + edit.oldText.length)

/-- The loop of `applyExactEdits`: the content and its running byte count. -/
def runEdits : Str → Int → List ExactEdit → Except NotesError (Str × Int)
  | next, nextBytes, [] => .ok (next, nextBytes)
  | next, nextBytes, edit :: edits => do
    throwIf (edit.oldText.length = 0) (.provider .missingEdit (lit "Exact edit text must not be empty."))
    match indexOfText edit.oldText next with
    | none => .error (.provider .missingEdit (lit "Exact edit text was not found."))
    | some first =>
      throwIf ((indexOfFrom edit.oldText next (first + 1)).isSome)
        (.provider .ambiguousEdit (lit "Exact edit text matched more than once."))
      let replacementBytes := nextBytes - byteLength edit.oldText + byteLength edit.newText
      throwIf (replacementBytes > MAX_NOTE_BYTES) (noteSizeError (lit "Edited note"))
      runEdits (replaceAt next first edit) replacementBytes edits

def applyExactEdits (original : Str) (edits : List ExactEdit) (append : Option Str) :
    Except NotesError Str := do
  assertNoteSize original
  throwIf (payloadBytes edits append > MAX_NOTE_BYTES) (noteSizeError (lit "Exact-edit payload"))
  let (next, nextBytes) ← runEdits original (byteLength original) edits
  match append with
  | none => return next
  | some append =>
    throwIf (nextBytes + byteLength append > MAX_NOTE_BYTES) (noteSizeError (lit "Edited note"))
    return next ++ append

-- -----
-- Bytes at a seam
-- -----

/-- A surrogate pair stands across the seam of two texts. -/
def pairAcross (s t : Str) : Bool :=
  match s.getLast?, t.head? with
  | some u, some v => isHighSurrogate u && isLowSurrogate v
  | _, _ => false

/-- How many pairs stand across the two ends of a text. -/
def seams (before text after : Str) : Nat :=
  (pairAcross before (text ++ after)).toNat + (pairAcross text after).toNat

theorem byteLength_high {u : UInt16} (h : isHighSurrogate u = true) : unitBytes u = 3 := by
  simp only [isHighSurrogate, Bool.and_eq_true, decide_eq_true_eq, UInt16.le_iff_toNat_le] at h
  have hhigh : (0xD800 : UInt16).toNat = 0xD800 := rfl
  unfold unitBytes
  rw [if_neg, if_neg] <;> rw [UInt16.lt_iff_toNat_lt]
  · show ¬ u.toNat < 0x800
    omega
  · show ¬ u.toNat < 0x80
    omega

theorem pairAcross_cons (u v : UInt16) (s t : Str) :
    pairAcross (u :: v :: s) t = pairAcross (v :: s) t := by
  rw [pairAcross, List.getLast?_cons_cons]
  rfl

theorem byteLength_seam (s t : Str) :
    byteLength (s ++ t) + 2 * (pairAcross s t).toNat = byteLength s + byteLength t := by
  fun_induction byteLength s with
  | case1 => simp [pairAcross]
  | case2 u =>
    cases t with
    | nil => simp [pairAcross, byteLength]
    | cons v t =>
      have hacross : pairAcross [u] (v :: t) = (isHighSurrogate u && isLowSurrogate v) := rfl
      rw [hacross, List.singleton_append, byteLength]
      by_cases hpair : (isHighSurrogate u && isLowSurrogate v) = true
      · obtain ⟨hu, hv⟩ := Bool.and_eq_true_iff.mp hpair
        rw [hpair, if_pos rfl, byteLength_high hu, byteLength_low hv]
        simp
        omega
      · rw [if_neg hpair, Bool.eq_false_of_not_eq_true hpair]
        rfl
  | case3 u v rest hp ih =>
    rw [List.cons_append, List.cons_append, byteLength, if_pos hp]
    cases rest with
    | nil =>
      have hv := (Bool.and_eq_true_iff.mp hp).2
      have hlow : isHighSurrogate v = false := by
        simp only [isLowSurrogate, isHighSurrogate, Bool.and_eq_true, decide_eq_true_eq,
          Bool.and_eq_false_iff, decide_eq_false_iff_not, UInt16.le_iff_toNat_le] at hv ⊢
        have h1 : (0xDC00 : UInt16).toNat = 0xDC00 := rfl
        have h2 : (0xDBFF : UInt16).toNat = 0xDBFF := rfl
        omega
      have hacross : pairAcross [u, v] t = false := by
        rw [pairAcross_cons, pairAcross]
        cases t with
        | nil => rfl
        | cons w t => simp [hlow]
      rw [hacross]
      simp [byteLength]
    | cons w rest =>
      rw [pairAcross_cons, pairAcross_cons]
      omega
  | case4 u v rest hp ih =>
    rw [List.cons_append] at ih
    rw [List.cons_append, List.cons_append, byteLength, if_neg hp, pairAcross_cons]
    omega

theorem byteLength_seams (before text after : Str) :
    byteLength (before ++ text ++ after) + 2 * seams before text after =
      byteLength before + byteLength text + byteLength after := by
  have houter := byteLength_seam before (text ++ after)
  have hinner := byteLength_seam text after
  rw [List.append_assoc, seams]
  omega

-- -----
-- The count
-- -----

/-- The content behind the edits, each made where its old text stands first. -/
def edited : Str → List ExactEdit → Str
  | next, [] => next
  | next, edit :: edits =>
    match indexOfText edit.oldText next with
    | none => next
    | some first => edited (replaceAt next first edit) edits

/-- The pairs that the edits join, less the pairs that they cut. -/
def joined : Str → List ExactEdit → Int
  | _, [] => 0
  | next, edit :: edits =>
    match indexOfText edit.oldText next with
    | none => 0
    | some first =>
      let before := next.take first
      let after := next.drop (first + edit.oldText.length)
      seams before edit.newText after - seams before edit.oldText after +
        joined (replaceAt next first edit) edits

/-- The count that the last check of the size sees is the size of the result, and
that is within the bound. -/
structure Accounted (original : Str) (edits : List ExactEdit) (append : Option Str) (result : Str) :
    Prop where
  counted : ∃ next nextBytes, runEdits original (byteLength original) edits = .ok (next, nextBytes) ∧
    result = next ++ append.getD [] ∧ nextBytes + byteLength (append.getD []) = byteLength result
  bounded : byteLength result ≤ MAX_NOTE_BYTES

/-- The edits cut as many surrogate pairs as they and the append join. -/
def Balanced (original : Str) (edits : List ExactEdit) (append : Option Str) : Prop :=
  joined original edits + (pairAcross (edited original edits) (append.getD [])).toNat = 0

instance (original : Str) (edits : List ExactEdit) (append : Option Str) :
    Decidable (Balanced original edits append) := inferInstanceAs (Decidable (_ = _))

theorem replaceAt_bytes {next : Str} {edit : ExactEdit} {first : Nat}
    (h : indexOfText edit.oldText next = some first) :
    (byteLength (replaceAt next first edit) : Int) =
      byteLength next - byteLength edit.oldText + byteLength edit.newText -
        2 * (seams (next.take first) edit.newText (next.drop (first + edit.oldText.length)) -
          seams (next.take first) edit.oldText (next.drop (first + edit.oldText.length))) := by
  obtain ⟨rest, hrest⟩ := indexOfText_eq_some h
  have hfirst : first ≤ next.length := indexOfText_le h
  have hafter : next.drop (first + edit.oldText.length) = rest := by
    have hlength : (next.take first ++ edit.oldText).length = first + edit.oldText.length := by
      simp [hfirst]
    conv => lhs; rw [hrest, ← hlength, List.drop_left]
  have hold := byteLength_seams (next.take first) edit.oldText rest
  have hnew := byteLength_seams (next.take first) edit.newText rest
  rw [← hrest] at hold
  rw [replaceAt, hafter]
  omega

theorem runEdits_count {next final : Str} {nextBytes finalBytes : Int} {edits : List ExactEdit}
    (h : runEdits next nextBytes edits = .ok (final, finalBytes)) :
    final = edited next edits ∧
      finalBytes - byteLength final = nextBytes - byteLength next + 2 * joined next edits := by
  induction edits generalizing next nextBytes with
  | nil =>
    cases h
    simp [joined, edited]
  | cons edit edits ih =>
    simp only [runEdits, Effects.bind_eq_ok] at h
    obtain ⟨-, -, h⟩ := h
    cases hindex : indexOfText edit.oldText next with
    | none => rw [hindex] at h; cases h
    | some first =>
      rw [hindex] at h
      simp only [Effects.bind_eq_ok] at h
      obtain ⟨-, -, -, -, h⟩ := h
      obtain ⟨hfinal, hrest⟩ := ih h
      have hbytes := replaceAt_bytes hindex
      rw [joined, edited, hindex]
      exact ⟨hfinal, by dsimp only; omega⟩

theorem runEdits_bounded {next final : Str} {nextBytes finalBytes : Int} {edits : List ExactEdit}
    (h : runEdits next nextBytes edits = .ok (final, finalBytes))
    (hbytes : nextBytes ≤ MAX_NOTE_BYTES) : finalBytes ≤ MAX_NOTE_BYTES := by
  induction edits generalizing next nextBytes with
  | nil =>
    cases h
    exact hbytes
  | cons edit edits ih =>
    simp only [runEdits, Effects.bind_eq_ok] at h
    obtain ⟨-, -, h⟩ := h
    cases hindex : indexOfText edit.oldText next with
    | none => rw [hindex] at h; cases h
    | some first =>
      rw [hindex] at h
      simp only [Effects.bind_eq_ok] at h
      obtain ⟨-, -, _, hsize, h⟩ := h
      exact ih h (by simpa using throwIf_eq_ok.mp hsize)

/-- What was accepted has run through, and its count kept to the bound. -/
theorem applyExactEdits_ok {original result : Str} {edits : List ExactEdit} {append : Option Str}
    (h : applyExactEdits original edits append = .ok result) :
    ∃ next nextBytes, runEdits original (byteLength original) edits = .ok (next, nextBytes) ∧
      result = next ++ append.getD [] ∧
      nextBytes + byteLength (append.getD []) ≤ MAX_NOTE_BYTES := by
  simp only [applyExactEdits, Effects.bind_eq_ok] at h
  obtain ⟨_, hsize, -, -, ⟨next, nextBytes⟩, hrun, h⟩ := h
  have horiginal : (byteLength original : Int) ≤ MAX_NOTE_BYTES := by
    unfold assertNoteSize at hsize
    split at hsize
    · cases hsize
    · omega
  have hbounded := runEdits_bounded hrun horiginal
  refine ⟨next, nextBytes, hrun, ?_⟩
  cases append with
  | none =>
    cases h
    simpa [byteLength] using hbounded
  | some append =>
    simp only [Effects.bind_eq_ok] at h
    obtain ⟨_, htotal, h⟩ := h
    cases h
    exact ⟨rfl, by simpa using throwIf_eq_ok.mp htotal⟩

/-- The size is right exactly when as many pairs are cut as are joined. -/
theorem applyExactEdits_accounted {original result : Str} {edits : List ExactEdit}
    {append : Option Str} (h : applyExactEdits original edits append = .ok result) :
    Accounted original edits append result ↔ Balanced original edits append := by
  obtain ⟨next, nextBytes, hrun, rfl, hbounded⟩ := applyExactEdits_ok h
  obtain ⟨hnext, hcount⟩ := runEdits_count hrun
  have hseam := byteLength_seam next (append.getD [])
  rw [Balanced, ← hnext]
  constructor
  · rintro ⟨⟨next', nextBytes', hrun', -, hbytes⟩, -⟩
    cases hrun.symm.trans hrun'
    omega
  · intro hbalanced
    exact ⟨⟨next, nextBytes, hrun, rfl, by omega⟩, by omega⟩

/-- An edit of a whole character. -/
def smile : Str := [0xD83D, 0xDE00]

theorem smile_accounted : Balanced (lit "a" ++ smile) [⟨smile, lit "b"⟩] none ∧
    Accounted (lit "a" ++ smile) [⟨smile, lit "b"⟩] none (lit "ab") := by
  have hbalanced : Balanced (lit "a" ++ smile) [⟨smile, lit "b"⟩] none := by decide
  exact ⟨hbalanced, (applyExactEdits_accounted (by decide +kernel)).mpr hbalanced⟩

/-- The first half of a character is removed: the count says one byte, and what is
left takes three. -/
theorem halfRemoved_miscounted : applyExactEdits smile [⟨[0xD83D], []⟩] none = .ok [0xDE00] ∧
    runEdits smile (byteLength smile) [⟨[0xD83D], []⟩] = .ok ([0xDE00], 1) ∧
    byteLength [0xDE00] = 3 ∧ ¬ Accounted smile [⟨[0xD83D], []⟩] none [0xDE00] := by
  have hrun : runEdits smile (byteLength smile) [⟨[0xD83D], []⟩] = .ok ([0xDE00], 1) := by decide +kernel
  refine ⟨by decide +kernel, hrun, by decide, ?_⟩
  rintro ⟨⟨next, nextBytes, hcount, -, hbytes⟩, -⟩
  cases hrun.symm.trans hcount
  exact absurd hbytes (by decide)

end PiEnv.Notes
