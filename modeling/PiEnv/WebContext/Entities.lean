import PiEnv.Lib.Pattern
import PiEnv.Lib.Utf8

/-!
# Entities of markup

Entities are decoded by eight replacements after each other. The escaping that they
are to undo is the usual one of five characters.
-/

namespace PiEnv.WebContext

open Js

-- -----
-- Decoding
-- -----

inductive RangeError where
  | invalidCodePoint
  deriving DecidableEq, Repr

def fromCodePoint (n : Nat) : Except RangeError Str :=
  if n ≤ 0x10FFFF then .ok (Utf8.scalarUnits n) else .error .invalidCodePoint

def isHexDigit (u : UInt16) : Bool :=
  isDigit u || (65 ≤ u && u ≤ 70) || (97 ≤ u && u ≤ 102)

def hexDigitNumber (u : UInt16) : Nat :=
  if isDigit u then u.toNat - 48 else if u ≤ 70 then u.toNat - 55 else u.toNat - 87

def hexNumber (digits : Str) : Nat := digits.foldl (fun n u => 16 * n + hexDigitNumber u) 0

def isX (u : UInt16) : Bool := u == 88 || u == 120

/-- `/&#x([0-9a-f]+);/gi` -/
def hexReference : Pattern :=
  .all [.literal (lit "&#"), .one isX, .group 1 (.some1 isHexDigit), .literal (lit ";")]

/-- `/&#(\d+);/g` -/
def decimalReference : Pattern :=
  .all [.literal (lit "&#"), .group 1 (.some1 isDigit), .literal (lit ";")]

def decodeHex (found : Match) : Except RangeError Str :=
  fromCodePoint (hexNumber ((found.group 1).getD []))

def decodeDecimal (found : Match) : Except RangeError Str :=
  fromCodePoint (digitsValue ((found.group 1).getD []))

def decodeNumeric (value : Str) : Except RangeError Str := do
  decimalReference.replaceOrThrow decodeDecimal (← hexReference.replaceOrThrow decodeHex value)

/-- The replacements after those of spaces and ampersands. -/
def decodeNamed (value : Str) : Str :=
  replaceText (lit "&#39;") (lit "'") <| replaceText (lit "&quot;") (lit "\"") <|
    replaceText (lit "&gt;") (lit ">") <| replaceText (lit "&lt;") (lit "<") value

def decodeEntities (value : Str) : Except RangeError Str :=
  decodeNumeric <| decodeNamed <| replaceText (lit "&amp;") (lit "&") <|
    replaceText (lit "&nbsp;") (lit " ") value

-- -----
-- Escaping
-- -----

/-- The usual escape of a character. -/
def entity (u : UInt16) : Option Str :=
  if u = 38 then some (lit "&amp;")
  else if u = 60 then some (lit "&lt;")
  else if u = 62 then some (lit "&gt;")
  else if u = 34 then some (lit "&quot;")
  else if u = 39 then some (lit "&#39;")
  else none

/-- The characters of a set are escaped. -/
def escapeOnly (characters : List UInt16) (s : Str) : Str :=
  s.flatMap fun u => if u ∈ characters then (entity u).getD [u] else [u]

def escapeHtml (s : Str) : Str := escapeOnly [38, 60, 62, 34, 39] s

def IsHexReference (text : Str) : Prop :=
  ∃ x digits, isX x = true ∧ digits ≠ [] ∧ (∀ u ∈ digits, isHexDigit u = true) ∧
    text = lit "&#" ++ x :: digits ++ lit ";"

def IsDecimalReference (text : Str) : Prop :=
  ∃ digits, digits ≠ [] ∧ (∀ u ∈ digits, isDigit u = true) ∧
    text = lit "&#" ++ digits ++ lit ";"

/-- The text has a name of an entity or a numeric reference in it. -/
def SpellsEntity (s : Str) : Prop :=
  (lit "&lt;" <:+: s ∨ lit "&gt;" <:+: s ∨ lit "&quot;" <:+: s ∨ lit "&#39;" <:+: s) ∨
  (∃ text, IsHexReference text ∧ text <:+: s) ∨ ∃ text, IsDecimalReference text ∧ text <:+: s

-- -----
-- Named entities of an escaped text
-- -----

theorem replaceText_flatMap {text replacement : Str} {g h : UInt16 → Str}
    (hg : ∀ u rest, replaceText text replacement (g u ++ rest) =
      h u ++ replaceText text replacement rest) (s : Str) :
    replaceText text replacement (s.flatMap g) = s.flatMap h := by
  induction s with
  | nil => rfl
  | cons u s ih => rw [List.flatMap_cons, List.flatMap_cons, hg, ih]

/-- The escape of the character goes on otherwise than the name does. -/
def isOther (name : Str) (u : UInt16) : Bool :=
  match entity u, name with
  | some (v :: w :: more), c :: _ => v == 38 && w != c && !(w :: more).contains 38
  | _, _ => false

theorem replaceText_other {name replacement : Str} {u : UInt16} (h : isOther name u = true) :
    ∃ more, entity u = some (38 :: more) ∧ ∀ rest,
      replaceText (38 :: name) replacement (38 :: more ++ rest) =
        38 :: more ++ replaceText (38 :: name) replacement rest := by
  unfold isOther at h
  split at h
  · rename_i v w more c name hescape
    simp only [Bool.and_eq_true, beq_iff_eq, bne_iff_ne, Bool.not_eq_true', List.contains_eq_mem,
      decide_eq_false_iff_not] at h
    obtain ⟨⟨rfl, hdiffers⟩, hamp⟩ := h
    refine ⟨w :: more, hescape, fun rest => ?_⟩
    have hprefix : ¬ 38 :: c :: name <+: 38 :: (w :: more ++ rest) := by
      intro hprefix
      have hname := (List.cons_prefix_cons.mp hprefix).2
      exact hdiffers (List.cons_prefix_cons.mp hname).1.symm
    rw [List.cons_append, replaceText_cons hprefix, replaceText_append hamp]
    rfl
  · cases h

theorem prefix_of_escaped {characters : List UInt16} {body s : Str}
    (hchars : ∀ u ∈ characters, ∃ more, entity u = some (38 :: more)) (hbody : (38 : UInt16) ∉ body)
    (h : body <+: escapeOnly characters s) : body <+: s := by
  induction body generalizing s with
  | nil => exact List.nil_prefix
  | cons v body ih =>
    rw [List.mem_cons, not_or] at hbody
    cases s with
    | nil => exact h
    | cons u s =>
      rw [escapeOnly, List.flatMap_cons, ← escapeOnly] at h
      by_cases hu : u ∈ characters
      · obtain ⟨more, hmore⟩ := hchars u hu
        rw [if_pos hu, hmore] at h
        exact absurd (List.cons_prefix_cons.mp h).1.symm hbody.1
      · rw [if_neg hu] at h
        obtain ⟨rfl, hrest⟩ := List.cons_prefix_cons.mp h
        exact List.cons_prefix_cons.mpr ⟨rfl, ih hbody.2 hrest⟩

/-- Undoing the escape of one character leaves the other escapes, and acts on the
text as it acts on its escape. -/
theorem replaceText_escapeOnly {c : UInt16} {name : Str} {others : List UInt16}
    (hc : entity c = some (38 :: name)) (hamp : (38 : UInt16) ∉ c :: others) (hfresh : c ∉ others)
    (hname : (38 : UInt16) ∉ name) (hplain : name.all (fun u => !(c :: others).contains u) = true)
    (hothers : others.all (isOther name) = true) (s : Str) :
    replaceText (38 :: name) [c] (escapeOnly (c :: others) s) =
      escapeOnly others (replaceText (38 :: name) [c] s) := by
  have hne : 38 :: name ≠ [] := List.cons_ne_nil _ _
  have hcons (characters : List UInt16) (u : UInt16) (rest : Str) :
      escapeOnly characters (u :: rest) =
        (if u ∈ characters then (entity u).getD [u] else [u]) ++ escapeOnly characters rest :=
    List.flatMap_cons
  have hkept : escapeOnly (c :: others) (38 :: name) = 38 :: name := by
    have hnone : ∀ u ∈ 38 :: name, u ∉ c :: others :=
      List.forall_mem_cons.mpr ⟨hamp, fun u hu => by simpa using List.all_eq_true.mp hplain u hu⟩
    rw [escapeOnly, List.flatMap_congr fun u hu => if_neg (hnone u hu)]
    exact List.flatMap_singleton' _
  induction hn : s.length using Nat.strongRecOn generalizing s with
  | ind n ih =>
    cases s with
    | nil => rfl
    | cons u s =>
      by_cases hprefix : 38 :: name <+: u :: s
      · obtain ⟨rest, hrest⟩ := hprefix
        have hlt : rest.length < n := by
          rw [← hn, ← hrest, List.length_append, List.length_cons]
          omega
        have hsplit : escapeOnly (c :: others) (38 :: name ++ rest) =
            38 :: name ++ escapeOnly (c :: others) rest := by
          rw [escapeOnly, List.flatMap_append, ← escapeOnly, ← escapeOnly, hkept]
        rw [← hrest, hsplit, replaceText_match hne, replaceText_match hne, ih _ hlt rest rfl]
        exact ((hcons others c _).trans (by rw [if_neg hfresh]; rfl)).symm
      · have hlater := ih s.length (by rw [← hn]; exact Nat.lt_succ_self _) s rfl
        rw [replaceText_cons hprefix, hcons, hcons]
        by_cases huc : u = c
        · rw [huc, if_pos List.mem_cons_self, hc, Option.getD_some, replaceText_match hne, hlater,
            if_neg hfresh]
        · by_cases hu : u ∈ others
          · obtain ⟨more, hmore, hpass⟩ := replaceText_other (List.all_eq_true.mp hothers u hu)
            rw [if_pos (List.mem_cons_of_mem _ hu), if_pos hu, hmore, Option.getD_some, hpass,
              hlater]
          · have hnot : u ∉ c :: others := by simp [huc, hu]
            rw [if_neg hnot, if_neg hu, List.singleton_append, List.singleton_append,
              replaceText_cons, hlater]
            intro h
            obtain ⟨rfl, hrest⟩ := List.cons_prefix_cons.mp h
            refine hprefix (List.cons_prefix_cons.mpr ⟨rfl, prefix_of_escaped ?_ hname hrest⟩)
            intro v hv
            rcases List.mem_cons.mp hv with rfl | hv
            · exact ⟨name, hc⟩
            · obtain ⟨more, hmore, -⟩ := @replaceText_other name [] v
                (List.all_eq_true.mp hothers v hv)
              exact ⟨more, hmore⟩

theorem replaceText_plain {name replacement : Str} {u : UInt16} (h : u ≠ 38) (rest : Str) :
    replaceText (38 :: name) replacement (u :: rest) =
      u :: replaceText (38 :: name) replacement rest :=
  replaceText_cons fun hprefix => h (List.cons_prefix_cons.mp hprefix).1.symm

/-- What is escaped has no spaces that are named. -/
theorem replaceText_nbsp (s : Str) :
    replaceText (lit "&nbsp;") (lit " ") (escapeHtml s) = escapeHtml s := by
  refine replaceText_flatMap (fun u rest => ?_) s
  have hothers : ([38, 60, 62, 34, 39] : List UInt16).all (isOther (lit "nbsp;")) = true := by decide
  by_cases hu : u ∈ ([38, 60, 62, 34, 39] : List UInt16)
  · obtain ⟨more, hmore, hpass⟩ := replaceText_other (List.all_eq_true.mp hothers u hu)
    rw [if_pos hu, hmore]
    exact hpass rest
  · rw [if_neg hu]
    exact replaceText_plain (fun h => hu (h ▸ List.mem_cons_self)) rest

/-- The ampersands are undone in one pass over what is escaped. -/
theorem replaceText_amp (s : Str) : replaceText (lit "&amp;") (lit "&") (escapeHtml s) =
    escapeOnly [60, 62, 34, 39] s := by
  refine replaceText_flatMap (fun u rest => ?_) s
  have hothers : ([60, 62, 34, 39] : List UInt16).all (isOther (lit "amp;")) = true := by decide
  by_cases hamp : u = 38
  · rw [hamp]
    exact replaceText_match (by decide) rest
  · by_cases hu : u ∈ ([60, 62, 34, 39] : List UInt16)
    · obtain ⟨more, hmore, hpass⟩ := replaceText_other (List.all_eq_true.mp hothers u hu)
      rw [if_pos (List.mem_cons_of_mem _ hu), if_pos hu, hmore]
      exact hpass rest
    · rw [if_neg (by simpa [hamp] using hu), if_neg hu]
      exact replaceText_plain hamp rest

theorem escapeOnly_nil (s : Str) : escapeOnly [] s = s := List.flatMap_singleton' s

theorem decodeNamed_escaped (s : Str) :
    decodeNamed (escapeOnly [60, 62, 34, 39] s) = decodeNamed s := by
  have hlt (s : Str) : replaceText (lit "&lt;") (lit "<") (escapeOnly [60, 62, 34, 39] s) =
      escapeOnly [62, 34, 39] (replaceText (lit "&lt;") (lit "<") s) :=
    replaceText_escapeOnly rfl (by decide) (by decide) (by decide) (by decide) (by decide) s
  have hgt (s : Str) : replaceText (lit "&gt;") (lit ">") (escapeOnly [62, 34, 39] s) =
      escapeOnly [34, 39] (replaceText (lit "&gt;") (lit ">") s) :=
    replaceText_escapeOnly rfl (by decide) (by decide) (by decide) (by decide) (by decide) s
  have hquot (s : Str) : replaceText (lit "&quot;") (lit "\"") (escapeOnly [34, 39] s) =
      escapeOnly [39] (replaceText (lit "&quot;") (lit "\"") s) :=
    replaceText_escapeOnly rfl (by decide) (by decide) (by decide) (by decide) (by decide) s
  have hapos (s : Str) : replaceText (lit "&#39;") (lit "'") (escapeOnly [39] s) =
      escapeOnly [] (replaceText (lit "&#39;") (lit "'") s) :=
    replaceText_escapeOnly rfl (by decide) (by decide) (by decide) (by decide) (by decide) s
  rw [decodeNamed, hlt, hgt, hquot, hapos, escapeOnly_nil]
  rfl

/-- Escaping undoes the first two replacements, and nothing else. -/
theorem decodeEntities_escapeHtml (s : Str) :
    decodeEntities (escapeHtml s) = decodeNumeric (decodeNamed s) := by
  rw [decodeEntities, replaceText_nbsp, replaceText_amp, decodeNamed_escaped]

-- -----
-- Numeric references
-- -----

/-- What a match of a reference is made of, after its head. -/
theorem reaches_digits {digit : UInt16 → Bool} {start stop : Cursor}
    (h : (Pattern.all [.group 1 (.some1 digit), .literal (lit ";")]).Reaches start stop) :
    ∃ digits, digits ≠ [] ∧ (∀ u ∈ digits, digit u = true) ∧
      start.rest = digits ++ lit ";" ++ stop.rest ∧ stop.groups = (1, digits) :: start.groups := by
  obtain ⟨mid, ⟨inner, hdigits, rfl⟩, mid', hsemi, rfl⟩ := h
  obtain ⟨digits, rest, hne, hall, hrest, rfl⟩ := Pattern.reaches_some1.mp hdigits
  obtain ⟨rest', hlast, rfl⟩ := Pattern.reaches_literal.mp hsemi
  have hcut : rest = lit ";" ++ rest' := hlast
  refine ⟨digits, hne, hall, by rw [hrest, hcut, List.append_assoc]; rfl, ?_⟩
  simp [Cursor.close, Cursor.skip, hrest]

theorem exists_reaches_digits {digit : UInt16 → Bool} {start : Cursor} {digits rest : Str}
    (hne : digits ≠ []) (hall : ∀ u ∈ digits, digit u = true)
    (h : start.rest = digits ++ lit ";" ++ rest) :
    ∃ stop, (Pattern.all [.group 1 (.some1 digit), .literal (lit ";")]).Reaches start stop := by
  rw [List.append_assoc] at h
  exact ⟨_, _, ⟨_, Pattern.reaches_some1.mpr ⟨digits, _, hne, hall, h, rfl⟩, rfl⟩, _,
    Pattern.reaches_literal.mpr ⟨rest, rfl, rfl⟩, rfl⟩

theorem reaches_hex {start stop : Cursor} (h : hexReference.Reaches start stop) :
    ∃ x digits, isX x = true ∧ digits ≠ [] ∧ (∀ u ∈ digits, isHexDigit u = true) ∧
      start.rest = lit "&#" ++ x :: digits ++ lit ";" ++ stop.rest ∧
      stop.groups = (1, digits) :: start.groups := by
  obtain ⟨mid, hhead, mid', ⟨x, rest, hx, hrest, rfl⟩, hdigits⟩ := h
  obtain ⟨rest', hcut, rfl⟩ := Pattern.reaches_literal.mp hhead
  obtain ⟨digits, hne, hall, htext, hgroups⟩ := reaches_digits hdigits
  refine ⟨x, digits, hx, hne, hall, ?_, hgroups⟩
  have hmid : rest' = x :: rest := hrest
  have hlast : rest = digits ++ lit ";" ++ stop.rest := htext
  rw [hcut, hmid, hlast]
  simp

theorem reaches_decimal {start stop : Cursor} (h : decimalReference.Reaches start stop) :
    ∃ digits, digits ≠ [] ∧ (∀ u ∈ digits, isDigit u = true) ∧
      start.rest = lit "&#" ++ digits ++ lit ";" ++ stop.rest ∧
      stop.groups = (1, digits) :: start.groups := by
  obtain ⟨mid, hhead, hdigits⟩ := h
  obtain ⟨rest', hcut, rfl⟩ := Pattern.reaches_literal.mp hhead
  obtain ⟨digits, hne, hall, htext, hgroups⟩ := reaches_digits hdigits
  refine ⟨digits, hne, hall, ?_, hgroups⟩
  have hlast : rest' = digits ++ lit ";" ++ stop.rest := htext
  rw [hcut, hlast]
  simp

theorem length_fromCodePoint {n : Nat} {text : Str} (h : fromCodePoint n = .ok text) :
    text.length ≤ 2 := by
  unfold fromCodePoint at h
  split at h
  · obtain rfl := Except.ok.inj h
    exact Utf8.length_scalarUnits n
  · cases h

theorem matchAt_hex {before : Option UInt16} {s : Str} {found : Match}
    (h : hexReference.matchAt before s = some found) :
    ∃ x digits rest, isX x = true ∧ digits ≠ [] ∧ (∀ u ∈ digits, isHexDigit u = true) ∧
      found.text = lit "&#" ++ x :: digits ++ lit ";" ∧ found.group 1 = some digits ∧
      s = found.text ++ rest := by
  obtain ⟨stop, hreaches, rfl, hs⟩ := Pattern.matchAt_eq_some h
  obtain ⟨x, digits, hx, hne, hall, hrest, hgroups⟩ := reaches_hex hreaches
  refine ⟨x, digits, stop.rest, hx, hne, hall, List.append_cancel_right (hs.symm.trans hrest), ?_, hs⟩
  simp [Match.group, Match.of, hgroups]

theorem matchAt_decimal {before : Option UInt16} {s : Str} {found : Match}
    (h : decimalReference.matchAt before s = some found) :
    ∃ digits rest, digits ≠ [] ∧ (∀ u ∈ digits, isDigit u = true) ∧
      found.text = lit "&#" ++ digits ++ lit ";" ∧ found.group 1 = some digits ∧
      s = found.text ++ rest := by
  obtain ⟨stop, hreaches, rfl, hs⟩ := Pattern.matchAt_eq_some h
  obtain ⟨digits, hne, hall, hrest, hgroups⟩ := reaches_decimal hreaches
  refine ⟨digits, stop.rest, hne, hall, List.append_cancel_right (hs.symm.trans hrest), ?_, hs⟩
  simp [Match.group, Match.of, hgroups]

theorem matchAt_hex_isSome {before : Option UInt16} {x : UInt16} {digits : Str} (hx : isX x = true)
    (hne : digits ≠ []) (hall : ∀ u ∈ digits, isHexDigit u = true) (rest : Str) :
    (hexReference.matchAt before (lit "&#" ++ x :: digits ++ lit ";" ++ rest)).isSome = true := by
  rw [Pattern.matchAt_isSome]
  obtain ⟨stop, hstop⟩ := @exists_reaches_digits isHexDigit
    ⟨some x, digits ++ lit ";" ++ rest, []⟩ digits rest hne hall rfl
  refine ⟨stop, _, Pattern.reaches_literal.mpr ⟨x :: digits ++ lit ";" ++ rest, by simp, rfl⟩, _,
    ⟨x, digits ++ lit ";" ++ rest, hx, by simp [Cursor.skip], rfl⟩, hstop⟩

theorem matchAt_decimal_isSome {before : Option UInt16} {digits : Str} (hne : digits ≠ [])
    (hall : ∀ u ∈ digits, isDigit u = true) (rest : Str) :
    (decimalReference.matchAt before (lit "&#" ++ digits ++ lit ";" ++ rest)).isSome = true := by
  rw [Pattern.matchAt_isSome]
  obtain ⟨stop, hstop⟩ := @exists_reaches_digits isDigit
    ⟨some 35, digits ++ lit ";" ++ rest, []⟩ digits rest hne hall rfl
  exact ⟨stop, _, Pattern.reaches_literal.mpr ⟨digits ++ lit ";" ++ rest, by simp, rfl⟩, hstop⟩

theorem consumes_hex : hexReference.Consumes := by
  intro before s found h
  obtain ⟨x, digits, rest, -, -, -, htext, -⟩ := matchAt_hex h
  rw [htext]
  exact List.cons_ne_nil _ _

theorem consumes_decimal : decimalReference.Consumes := by
  intro before s found h
  obtain ⟨digits, rest, -, -, htext, -⟩ := matchAt_decimal h
  rw [htext]
  exact List.cons_ne_nil _ _

theorem decodeHex_shorter (before : Option UInt16) (s : Str) (found : Match) (text : Str)
    (h : hexReference.matchAt before s = some found) (htext : decodeHex found = .ok text) :
    text.length < found.text.length := by
  obtain ⟨x, digits, rest, -, -, -, hfound, -⟩ := matchAt_hex h
  have hle := length_fromCodePoint htext
  rw [hfound]
  simp [show (lit "&#").length = 2 from rfl, show (lit ";").length = 1 from rfl]
  omega

theorem decodeDecimal_shorter (before : Option UInt16) (s : Str) (found : Match) (text : Str)
    (h : decimalReference.matchAt before s = some found)
    (htext : decodeDecimal found = .ok text) : text.length < found.text.length := by
  obtain ⟨digits, rest, hne, -, hfound, -⟩ := matchAt_decimal h
  have hle := length_fromCodePoint htext
  have hpos := List.length_pos_iff.mpr hne
  rw [hfound]
  simp [show (lit "&#").length = 2 from rfl, show (lit ";").length = 1 from rfl]
  omega

theorem absent_hex {s : Str} :
    hexReference.Absent none s ↔ ¬ ∃ text, IsHexReference text ∧ text <:+: s := by
  refine Pattern.absent_iff (fun before s found h => ?_) fun before text rest h => ?_
  · obtain ⟨x, digits, rest, hx, hne, hall, htext, -⟩ := matchAt_hex h
    exact ⟨x, digits, hx, hne, hall, htext⟩
  · obtain ⟨x, digits, hx, hne, hall, rfl⟩ := h
    exact ⟨List.cons_ne_nil _ _, matchAt_hex_isSome hx hne hall rest⟩

theorem absent_decimal {s : Str} :
    decimalReference.Absent none s ↔ ¬ ∃ text, IsDecimalReference text ∧ text <:+: s := by
  refine Pattern.absent_iff (fun before s found h => ?_) fun before text rest h => ?_
  · obtain ⟨digits, rest, hne, hall, htext, -⟩ := matchAt_decimal h
    exact ⟨digits, hne, hall, htext⟩
  · obtain ⟨digits, hne, hall, rfl⟩ := h
    exact ⟨List.cons_ne_nil _ _, matchAt_decimal_isSome hne hall rest⟩

/-- Nothing in the text that the later replacements change. -/
theorem not_spellsEntity {s : Str} : ¬ SpellsEntity s ↔
    (¬ lit "&lt;" <:+: s ∧ ¬ lit "&gt;" <:+: s ∧ ¬ lit "&quot;" <:+: s ∧ ¬ lit "&#39;" <:+: s) ∧
      hexReference.Absent none s ∧ decimalReference.Absent none s := by
  rw [absent_hex, absent_decimal]
  simp only [SpellsEntity, not_or]

theorem replaceText_same {text replacement s out : Str} (hshort : replacement.length < text.length)
    (h : replaceText text replacement s = out) :
    out.length ≤ s.length ∧ (out.length = s.length → ¬ text <:+: s ∧ out = s) := by
  subst h
  obtain ⟨hle, hsame⟩ := length_replaceText hshort s
  exact ⟨hle, fun heq => ⟨hsame heq, replaceText_absent (hsame heq)⟩⟩

/-- The replacements shorten what they change: a text that decodes to itself has
nothing to decode, and the reverse. -/
theorem decode_same (s : Str) : decodeNumeric (decodeNamed s) = .ok s ↔ ¬ SpellsEntity s := by
  rw [not_spellsEntity]
  constructor
  · intro h
    unfold decodeNumeric at h
    cases hhex : hexReference.replaceOrThrow decodeHex (decodeNamed s) with
    | error thrown =>
      rw [hhex] at h
      cases h
    | ok middle =>
      rw [hhex] at h
      obtain ⟨hdle, hdsame⟩ :=
        Pattern.replaceOrThrow_same consumes_decimal decodeDecimal_shorter h
      obtain ⟨hxle, hxsame⟩ := Pattern.replaceOrThrow_same consumes_hex decodeHex_shorter hhex
      unfold decodeNamed at hxle hxsame
      generalize hlt : replaceText (lit "&lt;") (lit "<") s = a at *
      generalize hgt : replaceText (lit "&gt;") (lit ">") a = b at *
      generalize hquot : replaceText (lit "&quot;") (lit "\"") b = c at *
      generalize hapos : replaceText (lit "&#39;") (lit "'") c = d at *
      obtain ⟨hale, hasame⟩ := replaceText_same (by decide) hlt
      obtain ⟨hble, hbsame⟩ := replaceText_same (by decide) hgt
      obtain ⟨hcle, hcsame⟩ := replaceText_same (by decide) hquot
      obtain ⟨hple, hpsame⟩ := replaceText_same (by decide) hapos
      obtain ⟨hnolt, rfl⟩ := hasame (by omega)
      obtain ⟨hnogt, rfl⟩ := hbsame (by omega)
      obtain ⟨hnoquot, rfl⟩ := hcsame (by omega)
      obtain ⟨hnoapos, rfl⟩ := hpsame (by omega)
      obtain ⟨rfl, hnohex⟩ := hxsame (by omega)
      exact ⟨⟨hnolt, hnogt, hnoquot, hnoapos⟩, hnohex, (hdsame rfl).2⟩
  · rintro ⟨⟨hlt, hgt, hquot, hapos⟩, hhex, hdecimal⟩
    have hnamed : decodeNamed s = s := by
      rw [decodeNamed, replaceText_absent hlt, replaceText_absent hgt, replaceText_absent hquot,
        replaceText_absent hapos]
    rw [hnamed, decodeNumeric, Pattern.replaceOrThrow_absent hhex]
    exact Pattern.replaceOrThrow_absent hdecimal

/-- Decoding undoes escaping where the text itself does not spell an entity. -/
theorem decode_escape (s : Str) :
    decodeEntities (escapeHtml s) = .ok s ↔ ¬ SpellsEntity s := by
  rw [decodeEntities_escapeHtml, decode_same]

/-- A text that speaks of an entity. -/
theorem decode_escape_lt :
    decodeEntities (escapeHtml (lit "&lt;")) = .ok (lit "<") ∧ lit "<" ≠ lit "&lt;" := by
  decide +kernel

end PiEnv.WebContext
