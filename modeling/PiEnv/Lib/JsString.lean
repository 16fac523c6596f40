import Mathlib.Data.List.DropRight
import Mathlib.Data.List.Infix

/-!
# JavaScript strings

A string is its sequence of UTF-16 code units, so a lone surrogate is a
string like any other and `length` counts what JavaScript counts. The
functions carry the names they have in JavaScript.
-/

namespace Js

abbrev Str := List UInt16

instance : LawfulBEq Str := inferInstance

def units (c : Char) : Str :=
  if c.toNat < 0x10000 then [UInt16.ofNat c.toNat]
  else [UInt16.ofNat (0xD800 + (c.toNat - 0x10000) / 0x400),
    UInt16.ofNat (0xDC00 + (c.toNat - 0x10000) % 0x400)]

/-- The string a source literal denotes. -/
def lit (s : String) : Str := s.toList.flatMap units

def LF : UInt16 := 10
def CR : UInt16 := 13
def space : UInt16 := 32

/-- Text up to a unit it does not hold lies before that unit's occurrence. -/
theorem before_of_not_mem {u : UInt16} {xs ys before after : Str}
    (h : xs ++ ys = before ++ u :: after) (hu : u ∉ xs) :
    ∃ rest, before = xs ++ rest ∧ ys = rest ++ u :: after := by
  rcases List.append_eq_append_iff.mp h with ⟨rest, hb, hy⟩ | ⟨c, hx, hc⟩
  · exact ⟨rest, hb, hy⟩
  · cases c with
    | nil => exact ⟨[], by simpa using hx.symm, by simpa using hc.symm⟩
    | cons v c =>
      have hv : u = v := (List.cons.inj hc).1
      exact absurd (by simp [hx, hv]) hu

/-- Two texts cut at the last occurrence of a unit. -/
theorem cut_last {u : UInt16} {xs ys xs' ys' : Str} (h : xs ++ u :: ys = xs' ++ u :: ys')
    (hy : u ∉ ys) (hy' : u ∉ ys') : xs = xs' ∧ ys = ys' := by
  rcases List.append_eq_append_iff.mp h with ⟨c, hx, hc⟩ | ⟨c, hx, hc⟩
  all_goals
    cases c with
    | nil => simp_all
    | cons v c => simp_all

-- -----
-- White space
-- -----

/-- What `\s` matches and `trim` removes: white space and line terminators. -/
def isSpace (u : UInt16) : Bool :=
  u == 9 || u == 10 || u == 11 || u == 12 || u == 13 || u == 32 || u == 0xA0 || u == 0x1680 ||
    (0x2000 ≤ u && u ≤ 0x200A) || u == 0x2028 || u == 0x2029 || u == 0x202F || u == 0x205F ||
    u == 0x3000 || u == 0xFEFF

/-- What the dot of a regular expression does not match. -/
def isLineTerminator (u : UInt16) : Bool := u == 10 || u == 13 || u == 0x2028 || u == 0x2029

def trimEnd (s : Str) : Str := s.rdropWhile isSpace

def trim (s : Str) : Str := trimEnd (s.dropWhile isSpace)

@[simp] theorem isSpace_LF : isSpace LF = true := by decide
@[simp] theorem isSpace_CR : isSpace CR = true := by decide
@[simp] theorem isSpace_space : isSpace space = true := by decide

theorem trimEnd_ne_nil {s : Str} (h : trimEnd s ≠ []) :
    isSpace ((trimEnd s).getLast h) = false := by
  simpa [trimEnd] using List.rdropWhile_last_not isSpace s h

theorem trimEnd_isPrefix (s : Str) : trimEnd s <+: s := List.rdropWhile_prefix isSpace s

theorem dropWhile_head {p : UInt16 → Bool} {s t : Str} {u : UInt16}
    (h : s.dropWhile p = u :: t) : p u = false := by
  have hn : s.dropWhile p ≠ [] := by simp [h]
  have := List.head_dropWhile_not p hn
  simpa [h] using this

/-- Trimmed text is empty or starts with a character that is not white space. -/
theorem trim_head {s t : Str} {u : UInt16} (h : trim s = u :: t) : isSpace u = false := by
  obtain ⟨r, hr⟩ := trimEnd_isPrefix (s.dropWhile isSpace)
  rw [show trimEnd (s.dropWhile isSpace) = u :: t from h] at hr
  exact dropWhile_head hr.symm

theorem trim_getLast {s : Str} (h : trim s ≠ []) : isSpace ((trim s).getLast h) = false :=
  trimEnd_ne_nil h

theorem trim_eq_nil {s : Str} (h : trim s = []) : ∀ u ∈ s, isSpace u = true := by
  intro u hu
  have hd : ∀ v ∈ s.dropWhile isSpace, isSpace v = true := by
    simpa [trim, trimEnd, List.rdropWhile_eq_nil_iff] using h
  have hs : s.takeWhile isSpace ++ s.dropWhile isSpace = s := List.takeWhile_append_dropWhile
  rw [← hs] at hu
  rcases List.mem_append.mp hu with hu | hu
  · exact List.mem_takeWhile_imp hu
  · exact hd u hu

theorem trim_ends {u v : UInt16} (hu : isSpace u = false) (hv : isSpace v = false) (s : Str) :
    trim (u :: s ++ [v]) = u :: s ++ [v] := by
  have hdrop : (u :: s ++ [v]).dropWhile isSpace = u :: s ++ [v] :=
    List.dropWhile_cons_of_neg (by simp [hu])
  rw [trim, hdrop, trimEnd, List.rdropWhile_concat_neg isSpace (u :: s) v (by simp [hv])]

-- -----
-- Splitting and joining
-- -----

def includes (s t : Str) : Bool := s.tails.any t.isPrefixOf

/-- `skip` units of a separator already matched are still to be passed. -/
def splitAux (sep : Str) : Nat → Str → Str → List Str
  | _, acc, [] => [acc.reverse]
  | skip + 1, acc, _ :: rest => splitAux sep skip acc rest
  | 0, acc, u :: rest =>
    if sep.isPrefixOf (u :: rest) then acc.reverse :: splitAux sep (sep.length - 1) [] rest
    else splitAux sep 0 (u :: acc) rest

/-- `s.split(sep)` for a separator that is not empty. -/
def split (sep s : Str) : List Str := splitAux sep 0 [] s

/-- `lines.join(sep)` -/
abbrev join (sep : Str) (lines : List Str) : Str := sep.intercalate lines

theorem splitAux_ne_nil (sep : Str) (skip : Nat) (acc s : Str) : splitAux sep skip acc s ≠ [] := by
  induction s generalizing skip acc with
  | nil => cases skip <;> simp [splitAux]
  | cons u rest ih =>
    cases skip with
    | zero =>
      rw [splitAux]
      split
      · simp
      · exact ih 0 _
    | succ n => exact ih n _

theorem join_splitAux {sep : Str} (hsep : sep ≠ []) (skip : Nat) (acc s : Str) :
    join sep (splitAux sep skip acc s) = acc.reverse ++ s.drop skip := by
  induction s generalizing skip acc with
  | nil => cases skip <;> simp [splitAux]
  | cons u rest ih =>
    cases skip with
    | succ n => simpa [splitAux] using ih n acc
    | zero =>
      rw [splitAux]
      split
      · rename_i hp
        obtain ⟨t, ht⟩ := List.isPrefixOf_iff_prefix.mp hp
        have hdrop : sep ++ rest.drop (sep.length - 1) = u :: rest := by
          cases sep with
          | nil => exact absurd rfl hsep
          | cons v vs =>
            simp only [List.cons_append, List.cons.injEq] at ht
            obtain ⟨rfl, rfl⟩ := ht
            simp
        have hne := splitAux_ne_nil sep (sep.length - 1) [] rest
        have hrest : sep.intercalate _ = _ := ih (sep.length - 1) []
        rw [join, List.intercalate_cons_of_ne_nil hne, hrest]
        simp [hdrop]
      · simpa using ih 0 (u :: acc)

theorem join_split {sep : Str} (hsep : sep ≠ []) (s : Str) : join sep (split sep s) = s := by
  simp [split, join_splitAux hsep]

theorem split_ne_nil (sep s : Str) : split sep s ≠ [] := splitAux_ne_nil sep 0 [] s

theorem splitAux_singleton (c : UInt16) (acc s : Str) :
    splitAux [c] 0 acc s = List.splitOnPPrepend (· == c) s acc := by
  induction s generalizing acc with
  | nil => simp [splitAux]
  | cons u rest ih =>
    rw [splitAux, List.splitOnPPrepend_cons_eq_if, ih, List.isPrefixOf_cons_cons,
      List.isPrefixOf_nil_left, Bool.and_true, BEq.comm]
    simp [ih]

/-- A separator of one unit splits as `List.splitOn` does. -/
theorem split_singleton (c : UInt16) (s : Str) : split [c] s = s.splitOn c := by
  simp [split, splitAux_singleton, List.splitOn_eq_splitOnP]

theorem split_join {c : UInt16} {parts : List Str} (hc : ∀ part ∈ parts, c ∉ part)
    (hp : parts ≠ []) : split [c] (join [c] parts) = parts := by
  rw [split_singleton, List.splitOn_intercalate c hc hp]

theorem split_of_not_mem {c : UInt16} {s : Str} (h : c ∉ s) : split [c] s = [s] := by
  simpa [join, List.intercalate] using split_join (List.forall_mem_singleton.mpr h) (by simp)

theorem not_mem_splitAux {c : UInt16} {acc s : Str} (hacc : c ∉ acc) :
    ∀ part ∈ splitAux [c] 0 acc s, c ∉ part := by
  induction s generalizing acc with
  | nil => simpa [splitAux] using hacc
  | cons u rest ih =>
    rw [splitAux]
    split
    · intro part hpart
      rcases List.mem_cons.mp hpart with rfl | hpart
      · simpa using hacc
      · exact ih List.not_mem_nil part hpart
    case isFalse hu =>
      have hne : c ≠ u := fun heq => hu (by simp [heq])
      exact ih (by simp [hne, hacc])

theorem not_mem_split {c : UInt16} {s part : Str} (h : part ∈ split [c] s) : c ∉ part :=
  not_mem_splitAux (by simp) part h

theorem mem_join_of_mem {sep : Str} {parts : List Str} {part : Str} {u : UInt16} (hpart : part ∈ parts)
    (hu : u ∈ part) : u ∈ join sep parts := by
  induction parts with
  | nil => exact absurd hpart List.not_mem_nil
  | cons first rest ih =>
    cases rest with
    | nil =>
      rw [List.mem_singleton.mp hpart] at hu
      simpa [join] using hu
    | cons next rest =>
      rw [join, List.intercalate_cons_cons]
      rcases List.mem_cons.mp hpart with rfl | hpart
      · exact List.mem_append_left _ (List.mem_append_left _ hu)
      · exact List.mem_append_right _ (ih hpart)

theorem mem_of_mem_join {sep : Str} {parts : List Str} {u : UInt16} (h : u ∈ join sep parts) :
    u ∈ sep ∨ ∃ part ∈ parts, u ∈ part := by
  induction parts with
  | nil => simp [join] at h
  | cons first rest ih =>
    cases rest with
    | nil => exact .inr ⟨first, List.mem_cons_self, by simpa [join] using h⟩
    | cons next rest =>
      rw [join, List.intercalate_cons_cons] at h
      rcases List.mem_append.mp h with h | h
      · rcases List.mem_append.mp h with h | h
        · exact .inr ⟨first, List.mem_cons_self, h⟩
        · exact .inl h
      · rcases ih h with h | ⟨part, hpart, h⟩
        · exact .inl h
        · exact .inr ⟨part, List.mem_cons_of_mem _ hpart, h⟩

theorem mem_of_mem_split {sep s part : Str} {u : UInt16} (hsep : sep ≠ []) (hpart : part ∈ split sep s)
    (hu : u ∈ part) : u ∈ s :=
  join_split hsep s ▸ mem_join_of_mem hpart hu

/-- The first part of what is split. -/
theorem split_cons {c : UInt16} {part rest : Str} (hpart : c ∉ part) :
    split [c] (part ++ [c] ++ rest) = part :: split [c] rest := by
  have hjoin : join [c] (part :: split [c] rest) = part ++ [c] ++ rest := by
    rw [join, List.intercalate_cons_of_ne_nil (split_ne_nil _ _)]
    exact congrArg (part ++ [c] ++ ·) (join_split (List.cons_ne_nil c []) rest)
  rw [← hjoin]
  refine split_join (fun other hother => ?_) (by simp)
  rcases List.mem_cons.mp hother with rfl | hother
  · exact hpart
  · exact not_mem_split hother

theorem split_append {c : UInt16} (s t : Str) : split [c] (s ++ [c] ++ t) = split [c] s ++ split [c] t := by
  have hparts : ∀ (front : List Str), (∀ part ∈ front, c ∉ part) → front ≠ [] →
      split [c] (join [c] front ++ [c] ++ t) = front ++ split [c] t := by
    intro front
    induction front with
    | nil => exact fun _ hne => absurd rfl hne
    | cons part rest ih =>
      intro hc _
      have hpart := hc part List.mem_cons_self
      cases rest with
      | nil => simpa [join] using (split_cons hpart : split [c] (part ++ [c] ++ t) = _)
      | cons next rest =>
        have hrest := ih (fun other hother => hc other (List.mem_cons_of_mem _ hother)) (by simp)
        have hassoc : join [c] (part :: next :: rest) ++ [c] ++ t =
            part ++ [c] ++ (join [c] (next :: rest) ++ [c] ++ t) := by
          rw [join, List.intercalate_cons_cons]
          simp
        rw [hassoc, split_cons hpart, hrest]
        rfl
  have hfront := hparts (split [c] s) (fun part hpart => not_mem_split hpart) (split_ne_nil _ _)
  rwa [join_split (by simp)] at hfront

theorem join_append {sep : Str} {xs ys : List Str} (hx : xs ≠ []) (hy : ys ≠ []) :
    join sep (xs ++ ys) = join sep xs ++ sep ++ join sep ys := by
  induction xs with
  | nil => exact absurd rfl hx
  | cons x xs ih =>
    cases xs with
    | nil => simp [join, List.intercalate_cons_of_ne_nil hy]
    | cons x' xs =>
      have := ih (by simp)
      simp only [join, List.cons_append, List.intercalate_cons_cons] at this ⊢
      rw [this]
      simp

/-- `s.split(/\r?\n/)` -/
def splitLinesAux (acc : Str) : Str → List Str
  | [] => [acc.reverse]
  | 13 :: 10 :: rest => acc.reverse :: splitLinesAux [] rest
  | 10 :: rest => acc.reverse :: splitLinesAux [] rest
  | u :: rest => splitLinesAux (u :: acc) rest

def splitLines (s : Str) : List Str := splitLinesAux [] s

theorem splitLinesAux_ne_nil (acc s : Str) : splitLinesAux acc s ≠ [] := by
  fun_induction splitLinesAux acc s <;> simp_all

theorem not_mem_splitLinesAux {acc s : Str} (hacc : LF ∉ acc) :
    ∀ line ∈ splitLinesAux acc s, LF ∉ line := by
  fun_induction splitLinesAux acc s with
  | case1 acc => simpa using hacc
  | case2 acc rest ih => simpa using ⟨hacc, ih (by simp)⟩
  | case3 acc rest ih => simpa using ⟨hacc, ih (by simp)⟩
  | case4 acc u rest _ hlf ih =>
    exact ih (by simpa [LF] using ⟨fun h => hlf h.symm, hacc⟩)

theorem not_mem_splitLines {s : Str} : ∀ line ∈ splitLines s, LF ∉ line :=
  not_mem_splitLinesAux (by simp)

theorem head_splitLinesAux (acc s : Str) :
    ∃ more rest, splitLinesAux acc s = (acc.reverse ++ more) :: rest := by
  fun_induction splitLinesAux acc s with
  | case1 acc => exact ⟨[], [], by simp⟩
  | case2 acc rest => exact ⟨[], splitLinesAux [] rest, by simp⟩
  | case3 acc rest => exact ⟨[], splitLinesAux [] rest, by simp⟩
  | case4 acc u rest _ _ ih =>
    obtain ⟨more, rest', he⟩ := ih
    exact ⟨u :: more, rest', by simp [he]⟩

theorem head_splitLines (s : Str) {u : UInt16} (h : isSpace u = false) :
    ∃ more rest, splitLines (u :: s) = (u :: more) :: rest := by
  have hlf : u ≠ 10 := by
    rintro rfl
    exact absurd h (by decide)
  have hcr : u ≠ 13 := by
    rintro rfl
    exact absurd h (by decide)
  have he : splitLinesAux [] (u :: s) = splitLinesAux [u] s :=
    splitLinesAux.eq_4 [] u s (fun _ hu => absurd hu hcr) hlf
  obtain ⟨more, rest, hm⟩ := head_splitLinesAux [u] s
  exact ⟨more, rest, by simpa [splitLines, he] using hm⟩

theorem ends_after {xs rest front : Str} {c u : UInt16} (h : xs ++ c :: rest = front ++ [u])
    (hc : c ≠ u) : ∃ front', rest = front' ++ [u] := by
  rcases List.eq_nil_or_concat' rest with rfl | ⟨front', v, rfl⟩
  · have hu := (List.append_inj' h rfl).2
    exact absurd (List.cons.inj hu).1 hc
  · have h' : (xs ++ c :: front') ++ [v] = front ++ [u] := by simpa using h
    have hv := (List.cons.inj (List.append_inj' h' rfl).2).1
    exact ⟨front', by rw [hv]⟩

/-- The last line of a text that does not end in a line break ends as the
text does. -/
theorem getLast_splitLinesAux {acc s front : Str} {u : UInt16} (hu : u ≠ LF)
    (h : acc.reverse ++ s = front ++ [u]) :
    ∃ lines before, splitLinesAux acc s = lines ++ [before ++ [u]] := by
  fun_induction splitLinesAux acc s generalizing front with
  | case1 acc => exact ⟨[], front, by simpa using h⟩
  | case2 acc rest ih =>
    have h' : (acc.reverse ++ [CR]) ++ LF :: rest = front ++ [u] := by simpa [CR, LF] using h
    obtain ⟨front', hr⟩ := ends_after h' hu.symm
    obtain ⟨lines, before, he⟩ := ih hr
    exact ⟨acc.reverse :: lines, before, by simp [he]⟩
  | case3 acc rest ih =>
    obtain ⟨front', hr⟩ := ends_after h hu.symm
    obtain ⟨lines, before, he⟩ := ih hr
    exact ⟨acc.reverse :: lines, before, by simp [he]⟩
  | case4 acc v rest _ _ ih => exact ih (by simpa using h)

-- -----
-- Numbers in strings
-- -----

def isDigit (u : UInt16) : Bool := 48 ≤ u && u ≤ 57

/-- `Number(s)` of a string of digits. -/
def digitsValue (s : Str) : Nat := s.foldl (fun n u => 10 * n + (u.toNat - 48)) 0

def decimalDigit (n : Nat) : UInt16 := UInt16.ofNat (48 + n % 10)

/-- Decimal digits, most significant first, after those already written. -/
def decimalAux : Nat → Nat → Str → Str
  | 0, _, acc => acc
  | fuel + 1, n, acc =>
    if n < 10 then decimalDigit n :: acc else decimalAux fuel (n / 10) (decimalDigit n :: acc)

/-- `String(n)` of an integer below 10²¹. -/
def decimal (n : Nat) : Str := decimalAux (n + 1) n []

theorem isDigit_decimalDigit (n : Nat) : isDigit (decimalDigit n) = true := by
  have hlt : 48 + n % 10 < 58 := by omega
  have hto : (decimalDigit n).toNat = 48 + n % 10 := by
    simp only [decimalDigit, UInt16.toNat_ofNat']
    omega
  have hlow : (48 : UInt16).toNat = 48 := rfl
  have hhigh : (57 : UInt16).toNat = 57 := rfl
  simp only [isDigit, Bool.and_eq_true, decide_eq_true_eq, UInt16.le_iff_toNat_le, hto, hlow, hhigh]
  omega

theorem isDigit_decimalAux (fuel n : Nat) {acc : Str} (h : ∀ u ∈ acc, isDigit u = true) :
    ∀ u ∈ decimalAux fuel n acc, isDigit u = true := by
  have hcons : ∀ u ∈ decimalDigit n :: acc, isDigit u = true := by
    simpa [isDigit_decimalDigit] using h
  induction fuel generalizing n acc with
  | zero => exact h
  | succ fuel ih =>
    unfold decimalAux
    split
    · exact hcons
    · exact ih (n / 10) hcons (by simpa [isDigit_decimalDigit] using hcons)

theorem isDigit_decimal {n : Nat} {u : UInt16} (h : u ∈ decimal n) : isDigit u = true :=
  isDigit_decimalAux (n + 1) n (by simp) u h

def decimalInt : Int → Str
  | .ofNat n => decimal n
  | .negSucc n => 45 :: decimal (n + 1)

/-- `parseInt(s, 10)`, with all its digits; `none` is NaN. -/
def parseInt (s : Str) : Option Int :=
  match s.dropWhile isSpace with
  | 45 :: rest => (parseDigits rest).map fun n => -(n : Int)
  | 43 :: rest => (parseDigits rest).map Int.ofNat
  | rest => (parseDigits rest).map Int.ofNat
where
  parseDigits (s : Str) : Option Nat :=
    let digits := s.takeWhile isDigit
    if digits = [] then none else some (digitsValue digits)

def padStart (width : Nat) (fill : UInt16) (s : Str) : Str :=
  List.replicate (width - s.length) fill ++ s

-- -----
-- UTF-8 length
-- -----

def isHighSurrogate (u : UInt16) : Bool := 0xD800 ≤ u && u ≤ 0xDBFF

def isLowSurrogate (u : UInt16) : Bool := 0xDC00 ≤ u && u ≤ 0xDFFF

/-- Bytes of one unit that is not half of a pair. A lone surrogate is written
as U+FFFD, in three bytes. -/
def unitBytes (u : UInt16) : Nat :=
  if u < 0x80 then 1 else if u < 0x800 then 2 else 3

/-- `Buffer.byteLength(s, "utf8")` -/
def byteLength : Str → Nat
  | [] => 0
  | [u] => unitBytes u
  | u :: v :: rest =>
    if isHighSurrogate u && isLowSurrogate v then 4 + byteLength rest
    else unitBytes u + byteLength (v :: rest)

theorem length_le_byteLength (s : Str) : s.length ≤ byteLength s := by
  have hunit : ∀ u : UInt16, 1 ≤ unitBytes u := by
    intro u
    unfold unitBytes
    split <;> [skip; split] <;> omega
  fun_induction byteLength s with
  | case1 => simp
  | case2 u => simpa using hunit u
  | case3 u v rest hp ih =>
    simp only [List.length_cons]
    omega
  | case4 u v rest hp ih =>
    have := hunit u
    simp only [List.length_cons] at ih ⊢
    omega

theorem byteLength_le (s : Str) : byteLength s ≤ 3 * s.length := by
  have hunit : ∀ u : UInt16, unitBytes u ≤ 3 := by
    intro u
    unfold unitBytes
    split <;> [skip; split] <;> omega
  fun_induction byteLength s with
  | case1 => simp
  | case2 u => simpa using hunit u
  | case3 u v rest hp ih =>
    simp only [List.length_cons]
    omega
  | case4 u v rest hp ih =>
    have := hunit u
    simp only [List.length_cons] at ih ⊢
    omega

end Js
