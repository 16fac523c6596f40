import PiEnv.Lib.Lines
import PiEnv.Lib.Utf8

/-!
# Texts of git

How git prints names and texts that may hold any character: as they are where no byte
of them is unusual, else between double quotes with the unusual bytes escaped. Whether
bytes beyond ASCII are unusual is a setting. What is quoted is one line.
-/

namespace Git

open Js

/-- `cq_must_quote` -/
def mustQuote (quotePath : Bool) (b : UInt8) : Bool :=
  b < 0x20 || b == 0x22 || b == 0x5C || b == 0x7F || (quotePath && 0x80 ≤ b)

/-- The letter a byte is escaped by. -/
def letter : UInt8 → Option UInt16
  | 7 => some 97
  | 8 => some 98
  | 9 => some 116
  | 10 => some 110
  | 11 => some 118
  | 12 => some 102
  | 13 => some 114
  | 0x22 => some 0x22
  | 0x5C => some 0x5C
  | _ => none

def octal (b : UInt8) : Str :=
  [decimalDigit (b.toNat / 64), decimalDigit (b.toNat / 8 % 8), decimalDigit (b.toNat % 8)]

def escapeByte (b : UInt8) : Str :=
  0x5C :: match letter b with
    | some u => [u]
    | none => octal b

/-- One character: as it is, or each byte of it escaped. -/
def escapeChar (quotePath : Bool) (char : Str) : Str :=
  if (Utf8.encode char).any (mustQuote quotePath) then (Utf8.encode char).flatMap escapeByte
  else char

def escape (quotePath : Bool) : Str → Str
  | [] => []
  | [u] => escapeChar quotePath [u]
  | u :: v :: rest =>
    if isHighSurrogate u && isLowSurrogate v then
      escapeChar quotePath [u, v] ++ escape quotePath rest
    else escapeChar quotePath [u] ++ escape quotePath (v :: rest)

/-- `quote_c_style` -/
def quote (quotePath : Bool) (text : Str) : Str :=
  if (Utf8.encode text).any (mustQuote quotePath) then 0x22 :: (escape quotePath text ++ [0x22])
  else text

-- -----
-- Lines
-- -----

variable {quotePath : Bool}

theorem decimalDigit_ne_LF (n : Nat) : decimalDigit n ≠ LF := by
  intro h
  have hdigit := isDigit_decimalDigit n
  rw [h] at hdigit
  cases hdigit

theorem LF_not_mem_escapeByte (b : UInt8) : LF ∉ escapeByte b := by
  intro h
  rcases List.mem_cons.mp h with h | h
  · cases h
  cases hletter : letter b with
  | some u =>
    rw [hletter] at h
    obtain rfl := List.mem_singleton.mp h
    unfold letter at hletter
    split at hletter <;> cases hletter
  | none =>
    rw [hletter] at h
    simp only [octal, List.mem_cons, List.not_mem_nil, or_false] at h
    rcases h with h | h | h <;> exact decimalDigit_ne_LF _ h.symm

theorem mustQuote_control {text : Str} {c : UInt16} (hc : c < 0x20) (h : c ∈ text) :
    (Utf8.encode text).any (mustQuote quotePath) = true := by
  have hone : (Utf8.encodeScalar (Utf8.loneScalar c)).any (mustQuote quotePath) = true := by
    have hall : ∀ n : Fin 0x20, (Utf8.encodeScalar (Utf8.loneScalar (UInt16.ofNat n))).any
        (mustQuote quotePath) = true := by cases quotePath <;> decide
    have hsame := hall ⟨c.toNat, UInt16.lt_iff_toNat_lt.mp hc⟩
    rwa [UInt16.ofNat_toNat] at hsame
  have hsurrogate : isHighSurrogate c = false ∧ isLowSurrogate c = false := by
    have hlow : c.toNat < 0x20 := UInt16.lt_iff_toNat_lt.mp hc
    obtain ⟨hiff, liff⟩ := Utf8.surrogate_toNat c
    rw [← Bool.not_eq_true, ← Bool.not_eq_true, hiff, liff]
    omega
  fun_induction Utf8.encode text with
  | case1 => cases h
  | case2 u =>
    obtain rfl := List.mem_singleton.mp h
    exact hone
  | case3 u v rest hpair ih =>
    rw [Bool.and_eq_true] at hpair
    rw [List.any_append, Bool.or_eq_true]
    rcases List.mem_cons.mp h with rfl | h
    · rw [hsurrogate.1] at hpair
      cases hpair.1
    rcases List.mem_cons.mp h with rfl | h
    · rw [hsurrogate.2] at hpair
      cases hpair.2
    · exact .inr (ih h)
  | case4 u v rest hpair ih =>
    rw [List.any_append, Bool.or_eq_true]
    rcases List.mem_cons.mp h with rfl | h
    · exact .inl hone
    · exact .inr (ih h)

theorem LF_not_mem_escapeChar (char : Str) : LF ∉ escapeChar quotePath char := by
  unfold escapeChar
  split
  · intro h
    obtain ⟨b, -, hb⟩ := List.mem_flatMap.mp h
    exact LF_not_mem_escapeByte b hb
  · rename_i hplain
    exact fun h => hplain (mustQuote_control (by decide) h)

theorem LF_not_mem_escape (text : Str) : LF ∉ escape quotePath text := by
  fun_induction escape quotePath text with
  | case1 => exact List.not_mem_nil
  | case2 u => exact LF_not_mem_escapeChar _
  | case3 u v rest hpair ih => exact List.not_mem_append (LF_not_mem_escapeChar _) ih
  | case4 u v rest hpair ih => exact List.not_mem_append (LF_not_mem_escapeChar _) ih

theorem LF_not_mem_quote (text : Str) : LF ∉ quote quotePath text := by
  unfold quote
  split
  · intro h
    rcases List.mem_cons.mp h with h | h
    · cases h
    rcases List.mem_append.mp h with h | h
    · exact LF_not_mem_escape text h
    · cases List.mem_singleton.mp h
  · rename_i hplain
    exact fun h => hplain (mustQuote_control (by decide) h)

/-- A text is printed as it is, or it begins with a double quote. -/
theorem quote_cases (text : Str) :
    quote quotePath text = text ∨ ∃ rest, quote quotePath text = 0x22 :: rest := by
  unfold quote
  split
  · exact .inr ⟨_, rfl⟩
  · exact .inl rfl

/-- A text that begins with no quote is printed as it is exactly if nothing in it is
unusual. -/
theorem quote_eq_iff {text : Str} (h : text.head? ≠ some 0x22) :
    quote quotePath text = text ↔ (Utf8.encode text).any (mustQuote quotePath) = false := by
  unfold quote
  split
  · rename_i hany
    rw [hany]
    constructor
    · intro heq
      rw [← heq] at h
      exact absurd rfl h
    · exact nofun
  · rename_i hplain
    rw [Bool.not_eq_true] at hplain
    exact ⟨fun _ => hplain, fun _ => rfl⟩

-- -----
-- Printed lines
-- -----

theorem split_ended {lines : List Str} (h : ∀ line ∈ lines, LF ∉ line) :
    split [LF] (Lines.ended LF lines) = lines ++ [[]] := by
  induction lines with
  | nil => rfl
  | cons line lines ih =>
    have hfirst : split [LF] (line ++ [LF] ++ Lines.ended LF lines) =
        line :: split [LF] (Lines.ended LF lines) := split_cons (h line List.mem_cons_self)
    rw [List.append_assoc, List.singleton_append] at hfirst
    rw [Lines.ended_cons, hfirst, ih fun other hother => h other (List.mem_cons_of_mem _ hother)]
    rfl

end Git
