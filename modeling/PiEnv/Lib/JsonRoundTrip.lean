import PiEnv.Lib.JsonNumber
import PiEnv.Lib.Utf8

/-!
# Parsing what was printed

`JSON.parse` gives back what `JSON.stringify` printed, for values whose numbers
are finite doubles and whose objects keep their entries in order.
-/

namespace Js

-- -----
-- Strings
-- -----

theorem hexValue_hexDigit {n : Nat} (h : n < 16) : hexValue (hexDigit n) = some n := by
  have hall : ∀ n < 16, hexValue (hexDigit n) = some n := by decide
  exact hall n h

theorem hexUnit_escape (u : UInt16) :
    hexUnit (hexDigit (u.toNat / 0x1000)) (hexDigit (u.toNat / 0x100 % 0x10))
      (hexDigit (u.toNat / 0x10 % 0x10)) (hexDigit (u.toNat % 0x10)) = some u := by
  have hlt : u.toNat < 0x10000 := u.toNat_lt
  have hsum : 0x1000 * (u.toNat / 0x1000) + 0x100 * (u.toNat / 0x100 % 0x10) +
      0x10 * (u.toNat / 0x10 % 0x10) + u.toNat % 0x10 = u.toNat := by omega
  simp only [hexUnit, hexValue_hexDigit (show u.toNat / 0x1000 < 16 by omega),
    hexValue_hexDigit (Nat.mod_lt _ (show 0 < 0x10 by omega)), Option.bind_eq_bind,
    Option.bind_some, Option.pure_def, hsum]
  simp

/-- A unit that stands for itself. -/
theorem parseString_unit {u : UInt16} {s : Str} (hq : u ≠ 34) (hb : u ≠ 92) (h : 32 ≤ u) :
    parseString (u :: s) = (parseString s).map fun (value, rest) => (u :: value, rest) := by
  have hlow : ¬ u < 32 := UInt16.not_lt.mpr h
  rw [parseString]
  · simp only [hlow, decide_false, beq_eq_false_iff_ne.mpr hb, Bool.or_self, Bool.false_eq_true,
      if_false]
    cases parseString s <;> rfl
  · exact hq
  · intro a b c d rest hu _
    exact hb hu
  · intro v rest hu _
    exact hb hu

theorem parseString_escape {u v : UInt16} {s : Str} (hv : v ≠ 117) (h : unescape v = some u) :
    parseString (92 :: v :: s) = (parseString s).map fun (value, rest) => (u :: value, rest) := by
  rw [parseString]
  · simp only [h]
    cases parseString s <;> rfl
  · intro a b c d rest hc _
    exact hv hc

theorem parseString_unicodeEscape (u : UInt16) (s : Str) :
    parseString (unicodeEscape u ++ s) =
      (parseString s).map fun (value, rest) => (u :: value, rest) := by
  simp only [unicodeEscape, List.cons_append, List.nil_append, parseString, hexUnit_escape]
  cases parseString s <;> rfl

theorem parseString_escapeUnit (u : UInt16) (s : Str) :
    parseString (escapeUnit u ++ s) =
      (parseString s).map fun (value, rest) => (u :: value, rest) := by
  unfold escapeUnit
  split
  · exact parseString_escape (by decide) rfl
  · exact parseString_escape (by decide) rfl
  · exact parseString_escape (by decide) rfl
  · exact parseString_escape (by decide) rfl
  · exact parseString_escape (by decide) rfl
  · exact parseString_escape (by decide) rfl
  · exact parseString_escape (by decide) rfl
  · rename_i hq hb _ _ _ _ _
    split
    · exact parseString_unicodeEscape u s
    · rename_i hplain
      simp only [Bool.or_eq_true, not_or, decide_eq_true_eq, UInt16.not_lt] at hplain
      exact parseString_unit hq hb hplain.1.1

theorem surrogate_unit {u : UInt16} (h : isHighSurrogate u = true ∨ isLowSurrogate u = true) :
    u ≠ 34 ∧ u ≠ 92 ∧ 32 ≤ u := by
  simp only [isHighSurrogate, isLowSurrogate, Bool.and_eq_true, decide_eq_true_eq,
    UInt16.le_iff_toNat_le] at h
  have hlow : 0xD800 ≤ u.toNat := by
    rcases h with h | h
    · exact h.1
    · exact Nat.le_trans (by decide) h.1
  refine ⟨?_, ?_, ?_⟩
  · rintro rfl
    exact absurd hlow (by decide)
  · rintro rfl
    exact absurd hlow (by decide)
  · exact UInt16.le_iff_toNat_le.mpr (Nat.le_trans (by decide) hlow)

theorem parseString_escapeUnits (s rest : Str) :
    parseString (escapeUnits s ++ 34 :: rest) = some (s, rest) := by
  induction s using escapeUnits.induct with
  | case1 => rfl
  | case2 u =>
    rw [escapeUnits, parseString_escapeUnit]
    rfl
  | case3 u v s hpair ih =>
    simp only [Bool.and_eq_true] at hpair
    obtain ⟨hu₁, hu₂, hu₃⟩ := surrogate_unit (.inl hpair.1)
    obtain ⟨hv₁, hv₂, hv₃⟩ := surrogate_unit (.inr hpair.2)
    simp only [escapeUnits, hpair.1, hpair.2, Bool.and_self, if_true, List.cons_append]
    rw [parseString_unit hu₁ hu₂ hu₃, parseString_unit hv₁ hv₂ hv₃, ih]
    rfl
  | case4 u v s hpair ih =>
    have hpair' : (isHighSurrogate u && isLowSurrogate v) = false := by simpa using hpair
    simp only [escapeUnits, hpair', Bool.false_eq_true, if_false, List.append_assoc]
    rw [parseString_escapeUnit, ih]
    rfl

theorem parseString_quote (s rest : Str) :
    ∃ text, quote s ++ rest = 34 :: text ∧ parseString text = some (s, rest) :=
  ⟨escapeUnits s ++ 34 :: rest, by simp [quote], parseString_escapeUnits s rest⟩

-- -----
-- Values
-- -----

/-- Values whose numbers are finite doubles, and whose objects keep their
entries in order. -/
inductive Plain : Json → Prop
  | null : Plain .null
  | bool (value : Bool) : Plain (.bool value)
  | num {q : Rat} (h : IsDouble q) : Plain (.num (.finite q))
  | str (value : Str) : Plain (.str value)
  | arr {items : List Json} (h : ∀ item ∈ items, Plain item) : Plain (.arr items)
  | obj {fields : List (Str × Json)} (h : ∀ entry ∈ fields, Plain entry.2)
      (hf : fromEntries fields = fields) : Plain (.obj fields)

theorem Plain.int {n : Int} (h : n.natAbs ≤ maxSafe) : Plain (.num (.ofInt n)) :=
  .num (isDouble_int h)

/-- What the text of a value starts with. -/
structure Starts (u : UInt16) : Prop where
  space : isJsonSpace u = false
  bracket : u ≠ 93
  brace : u ≠ 125

theorem starts_digit {u : UInt16} (h : isDigit u = true ∨ u = 45) : Starts u := by
  rcases h with h | rfl
  · simp only [isDigit, Bool.and_eq_true, decide_eq_true_eq, UInt16.le_iff_toNat_le] at h
    have hlow : 48 ≤ u.toNat := h.1
    have hhigh : u.toNat ≤ 57 := h.2
    have hne : ∀ v : UInt16, v.toNat < 48 ∨ 57 < v.toNat → u ≠ v := by
      rintro v hv rfl
      omega
    refine ⟨?_, hne 93 (by decide), hne 125 (by decide)⟩
    simp [isJsonSpace, hne 32 (by decide), hne 9 (by decide), hne 10 (by decide),
      hne 13 (by decide)]
  · exact ⟨by decide, by decide, by decide⟩

theorem stringify_head {value : Json} (h : Plain value) :
    ∃ u rest, stringify value = u :: rest ∧ Starts u := by
  cases h with
  | null => exact ⟨110, _, rfl, by decide, by decide, by decide⟩
  | bool value =>
    cases value
    · exact ⟨102, _, rfl, by decide, by decide, by decide⟩
    · exact ⟨116, _, rfl, by decide, by decide, by decide⟩
  | @num q hq =>
    obtain ⟨u, rest, hd, hu⟩ := text_head q
    exact ⟨u, rest, by rw [stringify, hd], starts_digit hu⟩
  | str value => exact ⟨34, _, rfl, by decide, by decide, by decide⟩
  | arr => exact ⟨91, _, by rw [stringify]; rfl, by decide, by decide, by decide⟩
  | obj => exact ⟨123, _, by rw [stringify]; rfl, by decide, by decide, by decide⟩

theorem skipSpace_cons {u : UInt16} {s : Str} (h : isJsonSpace u = false) :
    skipSpace (u :: s) = u :: s := by
  simp [skipSpace, h]

theorem stops_cons {u : UInt16} {s : Str}
    (h : isDigit u = false ∧ u ≠ 46 ∧ u ≠ 101 ∧ u ≠ 69) : Stops (u :: s) := by
  intro v hv
  obtain rfl := Option.some.inj hv
  exact h

/-- A parser of values that reads back each of these. -/
def Reads (value : Str → Option (Json × Str)) (items : List Json) : Prop :=
  ∀ item ∈ items, ∀ rest, Stops rest → value (stringify item ++ rest) = some (item, rest)

theorem parseItems_stringify {value : Str → Option (Json × Str)} {items : List Json}
    (hne : items ≠ []) (h : Reads value items) {bound : Nat} (hb : items.length ≤ bound)
    (rest : Str) : parseItems value bound (stringifyItems items ++ 93 :: rest) = some (items, rest) := by
  induction items generalizing bound with
  | nil => exact absurd rfl hne
  | cons item items ih =>
    obtain ⟨bound, rfl⟩ : ∃ k, bound = k + 1 := ⟨bound - 1, by simp at hb; omega⟩
    have hitem := h item (by simp)
    cases items with
    | nil =>
      have hread := hitem (93 :: rest) (stops_cons (by decide))
      simp [parseItems, stringifyItems, hread, skipSpace_cons (show isJsonSpace 93 = false by decide)]
    | cons next items =>
      have hread := hitem (44 :: (stringifyItems (next :: items) ++ 93 :: rest))
        (stops_cons (by decide))
      have hrest := ih (by simp) (fun i hi => h i (by simp [hi])) (by simpa using hb)
      simp [parseItems, stringifyItems, hread, hrest,
        skipSpace_cons (show isJsonSpace 44 = false by decide)]

theorem parseField_stringify {value : Str → Option (Json × Str)} (key : Str) {item : Json}
    {rest : Str} (h : value (stringify item ++ rest) = some (item, rest)) :
    parseField value (quote key ++ 58 :: stringify item ++ rest) = some ((key, item), rest) := by
  obtain ⟨text, htext, hkey⟩ := parseString_quote key (58 :: (stringify item ++ rest))
  have hsplit : quote key ++ 58 :: stringify item ++ rest =
      quote key ++ 58 :: (stringify item ++ rest) := by simp
  rw [hsplit, htext, parseField, skipSpace_cons (by decide)]
  simp [hkey, skipSpace_cons (show isJsonSpace 58 = false by decide), h]

theorem parseFields_stringify {value : Str → Option (Json × Str)} {fields : List (Str × Json)}
    (hne : fields ≠ []) (h : Reads value (fields.map (·.2))) {bound : Nat}
    (hb : fields.length ≤ bound) (rest : Str) :
    parseFields value bound (stringifyFields fields ++ 125 :: rest) = some (fields, rest) := by
  induction fields generalizing bound with
  | nil => exact absurd rfl hne
  | cons entry fields ih =>
    obtain ⟨bound, rfl⟩ : ∃ k, bound = k + 1 := ⟨bound - 1, by simp at hb; omega⟩
    obtain ⟨key, item⟩ := entry
    have hitem := h item (by simp)
    cases fields with
    | nil =>
      have hread := parseField_stringify key (hitem (125 :: rest) (stops_cons (by decide)))
      simp only [List.append_assoc, List.cons_append] at hread
      simp [parseFields, stringifyFields, hread,
        skipSpace_cons (show isJsonSpace 125 = false by decide)]
    | cons next fields =>
      have hread := parseField_stringify key
        (hitem (44 :: (stringifyFields (next :: fields) ++ 125 :: rest)) (stops_cons (by decide)))
      simp only [List.append_assoc, List.cons_append] at hread
      have hrest := ih (by simp) (fun i hi => h i (by simp_all)) (by simpa using hb)
      simp [parseFields, stringifyFields, hread, hrest,
        skipSpace_cons (show isJsonSpace 44 = false by decide)]

-- -----
-- Depth
-- -----

theorem stringify_pos {value : Json} (h : Plain value) : 0 < (stringify value).length := by
  obtain ⟨u, rest, hs, -⟩ := stringify_head h
  simp [hs]

theorem length_stringifyItems {items : List Json} (h : ∀ item ∈ items, Plain item) :
    items.length ≤ (stringifyItems items).length ∧
      ∀ item ∈ items, (stringify item).length ≤ (stringifyItems items).length := by
  induction items with
  | nil => simp
  | cons item items ih =>
    have hpos := stringify_pos (h item (by simp))
    obtain ⟨hlen, hmem⟩ := ih fun i hi => h i (by simp [hi])
    cases items with
    | nil => simpa [stringifyItems] using Nat.succ_le_of_lt hpos
    | cons next items =>
      simp only [stringifyItems, List.length_append, List.length_cons] at *
      refine ⟨by omega, fun i hi => ?_⟩
      rcases List.mem_cons.mp hi with rfl | hi
      · omega
      · have := hmem i hi
        omega

theorem length_stringifyFields {fields : List (Str × Json)} (h : ∀ entry ∈ fields, Plain entry.2) :
    fields.length ≤ (stringifyFields fields).length ∧
      ∀ entry ∈ fields, (stringify entry.2).length ≤ (stringifyFields fields).length := by
  induction fields with
  | nil => simp
  | cons entry fields ih =>
    obtain ⟨key, item⟩ := entry
    have hpos := stringify_pos (h (key, item) (by simp))
    obtain ⟨hlen, hmem⟩ := ih fun i hi => h i (by simp [hi])
    cases fields with
    | nil =>
      simp [stringifyFields]
      omega
    | cons next fields =>
      simp only [stringifyFields, List.length_append, List.length_cons] at *
      refine ⟨by omega, fun i hi => ?_⟩
      rcases List.mem_cons.mp hi with rfl | hi
      · simp only
        omega
      · have := hmem i hi
        omega

-- -----
-- The round trip
-- -----

theorem parseValue_number {u : UInt16} {s : Str} (bound : Nat) (h : isDigit u = true ∨ u = 45) :
    parseValue (bound + 1) (u :: s) =
      (parseNumber (u :: s)).map fun (value, rest) => (.num value, rest) := by
  have hne : ∀ v : UInt16, isDigit v = false → v ≠ 45 → u ≠ v := by
    rintro v hv hm rfl
    rcases h with h | h
    · simp [hv] at h
    · exact hm h
  rw [parseValue, skipSpace_cons (starts_digit h).space]
  split <;> rename_i he <;> try (exact absurd (List.cons.inj he).1 (hne _ (by decide) (by decide)))
  rfl

theorem parseWord_append (word : Str) (value : Json) (rest : Str) :
    parseWord word value (word ++ rest) = some (value, rest) := by
  have hprefix : word.isPrefixOf (word ++ rest) = true :=
    List.isPrefixOf_iff_prefix.mpr (List.prefix_append _ _)
  simp [parseWord, hprefix]

theorem parseValue_stringify {value : Json} (h : Plain value) {bound : Nat}
    (hb : (stringify value).length ≤ bound) {rest : Str} (hr : Stops rest) :
    parseValue bound (stringify value ++ rest) = some (value, rest) := by
  obtain ⟨bound, rfl⟩ : ∃ k, bound = k + 1 :=
    ⟨bound - 1, by have := stringify_pos h; omega⟩
  induction h generalizing bound rest with
  | null => exact parseWord_append (lit "ull") .null rest
  | bool value =>
    cases value
    · exact parseWord_append (lit "alse") (.bool false) rest
    · exact parseWord_append (lit "rue") (.bool true) rest
  | @num q hq =>
    obtain ⟨u, digits, hd, hu⟩ := text_head q
    have hparse := parseNumber_text hq hr
    rw [stringify]
    rw [hd] at hparse ⊢
    rw [List.cons_append, parseValue_number bound hu, ← List.cons_append, hparse]
    rfl
  | str value =>
    obtain ⟨text, htext, hs⟩ := parseString_quote value rest
    rw [stringify, htext, parseValue, skipSpace_cons (by decide)]
    simp [hs]
  | @arr items hi ih =>
    rw [stringify] at hb ⊢
    simp only [List.length_append, List.length_cons, List.length_nil] at hb
    obtain ⟨hlen, hmem⟩ := length_stringifyItems hi
    have hread : Reads (parseValue bound) items := by
      intro item hitem rest hr
      have hle := hmem item hitem
      have hpos := stringify_pos (hi item hitem)
      obtain ⟨bound, rfl⟩ : ∃ k, bound = k + 1 := ⟨bound - 1, by omega⟩
      exact ih item hitem hr bound (by omega)
    have harray : parseArray (parseValue bound) bound (stringifyItems items ++ 93 :: rest) =
        some (.arr items, rest) := by
      cases items with
      | nil => rfl
      | cons item items =>
        have hbound : (item :: items).length ≤ bound := by omega
        have hitems := parseItems_stringify (by simp) hread hbound rest
        obtain ⟨u, text, hu, hs⟩ := stringify_head (hi item (by simp))
        have hhead : ∃ text, stringifyItems (item :: items) ++ 93 :: rest = u :: text := by
          cases items <;> simp [stringifyItems, hu]
        obtain ⟨text, htext⟩ := hhead
        rw [htext] at hitems ⊢
        simp [parseArray, skipSpace_cons hs.space, hs.bracket, hitems]
    have htext : (91 :: stringifyItems items ++ [93]) ++ rest =
        91 :: (stringifyItems items ++ 93 :: rest) := by simp
    rw [htext, parseValue, skipSpace_cons (by decide)]
    exact harray
  | @obj fields hi hf ih =>
    rw [stringify] at hb ⊢
    simp only [List.length_append, List.length_cons, List.length_nil] at hb
    obtain ⟨hlen, hmem⟩ := length_stringifyFields hi
    have hread : Reads (parseValue bound) (fields.map (·.2)) := by
      intro item hitem rest hr
      obtain ⟨entry, hentry, rfl⟩ := List.mem_map.mp hitem
      have hle := hmem entry hentry
      have hpos := stringify_pos (hi entry hentry)
      obtain ⟨bound, rfl⟩ : ∃ k, bound = k + 1 := ⟨bound - 1, by omega⟩
      exact ih entry hentry hr bound (by omega)
    have hobject : parseObject (parseValue bound) bound (stringifyFields fields ++ 125 :: rest) =
        some (.obj fields, rest) := by
      cases fields with
      | nil => rfl
      | cons entry fields =>
        have hbound : (entry :: fields).length ≤ bound := by omega
        have hfields := parseFields_stringify (by simp) hread hbound rest
        have hhead : ∃ text, stringifyFields (entry :: fields) ++ 125 :: rest = 34 :: text := by
          cases fields <;> simp [stringifyFields, quote]
        obtain ⟨text, htext⟩ := hhead
        rw [htext] at hfields ⊢
        simp [parseObject, skipSpace_cons (show isJsonSpace 34 = false by decide), hfields, hf]
    have htext : (123 :: stringifyFields fields ++ [125]) ++ rest =
        123 :: (stringifyFields fields ++ 125 :: rest) := by simp
    rw [htext, parseValue, skipSpace_cons (by decide)]
    exact hobject

/-- `JSON.parse(JSON.stringify(value) + space)` -/
theorem parse_stringify {value : Json} (h : Plain value) {rest : Str} (hr : skipSpace rest = []) :
    parse (stringify value ++ rest) = some value := by
  have hstops : Stops rest := by
    intro u hu
    cases rest with
    | nil => cases hu
    | cons v rest =>
      obtain rfl := Option.some.inj hu
      have hspace : isJsonSpace v = true := by
        simp only [skipSpace, List.dropWhile_eq_nil_iff] at hr
        exact hr v (by simp)
      simp only [isJsonSpace, Bool.or_eq_true, beq_iff_eq] at hspace
      rcases hspace with ((rfl | rfl) | rfl) | rfl <;> decide
  have hvalue := parseValue_stringify h
    (show (stringify value).length ≤ (stringify value ++ rest).length + 1 by simp; omega) hstops
  rw [parse, hvalue]
  exact if_pos hr

theorem parse_stringify_self {value : Json} (h : Plain value) : parse (stringify value) = some value := by
  have hparse : parse (stringify value ++ []) = some value := parse_stringify h rfl
  rwa [List.append_nil] at hparse

-- -----
-- Surrogates
-- -----

section
open Utf8

theorem isWellFormed_units {s : Str}
    (h : ∀ u ∈ s, isHighSurrogate u = false ∧ isLowSurrogate u = false) : isWellFormed s = true := by
  induction s with
  | nil => rfl
  | cons u s ih =>
    have hu := h u (by simp)
    have hs := ih fun v hv => h v (by simp [hv])
    cases s with
    | nil => simp [isWellFormed, hu]
    | cons v s => simp [isWellFormed, hu, hs]

theorem isWellFormed_ascii {s : Str} (h : IsAscii s) : isWellFormed s = true := by
  apply isWellFormed_units
  intro u hu
  have hlt := UInt16.lt_iff_toNat_lt.mp (of_decide_eq_true (List.all_eq_true.mp h u hu))
  have h80 : (0x80 : UInt16).toNat = 0x80 := rfl
  obtain ⟨hiff, liff⟩ := surrogate_toNat u
  simp only [← Bool.not_eq_true, hiff, liff]
  omega

theorem isWellFormed_escapeUnit {u : UInt16} : isWellFormed (escapeUnit u) = true := by
  have hdigit : ∀ n, n < 0x10 → hexDigit n < 0x80 := by decide
  unfold escapeUnit
  split <;> try decide
  split
  · have hlt : u.toNat < 0x10000 := u.toNat_lt
    apply isWellFormed_ascii
    simp [IsAscii, unicodeEscape, hdigit (u.toNat / 0x1000) (by omega),
      hdigit (u.toNat / 0x100 % 0x10) (by omega), hdigit (u.toNat / 0x10 % 0x10) (by omega),
      hdigit (u.toNat % 0x10) (by omega)]
  · rename_i h
    simp only [Bool.or_eq_true, not_or, Bool.not_eq_true] at h
    exact isWellFormed_units (by simp [h])

theorem isWellFormed_escapeUnits (s : Str) : isWellFormed (escapeUnits s) = true := by
  fun_induction escapeUnits s with
  | case1 => rfl
  | case2 u => exact isWellFormed_escapeUnit
  | case3 u v rest hp ih => simpa [isWellFormed, hp] using ih
  | case4 u v rest hp ih => exact isWellFormed_append isWellFormed_escapeUnit ih

theorem isWellFormed_cons {u : UInt16} {s : Str} (hu : u < 0x80) (hs : isWellFormed s = true) :
    isWellFormed (u :: s) = true :=
  isWellFormed_append (isWellFormed_ascii (s := [u]) (by simpa using hu)) hs

theorem isWellFormed_quote (s : Str) : isWellFormed (quote s) = true :=
  isWellFormed_cons (by decide)
    (isWellFormed_append (isWellFormed_escapeUnits s) (isWellFormed_ascii (by decide)))

theorem isWellFormed_brackets {s : Str} {u v : UInt16} (hu : u < 0x80) (hv : v < 0x80)
    (h : isWellFormed s = true) : isWellFormed (u :: s ++ [v]) = true :=
  isWellFormed_append (isWellFormed_cons hu h) (isWellFormed_cons hv rfl)

theorem isWellFormed_field (key : Str) {s : Str} (h : isWellFormed s = true) :
    isWellFormed (quote key ++ 58 :: s) = true :=
  isWellFormed_append (isWellFormed_quote key) (isWellFormed_cons (by decide) h)

mutual
/-- `JSON.stringify` escapes what is not half of a pair. -/
theorem isWellFormed_stringify : ∀ value : Json, isWellFormed (stringify value) = true
  | .null => by decide
  | .bool true => by decide
  | .bool false => by decide
  | .num value => isWellFormed_ascii (isAscii_text value)
  | .str value => isWellFormed_quote value
  | .arr items => isWellFormed_brackets (by decide) (by decide) (isWellFormed_items items)
  | .obj fields => isWellFormed_brackets (by decide) (by decide) (isWellFormed_fields fields)

theorem isWellFormed_items : ∀ items : List Json, isWellFormed (stringifyItems items) = true
  | [] => rfl
  | [item] => isWellFormed_stringify item
  | item :: next :: rest =>
    isWellFormed_append (isWellFormed_stringify item)
      (isWellFormed_cons (by decide) (isWellFormed_items (next :: rest)))

theorem isWellFormed_fields :
    ∀ fields : List (Str × Json), isWellFormed (stringifyFields fields) = true
  | [] => rfl
  | [(key, value)] => isWellFormed_field key (isWellFormed_stringify value)
  | (key, value) :: next :: rest =>
    isWellFormed_append (isWellFormed_field key (isWellFormed_stringify value))
      (isWellFormed_cons (by decide) (isWellFormed_fields (next :: rest)))
end
end

end Js
