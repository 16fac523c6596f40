import PiEnv.Lib.JsonNumber
import PiEnv.Lib.Utf8

/-!
# One line for each value

`JSON.stringify` writes no control characters, and UTF-8 adds none.
-/

namespace Js

def isPrintable (u : UInt16) : Bool := 32 ≤ u

abbrev Printable (s : Str) : Prop := s.all isPrintable = true

theorem isPrintable_digit (u : UInt16) (h : isDigit u = true) : isPrintable u = true := by
  simp only [isDigit, Bool.and_eq_true, decide_eq_true_eq] at h
  exact decide_eq_true (UInt16.le_trans (by decide) h.1)

theorem printable_text (value : Number) : Printable value.text :=
  all_text isPrintable_digit (List.all_eq_true.mp (by decide)) value

theorem printable_escapeUnit (u : UInt16) : Printable (escapeUnit u) := by
  unfold escapeUnit
  split
  all_goals first | decide | skip
  split
  · have hdigit : ∀ n < 16, isPrintable (hexDigit n) = true := by decide
    have hu := u.toNat_lt
    simp only [Printable, unicodeEscape, List.all_cons, List.all_nil, Bool.and_eq_true]
    exact ⟨by decide, by decide, hdigit _ (by omega), hdigit _ (by omega), hdigit _ (by omega),
      hdigit _ (by omega), trivial⟩
  · rename_i hplain
    simp only [Bool.or_eq_true, decide_eq_true_eq, not_or, UInt16.not_lt] at hplain
    simpa [isPrintable] using hplain.1.1

theorem printable_escapeUnits (s : Str) : Printable (escapeUnits s) := by
  have hhigh : ∀ u, isHighSurrogate u = true → isPrintable u = true := by
    intro u hu
    simp only [isHighSurrogate, Bool.and_eq_true, decide_eq_true_eq] at hu
    exact decide_eq_true (UInt16.le_trans (by decide) hu.1)
  have hlow : ∀ u, isLowSurrogate u = true → isPrintable u = true := by
    intro u hu
    simp only [isLowSurrogate, Bool.and_eq_true, decide_eq_true_eq] at hu
    exact decide_eq_true (UInt16.le_trans (by decide) hu.1)
  fun_induction escapeUnits s with
  | case1 => rfl
  | case2 u => exact printable_escapeUnit u
  | case3 u v rest hp ih =>
    simp only [Bool.and_eq_true] at hp
    simp only [Printable, List.all_cons, hhigh u hp.1, hlow v hp.2, Bool.true_and]
    exact ih
  | case4 u v rest hp ih => exact all_append (printable_escapeUnit u) ih

theorem printable_quote (s : Str) : Printable (quote s) :=
  all_append (s := [34] ++ escapeUnits s) (all_append (by decide) (printable_escapeUnits s)) (by decide)

mutual
theorem printable_stringify : ∀ value : Json, Printable (stringify value)
  | .null => by decide
  | .bool true => by decide
  | .bool false => by decide
  | .num value => printable_text value
  | .str value => printable_quote value
  | .arr items =>
    all_append (s := [91] ++ stringifyItems items)
      (all_append (by decide) (printable_items items)) (by decide)
  | .obj fields =>
    all_append (s := [123] ++ stringifyFields fields)
      (all_append (by decide) (printable_fields fields)) (by decide)

theorem printable_items : ∀ items : List Json, Printable (stringifyItems items)
  | [] => rfl
  | [item] => printable_stringify item
  | item :: next :: rest =>
    all_append (t := [44] ++ stringifyItems (next :: rest)) (printable_stringify item)
      (all_append (by decide) (printable_items (next :: rest)))

theorem printable_fields : ∀ fields : List (Str × Json), Printable (stringifyFields fields)
  | [] => rfl
  | [(key, value)] =>
    all_append (t := [58] ++ stringify value) (printable_quote key)
      (all_append (by decide) (printable_stringify value))
  | (key, value) :: next :: rest => by
    have hfield : Printable (quote key ++ ([58] ++ stringify value)) :=
      all_append (printable_quote key) (all_append (by decide) (printable_stringify value))
    have hrest := all_append (s := [44]) (p := isPrintable) (by decide) (printable_fields (next :: rest))
    simpa [Printable, stringifyFields, Bool.and_assoc] using all_append hfield hrest
end

namespace Utf8

theorem encodeScalar_ge {n : Nat} (h : 32 ≤ n) (hn : n < 0x110000) :
    ∀ b ∈ encodeScalar n, 32 ≤ b := by
  have hle : ∀ m, 32 ≤ m → m < 256 → (32 : UInt8) ≤ UInt8.ofNat m := by
    intro m hm hlt
    rw [UInt8.le_iff_toNat_le, UInt8.toNat_ofNat_of_lt' (by simpa using hlt)]
    exact hm
  unfold encodeScalar
  intro b hb
  split at hb
  · simp only [List.mem_singleton] at hb
    exact hb ▸ hle n h (by omega)
  split at hb
  · simp only [List.mem_cons, List.not_mem_nil, or_false] at hb
    rcases hb with rfl | rfl
    · exact hle _ (by omega) (by omega)
    · exact hle _ (by omega) (by omega)
  split at hb
  · simp only [List.mem_cons, List.not_mem_nil, or_false] at hb
    rcases hb with rfl | rfl | rfl
    · exact hle _ (by omega) (by omega)
    · exact hle _ (by omega) (by omega)
    · exact hle _ (by omega) (by omega)
  · simp only [List.mem_cons, List.not_mem_nil, or_false] at hb
    rcases hb with rfl | rfl | rfl | rfl
    · exact hle _ (by omega) (by omega)
    · exact hle _ (by omega) (by omega)
    · exact hle _ (by omega) (by omega)
    · exact hle _ (by omega) (by omega)

theorem loneScalar_ge {u : UInt16} (h : isPrintable u = true) :
    32 ≤ loneScalar u ∧ loneScalar u < 0x110000 := by
  unfold loneScalar
  split
  · decide
  · have hle : (32 : UInt16) ≤ u := of_decide_eq_true h
    rw [UInt16.le_iff_toNat_le] at hle
    have := u.toNat_lt
    exact ⟨hle, by omega⟩

theorem pairScalar_ge (u v : UInt16) (hu : isHighSurrogate u = true) (hv : isLowSurrogate v = true) :
    32 ≤ pairScalar u v ∧ pairScalar u v < 0x110000 := by
  simp only [isHighSurrogate, isLowSurrogate, Bool.and_eq_true, decide_eq_true_eq,
    UInt16.le_iff_toNat_le] at hu hv
  have h₁ : (0xDBFF : UInt16).toNat = 0xDBFF := rfl
  have h₂ : (0xDFFF : UInt16).toNat = 0xDFFF := rfl
  unfold pairScalar
  omega

/-- What is printable has no byte of a control character. -/
theorem encode_ge {s : Str} (h : Printable s) : ∀ b ∈ encode s, 32 ≤ b := by
  fun_induction encode s with
  | case1 => simp
  | case2 u =>
    have hu := loneScalar_ge (u := u) (by simpa [Printable] using h)
    exact encodeScalar_ge hu.1 hu.2
  | case3 u v rest hp ih =>
    simp only [Bool.and_eq_true] at hp
    simp only [Printable, List.all_cons, Bool.and_eq_true] at h
    have hpair := pairScalar_ge u v hp.1 hp.2
    intro b hb
    rcases List.mem_append.mp hb with hb | hb
    · exact encodeScalar_ge hpair.1 hpair.2 b hb
    · exact ih h.2.2 b hb
  | case4 u v rest hp ih =>
    simp only [Printable, List.all_cons, Bool.and_eq_true] at h
    have hu := loneScalar_ge h.1
    intro b hb
    rcases List.mem_append.mp hb with hb | hb
    · exact encodeScalar_ge hu.1 hu.2 b hb
    · exact ih (by simpa [Printable] using h.2) b hb

end Utf8

end Js
