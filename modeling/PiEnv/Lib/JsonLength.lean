import PiEnv.Lib.JsonNumber

/-!
# How long the text of a value is

Bounds on the bytes of the JSON text of strings, numbers and records, from the
lengths of what they hold.
-/

namespace Js

-- -----
-- Strings
-- -----

theorem unitBytes_le (u : UInt16) : unitBytes u ≤ 3 := by
  unfold unitBytes
  split_ifs <;> omega

/-- Half of a pair alone is three bytes. -/
theorem byteLength_low {v : UInt16} (h : isLowSurrogate v = true) (t : Str) :
    byteLength (v :: t) = 3 + byteLength t := by
  simp only [isLowSurrogate, Bool.and_eq_true, decide_eq_true_eq, UInt16.le_iff_toNat_le] at h
  have hlow : (0xDC00 : UInt16).toNat = 0xDC00 := rfl
  have hhigh : (0xDBFF : UInt16).toNat = 0xDBFF := rfl
  have hunit : unitBytes v = 3 := by
    unfold unitBytes
    rw [if_neg, if_neg] <;> rw [UInt16.lt_iff_toNat_lt]
    · show ¬ v.toNat < 0x800
      omega
    · show ¬ v.toNat < 0x80
      omega
  have hv : isHighSurrogate v = false := by
    simp only [isHighSurrogate, Bool.and_eq_false_iff, decide_eq_false_iff_not,
      UInt16.le_iff_toNat_le]
    right
    omega
  cases t with
  | nil => simp [byteLength, hunit]
  | cons w t => simp [byteLength, hv, hunit]

theorem byteLength_cons_le (u : UInt16) (t : Str) : byteLength (u :: t) ≤ unitBytes u + byteLength t := by
  cases t with
  | nil => simp [byteLength]
  | cons v t =>
    rw [byteLength]
    split
    · rename_i hp
      obtain ⟨hu, hv⟩ := Bool.and_eq_true_iff.mp hp
      have hunit : 1 ≤ unitBytes u := by
        unfold unitBytes
        split_ifs <;> omega
      rw [byteLength_low hv]
      omega
    · exact le_rfl

theorem byteLength_append (s t : Str) : byteLength (s ++ t) ≤ byteLength s + byteLength t := by
  fun_induction byteLength s with
  | case1 => simp
  | case2 u => exact byteLength_cons_le u t
  | case3 u v rest hp ih =>
    rw [List.cons_append, List.cons_append, byteLength, if_pos hp]
    omega
  | case4 u v rest hp ih =>
    rw [List.cons_append, List.cons_append, byteLength, if_neg hp]
    rw [List.cons_append] at ih
    omega

theorem byteLength_ascii {s : Str} (h : IsAscii s) : byteLength s ≤ s.length := by
  induction s with
  | nil => exact le_rfl
  | cons u s ih =>
    simp only [IsAscii, List.all_cons, Bool.and_eq_true, decide_eq_true_eq] at h
    have hunit : unitBytes u = 1 := if_pos h.1
    have := byteLength_cons_le u s
    have := ih h.2
    rw [List.length_cons]
    omega

theorem byteLength_escapeUnit (u : UInt16) : byteLength (escapeUnit u) ≤ 6 := by
  have hone : byteLength [u] ≤ 6 := (unitBytes_le u).trans (by decide)
  have hescape : byteLength (unicodeEscape u) ≤ 6 := by
    have hdigit : ∀ n < 16, hexDigit n < 0x80 := by decide
    have hu := u.toNat_lt
    apply byteLength_ascii
    simp only [IsAscii, unicodeEscape, List.all_cons, List.all_nil, Bool.and_eq_true,
      decide_eq_true_eq]
    exact ⟨by decide, by decide, hdigit _ (by omega), hdigit _ (by omega), hdigit _ (by omega),
      hdigit _ (by omega), trivial⟩
  unfold escapeUnit
  split
  all_goals first | decide | skip
  split
  · exact hescape
  · exact hone

theorem byteLength_escapeUnits (s : Str) : byteLength (escapeUnits s) ≤ 6 * s.length := by
  fun_induction escapeUnits s with
  | case1 => simp [byteLength]
  | case2 u => simpa using byteLength_escapeUnit u
  | case3 u v rest hp ih =>
    rw [byteLength, if_pos hp]
    simp only [List.length_cons]
    omega
  | case4 u v rest hp ih =>
    have := byteLength_append (escapeUnit u) (escapeUnits (v :: rest))
    have := byteLength_escapeUnit u
    simp only [List.length_cons] at ih ⊢
    omega

theorem byteLength_quote (s : Str) : byteLength (quote s) ≤ 6 * s.length + 2 := by
  have h := byteLength_escapeUnits s
  have hmark : byteLength [34] = 1 := rfl
  have happ := byteLength_append (escapeUnits s) [34]
  have hcons := byteLength_cons_le 34 (escapeUnits s ++ [34])
  have hunit : unitBytes 34 = 1 := rfl
  rw [quote, List.cons_append]
  omega

/-- A unit that stands for itself in a JSON text, in one byte. -/
def IsPlainAscii (u : UInt16) : Prop := escapeUnit u = [u] ∧ u < 0x80

theorem escapeUnits_plain {front : Str} (h : ∀ u ∈ front, IsPlainAscii u) (s : Str) :
    escapeUnits (front ++ s) = front ++ escapeUnits s := by
  induction front with
  | nil => rfl
  | cons u front ih =>
    obtain ⟨⟨hself, hlow⟩, hfront⟩ := List.forall_mem_cons.mp h
    have hhigh : isHighSurrogate u = false := by
      rw [isHighSurrogate, Bool.and_eq_false_iff]
      refine .inl (decide_eq_false fun hle => ?_)
      rw [UInt16.le_iff_toNat_le] at hle
      rw [UInt16.lt_iff_toNat_lt] at hlow
      simp only [UInt16.reduceToNat] at hle hlow
      omega
    have hcons : escapeUnits (u :: (front ++ s)) = u :: escapeUnits (front ++ s) := by
      cases hrest : front ++ s with
      | nil => simp [escapeUnits, hself]
      | cons v rest => rw [escapeUnits, if_neg (by simp [hhigh]), hself, List.singleton_append]
    rw [List.cons_append, hcons, ih hfront, List.cons_append]

theorem byteLength_escapeUnits_plain {front : Str} (h : ∀ u ∈ front, IsPlainAscii u) (s : Str) :
    byteLength (escapeUnits (front ++ s)) ≤ front.length + byteLength (escapeUnits s) := by
  have hascii : IsAscii front := List.all_eq_true.mpr fun u hu => decide_eq_true (h u hu).2
  have happ := byteLength_append front (escapeUnits s)
  have hfront := byteLength_ascii hascii
  rw [escapeUnits_plain h]
  omega

theorem byteLength_quote_plain {front : Str} (h : ∀ u ∈ front, IsPlainAscii u) (s : Str) :
    byteLength (quote (front ++ s)) ≤ front.length + 6 * s.length + 2 := by
  have hfront := byteLength_escapeUnits_plain h s
  have hunits := byteLength_escapeUnits s
  have hmark : byteLength [34] = 1 := rfl
  have happ := byteLength_append (escapeUnits (front ++ s)) [34]
  have hcons := byteLength_cons_le 34 (escapeUnits (front ++ s) ++ [34])
  have hunit : unitBytes 34 = 1 := rfl
  rw [quote, List.cons_append]
  omega

theorem length_quote (s : Str) : s.length + 2 ≤ (quote s).length := by
  have hunit : ∀ u, 1 ≤ (escapeUnit u).length := by
    intro u
    unfold escapeUnit
    split
    all_goals first | decide | skip
    split
    · exact (by decide : 1 ≤ 6)
    · exact le_rfl
  have hunits : s.length ≤ (escapeUnits s).length := by
    fun_induction escapeUnits s with
    | case1 => exact le_rfl
    | case2 u => exact hunit u
    | case3 u v rest hp ih => simpa using ih
    | case4 u v rest hp ih =>
      have := hunit u
      simp only [List.length_append, List.length_cons] at ih ⊢
      omega
  simp only [quote, List.length_append, List.length_cons, List.length_nil]
  omega

-- -----
-- Numbers
-- -----

theorem length_decimal_le {n k : Nat} (hk : 0 < k) (h : n < 10 ^ k) : (decimal n).length ≤ k := by
  rcases Nat.eq_zero_or_pos n with rfl | hn
  · exact hk
  · have := (Nat.pow_lt_pow_iff_right (by norm_num : 1 < 10)).mp ((decimal_bounds hn).1.trans_lt h)
    omega

theorem length_decimalInt {n : Int} {k : Nat} (hk : 0 < k) (h : n.natAbs < 10 ^ k) :
    (decimalInt n).length ≤ k + 1 := by
  match n with
  | .ofNat n =>
    have hlen : (decimal n).length ≤ k := length_decimal_le hk h
    show (decimal n).length ≤ k + 1
    omega
  | .negSucc n =>
    have hlen : (decimal (n + 1)).length ≤ k := length_decimal_le hk h
    simpa [decimalInt] using hlen

/-- The magnitudes of doubles. -/
theorem toDouble_bounds {x q : Rat} (h : toDouble x = .finite q) (hq : 0 < q) :
    (2 : Rat) ^ (-1074 : Int) ≤ q ∧ q < 2 ^ (1024 : Nat) := by
  rw [toDouble_eq] at h
  split at h
  · cases h
  · rename_i hlt
    have hr : q = rounded |x| := by
      have h := Number.finite.inj h
      split at h
      · have hround : 0 ≤ rounded |x| := by
          have hx : (0 : Rat) ≤ |x| / spacing |x| := div_nonneg (abs_nonneg x) (spacing_pos _).le
          have hfloor : 0 ≤ ⌊|x| / spacing |x|⌋ := Int.floor_nonneg.mpr hx
          have hint : 0 ≤ roundHalfEven (|x| / spacing |x|) := by
            rcases roundHalfEven_or (|x| / spacing |x|) with hr | hr <;> omega
          exact mul_nonneg (by exact_mod_cast hint) (spacing_pos _).le
        linarith
      · exact h.symm
    refine ⟨?_, by rw [hr]; exact not_le.mp hlt⟩
    have hpos : 0 < roundHalfEven (|x| / spacing |x|) := by
      rw [hr, rounded] at hq
      have := (mul_pos_iff_of_pos_right (spacing_pos |x|)).mp hq
      exact_mod_cast this
    have hone : (1 : Rat) ≤ roundHalfEven (|x| / spacing |x|) := by exact_mod_cast hpos
    calc (2 : Rat) ^ (-1074 : Int) ≤ spacing |x| := zpow_le_zpow_right₀ (by norm_num) (le_max_right _ _)
      _ ≤ roundHalfEven (|x| / spacing |x|) * spacing |x| :=
        le_mul_of_one_le_left (spacing_pos _).le hone
      _ = q := hr.symm

theorem decimalExponent_bounds {q : Rat} (hl : (2 : Rat) ^ (-1074 : Int) ≤ q)
    (hu : q < 2 ^ (1024 : Nat)) : (decimalExponent q).natAbs ≤ 1075 := by
  have hq : 0 < q := lt_of_lt_of_le (by positivity) hl
  obtain ⟨hlow, hhigh⟩ := decimalExponent_spec hq
  have hupper : (10 : Rat) ^ decimalExponent q < 10 ^ (1024 : Int) := by
    refine hlow.trans_lt (hu.trans_le ?_)
    rw [show ((10 : Rat) ^ (1024 : Int)) = 10 ^ (1024 : Nat) from zpow_natCast 10 1024]
    exact pow_le_pow_left₀ (by norm_num) (by norm_num) 1024
  have hlower : (10 : Rat) ^ (-1074 : Int) < 10 ^ (decimalExponent q + 1) := by
    refine lt_of_le_of_lt ?_ hhigh
    refine le_trans ?_ hl
    rw [zpow_neg, zpow_neg]
    refine inv_anti₀ (by positivity) ?_
    rw [show ((10 : Rat) ^ (1074 : Int)) = 10 ^ (1074 : Nat) from zpow_natCast 10 1074,
      show ((2 : Rat) ^ (1074 : Int)) = 2 ^ (1074 : Nat) from zpow_natCast 2 1074]
    exact pow_le_pow_left₀ (by norm_num) (by norm_num) 1074
  have h1 := (zpow_lt_zpow_iff_right₀ (by norm_num : (1 : Rat) < 10)).mp hupper
  have h2 := (zpow_lt_zpow_iff_right₀ (by norm_num : (1 : Rat) < 10)).mp hlower
  omega

/-- At most eighteen digits, and an exponent of a double. -/
theorem shortestDigits_bounds {q : Rat} (hq : 0 < q) {bound count : Nat} (hc : 0 < count)
    (hsum : count + bound = 18) :
    (shortestDigits q (decimalExponent q) count bound).1 < 10 ^ 18 ∧
      (shortestDigits q (decimalExponent q) count bound).2.natAbs ≤ 1076 := by
  induction bound generalizing count with
  | zero => exact ⟨(by decide : 0 < 10 ^ 18), (by decide : (0 : Int).natAbs ≤ 1076)⟩
  | succ bound ih =>
    obtain ⟨hlow, hhigh⟩ := scaled_bounds hq hc
    unfold shortestDigits
    simp only
    split
    · rename_i digits hfind
      have hmem := List.mem_of_find?_eq_some hfind
      have hval := List.find?_some hfind
      obtain ⟨hdl, hdu⟩ := candidate_bounds hlow hhigh (by simpa using hmem)
      obtain ⟨hql, hqu⟩ := toDouble_bounds (by simpa using hval) hq
      have he := decimalExponent_bounds hql hqu
      have hpow : 10 ^ count < 10 ^ 18 := Nat.pow_lt_pow_right (by norm_num) (by omega)
      split
      · exact ⟨(Nat.pow_le_pow_right (by norm_num) (Nat.sub_le count 1)).trans_lt hpow,
          by simp only; omega⟩
      · refine ⟨?_, by simp only; omega⟩
        have hnonneg : (0 : Int) < 10 ^ (count - 1) := by positivity
        have : ((10 ^ count : Nat) : Int) = 10 ^ count := by push_cast; rfl
        simp only
        omega
    · exact ih (by omega) (by omega)

theorem length_layout (digits : Str) (e : Int) :
    (layout digits e).length ≤ 2 * digits.length + 40 + (decimal e.natAbs).length := by
  unfold layout
  simp only
  split
  · simp only [List.length_append, List.length_replicate]
    omega
  split
  · simp only [List.length_append, List.length_take, List.length_drop]
    have : (lit ".").length = 1 := rfl
    omega
  split
  · simp only [List.length_append, List.length_replicate]
    have : (lit "0.").length = 2 := rfl
    omega
  · have hsign : (if 0 ≤ e then lit "+" else lit "-").length = 1 := by split <;> rfl
    have he : (lit "e").length = 1 := rfl
    have hpoint : (lit ".").length = 1 := rfl
    unfold scientific
    split <;> simp only [List.length_append, List.length_cons, List.length_nil, hsign, he, hpoint] <;>
      omega

theorem length_positiveText {q : Rat} (hq : 0 < q) : (positiveText q).length ≤ 80 := by
  obtain ⟨hd, he⟩ := shortestDigits_bounds hq (by decide : 0 < 1) (rfl : 1 + 17 = 18)
  have hdigits := length_decimal_le (by norm_num) hd
  have hexp := length_decimal_le (n := (shortestDigits q (decimalExponent q) 1 17).2.natAbs) (k := 4)
    (by norm_num) (by omega)
  have := length_layout (decimal (shortestDigits q (decimalExponent q) 1 17).1)
    (shortestDigits q (decimalExponent q) 1 17).2
  rw [positiveText_eq]
  omega

theorem byteLength_number (value : Number) : byteLength value.text ≤ 81 := by
  cases value with
  | infinite negative => exact (by decide : byteLength (lit "null") ≤ 81)
  | nan => exact (by decide : byteLength (lit "null") ≤ 81)
  | finite q =>
    refine (byteLength_ascii (isAscii_text _)).trans ?_
    unfold Number.text
    simp only
    split
    · rename_i h
      have hsafe : maxSafe < 10 ^ 20 := by decide
      have := length_decimalInt (n := q.num) (k := 20) (by norm_num) (by omega)
      omega
    · rename_i h
      split
      · rename_i hneg
        have := length_positiveText (q := -q) (by linarith)
        rw [List.length_cons]
        omega
      · rename_i hneg
        have hne : q ≠ 0 := by
          rintro rfl
          exact h ⟨rfl, by decide⟩
        have hpos : 0 < q := lt_of_le_of_ne (not_lt.mp hneg) hne.symm
        have := length_positiveText hpos
        omega

-- -----
-- Records
-- -----

/-- What a field takes up, with its colon and comma. -/
def fieldBytes (entry : Str × Json) : Nat := 6 * entry.1.length + 4 + byteLength (stringify entry.2)

theorem byteLength_field (key : Str) (value : Json) :
    byteLength (quote key ++ 58 :: stringify value) + 1 ≤ fieldBytes (key, value) := by
  have := byteLength_append (quote key) (58 :: stringify value)
  have := byteLength_cons_le 58 (stringify value)
  have := byteLength_quote key
  have : unitBytes 58 = 1 := rfl
  simp only [fieldBytes]
  omega

theorem byteLength_stringifyFields (fields : List (Str × Json)) :
    byteLength (stringifyFields fields) ≤ (fields.map fieldBytes).sum := by
  match fields with
  | [] => simp [stringifyFields, byteLength]
  | [(key, value)] =>
    have := byteLength_field key value
    simp only [stringifyFields, List.map_cons, List.map_nil, List.sum_cons, List.sum_nil]
    omega
  | (key, value) :: entry :: rest =>
    have hrest := byteLength_stringifyFields (entry :: rest)
    have hfield := byteLength_field key value
    have happ := byteLength_append (quote key ++ 58 :: stringify value)
      (44 :: stringifyFields (entry :: rest))
    have hcons := byteLength_cons_le 44 (stringifyFields (entry :: rest))
    have hunit : unitBytes 44 = 1 := rfl
    rw [stringifyFields, List.map_cons, List.sum_cons]
    · simp only [List.append_assoc, List.cons_append] at happ hfield ⊢
      omega
    · simp

theorem byteLength_object (fields : List (Str × Json)) :
    byteLength (stringify (.obj fields)) ≤ (fields.map fieldBytes).sum + 2 := by
  have hfields := byteLength_stringifyFields fields
  have happ := byteLength_append (stringifyFields fields) [125]
  have hcons := byteLength_cons_le 123 (stringifyFields fields ++ [125])
  have hopen : unitBytes 123 = 1 := rfl
  have hclose : byteLength [125] = 1 := rfl
  rw [stringify, List.cons_append]
  omega

theorem fieldBytes_str (key value : Str) :
    fieldBytes (key, .str value) ≤ 6 * key.length + 6 * value.length + 6 := by
  have := byteLength_quote value
  simp only [fieldBytes, stringify]
  omega

theorem fieldBytes_num (key : Str) (value : Number) :
    fieldBytes (key, .num value) ≤ 6 * key.length + 85 := by
  have := byteLength_number value
  simp only [fieldBytes, stringify]
  omega

end Js
