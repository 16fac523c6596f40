import PiEnv.Lib.Double

/-!
# Numbers in JSON

The parser reads the text of a double back as that double.
-/

namespace Js

-- -----
-- Decimal digits
-- -----

theorem decimalAux_append (fuel n : Nat) (acc : Str) :
    decimalAux fuel n acc = decimalAux fuel n [] ++ acc := by
  induction fuel generalizing n acc with
  | zero => rfl
  | succ fuel ih =>
    unfold decimalAux
    split
    · rfl
    · rw [ih (n / 10) (decimalDigit n :: acc), ih (n / 10) [decimalDigit n]]
      simp

theorem decimalAux_fuel {fuel fuel' n : Nat} (h : n < fuel) (h' : n < fuel') :
    decimalAux fuel n [] = decimalAux fuel' n [] := by
  induction fuel generalizing n fuel' with
  | zero => omega
  | succ fuel ih =>
    obtain ⟨fuel', rfl⟩ : ∃ k, fuel' = k + 1 := ⟨fuel' - 1, by omega⟩
    unfold decimalAux
    split
    · rfl
    · rw [decimalAux_append fuel, decimalAux_append fuel']
      rw [ih (by omega) (by omega : n / 10 < fuel')]

theorem decimal_of_lt {n : Nat} (h : n < 10) : decimal n = [decimalDigit n] := by
  simp [decimal, decimalAux, h]

theorem decimal_of_ge {n : Nat} (h : 10 ≤ n) : decimal n = decimal (n / 10) ++ [decimalDigit n] := by
  have hn : ¬ n < 10 := by omega
  show decimalAux (n + 1) n [] = _
  unfold decimalAux
  rw [if_neg hn, decimalAux_append]
  rw [decimalAux_fuel (by omega : n / 10 < n) (by omega : n / 10 < n / 10 + 1)]
  rfl

theorem decimalDigit_toNat (n : Nat) : (decimalDigit n).toNat = 48 + n % 10 := by
  simp only [decimalDigit, UInt16.toNat_ofNat']
  omega

theorem digitsValue_concat (s : Str) (u : UInt16) :
    digitsValue (s ++ [u]) = 10 * digitsValue s + (u.toNat - 48) := by
  simp [digitsValue]

theorem digitsValue_decimal (n : Nat) : digitsValue (decimal n) = n := by
  induction n using Nat.strongRecOn with
  | ind n ih =>
    by_cases h : n < 10
    · have hd := decimalDigit_toNat n
      rw [decimal_of_lt h]
      simp only [digitsValue, List.foldl_cons, List.foldl_nil]
      omega
    · rw [decimal_of_ge (by omega), digitsValue_concat, ih (n / 10) (by omega), decimalDigit_toNat]
      omega

theorem decimal_ne_nil (n : Nat) : decimal n ≠ [] := by
  by_cases h : n < 10
  · simp [decimal_of_lt h]
  · simp [decimal_of_ge (show 10 ≤ n by omega)]

theorem decimal_head_pos {n : Nat} (h : 0 < n) : ∃ u rest, decimal n = u :: rest ∧ u ≠ 48 := by
  induction n using Nat.strongRecOn with
  | ind n ih =>
    by_cases hn : n < 10
    · refine ⟨decimalDigit n, [], decimal_of_lt hn, fun he => ?_⟩
      have hd := decimalDigit_toNat n
      rw [he] at hd
      have h48 : (48 : UInt16).toNat = 48 := rfl
      omega
    · obtain ⟨u, rest, hd, hu⟩ := ih (n / 10) (by omega) (by omega)
      exact ⟨u, rest ++ [decimalDigit n], by rw [decimal_of_ge (by omega), hd]; rfl, hu⟩

theorem digitsValue_append (xs ys : Str) :
    digitsValue (xs ++ ys) = digitsValue xs * 10 ^ ys.length + digitsValue ys := by
  induction ys using List.reverseRecOn with
  | nil => simp [digitsValue]
  | append_singleton ys u ih =>
    rw [← List.append_assoc, digitsValue_concat, digitsValue_concat, ih, List.length_append,
      List.length_singleton, pow_succ]
    ring

@[simp] theorem digitsValue_zeros (n : Nat) : digitsValue (List.replicate n 48) = 0 := by
  induction n with
  | zero => rfl
  | succ n ih => rw [List.replicate_succ', digitsValue_concat, ih]; rfl

theorem decimal_bounds {n : Nat} (h : 0 < n) :
    10 ^ ((decimal n).length - 1) ≤ n ∧ n < 10 ^ (decimal n).length := by
  induction n using Nat.strongRecOn with
  | ind n ih =>
    by_cases hn : n < 10
    · rw [decimal_of_lt hn]
      simpa using ⟨Nat.succ_le_of_lt h, hn⟩
    · obtain ⟨hl, hu⟩ := ih (n / 10) (by omega) (by omega)
      have hpos : 0 < (decimal (n / 10)).length := List.length_pos_iff.mpr (decimal_ne_nil _)
      rw [decimal_of_ge (by omega), List.length_append, List.length_singleton, Nat.add_sub_cancel]
      obtain ⟨k, hk⟩ : ∃ k, (decimal (n / 10)).length = k + 1 := ⟨_, (Nat.sub_add_cancel hpos).symm⟩
      rw [hk] at hl hu ⊢
      rw [Nat.add_sub_cancel] at hl
      rw [pow_succ] at hu ⊢
      rw [pow_succ 10 (k + 1), pow_succ]
      constructor <;> omega

theorem length_decimal {n count : Nat} (hc : 0 < count) (hl : 10 ^ (count - 1) ≤ n)
    (hu : n < 10 ^ count) : (decimal n).length = count := by
  have hpos : 0 < n := (Nat.pow_pos (by norm_num : 0 < 10)).trans_le hl
  obtain ⟨hl', hu'⟩ := decimal_bounds hpos
  have h := (Nat.pow_lt_pow_iff_right (by norm_num : 1 < 10)).mp (hl.trans_lt hu')
  have h' := (Nat.pow_lt_pow_iff_right (by norm_num : 1 < 10)).mp (hl'.trans_lt hu)
  omega

-- -----
-- Numbers
-- -----

/-- Text a number ends before. -/
def Stops (rest : Str) : Prop :=
  ∀ u ∈ rest.head?, isDigit u = false ∧ u ≠ 46 ∧ u ≠ 101 ∧ u ≠ 69

theorem span_digits {digits rest : Str} (h : ∀ u ∈ digits, isDigit u = true)
    (hr : ∀ u ∈ rest.head?, isDigit u = false) : (digits ++ rest).span isDigit = (digits, rest) := by
  rw [List.span_eq_takeWhile_dropWhile, Prod.mk.injEq]
  cases rest with
  | nil => simpa [List.takeWhile_eq_self_iff, List.dropWhile_eq_nil_iff] using h
  | cons u rest =>
    have hu := hr u rfl
    constructor
    · rw [List.takeWhile_append_of_pos h]
      simp [hu]
    · rw [List.dropWhile_append_of_pos h]
      simp [hu]

theorem parseInteger_digits {digits rest : Str} (hd : ∀ u ∈ digits, isDigit u = true)
    (hne : digits ≠ []) (hz : digits = [48] ∨ digits.head? ≠ some 48)
    (hr : ∀ u ∈ rest.head?, isDigit u = false) :
    parseInteger (digits ++ rest) = some (digitsValue digits, rest) := by
  unfold parseInteger
  rw [span_digits hd hr]
  split
  · rename_i he
    exact absurd (Prod.mk.inj he).1 hne
  · rename_i he
    obtain ⟨rfl, -⟩ := Prod.mk.inj he
    simp at hz
  · rename_i he
    obtain ⟨rfl, rfl⟩ := Prod.mk.inj he
    rfl

theorem decimal_leads (n : Nat) : decimal n = [48] ∨ (decimal n).head? ≠ some 48 := by
  rcases Nat.eq_zero_or_pos n with rfl | hn
  · exact .inl rfl
  · obtain ⟨u, rest, hd, hu⟩ := decimal_head_pos hn
    exact .inr (by simpa [hd] using hu)

theorem parseFraction_digits {digits rest : Str} (hd : ∀ u ∈ digits, isDigit u = true)
    (hne : digits ≠ []) (hr : ∀ u ∈ rest.head?, isDigit u = false) :
    parseFraction (46 :: (digits ++ rest)) = some ((digitsValue digits, digits.length), rest) := by
  simp only [parseFraction]
  rw [span_digits hd hr]
  split
  · rename_i he
    exact absurd (Prod.mk.inj he).1 hne
  · rename_i he
    obtain ⟨rfl, rfl⟩ := Prod.mk.inj he
    rfl

theorem parseFraction_none {rest : Str} (hr : ∀ u ∈ rest.head?, u ≠ 46) :
    parseFraction rest = some ((0, 0), rest) := by
  unfold parseFraction
  split
  · exact absurd rfl (hr 46 rfl)
  · rfl

theorem parseExponentDigits_decimal (negative : Bool) {n : Nat} {rest : Str}
    (hr : ∀ u ∈ rest.head?, isDigit u = false) :
    parseExponentDigits negative (decimal n ++ rest) =
      some (if negative then -(n : Int) else n, rest) := by
  unfold parseExponentDigits
  rw [span_digits (fun _ h => isDigit_decimal h) hr]
  split
  · rename_i he
    exact absurd (Prod.mk.inj he).1 (decimal_ne_nil n)
  · rename_i he
    obtain ⟨rfl, rfl⟩ := Prod.mk.inj he
    rw [digitsValue_decimal]

theorem parseExponent_none {rest : Str} (hr : ∀ u ∈ rest.head?, u ≠ 101 ∧ u ≠ 69) :
    parseExponent rest = some (0, rest) := by
  unfold parseExponent
  split
  · rename_i u rest
    have hu := hr u rfl
    simp [hu.1, hu.2]
  · rfl

theorem parseMagnitude_eq {s s' s'' rest : Str} {whole part count : Nat} {e : Int}
    (hi : parseInteger s = some (whole, s')) (hf : parseFraction s' = some ((part, count), s''))
    (he : parseExponent s'' = some (e, rest)) :
    parseMagnitude s =
      some (((whole : Rat) + part / (10 : Rat) ^ count) * (10 : Rat) ^ e, rest) := by
  simp [parseMagnitude, hi, hf, he]

theorem Stops.digit {rest : Str} (h : Stops rest) : ∀ u ∈ rest.head?, isDigit u = false :=
  fun u hu => (h u hu).1

theorem Stops.point {rest : Str} (h : Stops rest) : ∀ u ∈ rest.head?, u ≠ 46 :=
  fun u hu => (h u hu).2.1

theorem Stops.exponent {rest : Str} (h : Stops rest) : ∀ u ∈ rest.head?, u ≠ 101 ∧ u ≠ 69 :=
  fun u hu => (h u hu).2.2

theorem parseMagnitude_digits {digits rest : Str} (hd : ∀ u ∈ digits, isDigit u = true)
    (hne : digits ≠ []) (hz : digits = [48] ∨ digits.head? ≠ some 48) (hr : Stops rest) :
    parseMagnitude (digits ++ rest) = some ((digitsValue digits : Rat), rest) := by
  rw [parseMagnitude_eq (parseInteger_digits hd hne hz hr.digit) (parseFraction_none hr.point)
    (parseExponent_none hr.exponent)]
  simp

theorem parseMagnitude_decimal {n : Nat} {rest : Str} (hr : Stops rest) :
    parseMagnitude (decimal n ++ rest) = some ((n : Rat), rest) := by
  rw [parseMagnitude_digits (fun _ h => isDigit_decimal h) (decimal_ne_nil n) (decimal_leads n) hr,
    digitsValue_decimal]

theorem parseNumber_decimalInt {n : Int} {rest : Str} (hn : n.natAbs ≤ maxSafe) (hr : Stops rest) :
    parseNumber (decimalInt n ++ rest) = some (.ofInt n, rest) := by
  cases n with
  | ofNat n =>
    have hhead : ∀ s, decimal n ++ rest ≠ 45 :: s := by
      intro s he
      obtain ⟨u, digits, hd⟩ := List.exists_cons_of_ne_nil (decimal_ne_nil n)
      rw [hd] at he
      have hu : isDigit u = true := isDigit_decimal (hd ▸ List.mem_cons_self)
      rw [(List.cons.inj he).1] at hu
      exact absurd hu (by decide)
    have hdouble : toDouble (n : Rat) = .ofInt n := by
      simpa using toDouble_int (n := n) hn
    unfold parseNumber decimalInt
    split
    · exact absurd (by assumption) (hhead _)
    · simp [parseMagnitude_decimal hr, hdouble]
  | negSucc n =>
    have hdouble : toDouble (-((n + 1 : Nat) : Rat)) = .ofInt (.negSucc n) := by
      have := toDouble_int hn
      rw [Int.cast_negSucc] at this
      exact this
    simp only [decimalInt, List.cons_append, parseNumber, parseMagnitude_decimal hr]
    exact congrArg (fun value => some (value, rest)) hdouble

-- -----
-- Shortest digits
-- -----

theorem floor_bounds {q : Rat} (h : 1 ≤ q) :
    (10 : Rat) ^ (((decimal ⌊q⌋.natAbs).length : Nat) - 1) ≤ q ∧
      q < (10 : Rat) ^ ((decimal ⌊q⌋.natAbs).length : Nat) := by
  have hpos : 1 ≤ ⌊q⌋ := Int.le_floor.mpr (by exact_mod_cast h)
  obtain ⟨hl, hu⟩ := decimal_bounds (n := ⌊q⌋.natAbs) (by omega)
  have hcast : ((⌊q⌋.natAbs : Nat) : Rat) = ⌊q⌋ := by
    rw [Nat.cast_natAbs, abs_of_pos (by omega)]
  constructor
  · have hle : (10 : Rat) ^ (((decimal ⌊q⌋.natAbs).length : Nat) - 1) ≤ ⌊q⌋ := by
      rw [← hcast]
      exact_mod_cast hl
    exact hle.trans (Int.floor_le q)
  · have hlt : ((⌊q⌋ + 1 : Int) : Rat) ≤ (10 : Rat) ^ ((decimal ⌊q⌋.natAbs).length : Nat) := by
      have hnat : ((⌊q⌋.natAbs + 1 : Nat) : Rat) ≤ (10 : Rat) ^ ((decimal ⌊q⌋.natAbs).length : Nat) := by
        exact_mod_cast hu
      rw [Nat.cast_add, hcast] at hnat
      push_cast at hnat ⊢
      exact hnat
    refine lt_of_lt_of_le ?_ hlt
    push_cast
    exact Int.lt_floor_add_one q

theorem decimalExponent_spec {q : Rat} (h : 0 < q) :
    (10 : Rat) ^ decimalExponent q ≤ q ∧ q < (10 : Rat) ^ (decimalExponent q + 1) := by
  by_cases hq : 1 ≤ q
  · obtain ⟨hl, hu⟩ := floor_bounds hq
    have hpos : 0 < (decimal ⌊q⌋.natAbs).length := List.length_pos_iff.mpr (decimal_ne_nil _)
    rw [decimalExponent, if_pos hq, sub_add_cancel, zpow_natCast]
    refine ⟨?_, hu⟩
    rw [show (((decimal ⌊q⌋.natAbs).length : Int) - 1) = (((decimal ⌊q⌋.natAbs).length - 1 : Nat) : Int) by
      omega, zpow_natCast]
    exact hl
  · have hinv : 1 ≤ 1 / q := by
      rw [le_div_iff₀ h]
      linarith
    obtain ⟨hl, hu⟩ := floor_bounds hinv
    have hpos : 0 < (decimal ⌊1 / q⌋.natAbs).length := List.length_pos_iff.mpr (decimal_ne_nil _)
    rw [decimalExponent, if_neg hq]
    generalize (decimal ⌊1 / q⌋.natAbs).length = count at *
    rw [le_div_iff₀ h] at hl
    rw [div_lt_iff₀ h] at hu
    have hone : (10 : Rat) ^ (-(count : Int)) * 10 ^ count = 1 := by
      rw [← zpow_natCast, ← zpow_add₀ (by norm_num)]
      simp
    have hten : (10 : Rat) ^ (-(count : Int) + 1) * 10 ^ (count - 1) = 1 := by
      rw [← zpow_natCast, ← zpow_add₀ (by norm_num)]
      rw [show -(count : Int) + 1 + ((count - 1 : Nat) : Int) = 0 by omega, zpow_zero]
    have hpow : (0 : Rat) < 10 ^ count := by positivity
    have hpow' : (0 : Rat) < 10 ^ (count - 1) := by positivity
    split
    · rename_i he
      have hq' : q = (10 : Rat) ^ (-(count : Int) + 1) := by
        apply mul_right_cancel₀ hpow'.ne'
        rw [hten, mul_comm, he]
      rw [← hq']
      refine ⟨le_rfl, ?_⟩
      rw [hq']
      exact zpow_lt_zpow_right₀ (by norm_num) (by omega)
    · rename_i he
      rw [add_zero]
      constructor
      · apply le_of_mul_le_mul_right _ hpow
        rw [hone, mul_comm]
        exact hu.le
      · apply lt_of_mul_lt_mul_right _ hpow'.le
        rw [hten, mul_comm]
        exact lt_of_le_of_ne hl he

/-- The quotient whose integer part has `count` digits. -/
theorem scaled_bounds {q : Rat} (hq : 0 < q) {count : Nat} (hc : 0 < count) :
    (10 : Rat) ^ (count - 1) ≤ q / 10 ^ (decimalExponent q + 1 - count) ∧
      q / 10 ^ (decimalExponent q + 1 - count) < (10 : Rat) ^ count := by
  obtain ⟨hl, hu⟩ := decimalExponent_spec hq
  have hscale : (0 : Rat) < 10 ^ (decimalExponent q + 1 - count) := by positivity
  constructor
  · rw [le_div_iff₀ hscale, ← zpow_natCast, ← zpow_add₀ (by norm_num)]
    rwa [show ((count - 1 : Nat) : Int) + (decimalExponent q + 1 - count) = decimalExponent q by omega]
  · rw [div_lt_iff₀ hscale, ← zpow_natCast, ← zpow_add₀ (by norm_num)]
    rwa [show (count : Int) + (decimalExponent q + 1 - count) = decimalExponent q + 1 by omega]

/-- Digits and an exponent that give the double back. -/
def Gives (q : Rat) (digits : Nat × Int) : Prop :=
  0 < digits.1 ∧
    toDouble (digits.1 * (10 : Rat) ^ (digits.2 + 1 - (decimal digits.1).length)) = .finite q

theorem candidate_bounds {x : Rat} {count : Nat} (hl : (10 : Rat) ^ (count - 1) ≤ x)
    (hu : x < 10 ^ count) {digits : Int}
    (hd : digits = roundHalfEven x ∨
      digits = if roundHalfEven x = ⌊x⌋ then roundHalfEven x + 1 else roundHalfEven x - 1) :
    10 ^ (count - 1) ≤ digits ∧ digits ≤ 10 ^ count := by
  have hlow : ((10 ^ (count - 1) : Nat) : Int) ≤ ⌊x⌋ := Int.le_floor.mpr (by exact_mod_cast hl)
  have hhigh : ⌊x⌋ < ((10 ^ count : Nat) : Int) := Int.floor_lt.mpr (by exact_mod_cast hu)
  push_cast at hlow hhigh
  have hor := roundHalfEven_or x
  rcases hd with rfl | rfl
  · omega
  · split <;> omega

theorem gives_candidate {q : Rat} {e digits : Int} {count : Nat} (hc : 0 < count)
    (hl : 10 ^ (count - 1) ≤ digits) (hu : digits ≤ 10 ^ count)
    (h : toDouble ((digits : Rat) * (10 : Rat) ^ (e + 1 - count)) = .finite q) :
    Gives q (if digits = 10 ^ count then (10 ^ (count - 1), e + 1) else (digits.natAbs, e)) := by
  have hpow : 0 < 10 ^ (count - 1) := Nat.pow_pos (by norm_num : 0 < 10)
  split
  · rename_i hd
    have hlen : (decimal (10 ^ (count - 1))).length = count :=
      length_decimal hc le_rfl (Nat.pow_lt_pow_right (by norm_num) (by omega))
    refine ⟨hpow, ?_⟩
    rw [← h, hlen, hd]
    congr 1
    push_cast
    rw [← zpow_natCast, ← zpow_natCast, ← zpow_add₀ (by norm_num), ← zpow_add₀ (by norm_num)]
    congr 1
    omega
  · rename_i hd
    obtain ⟨n, rfl⟩ := Int.eq_ofNat_of_zero_le (show 0 ≤ digits by
      have : (0 : Int) < 10 ^ (count - 1) := by positivity
      omega)
    have hl' : 10 ^ (count - 1) ≤ n := by exact_mod_cast hl
    have hu' : n < 10 ^ count := by
      have : (n : Int) < 10 ^ count := lt_of_le_of_ne hu hd
      exact_mod_cast this
    have hlen := length_decimal hc hl' hu'
    refine ⟨by simpa using hpow.trans_le hl', ?_⟩
    simpa [hlen] using h

theorem shortestDigits_gives {q : Rat} (hd : IsDouble q) (hq : 0 < q) {bound count : Nat}
    (hb : 0 < bound) (hc : 0 < count) (hsum : count + bound = 18) :
    Gives q (shortestDigits q (decimalExponent q) count bound) := by
  obtain ⟨hl, hu⟩ := decimalExponent_spec hq
  induction bound generalizing count with
  | zero => omega
  | succ bound ih =>
    have hscale : (0 : Rat) < 10 ^ (decimalExponent q + 1 - count) := by positivity
    obtain ⟨hlow, hhigh⟩ := scaled_bounds hq hc
    unfold shortestDigits
    simp only
    split
    · rename_i digits hfind
      have hmem := List.mem_of_find?_eq_some hfind
      have hval := List.find?_some hfind
      obtain ⟨hdl, hdu⟩ := candidate_bounds hlow hhigh (by simpa using hmem)
      exact gives_candidate hc hdl hdu (by simpa using hval)
    · rename_i hfind
      rcases Nat.eq_zero_or_pos bound with rfl | hpos
      · -- seventeen digits are always enough
        exfalso
        have hnear := List.find?_eq_none.mp hfind
          (roundHalfEven (q / 10 ^ (decimalExponent q + 1 - count))) (by simp)
        apply hnear
        rw [toDouble_near hd hq]
        · simp
        · have hround := abs_sub_roundHalfEven (q / 10 ^ (decimalExponent q + 1 - count))
          have hpart : (10 : Rat) ^ (decimalExponent q + 1 - count) * 10 ^ (16 : Nat) =
              10 ^ decimalExponent q := by
            rw [← zpow_natCast, ← zpow_add₀ (by norm_num)]
            congr 1
            omega
          generalize (10 : Rat) ^ (decimalExponent q + 1 - count) = scale at *
          have hsplit : (roundHalfEven (q / scale) : Rat) * scale - q =
              -((q / scale - roundHalfEven (q / scale)) * scale) := by
            field_simp
            ring
          rw [hsplit, abs_neg, abs_mul, abs_of_pos hscale]
          unfold slack
          nlinarith
      · exact ih hpos (by omega) (by omega)

-- -----
-- Reading doubles
-- -----

/-- Digits with a point after the first, and an exponent. -/
def scientific (digits exponent : Str) : Str :=
  match digits with
  | [digit] => digit :: exponent
  | digit :: rest => digit :: lit "." ++ rest ++ exponent
  | [] => exponent

/-- Where the point and the exponent go. -/
def layout (digits : Str) (e : Int) : Str :=
  let n := e + 1
  let k : Int := digits.length
  if k ≤ n ∧ n ≤ 21 then digits ++ List.replicate (n - k).toNat 48
  else if 0 < n ∧ n ≤ 21 then digits.take n.toNat ++ lit "." ++ digits.drop n.toNat
  else if -6 < n ∧ n ≤ 0 then lit "0." ++ List.replicate (-n).toNat 48 ++ digits
  else
    scientific digits (lit "e" ++ (if 0 ≤ e then lit "+" else lit "-") ++ decimal e.natAbs)

theorem positiveText_eq (q : Rat) :
    positiveText q = layout (decimal (shortestDigits q (decimalExponent q) 1 17).1)
      (shortestDigits q (decimalExponent q) 1 17).2 := rfl

theorem isDigit_zeros (n : Nat) : ∀ u ∈ List.replicate n (48 : UInt16), isDigit u = true := by
  intro u hu
  rw [List.eq_of_mem_replicate hu]
  decide

theorem digits_append {xs ys : Str} (hx : ∀ u ∈ xs, isDigit u = true)
    (hy : ∀ u ∈ ys, isDigit u = true) : ∀ u ∈ xs ++ ys, isDigit u = true := by
  intro u hu
  rcases List.mem_append.mp hu with h | h
  · exact hx u h
  · exact hy u h

theorem parseExponent_text (e : Int) {rest : Str} (hr : ∀ u ∈ rest.head?, isDigit u = false) :
    parseExponent (lit "e" ++ (if 0 ≤ e then lit "+" else lit "-") ++ decimal e.natAbs ++ rest) =
      some (e, rest) := by
  by_cases he : 0 ≤ e
  · have htext : lit "e" ++ (if 0 ≤ e then lit "+" else lit "-") ++ decimal e.natAbs ++ rest =
        101 :: 43 :: (decimal e.natAbs ++ rest) := by
      rw [if_pos he, List.append_assoc]
      rfl
    rw [htext]
    refine (parseExponentDigits_decimal false hr).trans ?_
    simp [abs_of_nonneg he]
  · have htext : lit "e" ++ (if 0 ≤ e then lit "+" else lit "-") ++ decimal e.natAbs ++ rest =
        101 :: 45 :: (decimal e.natAbs ++ rest) := by
      rw [if_neg he, List.append_assoc]
      rfl
    rw [htext]
    refine (parseExponentDigits_decimal true hr).trans ?_
    simp [abs_of_neg (not_le.mp he)]

theorem exponent_stops (e : Int) (rest : Str) :
    ∀ u ∈ (lit "e" ++ (if 0 ≤ e then lit "+" else lit "-") ++ decimal e.natAbs ++ rest).head?,
      isDigit u = false ∧ u ≠ 46 := by
  intro u hu
  have he : u = 101 := by
    simpa [lit, units] using hu.symm
  subst he
  decide

section
variable {digits rest : Str} {e : Int} (hd : ∀ u ∈ digits, isDigit u = true) (hne : digits ≠ [])
  (hz : digits.head? ≠ some 48) (hr : Stops rest)

include hd hne hz hr

theorem parseMagnitude_whole (h : (digits.length : Int) ≤ e + 1) :
    parseMagnitude (digits ++ List.replicate (e + 1 - digits.length).toNat 48 ++ rest) =
      some (digitsValue digits * (10 : Rat) ^ (e + 1 - digits.length), rest) := by
  obtain ⟨u, digits', rfl⟩ := List.exists_cons_of_ne_nil hne
  rw [parseMagnitude_digits (digits_append hd (isDigit_zeros _)) (by simp) (.inr (by simpa using hz)) hr]
  congr 2
  rw [digitsValue_append, digitsValue_zeros, List.length_replicate]
  push_cast
  rw [add_zero, ← zpow_natCast, Int.toNat_of_nonneg (by simpa using h)]

theorem parseMagnitude_point {n : Nat} (hn : 0 < n) (hlt : n < digits.length) (he : e + 1 = n) :
    parseMagnitude (digits.take n ++ lit "." ++ digits.drop n ++ rest) =
      some (digitsValue digits * (10 : Rat) ^ (e + 1 - digits.length), rest) := by
  have hwhole : digits.take n ≠ [] := by simp [hne]; omega
  have hpart : digits.drop n ≠ [] := by simp; omega
  have htext : digits.take n ++ lit "." ++ digits.drop n ++ rest =
      digits.take n ++ 46 :: (digits.drop n ++ rest) := by
    simp [lit, units]
  have hhead : (digits.take n).head? ≠ some 48 := by
    rwa [List.head?_take, if_neg (by omega)]
  rw [htext, parseMagnitude_eq
    (parseInteger_digits (fun u hu => hd u (List.mem_of_mem_take hu)) hwhole (.inr hhead)
      (by rintro _ ⟨rfl⟩; decide))
    (parseFraction_digits (fun u hu => hd u (List.mem_of_mem_drop hu)) hpart hr.digit)
    (parseExponent_none hr.exponent)]
  congr 2
  have hsplit := digitsValue_append (digits.take n) (digits.drop n)
  rw [List.take_append_drop] at hsplit
  rw [hsplit, List.length_drop]
  have hpow : (10 : Rat) ^ (e + 1 - digits.length) = ((10 : Rat) ^ (digits.length - n))⁻¹ := by
    rw [← zpow_natCast, ← zpow_neg]
    congr 1
    omega
  rw [hpow]
  push_cast
  field_simp

omit hz in
theorem parseMagnitude_small (he : e + 1 ≤ 0) :
    parseMagnitude (lit "0." ++ List.replicate (-(e + 1)).toNat 48 ++ digits ++ rest) =
      some (digitsValue digits * (10 : Rat) ^ (e + 1 - digits.length), rest) := by
  have htext : lit "0." ++ List.replicate (-(e + 1)).toNat 48 ++ digits ++ rest =
      [48] ++ 46 :: ((List.replicate (-(e + 1)).toNat 48 ++ digits) ++ rest) := by
    simp [lit, units]
  rw [htext, parseMagnitude_eq
    (parseInteger_digits (by simp; decide) (by simp) (.inl rfl) (by rintro _ ⟨rfl⟩; decide))
    (parseFraction_digits (digits_append (isDigit_zeros _) hd) (by simp [hne]) hr.digit)
    (parseExponent_none hr.exponent)]
  congr 2
  rw [digitsValue_append, digitsValue_zeros, List.length_append, List.length_replicate]
  have hpow : (10 : Rat) ^ (e + 1 - digits.length) =
      ((10 : Rat) ^ ((-(e + 1)).toNat + digits.length))⁻¹ := by
    rw [← zpow_natCast, ← zpow_neg]
    congr 1
    push_cast
    omega
  rw [hpow]
  simp [digitsValue, div_eq_mul_inv]

theorem parseMagnitude_scientific :
    parseMagnitude (scientific digits
      (lit "e" ++ (if 0 ≤ e then lit "+" else lit "-") ++ decimal e.natAbs) ++ rest) =
      some (digitsValue digits * (10 : Rat) ^ (e + 1 - digits.length), rest) := by
  have hexp := parseExponent_text e hr.digit
  have hstop := exponent_stops e rest
  generalize lit "e" ++ (if 0 ≤ e then lit "+" else lit "-") ++ decimal e.natAbs = exponent at *
  match digits with
  | [] => exact absurd rfl hne
  | [digit] =>
    have hint := parseInteger_digits hd (by simp) (.inr hz) fun u hu => (hstop u hu).1
    have hnone := parseFraction_none fun u hu => (hstop u hu).2
    have htext : (digit :: exponent) ++ rest = [digit] ++ (exponent ++ rest) := rfl
    rw [scientific, htext, parseMagnitude_eq hint hnone hexp]
    simp
  | digit :: next :: part =>
    have hint : parseInteger ([digit] ++ 46 :: ((next :: part) ++ (exponent ++ rest))) = _ :=
      parseInteger_digits (fun u hu => hd u (by simp_all)) (by simp) (.inr (by simpa using hz))
        (by rintro _ ⟨rfl⟩; decide)
    have hrest : ∀ u ∈ next :: part, isDigit u = true := fun u hu => hd u (by simp_all)
    have hpart := parseFraction_digits hrest (by simp) fun u hu => (hstop u hu).1
    have htext : (digit :: lit "." ++ (next :: part) ++ exponent) ++ rest =
        [digit] ++ 46 :: ((next :: part) ++ (exponent ++ rest)) := by
      simp [lit, units]
    show parseMagnitude ((digit :: lit "." ++ (next :: part) ++ exponent) ++ rest) = _
    rw [htext, parseMagnitude_eq hint hpart hexp]
    congr 2
    have hsplit := digitsValue_append [digit] (next :: part)
    rw [List.singleton_append] at hsplit
    have hpow : (10 : Rat) ^ (e + 1 - ((digit :: next :: part).length : Nat)) =
        10 ^ e * ((10 : Rat) ^ (next :: part).length)⁻¹ := by
      rw [← zpow_natCast, ← zpow_neg, ← zpow_add₀ (by norm_num)]
      congr 1
      push_cast [List.length_cons]
      omega
    rw [hsplit, hpow]
    push_cast
    field_simp

theorem parseMagnitude_layout :
    parseMagnitude (layout digits e ++ rest) =
      some (digitsValue digits * (10 : Rat) ^ (e + 1 - digits.length), rest) := by
  unfold layout
  simp only
  split
  · rename_i h
    exact parseMagnitude_whole hd hne hz hr h.1
  · split
    · exact parseMagnitude_point hd hne hz hr (by omega) (by omega) (by omega)
    · split
      · rename_i h
        exact parseMagnitude_small hd hne hr h.2
      · exact parseMagnitude_scientific hd hne hz hr

omit hz hr in
theorem layout_head : ∃ u text, layout digits e = u :: text ∧ isDigit u = true := by
  have hhead : ∀ text, ∃ u text', digits ++ text = u :: text' ∧ isDigit u = true := by
    intro text
    obtain ⟨u, digits', rfl⟩ := List.exists_cons_of_ne_nil hne
    exact ⟨u, digits' ++ text, rfl, hd u (by simp)⟩
  unfold layout
  simp only
  split
  · exact hhead _
  · split
    · obtain ⟨u, digits', rfl⟩ := List.exists_cons_of_ne_nil hne
      obtain ⟨n, hn⟩ : ∃ n, (e + 1).toNat = n + 1 := ⟨(e + 1).toNat - 1, by omega⟩
      rw [hn]
      exact ⟨u, _, rfl, hd u (by simp)⟩
    · split
      · exact ⟨48, _, rfl, by decide⟩
      · match digits with
        | [] => exact absurd rfl hne
        | [digit] => exact ⟨digit, _, rfl, hd digit (by simp)⟩
        | digit :: next :: part => exact ⟨digit, _, rfl, hd digit (by simp)⟩
end

-- -----
-- The round trip of doubles
-- -----

theorem decimal_head {n : Nat} (h : 0 < n) : (decimal n).head? ≠ some 48 := by
  obtain ⟨u, rest, hd, hu⟩ := decimal_head_pos h
  simpa [hd] using hu

theorem positiveText_head (q : Rat) :
    ∃ u text, positiveText q = u :: text ∧ isDigit u = true :=
  layout_head (fun _ h => isDigit_decimal h) (decimal_ne_nil _)

theorem parseMagnitude_positive {q : Rat} (hd : IsDouble q) (hq : 0 < q) {rest : Str}
    (hr : Stops rest) :
    ∃ value, parseMagnitude (positiveText q ++ rest) = some (value, rest) ∧ 0 < value ∧
      toDouble value = .finite q := by
  obtain ⟨hpos, hvalue⟩ := shortestDigits_gives hd hq (by omega : 0 < 17) (by omega) rfl
  have hparse := parseMagnitude_layout (e := (shortestDigits q (decimalExponent q) 1 17).2)
    (fun _ h => isDigit_decimal h) (decimal_ne_nil (shortestDigits q (decimalExponent q) 1 17).1)
    (decimal_head hpos) hr
  rw [digitsValue_decimal] at hparse
  have hdigits : (0 : Rat) < (shortestDigits q (decimalExponent q) 1 17).1 := by exact_mod_cast hpos
  exact ⟨_, hparse, by positivity, hvalue⟩

theorem parseNumber_digit {u : UInt16} {s : Str} (h : isDigit u = true) :
    parseNumber (u :: s) =
      (parseMagnitude (u :: s)).map fun (value, rest) => (toDouble value, rest) := by
  have hne : u ≠ 45 := by
    rintro rfl
    exact absurd h (by decide)
  unfold parseNumber
  split
  · rename_i he
    exact absurd (List.cons.inj he).1 hne
  · cases parseMagnitude (u :: s) <;> rfl

theorem parseNumber_text {q : Rat} (hd : IsDouble q) {rest : Str} (hr : Stops rest) :
    parseNumber (Number.text (.finite q) ++ rest) = some (.finite q, rest) := by
  unfold Number.text
  simp only
  split
  · rename_i h
    have hq : (q.num : Rat) = q := (Rat.den_eq_one_iff q).mp h.1
    have hint := parseNumber_decimalInt h.2 hr
    rwa [Number.ofInt, hq] at hint
  · rename_i h
    split
    · rename_i hneg
      have hq : 0 < -q := by linarith
      have hdouble : IsDouble (-q) := IsDouble.neg (by rwa [neg_neg]) hq
      obtain ⟨value, hparse, hvpos, hvalue⟩ := parseMagnitude_positive hdouble hq hr
      have hback := toDouble_neg hvpos hvalue
      rw [neg_neg] at hback
      simp [parseNumber, hparse, hback]
    · rename_i hneg
      have hq : 0 < q := by
        rcases lt_or_eq_of_le (not_lt.mp hneg) with hq | rfl
        · exact hq
        · simp at h
      obtain ⟨value, hparse, -, hvalue⟩ := parseMagnitude_positive hd hq hr
      obtain ⟨u, text, htext, hu⟩ := positiveText_head q
      rw [htext] at hparse ⊢
      simp only [List.cons_append] at hparse ⊢
      simp [parseNumber_digit hu, hparse, hvalue]

theorem decimalInt_head (n : Int) :
    ∃ u rest, decimalInt n = u :: rest ∧ (isDigit u = true ∨ u = 45) := by
  cases n with
  | ofNat n =>
    obtain ⟨u, rest, h⟩ := List.exists_cons_of_ne_nil (decimal_ne_nil n)
    exact ⟨u, rest, h, .inl (isDigit_decimal (h ▸ List.mem_cons_self))⟩
  | negSucc n => exact ⟨45, _, rfl, .inr rfl⟩

theorem text_head (q : Rat) :
    ∃ u rest, Number.text (.finite q) = u :: rest ∧ (isDigit u = true ∨ u = 45) := by
  unfold Number.text
  simp only
  split
  · exact decimalInt_head q.num
  · split
    · exact ⟨45, _, rfl, .inr rfl⟩
    · obtain ⟨u, text, htext, hu⟩ := positiveText_head q
      exact ⟨u, text, htext, .inl hu⟩

-- -----
-- The units of a number
-- -----

abbrev IsAscii (s : Str) : Prop := s.all (· < 0x80) = true

theorem isAscii_append {s t : Str} (hs : IsAscii s) (ht : IsAscii t) : IsAscii (s ++ t) := by
  rw [IsAscii, List.all_append, hs, ht]
  rfl

theorem isAscii_digits {s : Str} (h : ∀ u ∈ s, isDigit u = true) : IsAscii s := by
  apply List.all_eq_true.mpr
  intro u hu
  have hd := h u hu
  simp only [isDigit, Bool.and_eq_true, decide_eq_true_eq] at hd
  exact decide_eq_true (UInt16.lt_of_le_of_lt hd.2 (by decide))

theorem isAscii_decimal (n : Nat) : IsAscii (decimal n) := isAscii_digits fun _ => isDigit_decimal

theorem all_append {p : UInt16 → Bool} {s t : Str} (hs : s.all p = true) (ht : t.all p = true) :
    (s ++ t).all p = true := by
  rw [List.all_append, hs, ht]
  rfl

section
variable {p : UInt16 → Bool} (hdigit : ∀ u, isDigit u = true → p u = true)
  (hmarks : ∀ s ∈ [lit ".", lit "0.", lit "e", lit "+", lit "-", lit "null"], s.all p = true)

include hdigit

theorem all_digits {s : Str} (h : ∀ u ∈ s, isDigit u = true) : s.all p = true :=
  List.all_eq_true.mpr fun u hu => hdigit u (h u hu)

include hmarks

/-- The text of a number consists of digits and of few other units. -/
theorem all_layout {digits : Str} (hd : ∀ u ∈ digits, isDigit u = true) (e : Int) :
    (layout digits e).all p = true := by
  have hsign : (if 0 ≤ e then lit "+" else lit "-").all p = true := by
    split <;> exact hmarks _ (by simp)
  have hdecimal : (decimal e.natAbs).all p = true := all_digits hdigit fun _ => isDigit_decimal
  have hexp := all_append (all_append (hmarks (lit "e") (by simp)) hsign) hdecimal
  unfold layout
  simp only
  split
  · exact all_append (all_digits hdigit hd) (all_digits hdigit (isDigit_zeros _))
  split
  · exact all_append (all_append (all_digits hdigit fun u hu => hd u (List.mem_of_mem_take hu))
      (hmarks _ (by simp))) (all_digits hdigit fun u hu => hd u (List.mem_of_mem_drop hu))
  split
  · exact all_append (all_append (hmarks _ (by simp)) (all_digits hdigit (isDigit_zeros _)))
      (all_digits hdigit hd)
  · match digits with
    | [] => exact hexp
    | [digit] => exact all_append (s := [digit]) (all_digits hdigit hd) hexp
    | digit :: next :: part =>
      have hone : [digit].all p = true := all_digits hdigit fun u hu => hd u (by simp_all)
      have hpart : (next :: part).all p = true := all_digits hdigit fun u hu => hd u (by simp_all)
      exact all_append
        (all_append (s := digit :: lit ".") (all_append hone (hmarks (lit ".") (by simp))) hpart) hexp

theorem all_decimalInt (n : Int) : (decimalInt n).all p = true := by
  match n with
  | .ofNat n => exact all_digits hdigit fun _ => isDigit_decimal
  | .negSucc n =>
    exact all_append (hmarks (lit "-") (by simp)) (all_digits hdigit fun _ => isDigit_decimal)

theorem all_text (value : Number) : value.text.all p = true := by
  cases value with
  | infinite negative => exact hmarks (lit "null") (by simp)
  | nan => exact hmarks (lit "null") (by simp)
  | finite q =>
    unfold Number.text
    simp only
    split
    · exact all_decimalInt hdigit hmarks q.num
    split
    · exact all_append (hmarks (lit "-") (by simp))
        (all_layout hdigit hmarks (fun _ => isDigit_decimal) _)
    · exact all_layout hdigit hmarks (fun _ => isDigit_decimal) _

end

theorem isAscii_text (value : Number) : IsAscii value.text := by
  refine all_text (fun u hu => ?_) (List.all_eq_true.mp (by decide)) _
  exact List.all_eq_true.mp (isAscii_digits (s := [u]) (by simpa using hu)) u (by simp)

end Js
