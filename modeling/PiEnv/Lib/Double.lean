import Mathlib.Algebra.Order.Field.Power
import Mathlib.Tactic.Linarith
import Mathlib.Tactic.FieldSimp
import Mathlib.Tactic.NormNum
import Mathlib.Tactic.Positivity
import PiEnv.Lib.JsonText

/-!
# Doubles

What the rounding of a rational to a double gives: a rational close enough to a
double rounds to that double.
-/

namespace Js

-- -----
-- Rounding to an integer
-- -----

theorem roundHalfEven_or (q : Rat) : roundHalfEven q = ⌊q⌋ ∨ roundHalfEven q = ⌊q⌋ + 1 := by
  unfold roundHalfEven
  simp only
  split_ifs <;> simp

theorem roundHalfEven_near {q : Rat} {n : Int} (h : |q - n| < 1 / 2) : roundHalfEven q = n := by
  obtain ⟨hl, hu⟩ := abs_lt.mp h
  rcases le_or_gt (n : Rat) q with hn | hn
  · have hf : ⌊q⌋ = n := Int.floor_eq_iff.mpr ⟨hn, by linarith⟩
    unfold roundHalfEven
    rw [hf, if_pos hu]
  · have hf : ⌊q⌋ = n - 1 := Int.floor_eq_iff.mpr ⟨by push_cast; linarith, by push_cast; linarith⟩
    unfold roundHalfEven
    rw [hf]
    push_cast
    rw [if_neg (by linarith), if_pos (by linarith)]
    ring

theorem abs_sub_roundHalfEven (q : Rat) : |q - roundHalfEven q| ≤ 1 / 2 := by
  have hl := Int.floor_le q
  have hu := Int.lt_floor_add_one q
  unfold roundHalfEven
  simp only
  split_ifs <;> rw [abs_le] <;> push_cast <;> constructor <;> linarith

@[simp] theorem roundHalfEven_int (n : Int) : roundHalfEven n = n :=
  roundHalfEven_near (by simp)

-- -----
-- Exponents
-- -----

theorem log2_bounds {n : Nat} (h : n ≠ 0) :
    (2 : Rat) ^ (n.log2 : Int) ≤ n ∧ (n : Rat) < 2 ^ ((n.log2 : Int) + 1) := by
  have hl := Nat.log2_self_le h
  have hu := Nat.lt_log2_self (n := n)
  constructor
  · rw [zpow_natCast]
    exact_mod_cast hl
  · rw [show ((n.log2 : Int) + 1) = ((n.log2 + 1 : Nat) : Int) by push_cast; rfl, zpow_natCast]
    exact_mod_cast hu

theorem binaryExponent_spec {q : Rat} (h : 0 < q) :
    (2 : Rat) ^ binaryExponent q ≤ q ∧ q < 2 ^ (binaryExponent q + 1) := by
  have hnum : 0 < q.num := Rat.num_pos.mpr h
  have hden : (0 : Rat) < q.den := by exact_mod_cast q.den_pos
  obtain ⟨hnl, hnu⟩ := log2_bounds (n := q.num.natAbs) (by omega)
  obtain ⟨hdl, hdu⟩ := log2_bounds (n := q.den) q.den_nz
  have hcast : ((q.num.natAbs : Nat) : Rat) = (q.num : Rat) := by
    rw [Nat.cast_natAbs, abs_of_pos hnum]
  rw [hcast] at hnl hnu
  have hq : q * q.den = q.num := Rat.mul_den_eq_num q
  have hlow : (2 : Rat) ^ ((q.num.natAbs.log2 : Int) - q.den.log2 - 1) ≤ q := by
    apply le_of_mul_le_mul_right _ hden
    rw [hq]
    calc (2 : Rat) ^ ((q.num.natAbs.log2 : Int) - q.den.log2 - 1) * q.den
        ≤ 2 ^ ((q.num.natAbs.log2 : Int) - q.den.log2 - 1) * 2 ^ ((q.den.log2 : Int) + 1) := by
          gcongr
      _ = 2 ^ (q.num.natAbs.log2 : Int) := by
          rw [← zpow_add₀ (by norm_num)]
          congr 1
          ring
      _ ≤ q.num := hnl
  have hhigh : q < 2 ^ ((q.num.natAbs.log2 : Int) - q.den.log2 + 1) := by
    apply lt_of_mul_lt_mul_right _ hden.le
    rw [hq]
    calc (q.num : Rat) < 2 ^ ((q.num.natAbs.log2 : Int) + 1) := hnu
      _ = 2 ^ ((q.num.natAbs.log2 : Int) - q.den.log2 + 1) * 2 ^ (q.den.log2 : Int) := by
          rw [← zpow_add₀ (by norm_num)]
          congr 1
          ring
      _ ≤ 2 ^ ((q.num.natAbs.log2 : Int) - q.den.log2 + 1) * q.den := by gcongr
  unfold binaryExponent
  simp only
  split
  · rename_i he
    exact ⟨he, hhigh⟩
  · rename_i he
    exact ⟨hlow, by simpa using not_le.mp he⟩

theorem binaryExponent_le {q : Rat} {e : Int} (h : 0 < q) (hq : q < 2 ^ (e + 1)) :
    binaryExponent q ≤ e := by
  have := (zpow_lt_zpow_iff_right₀ (by norm_num : (1 : Rat) < 2)).mp
    ((binaryExponent_spec h).1.trans_lt hq)
  omega

theorem le_binaryExponent {q : Rat} {e : Int} (h : 0 < q) (hq : 2 ^ e ≤ q) :
    e ≤ binaryExponent q := by
  have := (zpow_lt_zpow_iff_right₀ (by norm_num : (1 : Rat) < 2)).mp
    (hq.trans_lt (binaryExponent_spec h).2)
  omega

-- -----
-- The grid of doubles
-- -----

/-- What lies between two doubles next to each other around a positive
rational. -/
def spacing (q : Rat) : Rat := 2 ^ max (binaryExponent q - 52) (-1074)

def rounded (q : Rat) : Rat := roundHalfEven (q / spacing q) * spacing q

theorem spacing_pos (q : Rat) : 0 < spacing q := by unfold spacing; positivity

theorem le_spacing (q : Rat) : (2 : Rat) ^ (binaryExponent q - 52) ≤ spacing q :=
  zpow_le_zpow_right₀ (by norm_num) (le_max_left _ _)

theorem exists_pow {e : Int} (h : 0 ≤ e) : ∃ n : Int, (2 : Rat) ^ e = n :=
  ⟨2 ^ e.toNat, by
    rw [Int.cast_pow, Int.cast_ofNat, ← zpow_natCast, Int.toNat_of_nonneg h]⟩

/-- A finer grid holds a coarser one. -/
theorem multiple_of_le {e f : Int} {q : Rat} {k : Int} (h : f ≤ e) (hq : q = k * 2 ^ e) :
    ∃ n : Int, q = n * 2 ^ f := by
  obtain ⟨n, hn⟩ := exists_pow (e := e - f) (by omega)
  refine ⟨k * n, ?_⟩
  rw [hq, Int.cast_mul, ← hn, mul_assoc, ← zpow_add₀ (by norm_num), sub_add_cancel]

theorem rounded_of_multiple {q : Rat} {k : Int} (hq : q = k * spacing q) : rounded q = q := by
  have hk : q / spacing q = k := by
    rw [div_eq_iff (spacing_pos q).ne']
    exact hq
  rw [rounded, hk, roundHalfEven_int, ← hq]

/-- An integer a double can hold is on the grid. -/
theorem rounded_nat {n : Nat} (h : n ≤ maxSafe) : rounded n = n := by
  rcases Nat.eq_zero_or_pos n with rfl | hpos
  · simp [rounded, show roundHalfEven 0 = 0 by simpa using roundHalfEven_int 0]
  · have hn : (0 : Rat) < n := by exact_mod_cast hpos
    rcases Nat.lt_or_ge n maxSafe with hlt | hge
    · have he : binaryExponent n ≤ 52 := by
        apply binaryExponent_le hn
        rw [show (52 + 1 : Int) = ((53 : Nat) : Int) by norm_num, zpow_natCast]
        exact_mod_cast hlt
      obtain ⟨k, hk⟩ := multiple_of_le (e := 0) (f := max (binaryExponent n - 52) (-1074)) (k := n)
        (by omega) (by simp : (n : Rat) = ((n : Int) : Rat) * 2 ^ (0 : Int))
      exact rounded_of_multiple hk
    · have hn : n = 2 ^ 53 := le_antisymm h hge
      have hq : ((n : Nat) : Rat) = ((1 : Int) : Rat) * 2 ^ (53 : Int) := by
        rw [hn]
        norm_num
      have he : binaryExponent n ≤ 53 := by
        apply binaryExponent_le (by rw [hq]; positivity)
        rw [hq]
        norm_num
      obtain ⟨k, hk⟩ := multiple_of_le (f := max (binaryExponent n - 52) (-1074)) (by omega) hq
      exact rounded_of_multiple hk

theorem toDouble_eq (q : Rat) :
    toDouble q = if (2 : Rat) ^ (1024 : Nat) ≤ rounded |q| then .infinite (q < 0)
      else .finite (if q < 0 then -rounded |q| else rounded |q|) := by
  by_cases h : q.den = 1 ∧ q.num.natAbs ≤ maxSafe
  · have habs : |q| = (q.num.natAbs : Nat) := by
      have hq : q = q.num := (Rat.den_eq_one_iff q).mp h.1 |>.symm
      conv_lhs => rw [hq]
      rw [← Int.cast_abs, Int.abs_eq_natAbs]
      simp
    have hr : rounded |q| = |q| := by
      rw [habs, rounded_nat h.2]
    have hlt : ¬ (2 : Rat) ^ (1024 : Nat) ≤ |q| := by
      rw [habs]
      intro hle
      have hnat : 2 ^ 1024 ≤ q.num.natAbs := by exact_mod_cast hle
      have hpow : 2 ^ 1024 ≤ 2 ^ 53 := hnat.trans h.2
      exact absurd ((Nat.pow_le_pow_iff_right (by norm_num)).mp hpow) (by norm_num)
    rw [hr, if_neg hlt, toDouble, if_pos h]
    congr 1
    split
    · rename_i hneg
      rw [abs_of_neg hneg, neg_neg]
    · rename_i hneg
      rw [abs_of_nonneg (not_lt.mp hneg)]
  · rw [toDouble, if_neg h]
    rfl

/-- `q` is the value of a double. -/
def IsDouble (q : Rat) : Prop := toDouble q = .finite q

theorem isDouble_int {n : Int} (h : n.natAbs ≤ maxSafe) : IsDouble n := toDouble_int h

theorem IsDouble.rounded {q : Rat} (h : IsDouble q) (hq : 0 ≤ q) :
    rounded q = q ∧ q < 2 ^ (1024 : Nat) := by
  unfold IsDouble at h
  rw [toDouble_eq, abs_of_nonneg hq, if_neg (not_lt.mpr hq)] at h
  split at h
  · cases h
  · rename_i hlt
    have hr : Js.rounded q = q := by simpa using h
    exact ⟨hr, by rw [hr] at hlt; exact not_le.mp hlt⟩

theorem toDouble_of_rounded {q q' : Rat} (hq' : 0 ≤ q') (hr : rounded q' = q)
    (hlt : q < 2 ^ (1024 : Nat)) : toDouble q' = .finite q := by
  rw [toDouble_eq, abs_of_nonneg hq', hr, if_neg (not_le.mpr hlt), if_neg (not_lt.mpr hq')]

theorem toDouble_neg {q q' : Rat} (hq : 0 < q) (h : toDouble q = .finite q') :
    toDouble (-q) = .finite (-q') := by
  rw [toDouble_eq, abs_of_pos hq, if_neg (not_lt.mpr hq.le)] at h
  rw [toDouble_eq, abs_neg, abs_of_pos hq]
  split at h
  · cases h
  · rename_i hlt
    have hr : rounded q = q' := by simpa using h
    rw [if_neg hlt, if_pos (by linarith), hr]

theorem IsDouble.neg {q : Rat} (h : IsDouble (-q)) (hq : 0 < q) : IsDouble q := by
  unfold IsDouble at *
  rw [toDouble_eq, abs_neg, abs_of_pos hq] at h
  split at h
  · cases h
  · rename_i hlt
    rw [if_pos (by linarith)] at h
    have hr : Js.rounded q = q := by simpa using h
    exact toDouble_of_rounded hq.le hr (by rw [hr] at hlt; exact not_le.mp hlt)

-- -----
-- Close rationals
-- -----

/-- How far seventeen digits may be off, as a part of the value. -/
def slack : Rat := 5 / 10 ^ 17

theorem rounded_near_same {q q' u : Rat} {k : Int} (hu : spacing q' = u) (hk : q = k * u)
    (h : |q' - q| < u / 2) : rounded q' = q := by
  have hpos : 0 < u := hu ▸ spacing_pos q'
  have hn : roundHalfEven (q' / u) = k := by
    apply roundHalfEven_near
    rw [show q' / u - k = (q' - q) / u by rw [hk]; field_simp, abs_div, abs_of_pos hpos,
      div_lt_iff₀ hpos]
    linarith
  rw [rounded, hu, hn, ← hk]

/-- A point of the grid below a power of two on it is a whole step below. -/
theorem grid_gap {q p u : Rat} {k m : Int} (hu : 0 < u) (hk : q = k * u) (hm : p = m * u)
    (h : q < p) : q + u ≤ p := by
  have hkm : k < m := by
    have : (k : Rat) * u < m * u := hk ▸ hm ▸ h
    exact_mod_cast lt_of_mul_lt_mul_right this hu.le
  have hle : ((k + 1 : Int) : Rat) ≤ m := by exact_mod_cast hkm
  have := mul_le_mul_of_nonneg_right hle hu.le
  push_cast at this
  rw [hk, hm]
  linarith

theorem rounded_near {q q' : Rat} (hq : 0 < q) (hr : rounded q = q) (h : |q' - q| ≤ q * slack) :
    rounded q' = q := by
  obtain ⟨hl, hu⟩ := abs_le.mp h
  have hs : slack = 5 / 10 ^ 17 := rfl
  have hq' : 0 < q' := by
    have : q * slack < q := by rw [hs]; nlinarith
    linarith
  obtain ⟨he, he'⟩ := binaryExponent_spec hq
  have hgrid : q = (roundHalfEven (q / spacing q) : Int) * spacing q := hr.symm
  have hstep := le_spacing q
  have hone : (2 : Rat) ^ (binaryExponent q - 52) * 2 ^ (53 : Nat) = 2 ^ (binaryExponent q + 1) := by
    rw [← zpow_natCast, ← zpow_add₀ (by norm_num)]
    congr 1
    push_cast
    ring
  have htwo : (2 : Rat) ^ (binaryExponent q + 1) = 2 * 2 ^ binaryExponent q := by
    rw [zpow_add₀ (by norm_num), zpow_one, mul_comm]
  have hpow : (0 : Rat) < 2 ^ binaryExponent q := by positivity
  rcases lt_trichotomy (binaryExponent q') (binaryExponent q) with hlt | heq | hgt
  · -- just below a power of two, where the grid is finer
    have hbelow : q' < 2 ^ binaryExponent q := by
      have := (binaryExponent_spec hq').2
      exact this.trans_le (zpow_le_zpow_right₀ (by norm_num) (by omega))
    have hfine : binaryExponent q - 1 ≤ binaryExponent q' := by
      apply le_binaryExponent hq'
      have : (2 : Rat) ^ (binaryExponent q - 1) = 2 ^ binaryExponent q / 2 := by
        rw [zpow_sub₀ (by norm_num), zpow_one]
      rw [this]
      have : q * slack ≤ q / 2 := by rw [hs]; nlinarith
      linarith
    obtain ⟨k, hk⟩ := multiple_of_le (f := max (binaryExponent q' - 52) (-1074)) (by omega) hgrid
    apply rounded_near_same rfl hk
    have hstep' := le_spacing q'
    have hle : (2 : Rat) ^ (binaryExponent q - 53) ≤ 2 ^ (binaryExponent q' - 52) :=
      zpow_le_zpow_right₀ (by norm_num) (by omega)
    have hpart : (2 : Rat) ^ (binaryExponent q - 53) * 2 ^ (53 : Nat) = 2 ^ binaryExponent q := by
      rw [← zpow_natCast, ← zpow_add₀ (by norm_num)]
      congr 1
      push_cast
      ring
    rw [hs] at h hl hu
    have hnear : |q' - q| ≤ q * (5 / 10 ^ 17) := h
    nlinarith [abs_nonneg (q' - q)]
  · have hsame : spacing q' = spacing q := by rw [spacing, spacing, heq]
    apply rounded_near_same hsame hgrid
    rw [hs] at h
    nlinarith
  · -- the power of two above is a whole step away
    exfalso
    have habove : 2 ^ (binaryExponent q + 1) ≤ q' :=
      (zpow_le_zpow_right₀ (by norm_num) (by omega)).trans (binaryExponent_spec hq').1
    have hkpos : spacing q ≤ q := by
      have hpos : (0 : Rat) < (roundHalfEven (q / spacing q) : Int) := by
        apply pos_of_mul_pos_left _ (spacing_pos q).le
        rw [← hgrid]
        exact hq
      have hone : (1 : Rat) ≤ (roundHalfEven (q / spacing q) : Int) := by exact_mod_cast hpos
      have := mul_le_mul_of_nonneg_right hone (spacing_pos q).le
      linarith
    obtain ⟨m, hm⟩ := multiple_of_le (f := max (binaryExponent q - 52) (-1074))
      (e := binaryExponent q + 1) (k := 1) (by
        have := (zpow_lt_zpow_iff_right₀ (by norm_num : (1 : Rat) < 2)).mp (hkpos.trans_lt he')
        omega) (one_mul _).symm
    have hgap := grid_gap (spacing_pos q) hgrid (by simpa [spacing] using hm) he'
    rw [hs] at h hl hu
    nlinarith

theorem toDouble_near {q q' : Rat} (hd : IsDouble q) (hq : 0 < q) (h : |q' - q| ≤ q * slack) :
    toDouble q' = .finite q := by
  obtain ⟨hr, hlt⟩ := hd.rounded hq.le
  have hq' : 0 ≤ q' := by
    have : q * slack < q := by unfold slack; nlinarith
    linarith [(abs_le.mp h).1]
  exact toDouble_of_rounded hq' (rounded_near hq hr h) hlt

end Js
