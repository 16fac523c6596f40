import PiEnv.Lib.JsString
import PiEnv.Lib.Markers

/-!
# Search in strings
-/

namespace Js

open Markers

/-- `s.indexOf(t)` -/
def indexOfText (t : Str) : Str → Option Nat
  | [] => if t = [] then some 0 else none
  | u :: rest => if t.isPrefixOf (u :: rest) then some 0 else (indexOfText t rest).map (· + 1)

/-- `s.indexOf(t, position)` -/
def indexOfFrom (t s : Str) (position : Nat) : Option Nat :=
  (indexOfText t (s.drop position)).map (· + position)

theorem occursAt_zero {t s : Str} : OccursAt t s 0 ↔ t <+: s := by
  constructor
  · rintro ⟨before, after, rfl, h⟩
    rw [List.length_eq_zero_iff.mp h]
    exact ⟨after, rfl⟩
  · rintro ⟨after, rfl⟩
    exact ⟨[], after, rfl, rfl⟩

theorem occursAt_succ {t s : Str} {u : UInt16} {k : Nat} :
    OccursAt t (u :: s) (k + 1) ↔ OccursAt t s k := by
  constructor
  · rintro ⟨before, after, heq, h⟩
    cases before with
    | nil => cases h
    | cons v before =>
      exact ⟨before, after, (List.cons.inj heq).2, Nat.succ.inj h⟩
  · rintro ⟨before, after, rfl, rfl⟩
    exact ⟨u :: before, after, rfl, rfl⟩

theorem indexOfText_zero {t s : Str} (h : t <+: s) : indexOfText t s = some 0 := by
  cases s with
  | nil => rw [indexOfText, if_pos (List.prefix_nil.mp h)]
  | cons u s => rw [indexOfText, if_pos (List.isPrefixOf_iff_prefix.mpr h)]

theorem indexOfText_succ {t s : Str} {u : UInt16} (h : ¬ t <+: u :: s) :
    indexOfText t (u :: s) = (indexOfText t s).map (· + 1) := by
  rw [indexOfText, if_neg (List.isPrefixOf_iff_prefix.not.mpr h)]

theorem indexOfText_eq_none {t s : Str} : indexOfText t s = none ↔ Absent t s := by
  induction s with
  | nil =>
    by_cases h : t <+: []
    · rw [indexOfText_zero h]
      exact iff_of_false (by simp) fun habsent => habsent 0 (occursAt_zero.mpr h)
    · rw [indexOfText, if_neg (List.prefix_nil.not.mp h)]
      refine iff_of_true rfl (absent_iff.mpr fun hin => h ?_)
      rw [List.infix_nil.mp hin]
  | cons u s ih =>
    by_cases h : t <+: u :: s
    · rw [indexOfText_zero h]
      exact iff_of_false (by simp) fun habsent => habsent 0 (occursAt_zero.mpr h)
    · rw [indexOfText_succ h, Option.map_eq_none_iff, ih]
      constructor
      · intro habsent k
        cases k with
        | zero => exact occursAt_zero.not.mpr h
        | succ k => exact occursAt_succ.not.mpr (habsent k)
      · intro habsent k
        exact occursAt_succ.not.mp (habsent (k + 1))

/-- The first place where a text stands. -/
theorem indexOfText_first {t s : Str} {i : Nat} (h : indexOfText t s = some i) :
    OccursAt t s i ∧ ∀ k < i, ¬ OccursAt t s k := by
  induction s generalizing i with
  | nil =>
    unfold indexOfText at h
    split at h
    · rename_i ht
      obtain rfl := Option.some.inj h
      exact ⟨occursAt_zero.mpr (ht ▸ List.prefix_rfl), by simp⟩
    · cases h
  | cons u s ih =>
    by_cases hp : t <+: u :: s
    · rw [indexOfText_zero hp] at h
      obtain rfl := Option.some.inj h
      exact ⟨occursAt_zero.mpr hp, by simp⟩
    · rw [indexOfText_succ hp] at h
      obtain ⟨j, hj, rfl⟩ := Option.map_eq_some_iff.mp h
      obtain ⟨hat, hfirst⟩ := ih hj
      refine ⟨occursAt_succ.mpr hat, fun k hk => ?_⟩
      cases k with
      | zero => exact occursAt_zero.not.mpr hp
      | succ k => exact occursAt_succ.not.mpr (hfirst k (Nat.lt_of_succ_lt_succ hk))

theorem indexOfText_eq_some {t s : Str} {i : Nat} (h : indexOfText t s = some i) :
    ∃ rest, s = s.take i ++ t ++ rest := by
  obtain ⟨before, after, heq, rfl⟩ := (indexOfText_first h).1
  exact ⟨after, by simp [heq]⟩

theorem indexOfText_le {t s : Str} {i : Nat} (h : indexOfText t s = some i) : i ≤ s.length :=
  (Nat.le_add_right _ _).trans (indexOfText_first h).1.le

/-- The only place where a text stands. -/
theorem indexOfText_only {t s : Str} {i : Nat} (h : OnlyAt t s i) : indexOfText t s = some i := by
  cases hindex : indexOfText t s with
  | none => exact absurd ((h i).mpr rfl) (indexOfText_eq_none.mp hindex i)
  | some k => rw [(h k).mp (indexOfText_first hindex).1]

theorem indexOfFrom_eq_none {t s : Str} {position : Nat} (hle : position ≤ s.length) :
    indexOfFrom t s position = none ↔ ∀ k, position ≤ k → ¬ OccursAt t s k := by
  rw [indexOfFrom, Option.map_eq_none_iff, indexOfText_eq_none]
  have hsplit : s = s.take position ++ s.drop position := (List.take_append_drop position s).symm
  have hlength : (s.take position).length = position := List.length_take_of_le hle
  constructor
  · intro habsent k hk hat
    obtain ⟨l, rfl⟩ := Nat.exists_eq_add_of_le hk
    have hboth : OccursAt t (s.take position ++ s.drop position) ((s.take position).length + l) := by
      rw [← hsplit, hlength]
      exact hat
    exact habsent l hboth.of_append_right
  · intro h k hat
    have hthere := hat.append_right (s.take position)
    rw [← hsplit, hlength] at hthere
    exact h _ (Nat.le_add_right _ _) hthere

end Js
