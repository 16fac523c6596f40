import Mathlib.Data.List.Sort
import Mathlib.Order.Compare

/-!
# Sorting by a comparison

`sort(compare)` of a list, where the comparison is a total preorder.
-/

namespace Sorting

variable {α β : Type}

theorem transCmp_on (compare : β → β → Ordering) [h : Std.TransCmp compare] (f : α → β) :
    Std.TransCmp fun a b => compare (f a) (f b) where
  eq_swap := h.eq_swap
  isLE_trans := h.isLE_trans

theorem isLE_total (compare : α → α → Ordering) [Std.TransCmp compare] (a b : α) :
    ((compare a b).isLE || (compare b a).isLE) = true := by
  have hswap : compare b a = (compare a b).swap := Std.OrientedCmp.eq_swap
  rw [hswap]
  cases compare a b <;> rfl

theorem mergeSort_sorted (compare : α → α → Ordering) [Std.TransCmp compare] (values : List α) :
    (values.mergeSort fun a b => (compare a b).isLE).Pairwise fun a b => (compare a b).isLE = true :=
  List.pairwise_mergeSort (fun _ _ _ => Std.TransCmp.isLE_trans) (isLE_total compare) values

/-- Behind a value of a strictly sorted list stands what is greater. -/
theorem filter_after (compare : α → α → Ordering) [Std.TransCmp compare] {before after : List α}
    {value : α} (h : (before ++ value :: after).Pairwise fun a b => compare a b = .lt) :
    ((before ++ value :: after).filter fun a => !(compare a value).isLE) = after := by
  obtain ⟨-, hrest, hbefore⟩ := List.pairwise_append.mp h
  obtain ⟨hafter, -⟩ := List.pairwise_cons.mp hrest
  have hnone : (before.filter fun a => !(compare a value).isLE) = [] := by
    rw [List.filter_eq_nil_iff]
    intro a ha
    simp [hbefore a ha value (by simp)]
  have hself : (compare value value).isLE = true := by
    simp [Std.ReflCmp.compare_self]
  have hall : (after.filter fun a => !(compare a value).isLE) = after := by
    rw [List.filter_eq_self]
    intro a ha
    have hswap : compare a value = (compare value a).swap := Std.OrientedCmp.eq_swap
    rw [hswap, hafter a ha]
    rfl
  rw [List.filter_append, hnone, List.filter_cons_of_neg (by simp [hself]), hall, List.nil_append]

end Sorting
