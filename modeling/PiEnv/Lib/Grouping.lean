import PiEnv.Lib.JsMap

/-!
# Grouping by a key

An index from keys to the values that have them, sets that keep the order of
insertion, and the first values of a list under each key.
-/

namespace JsMap

variable {κ α : Type} [DecidableEq κ]

-- -----
-- Groups
-- -----

/-- The value joins the others under its key. -/
def push (m : JsMap κ (List α)) (k : κ) (v : α) : JsMap κ (List α) :=
  m.set k ((m.get k).getD [] ++ [v])

def group (m : JsMap κ (List α)) (k : κ) : List α := (m.get k).getD []

theorem group_empty (k : κ) : (empty : JsMap κ (List α)).group k = [] := rfl

theorem group_push (m : JsMap κ (List α)) (k l : κ) (v : α) :
    (m.push k v).group l = m.group l ++ if l = k then [v] else [] := by
  by_cases h : l = k <;> simp [group, push, JsMap.get_set, h]

/-- What a fold over pushes holds under a key. -/
theorem group_foldl_push (key : α → κ) (values : List α) (m : JsMap κ (List α)) (k : κ) :
    (values.foldl (fun m v => m.push (key v) v) m).group k =
      m.group k ++ values.filter (fun v => key v = k) := by
  induction values generalizing m with
  | nil => simp
  | cons v values ih =>
    rw [List.foldl_cons, ih, group_push, List.append_assoc]
    by_cases h : k = key v
    · simp [h]
    · simp [h, Ne.symm h]

end JsMap

-- -----
-- Sets in order of insertion
-- -----

namespace Js

section
variable {α : Type} [DecidableEq α]

def add (values : List α) (v : α) : List α := if v ∈ values then values else values ++ [v]

def addAll (values more : List α) : List α := more.foldl add values

theorem mem_addAll {values more : List α} {v : α} :
    v ∈ addAll values more ↔ v ∈ values ∨ v ∈ more := by
  induction more generalizing values with
  | nil => simp [addAll]
  | cons w more ih =>
    rw [addAll, List.foldl_cons, ← addAll, ih, List.mem_cons, ← or_assoc]
    refine or_congr_left ?_
    unfold add
    split
    · rename_i hmem
      constructor
      · exact Or.inl
      · rintro (h | rfl)
        · exact h
        · exact hmem
    · simp

theorem nodup_addAll {values : List α} (more : List α) (h : values.Nodup) :
    (addAll values more).Nodup := by
  induction more generalizing values with
  | nil => exact h
  | cons w more ih =>
    refine ih ?_
    unfold add
    split
    · exact h
    · rename_i hnot
      exact List.Nodup.append h (List.nodup_singleton w) (by simpa using hnot)

end

-- -----
-- First values under a key
-- -----

variable {κ α : Type} [DecidableEq κ] {key : α → κ}

/-- The values whose key is neither among those seen nor that of an earlier value. -/
def firsts (key : α → κ) : List κ → List α → List α
  | _, [] => []
  | seen, v :: values =>
    if key v ∈ seen then firsts key seen values
    else v :: firsts key (seen ++ [key v]) values

theorem firsts_sublist (seen : List κ) (values : List α) : (firsts key seen values).Sublist values := by
  induction values generalizing seen with
  | nil => exact .slnil
  | cons v values ih =>
    unfold firsts
    split
    · exact (ih seen).cons v
    · exact (ih _).cons_cons v

theorem firsts_append (seen : List κ) (xs ys : List α) :
    firsts key seen (xs ++ ys) =
      firsts key seen xs ++ firsts key (seen ++ (firsts key seen xs).map key) ys := by
  induction xs generalizing seen with
  | nil => simp [firsts]
  | cons v xs ih =>
    by_cases h : key v ∈ seen
    · simp [firsts, h, ih]
    · simp [firsts, h, ih, List.append_assoc]

theorem key_firsts {seen : List κ} {values : List α} {v : α} (h : v ∈ values) :
    key v ∈ seen ∨ ∃ w ∈ firsts key seen values, key w = key v := by
  induction values generalizing seen with
  | nil => cases h
  | cons w values ih =>
    by_cases hseen : key w ∈ seen
    · simp only [firsts, hseen, if_true]
      cases h with
      | head => exact .inl hseen
      | tail _ hmem => exact ih hmem
    · simp only [firsts, hseen, if_false]
      cases h with
      | head => exact .inr ⟨v, List.mem_cons_self, rfl⟩
      | tail _ hmem =>
        have hlater : key v ∈ seen ++ [key w] ∨
            ∃ u ∈ firsts key (seen ++ [key w]) values, key u = key v := ih hmem
        rcases hlater with hin | ⟨u, hu, hkey⟩
        · rcases List.mem_append.mp hin with hin | hlast
          · exact .inl hin
          · exact .inr ⟨w, List.mem_cons_self, (List.mem_singleton.mp hlast).symm⟩
        · exact .inr ⟨u, List.mem_cons_of_mem _ hu, hkey⟩

theorem firsts_fresh {seen : List κ} {values : List α} {v : α} (h : v ∈ firsts key seen values) :
    key v ∉ seen := by
  induction values generalizing seen with
  | nil => cases h
  | cons w values ih =>
    by_cases hseen : key w ∈ seen
    · simp only [firsts, hseen, if_true] at h
      exact ih h
    · simp only [firsts, hseen, if_false] at h
      cases h with
      | head => exact hseen
      | tail _ hmem => exact fun hin => ih hmem (List.mem_append_left _ hin)

theorem nodup_firsts (seen : List κ) (values : List α) :
    ((firsts key seen values).map key).Nodup := by
  induction values generalizing seen with
  | nil => exact List.nodup_nil
  | cons v values ih =>
    by_cases hseen : key v ∈ seen
    · simpa only [firsts, hseen, if_true] using ih seen
    · simp only [firsts, hseen, if_false, List.map_cons, List.nodup_cons]
      refine ⟨fun hmem => ?_, ih _⟩
      obtain ⟨w, hw, hkey⟩ := List.mem_map.mp hmem
      exact firsts_fresh hw (hkey ▸ List.mem_append_right _ (List.mem_singleton_self _))

end Js
