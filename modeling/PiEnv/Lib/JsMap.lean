import Mathlib.Data.List.Nodup

/-!
# JavaScript maps

A `Map` is a list of entries with distinct keys, in the order of insertion.
Setting a key that is there keeps its place.
-/

structure JsMap (κ α : Type) where
  entries : List (κ × α)
  nodup : (entries.map (·.1)).Nodup

namespace JsMap

variable {κ α : Type} [DecidableEq κ] {m : JsMap κ α} {k l : κ} {v : α}

def empty : JsMap κ α := ⟨[], List.nodup_nil⟩

def size (m : JsMap κ α) : Nat := m.entries.length

def keys (m : JsMap κ α) : List κ := m.entries.map (·.1)

def values (m : JsMap κ α) : List α := m.entries.map (·.2)

def get (m : JsMap κ α) (k : κ) : Option α := m.entries.lookup k

def has (m : JsMap κ α) (k : κ) : Bool := (m.get k).isSome

def replace (entries : List (κ × α)) (k : κ) (v : α) : List (κ × α) :=
  entries.map fun entry => if entry.1 = k then (entry.1, v) else entry

theorem lookup_eq_none {entries : List (κ × α)} : entries.lookup k = none ↔ k ∉ entries.map (·.1) := by
  rw [List.lookup_eq_none_iff]
  simp only [bne_iff_ne, List.mem_map, not_exists, not_and]
  exact ⟨fun h entry hmem hkey => h entry hmem hkey.symm, fun h entry hmem hkey => h entry hmem hkey.symm⟩

theorem replace_keys (entries : List (κ × α)) : (replace entries k v).map (·.1) = entries.map (·.1) := by
  rw [replace, List.map_map]
  refine List.map_congr_left fun entry _ => ?_
  by_cases h : entry.1 = k <;> simp [h]

def set (m : JsMap κ α) (k : κ) (v : α) : JsMap κ α :=
  if h : m.entries.lookup k = none then
    ⟨m.entries ++ [(k, v)], by
      rw [List.map_append, List.nodup_append]
      refine ⟨m.nodup, List.nodup_singleton k, fun a ha b hb hab => ?_⟩
      have hbk : b = k := List.mem_singleton.mp hb
      exact lookup_eq_none.mp h (hbk ▸ hab ▸ ha)⟩
  else ⟨replace m.entries k v, replace_keys m.entries ▸ m.nodup⟩

def delete (m : JsMap κ α) (k : κ) : JsMap κ α :=
  ⟨m.entries.filter (·.1 ≠ k), m.nodup.sublist (List.filter_sublist.map _)⟩

@[simp] theorem get_empty : (empty : JsMap κ α).get k = none := rfl

theorem mem_keys : k ∈ m.keys ↔ (m.get k).isSome = true := by
  rw [← not_iff_not, Bool.not_eq_true, Option.isSome_eq_false_iff, Option.isNone_iff_eq_none]
  exact lookup_eq_none.symm

theorem entries_set (h : m.get k = none) : (m.set k v).entries = m.entries ++ [(k, v)] := by
  unfold set
  rw [dif_pos (show m.entries.lookup k = none from h)]

theorem lookup_replace {entries : List (κ × α)} :
    (replace entries k v).lookup l =
      if l = k then (entries.lookup l).map fun _ => v else entries.lookup l := by
  induction entries with
  | nil => simp [replace]
  | cons entry rest ih =>
    obtain ⟨key, value⟩ := entry
    simp only [replace, List.map_cons] at ih ⊢
    by_cases hk : key = k
    · subst hk
      by_cases hl : l = key
      · simp [hl]
      · simp [List.lookup_cons, hl, beq_false_of_ne hl, ih]
    · by_cases hl : l = key
      · subst hl
        simp [hk]
      · simp [List.lookup_cons, hk, beq_false_of_ne hl, ih]

theorem get_set : (m.set k v).get l = if l = k then some v else m.get l := by
  unfold set get
  split
  case isTrue h =>
    rw [List.lookup_append]
    by_cases hl : l = k
    · subst hl
      simp [h]
    · simp [hl, List.lookup_cons, beq_false_of_ne hl]
  case isFalse h =>
    rw [lookup_replace]
    by_cases hl : l = k
    · subst hl
      obtain ⟨w, hw⟩ := Option.ne_none_iff_exists'.mp h
      simp [hw]
    · simp [hl]

/-- What a key has after a row of writes that agree about it. -/
theorem get_foldl_set {writes : List (κ × α)} (h : ∀ w ∈ writes, w.1 = k → w.2 = v) :
    (writes.foldl (fun m w => m.set w.1 w.2) m).get k =
      if k ∈ writes.map (·.1) then some v else m.get k := by
  induction writes generalizing m with
  | nil => simp
  | cons w rest ih =>
    rw [List.foldl_cons, ih fun w hw => h w (List.mem_cons_of_mem _ hw), get_set]
    by_cases hk : k = w.1
    · simp [hk, h w List.mem_cons_self hk.symm]
    · simp only [List.map_cons, List.mem_cons, hk, false_or, if_false]

theorem lookup_filter {entries : List (κ × α)} (h : l ≠ k) :
    (entries.filter (·.1 ≠ k)).lookup l = entries.lookup l := by
  induction entries with
  | nil => rfl
  | cons entry rest ih =>
    obtain ⟨key, value⟩ := entry
    by_cases hkey : key = k
    · subst hkey
      simpa [List.lookup_cons, beq_false_of_ne h] using ih
    · by_cases hlk : l = key
      · subst hlk
        simp [hkey]
      · simpa [List.lookup_cons, hkey, beq_false_of_ne hlk] using ih

theorem get_delete : (m.delete k).get l = if l = k then none else m.get l := by
  unfold delete get
  by_cases hl : l = k
  · subst hl
    rw [if_pos rfl, lookup_eq_none]
    simp
  · rw [if_neg hl, lookup_filter hl]

theorem mem_of_get (h : m.get k = some v) : (k, v) ∈ m.entries := by
  obtain ⟨before, after, hentries, -⟩ := List.lookup_eq_some_iff.mp h
  rw [hentries]
  exact List.mem_append_right _ List.mem_cons_self

theorem get_of_mem (h : (k, v) ∈ m.entries) : m.get k = some v := by
  obtain ⟨before, after, hentries⟩ := List.append_of_mem h
  rw [get, hentries, List.lookup_eq_some_iff]
  refine ⟨before, after, rfl, fun entry hmem => ?_⟩
  have hnodup := m.nodup
  rw [hentries, List.map_append, List.nodup_append] at hnodup
  have := hnodup.2.2 entry.1 (List.mem_map_of_mem hmem) k (by simp)
  simpa using fun h : k = entry.1 => this h.symm

/-- What stands around an entry stays where it is. -/
theorem split_get (h : m.get k = some v) : ∃ before after, m.entries = before ++ (k, v) :: after ∧
    (m.delete k).entries = before ++ after ∧
    ∀ w, (m.set k w).entries = before ++ (k, w) :: after := by
  obtain ⟨before, after, hentries⟩ := List.append_of_mem (mem_of_get h)
  have hnodup := m.nodup
  rw [hentries, List.map_append, List.map_cons, List.nodup_middle, List.nodup_cons] at hnodup
  have hother : ∀ entry ∈ before ++ after, entry.1 ≠ k := fun entry hmem hkey =>
    hnodup.1 (List.mem_append.mpr ((List.mem_append.mp hmem).imp
      (fun hb => List.mem_map.mpr ⟨entry, hb, hkey⟩) fun ha => List.mem_map.mpr ⟨entry, ha, hkey⟩))
  have hbefore : ∀ entry ∈ before, entry.1 ≠ k := fun entry hmem =>
    hother entry (List.mem_append_left _ hmem)
  have hafter : ∀ entry ∈ after, entry.1 ≠ k := fun entry hmem =>
    hother entry (List.mem_append_right _ hmem)
  refine ⟨before, after, hentries, ?_, fun w => ?_⟩
  · show m.entries.filter (·.1 ≠ k) = before ++ after
    rw [hentries, List.filter_append, List.filter_cons_of_neg (by simp),
      List.filter_eq_self.mpr fun entry hmem => by simpa using hbefore entry hmem,
      List.filter_eq_self.mpr fun entry hmem => by simpa using hafter entry hmem]
  · have hsame : ∀ entries : List (κ × α), (∀ entry ∈ entries, entry.1 ≠ k) →
        replace entries k w = entries := fun entries hne =>
      (List.map_congr_left fun entry hmem => if_neg (hne entry hmem)).trans (List.map_id entries)
    have hreplace : replace m.entries k w = before ++ (k, w) :: after := by
      rw [hentries, replace, List.map_append, List.map_cons, if_pos rfl]
      exact congrArg₂ (· ++ (k, w) :: ·) (hsame before hbefore) (hsame after hafter)
    rw [set, dif_neg (by rw [← get, h]; nofun)]
    exact hreplace

theorem size_set (h : m.get k ≠ none) : (m.set k v).size = m.size := by
  unfold set
  split
  case isTrue hnone => exact absurd hnone h
  case isFalse => exact List.length_map _

theorem size_set_new (h : m.get k = none) : (m.set k v).size = m.size + 1 := by
  rw [size, entries_set h, List.length_append]
  rfl

theorem size_delete (h : m.get k = some v) : (m.delete k).size + 1 = m.size := by
  obtain ⟨before, after, hentries, hdelete, -⟩ := split_get h
  rw [size, size, hentries, hdelete, List.length_append, List.length_append, List.length_cons,
    Nat.add_assoc]

/-- Every value changed in its place. -/
def mapValues {β : Type} (m : JsMap κ α) (f : α → β) : JsMap κ β :=
  ⟨m.entries.map fun entry => (entry.1, f entry.2), by
    rw [List.map_map]
    exact m.nodup⟩

theorem lookup_mapValues {β : Type} {f : α → β} {entries : List (κ × α)} :
    (entries.map fun entry => (entry.1, f entry.2)).lookup k = (entries.lookup k).map f := by
  induction entries with
  | nil => rfl
  | cons entry rest ih =>
    obtain ⟨key, value⟩ := entry
    by_cases h : k = key
    · simp [h]
    · simp [List.lookup_cons, beq_false_of_ne h, ih]

theorem get_mapValues {β : Type} {f : α → β} : (m.mapValues f).get k = (m.get k).map f :=
  lookup_mapValues

omit [DecidableEq κ] in
theorem size_mapValues {β : Type} {f : α → β} : (m.mapValues f).size = m.size := List.length_map _

end JsMap
