import PiEnv.Lib.JsonRoundTrip
import PiEnv.SessionManager.Schema

/-!
# The canonical text of a manifest

The text does not depend on the order of an object's keys, and what a manifest's text
is read as is the manifest.
-/

namespace PiEnv.SessionManager

open Js

-- -----
-- The order of keys
-- -----

mutual
/-- Values that differ in the order of the keys of their objects. -/
inductive Reordered : Json → Json → Prop where
  | same (value : Json) : Reordered value value
  | arr {items items' : List Json} : ReorderedItems items items' →
      Reordered (.arr items) (.arr items')
  | obj (fields fields' fields'' : List (Str × Json)) : (fields.map (·.1)).Nodup →
      ReorderedFields fields fields' → fields'.Perm fields'' → Reordered (.obj fields) (.obj fields'')

inductive ReorderedItems : List Json → List Json → Prop where
  | nil : ReorderedItems [] []
  | cons {item item' : Json} {rest rest' : List Json} : Reordered item item' →
      ReorderedItems rest rest' → ReorderedItems (item :: rest) (item' :: rest')

/-- Properties with the same keys in the same order. -/
inductive ReorderedFields : List (Str × Json) → List (Str × Json) → Prop where
  | nil : ReorderedFields [] []
  | cons (key : Str) {value value' : Json} {rest rest' : List (Str × Json)} : Reordered value value' →
      ReorderedFields rest rest' → ReorderedFields ((key, value) :: rest) ((key, value') :: rest')
end

theorem canonicalFields_eq_map (fields : List (Str × Json)) : canonicalFields fields =
    fields.map fun entry => (entry.1, quote entry.1 ++ 58 :: canonicalJson entry.2) := by
  induction fields with
  | nil => rfl
  | cons entry fields ih =>
    rw [canonicalFields, ih]
    rfl

theorem canonicalFields_keys (fields : List (Str × Json)) :
    (canonicalFields fields).map (·.1) = fields.map (·.1) := by
  rw [canonicalFields_eq_map, List.map_map]
  rfl

/-- Properties are sorted in one way, since their keys are distinct. -/
theorem insertionSort_perm {xs ys : List (Str × Str)} (hperm : xs.Perm ys)
    (hkeys : (xs.map (·.1)).Nodup) :
    xs.insertionSort (·.1 ≤ ·.1) = ys.insertionSort (·.1 ≤ ·.1) := by
  have htotal : Std.Total fun a b : Str × Str => a.1 ≤ b.1 := ⟨fun a b => List.le_total a.1 b.1⟩
  have htrans : IsTrans (Str × Str) fun a b => a.1 ≤ b.1 := ⟨fun _ _ _ h h' => List.le_trans h h'⟩
  have hsort := List.perm_insertionSort (fun a b : Str × Str => a.1 ≤ b.1)
  refine List.Perm.eq_of_pairwise ?_ (List.pairwise_insertionSort _ xs) (List.pairwise_insertionSort _ ys)
    ((hsort xs).trans (hperm.trans (hsort ys).symm))
  intro a b ha hb hab hba
  have hmem : a ∈ xs := (hsort xs).mem_iff.mp ha
  have hmem' : b ∈ xs := hperm.mem_iff.mpr ((hsort ys).mem_iff.mp hb)
  exact List.inj_on_of_nodup_map hkeys hmem hmem' (List.le_antisymm hab hba)

mutual
/-- The text is the same whatever the order of the keys. -/
theorem canonicalJson_reordered {value value' : Json} :
    Reordered value value' → canonicalJson value = canonicalJson value'
  | .same _ => rfl
  | .arr h => by rw [canonicalJson, canonicalJson, canonicalItems_reordered h]
  | .obj fields fields' fields'' hkeys h hperm => by
    have hfields := canonicalFields_reordered h
    have hperm' : (canonicalFields fields').Perm (canonicalFields fields'') := by
      rw [canonicalFields_eq_map, canonicalFields_eq_map]
      exact hperm.map _
    rw [canonicalJson, canonicalJson, hfields, insertionSort_perm hperm']
    rw [← hfields, canonicalFields_keys]
    exact hkeys

theorem canonicalItems_reordered {items items' : List Json} :
    ReorderedItems items items' → canonicalItems items = canonicalItems items'
  | .nil => rfl
  | .cons h hrest => by
    rw [canonicalItems, canonicalItems, canonicalJson_reordered h, canonicalItems_reordered hrest]

theorem canonicalFields_reordered {fields fields' : List (Str × Json)} :
    ReorderedFields fields fields' → canonicalFields fields = canonicalFields fields'
  | .nil => rfl
  | .cons key h hrest => by
    rw [canonicalFields, canonicalFields, canonicalJson_reordered h, canonicalFields_reordered hrest]
end

-- -----
-- Sorted objects
-- -----

/-- Values whose objects have their keys in order. -/
inductive Sorted : Json → Prop where
  | null : Sorted .null
  | bool (value : Bool) : Sorted (.bool value)
  | num (value : Number) : Sorted (.num value)
  | str (value : Str) : Sorted (.str value)
  | arr {items : List Json} : (∀ item ∈ items, Sorted item) → Sorted (.arr items)
  | obj {fields : List (Str × Json)} : (∀ entry ∈ fields, Sorted entry.2) →
      (fields.map (·.1)).Pairwise (· < ·) → Sorted (.obj fields)

theorem join_items {items : List Json} (h : ∀ item ∈ items, canonicalJson item = stringify item) :
    join [44] (canonicalItems items) = stringifyItems items := by
  induction items with
  | nil => rfl
  | cons item rest ih =>
    have hitem := h item List.mem_cons_self
    have hrest := ih fun other hother => h other (List.mem_cons_of_mem _ hother)
    cases rest with
    | nil =>
      rw [canonicalItems, canonicalItems, join, List.intercalate_singleton, hitem, stringifyItems]
    | cons next rest =>
      rw [canonicalItems, canonicalItems, join, List.intercalate_cons_cons, hitem, stringifyItems]
      · rw [← hrest, canonicalItems, join, List.append_assoc]
        rfl
      · exact List.cons_ne_nil _ _

theorem join_fields {fields : List (Str × Json)}
    (h : ∀ entry ∈ fields, canonicalJson entry.2 = stringify entry.2) :
    join [44] ((canonicalFields fields).map (·.2)) = stringifyFields fields := by
  induction fields with
  | nil => rfl
  | cons entry rest ih =>
    have hentry := h entry List.mem_cons_self
    have hrest := ih fun other hother => h other (List.mem_cons_of_mem _ hother)
    obtain ⟨key, value⟩ := entry
    cases rest with
    | nil =>
      rw [canonicalFields, canonicalFields, List.map_singleton, join, List.intercalate_singleton,
        hentry, stringifyFields]
    | cons next rest =>
      rw [canonicalFields, canonicalFields, List.map_cons, List.map_cons, join,
        List.intercalate_cons_cons, hentry, stringifyFields]
      · rw [← hrest, canonicalFields, List.map_cons, join, List.append_assoc]
        rfl
      · exact List.cons_ne_nil _ _

/-- The text of such a value is what `JSON.stringify` prints. -/
theorem canonicalJson_sorted {value : Json} (h : Sorted value) : canonicalJson value = stringify value := by
  induction h with
  | null => rfl
  | bool value => rfl
  | num value => rfl
  | str value => rfl
  | arr _ ih => rw [canonicalJson, stringify, join_items ih]
  | obj _ hkeys ih =>
    have hpairs := (List.pairwise_map.mp (canonicalFields_keys _ ▸ hkeys)).imp
      fun {a b : Str × Str} (h : a.1 < b.1) => List.le_of_lt h
    rw [canonicalJson, stringify, hpairs.insertionSort_eq, join_fields ih]

-- -----
-- The value of a manifest
-- -----

/-- What the text of a value is read as is the value. -/
def Readable (value : Json) : Prop := Plain value ∧ Sorted value

theorem Readable.str (text : Str) : Readable (.str text) := ⟨.str text, .str text⟩

theorem Readable.one : Readable (.num (.ofInt 1)) := ⟨.int (by decide), .num _⟩

theorem Readable.parse {value : Json} (h : Readable value) : parse (canonicalJson value) = some value := by
  rw [canonicalJson_sorted h.2]
  exact parse_stringify_self h.1

theorem present_keys (properties : List (Str × Option Json)) :
    ((present properties).map (·.1)).Sublist (properties.map (·.1)) := by
  induction properties with
  | nil => exact .slnil
  | cons property properties ih =>
    obtain ⟨key, value⟩ := property
    cases value with
    | none => exact ih.cons key
    | some value => exact ih.cons_cons key

theorem nodup_of_ordered {keys : List Str} (h : keys.Pairwise (· < ·)) : keys.Nodup := by
  refine h.imp ?_
  rintro key _ hlt rfl
  exact List.lt_irrefl key hlt

/-- The keys of an object are in order, and none is an array index. -/
theorem Readable.present (properties : List (Str × Option Json))
    (hkeys : (properties.map (·.1)).Pairwise (· < ·))
    (hindex : ∀ key ∈ properties.map (·.1), arrayIndex key = none)
    (h : ∀ property ∈ properties, ∀ value, property.2 = some value → Readable value) :
    Readable (.obj (present properties)) := by
  have hsub := present_keys properties
  have hsorted := hkeys.sublist hsub
  have hvalues : ∀ entry ∈ SessionManager.present properties, Readable entry.2 := by
    intro entry hentry
    obtain ⟨property, hmem, hmap⟩ := List.mem_filterMap.mp hentry
    obtain ⟨value, hvalue, rfl⟩ := Option.map_eq_some_iff.mp hmap
    exact h property hmem value hvalue
  refine ⟨.obj (fun entry hentry => (hvalues entry hentry).1) ?_,
    .obj (fun entry hentry => (hvalues entry hentry).2) hsorted⟩
  exact fromEntries_self (nodup_of_ordered hsorted) fun key hkey => hindex key (hsub.subset hkey)

section
variable {value found : Json}

theorem readable_some (h : Readable value) : ∀ found, some value = some found → Readable found := by
  rintro _ ⟨⟩
  exact h

theorem readable_map {α : Type} {option : Option α} {f : α → Json} (h : ∀ a, Readable (f a)) :
    ∀ found, option.map f = some found → Readable found := by
  intro found hfound
  obtain ⟨a, -, rfl⟩ := Option.map_eq_some_iff.mp hfound
  exact h a

end

def stateKeys : List Str := [lit "state"]

def materializedKeys : List Str := [lit "sessionFile", lit "state"]

def taskKeys : List Str := [lit "provider", lit "reference"]

def recordKeys : List Str :=
  [lit "closedAt", lit "closedBy", lit "createdAt", lit "cwd", lit "desiredState", lit "explicitName",
    lit "lastOpenedAt", lit "name", lit "persistence", lit "role", lit "sessionId", lit "taskRef",
    lit "version"]

def manifestKeys : List Str :=
  [lit "canonicalCwd", lit "coordinator", lit "revision", lit "sessions", lit "updatedAt", lit "version"]

theorem keys_ordered : ∀ keys ∈ [stateKeys, materializedKeys, taskKeys, recordKeys, manifestKeys],
    keys.Pairwise (· < ·) ∧ ∀ key ∈ keys, arrayIndex key = none := by
  decide +kernel

theorem readable_persistence (persistence : Persistence) : Readable persistence.toJson := by
  cases persistence with
  | pending =>
    refine Readable.present [(lit "state", some (.str (lit "pending")))]
      (keys_ordered stateKeys (by simp)).1
      (keys_ordered stateKeys (by simp)).2 ?_
    simp only [List.forall_mem_cons, List.not_mem_nil, false_implies, implies_true, and_true]
    exact readable_some (.str _)
  | materialized sessionFile =>
    refine Readable.present
      [(lit "sessionFile", some (.str sessionFile)), (lit "state", some (.str (lit "materialized")))]
      (keys_ordered materializedKeys (by simp)).1
      (keys_ordered materializedKeys (by simp)).2 ?_
    simp only [List.forall_mem_cons, List.not_mem_nil, false_implies, implies_true, and_true]
    exact ⟨readable_some (.str _), readable_some (.str _)⟩

theorem readable_taskRef (task : TaskRef) : Readable task.toJson := by
  refine Readable.present
    [(lit "provider", some (.str (lit "notes"))), (lit "reference", some (.str task.reference))]
    (keys_ordered taskKeys (by simp)).1
    (keys_ordered taskKeys (by simp)).2 ?_
  simp only [List.forall_mem_cons, List.not_mem_nil, false_implies, implies_true, and_true]
  exact ⟨readable_some (.str _), readable_some (.str _)⟩

theorem readable_record (base : RecordBase) (role : RoleProperties) : Readable (recordJson base role) := by
  refine Readable.present _ (keys_ordered recordKeys (by simp)).1
    (keys_ordered recordKeys (by simp)).2 ?_
  have hexplicit : ∀ found, (if role.explicitName then some (.bool true) else none) = some found →
      Readable found := by
    cases role.explicitName with
    | true => exact readable_some ⟨.bool true, .bool true⟩
    | false => exact nofun
  simp only [List.forall_mem_cons, List.not_mem_nil, false_implies, implies_true, and_true]
  exact ⟨readable_map fun _ => .str _, readable_map fun _ => .str _, readable_some (.str _),
    readable_some (.str _), readable_map .str, hexplicit, readable_some (.str _), readable_map .str,
    readable_some (readable_persistence _), readable_some (.str _), readable_some (.str _),
    readable_map readable_taskRef, readable_some .one⟩

theorem readable_work (record : WorkRecord) : Readable record.toJson := by
  cases record with
  | opened record => exact readable_record _ _
  | closed record => exact readable_record _ _

theorem readable_sessions (sessions : List WorkRecord) :
    Readable (.arr (sessions.map WorkRecord.toJson)) := by
  have hitems : ∀ item ∈ sessions.map WorkRecord.toJson, Readable item := by
    intro item hitem
    obtain ⟨record, -, rfl⟩ := List.mem_map.mp hitem
    exact readable_work record
  exact ⟨.arr fun item hitem => (hitems item hitem).1, .arr fun item hitem => (hitems item hitem).2⟩

theorem integer_eq {number : Number} {n : Int} (h : number.integer? = some n) : number = .ofInt n := by
  unfold Number.integer? at h
  split at h
  · rename_i value
    split at h
    · rename_i hden
      obtain rfl := Option.some.inj h
      exact congrArg Number.finite ((Rat.den_eq_one_iff value).mp hden).symm
    · cases h
  · cases h

/-- The revision of a manifest that is valid is an integer that doubles tell apart. -/
theorem readable_revision {manifest : SessionManifest} (h : validateMetadata manifest = .ok ()) :
    Readable (.num manifest.revision) := by
  unfold validateMetadata at h
  split at h
  · cases h
  split at h
  · rename_i revision hrevision
    split at h
    · cases h
    · rename_i hsafe
      rw [Bool.or_eq_true, not_or, decide_eq_true_eq, Nat.not_le] at hsafe
      rw [integer_eq hrevision]
      exact ⟨.int hsafe.1.le, .num _⟩
  · cases h

theorem checkManifest_metadata {manifest : SessionManifest} (h : checkManifest manifest = .ok ()) :
    validateMetadata manifest = .ok () := by
  unfold checkManifest at h
  cases hmetadata : validateMetadata manifest with
  | ok _ => rfl
  | error reason =>
    rw [hmetadata] at h
    cases h

theorem readable_manifest {manifest : SessionManifest} (h : checkManifest manifest = .ok ()) :
    Readable manifest.toJson := by
  refine Readable.present _ (keys_ordered manifestKeys (by simp)).1
    (keys_ordered manifestKeys (by simp)).2 ?_
  simp only [List.forall_mem_cons, List.not_mem_nil, false_implies, implies_true, and_true]
  exact ⟨readable_some (.str _), readable_map fun _ => readable_record _ _,
    readable_some (readable_revision (checkManifest_metadata h)),
    readable_some (readable_sessions _), readable_some (.str _), readable_some .one⟩

-- -----
-- The round trip
-- -----

variable {schema : ManifestSchema} {δ : Type} {manifest : SessionManifest}

theorem validateManifest_ok {value : Json}
    (h : (validateManifest schema value : Except (CatalogFailure δ) SessionManifest) = .ok manifest) :
    checkManifest manifest = .ok () := by
  unfold validateManifest at h
  cases hdecode : (decodeManifest schema value : Except (CatalogFailure δ) SessionManifest) with
  | error failure =>
    rw [hdecode] at h
    cases h
  | ok found =>
    rw [hdecode] at h
    replace h : ((checkManifest found).mapError CatalogFailure.semantic >>= fun _ =>
      (pure found : Except (CatalogFailure δ) SessionManifest)) = .ok manifest := h
    cases hcheck : checkManifest found with
    | error reason =>
      rw [hcheck] at h
      cases h
    | ok _ =>
      rw [hcheck] at h
      obtain rfl := Except.ok.inj h
      exact hcheck

theorem version_toJson (manifest : SessionManifest) : ∃ fields, manifest.toJson = .obj fields ∧
    field fields (lit "version") = some (.num (.ofInt 1)) := by
  refine ⟨_, rfl, ?_⟩
  cases manifest.coordinator <;> rfl

theorem validateManifest_toJson (h : checkManifest manifest = .ok ()) :
    (validateManifest schema manifest.toJson : Except (CatalogFailure δ) SessionManifest) =
      .ok manifest := by
  obtain ⟨fields, hfields, hversion⟩ := version_toJson manifest
  have hdecode : (decodeManifest schema manifest.toJson : Except (CatalogFailure δ) SessionManifest) =
      .ok manifest := by
    have hdecoded := schema.decode_toJson manifest
    rw [hfields] at hdecoded ⊢
    simp only [decodeManifest, hversion, ne_eq, not_true_eq_false, if_false, decodeManifest.decoded,
      hdecoded]
  rw [validateManifest, hdecode]
  show ((checkManifest manifest).mapError CatalogFailure.semantic >>= fun _ =>
    (pure manifest : Except (CatalogFailure δ) SessionManifest)) = .ok manifest
  rw [h]
  rfl

end PiEnv.SessionManager
