import PiEnv.Lib.Records
import PiEnv.SessionManager.CanonicalText

/-!
# The decoder of a manifest

The strict decoder that the schema of a manifest describes, with what it makes of the
value of a manifest.
-/

namespace PiEnv.SessionManager

open Js
open Js.Records

-- -----
-- Schemas
-- -----

namespace ManifestDecoder

def task : Decoder TaskRef := struct taskKeys fun fields => do
  required (literal (lit "notes")) (lit "provider") fields
  return ⟨← required string (lit "reference") fields⟩

def pending : Decoder Persistence := struct stateKeys fun fields => do
  required (literal (lit "pending")) (lit "state") fields
  return .pending

def materialized : Decoder Persistence := struct materializedKeys fun fields => do
  required (literal (lit "materialized")) (lit "state") fields
  return .materialized (← required string (lit "sessionFile") fields)

def base (fields : List (Str × Json)) : Option RecordBase := do
  required (literalNumber (.ofInt 1)) (lit "version") fields
  return {
    sessionId := ← required string (lit "sessionId") fields
    cwd := ← required string (lit "cwd") fields
    name := ← optional string (lit "name") fields
    persistence := ← required (union pending materialized) (lit "persistence") fields
    createdAt := ← required string (lit "createdAt") fields
    lastOpenedAt := ← required string (lit "lastOpenedAt") fields }

def baseKeys : List Str :=
  [lit "version", lit "sessionId", lit "cwd", lit "name", lit "persistence", lit "createdAt",
    lit "lastOpenedAt"]

def coordinator : Decoder CoordinatorRecord :=
  struct (baseKeys ++ [lit "role"]) fun fields => do
    required (literal (lit "coordinator")) (lit "role") fields
    base fields

def workKeys : List Str :=
  baseKeys ++ [lit "taskRef", lit "explicitName", lit "role", lit "desiredState"]

def workBase (desiredState : Str) (fields : List (Str × Json)) : Option OpenSessionRecord := do
  required (literal (lit "work")) (lit "role") fields
  required (literal desiredState) (lit "desiredState") fields
  let record ← base fields
  let taskRef ← optional task (lit "taskRef") fields
  let explicitName ← optional literalTrue (lit "explicitName") fields
  return { toRecordBase := record, taskRef, explicitName := explicitName.isSome }

def opened : Decoder WorkRecord := struct workKeys fun fields => do
  return .opened (← workBase (lit "open") fields)

def closeSource : Decoder CloseSource
  | .str text =>
    if text = lit "ctrl-d" then some .ctrlD
    else if text = lit "session-done" then some .sessionDone else none
  | _ => none

def closed : Decoder WorkRecord :=
  struct (workKeys ++ [lit "closedAt", lit "closedBy"]) fun fields => do
    let record ← workBase (lit "closed") fields
    return .closed {
      toOpenSessionRecord := record
      closedAt := ← required string (lit "closedAt") fields
      closedBy := ← required closeSource (lit "closedBy") fields }

def sessionManifest : Decoder SessionManifest := struct manifestKeys fun fields => do
  required (literalNumber (.ofInt 1)) (lit "version") fields
  return {
    canonicalCwd := ← required string (lit "canonicalCwd") fields
    revision := ← required number (lit "revision") fields
    updatedAt := ← required string (lit "updatedAt") fields
    coordinator := ← optional coordinator (lit "coordinator") fields
    sessions := ← required (array (union opened closed)) (lit "sessions") fields }

-- -----
-- Properties that are present
-- -----

theorem field_absent (properties : List (Str × Option Json)) {key : Str}
    (h : key ∉ properties.map (·.1)) : field (present properties) key = none := by
  refine List.lookup_eq_none_iff.mpr fun entry hentry => bne_iff_ne.mpr ?_
  rintro rfl
  exact h ((present_keys properties).subset (List.mem_map_of_mem hentry))

theorem field_present (properties : List (Str × Option Json)) (h : (properties.map (·.1)).Nodup)
    (key : Str) : field (present properties) key = (properties.lookup key).join := by
  induction properties with
  | nil => rfl
  | cons property properties ih =>
    obtain ⟨name, value⟩ := property
    obtain ⟨hnew, hrest⟩ := List.nodup_cons.mp h
    by_cases hkey : key = name
    · obtain rfl := hkey
      rw [List.lookup_cons_self]
      cases value with
      | none => exact field_absent properties hnew
      | some value => exact List.lookup_cons_self
    · have hne : (key == name) = false := beq_eq_false_iff_ne.mpr hkey
      rw [List.lookup_cons, hne]
      cases value with
      | none => exact ih hrest
      | some value =>
        have hlater : field ((name, value) :: present properties) key = field (present properties) key := by
          rw [field, List.lookup_cons, hne]
          rfl
        exact hlater.trans (ih hrest)

/-- The properties that may be there are all known. -/
theorem struct_present {α : Type} {keys : List Str} {read : List (Str × Json) → Option α}
    {properties : List (Str × Option Json)}
    (h : ∀ property ∈ properties, property.2 = none ∨ property.1 ∈ keys) :
    struct keys read (.obj (present properties)) = read (present properties) := by
  refine if_pos (List.all_eq_true.mpr fun entry hentry => List.contains_iff_mem.mpr ?_)
  obtain ⟨property, hmem, hmap⟩ := List.mem_filterMap.mp hentry
  obtain ⟨value, hvalue, rfl⟩ := Option.map_eq_some_iff.mp hmap
  rcases h property hmem with hnone | hkey
  · cases hnone.symm.trans hvalue
  · exact hkey

-- -----
-- Records
-- -----

def recordProperties (record : RecordBase) (role : RoleProperties) : List (Str × Option Json) := [
  (lit "closedAt", role.closure.map fun closure => .str closure.1),
  (lit "closedBy", role.closure.map fun closure => .str closure.2.text),
  (lit "createdAt", some (.str record.createdAt)),
  (lit "cwd", some (.str record.cwd)),
  (lit "desiredState", role.desiredState.map .str),
  (lit "explicitName", if role.explicitName then some (.bool true) else none),
  (lit "lastOpenedAt", some (.str record.lastOpenedAt)),
  (lit "name", record.name.map .str),
  (lit "persistence", some record.persistence.toJson),
  (lit "role", some (.str role.role)),
  (lit "sessionId", some (.str record.sessionId)),
  (lit "taskRef", role.taskRef.map TaskRef.toJson),
  (lit "version", some (.num (.ofInt 1)))]

theorem nodup_recordKeys : recordKeys.Nodup :=
  nodup_of_ordered (keys_ordered recordKeys (by simp)).1

/-- The keys of a coordinator, of an open record and of a closed one are all known. -/
theorem known_keys :
    (∀ key ∈ [lit "createdAt", lit "cwd", lit "lastOpenedAt", lit "name", lit "persistence", lit "role",
      lit "sessionId", lit "version"], key ∈ baseKeys ++ [lit "role"]) ∧
    (∀ key ∈ recordKeys.drop 2, key ∈ workKeys) ∧
      ∀ key ∈ recordKeys, key ∈ workKeys ++ [lit "closedAt", lit "closedBy"] := by
  decide +kernel

section
variable {α : Type} {decoder : Decoder α} {record : RecordBase} {role : RoleProperties} {key : Str}

theorem required_record (value : Json)
    (h : (recordProperties record role).lookup key = some (some value)) :
    required decoder key (present (recordProperties record role)) = decoder value := by
  have hfield := field_present (recordProperties record role)
    nodup_recordKeys key
  rw [required, hfield, h]
  rfl

theorem optional_record (f : α → Json) {option : Option α} (hdecoder : ∀ a, decoder (f a) = some a)
    (h : (recordProperties record role).lookup key = some (option.map f)) :
    optional decoder key (present (recordProperties record role)) = some option := by
  have hfield := field_present (recordProperties record role)
    nodup_recordKeys key
  rw [Records.optional, hfield, h, Option.join_some]
  cases option with
  | none => rfl
  | some a =>
    show (decoder (f a)).map some = some (some a)
    rw [hdecoder]
    rfl

theorem persistence_toJson (persistence : Persistence) :
    union pending materialized persistence.toJson = some persistence := by
  cases persistence <;> rfl

theorem task_toJson (taskRef : TaskRef) : task taskRef.toJson = some taskRef := rfl

theorem closeSource_text (source : CloseSource) : closeSource (.str source.text) = some source := by
  cases source <;> rfl

theorem base_record : base (present (recordProperties record role)) = some record := by
  rw [base, required_record (.num (.ofInt 1)) rfl,
    required_record (.str record.sessionId) rfl,
    required_record (.str record.cwd) rfl, optional_record .str (fun _ => rfl) rfl,
    required_record record.persistence.toJson rfl,
    required_record (.str record.createdAt) rfl,
    required_record (.str record.lastOpenedAt) rfl, persistence_toJson]
  rfl

theorem literal_self (text : Str) : literal text (.str text) = some () := if_pos rfl

/-- What a session has beside its record. -/
theorem workBase_record {desiredState : Str} {closure : Option (Str × CloseSource)}
    (record : OpenSessionRecord) :
    workBase desiredState (present (recordProperties record.toRecordBase
      ⟨lit "work", some desiredState, record.taskRef, record.explicitName, closure⟩)) = some record := by
  have hexplicit (role : RoleProperties) : optional literalTrue (lit "explicitName")
      (present (recordProperties record.toRecordBase role)) =
        some (if role.explicitName then some () else none) := by
    refine optional_record (fun _ => .bool true) (fun _ => rfl) ?_
    obtain ⟨name, desiredState, taskRef, explicitName, closure⟩ := role
    cases explicitName <;> rfl
  rw [workBase, required_record (.str (lit "work")) rfl, required_record (.str desiredState) rfl,
    base_record, optional_record TaskRef.toJson task_toJson rfl, hexplicit, literal_self, literal_self]
  obtain ⟨base, taskRef, explicitName⟩ := record
  cases explicitName <;> rfl

end

theorem coordinator_toJson (record : CoordinatorRecord) :
    coordinator (coordinatorJson record) = some record := by
  have hkeys : ∀ property ∈ recordProperties record ⟨lit "coordinator", none, none, false, none⟩,
      property.2 = none ∨ property.1 ∈ baseKeys ++ [lit "role"] := by
    have hknown := known_keys.1
    simp only [recordProperties, List.forall_mem_cons, List.not_mem_nil, false_implies, implies_true,
      and_true] at hknown ⊢
    obtain ⟨hcreated, hcwd, hopened, hname, hpersistence, hrole, hid, hversion⟩ := hknown
    exact ⟨.inl rfl, .inl rfl, .inr hcreated, .inr hcwd, .inl rfl, .inl rfl, .inr hopened, .inr hname,
      .inr hpersistence, .inr hrole, .inr hid, .inl rfl, .inr hversion⟩
  refine (struct_present hkeys).trans ?_
  rw [required_record (.str (lit "coordinator")) rfl, base_record]
  rfl

theorem opened_toJson (record : OpenSessionRecord) :
    opened (WorkRecord.toJson (.opened record)) = some (.opened record) := by
  have hkeys : ∀ property ∈ recordProperties record.toRecordBase
      ⟨lit "work", some (lit "open"), record.taskRef, record.explicitName, none⟩,
      property.2 = none ∨ property.1 ∈ workKeys := by
    rintro property (_ | ⟨_, _ | ⟨_, hproperty⟩⟩)
    · exact .inl rfl
    · exact .inl rfl
    · exact .inr (known_keys.2.1 _ (List.mem_map_of_mem hproperty))
  refine (struct_present hkeys).trans ?_
  rw [workBase_record]
  rfl

theorem closed_toJson (record : ClosedSessionRecord) :
    closed (WorkRecord.toJson (.closed record)) = some (.closed record) := by
  have hkeys : ∀ property ∈ recordProperties record.toRecordBase
      ⟨lit "work", some (lit "closed"), record.taskRef, record.explicitName,
        some (record.closedAt, record.closedBy)⟩,
      property.2 = none ∨ property.1 ∈ workKeys ++ [lit "closedAt", lit "closedBy"] := by
    exact fun property hproperty => .inr (known_keys.2.2 _ (List.mem_map_of_mem hproperty))
  refine (struct_present hkeys).trans ?_
  rw [workBase_record, required_record (.str record.closedAt) rfl,
    required_record (.str record.closedBy.text) rfl, closeSource_text]
  rfl

theorem opened_closed (record : ClosedSessionRecord) :
    opened (WorkRecord.toJson (.closed record)) = none := rfl

theorem work_toJson (record : WorkRecord) : union opened closed record.toJson = some record := by
  cases record with
  | opened record => rw [union, opened_toJson, Option.some_or]
  | closed record => rw [union, opened_closed, Option.none_or, closed_toJson]

/-- The decoder takes the value of a manifest for the manifest. -/
theorem sessionManifest_toJson (manifest : SessionManifest) :
    sessionManifest manifest.toJson = some manifest := by
  have hsessions : array (union opened closed) (.arr (manifest.sessions.map WorkRecord.toJson)) =
      some manifest.sessions := array_map work_toJson _
  obtain ⟨canonicalCwd, revision, updatedAt, coordinator, sessions⟩ := manifest
  cases coordinator with
  | none =>
    show (array (union opened closed) (.arr (sessions.map WorkRecord.toJson))).bind (fun sessions =>
      some (⟨canonicalCwd, revision, updatedAt, none, sessions⟩ : SessionManifest)) = _
    rw [hsessions]
    rfl
  | some record =>
    show ((ManifestDecoder.coordinator (coordinatorJson record)).map some).bind (fun coordinator =>
      (array (union opened closed) (.arr (sessions.map WorkRecord.toJson))).bind fun sessions =>
        some (⟨canonicalCwd, revision, updatedAt, coordinator, sessions⟩ : SessionManifest)) = _
    rw [hsessions, coordinator_toJson]
    rfl

end ManifestDecoder

def manifestSchema : ManifestSchema :=
  ⟨ManifestDecoder.sessionManifest, ManifestDecoder.sessionManifest_toJson⟩

-- -----
-- The round trip
-- -----

/-- Whatever the order of the keys of a valid manifest, its text is the same and is read
as the manifest. -/
theorem manifest_roundTrip (schema : ManifestSchema) (δ : Type) {value : Json}
    {manifest : SessionManifest}
    (h : (validateManifest schema value : Except (CatalogFailure δ) SessionManifest) = .ok manifest) :
    (∀ object, Reordered manifest.toJson object →
      (parse (canonicalJson object)).map (validateManifest (δ := δ) schema) = some (.ok manifest)) ∧
    ∀ object object', Reordered object object' → canonicalJson object = canonicalJson object' := by
  have hvalid := validateManifest_ok h
  refine ⟨fun object horder => ?_, fun _ _ => canonicalJson_reordered⟩
  rw [← canonicalJson_reordered horder, (readable_manifest hvalid).parse, Option.map_some,
    validateManifest_toJson hvalid]

def openedAt : Str := lit "2024-01-02T03:04:05.678Z"

def oneSession : SessionManifest where
  canonicalCwd := lit "/repo"
  revision := .ofInt 3
  updatedAt := openedAt
  coordinator := none
  sessions := [.opened {
    sessionId := lit "s-1"
    cwd := lit "/repo"
    name := some (lit "a \"b\"")
    persistence := .materialized (lit "/repo/s-1.jsonl")
    createdAt := openedAt
    lastOpenedAt := openedAt
    taskRef := none
    explicitName := true }]

theorem oneSession_checked : checkManifest oneSession = .ok () := by
  decide +kernel

/-- The manifest with its keys in another order. -/
def oneSessionReversed : Json :=
  .obj [
    (lit "version", .num (.ofInt 1)),
    (lit "updatedAt", .str openedAt),
    (lit "sessions", .arr (oneSession.sessions.map WorkRecord.toJson)),
    (lit "revision", .num (.ofInt 3)),
    (lit "canonicalCwd", .str (lit "/repo"))]

theorem oneSession_reordered : Reordered oneSession.toJson oneSessionReversed :=
  .obj _ _ _
    (show [lit "canonicalCwd", lit "revision", lit "sessions", lit "updatedAt", lit "version"].Nodup by
      decide +kernel)
    (.cons _ (.same _) (.cons _ (.same _) (.cons _ (.same _) (.cons _ (.same _)
      (.cons _ (.same _) .nil)))))
    (List.reverse_perm _).symm

/-- The text of that value is read as the manifest. -/
theorem manifest_roundTrip_oneSession :
    (parse (canonicalJson oneSessionReversed)).map (validateManifest (δ := Unit) manifestSchema) =
      some (.ok oneSession) :=
  (manifest_roundTrip manifestSchema Unit (validateManifest_toJson oneSession_checked)).1 _
    oneSession_reordered

end PiEnv.SessionManager
