import Mathlib.Data.List.Sort
import PiEnv.Lib.IsoDate
import PiEnv.Lib.JsonText
import PiEnv.Lib.PosixPath
import PiEnv.SessionManager.Contracts

/-!
# The schema of the manifest

Its shape as JSON, the checks a manifest of that shape has to pass, and its
canonical text.
-/

namespace PiEnv.SessionManager

open Js Posix

-- -----
-- Shape
-- -----

/-- An object of the properties that are present. -/
def present (properties : List (Str × Option Json)) : List (Str × Json) :=
  properties.filterMap fun (key, value) => value.map (key, ·)

def Persistence.toJson : Persistence → Json
  | .pending => .obj [(lit "state", .str (lit "pending"))]
  | .materialized sessionFile =>
    .obj [(lit "sessionFile", .str sessionFile), (lit "state", .str (lit "materialized"))]

def TaskRef.toJson (task : TaskRef) : Json :=
  .obj [(lit "provider", .str (lit "notes")), (lit "reference", .str task.reference)]

def CloseSource.text : CloseSource → Str
  | .ctrlD => lit "ctrl-d"
  | .sessionDone => lit "session-done"

/-- The properties a role adds to a record. -/
structure RoleProperties where
  role : Str
  desiredState : Option Str
  taskRef : Option TaskRef
  explicitName : Bool
  closure : Option (Str × CloseSource)

def recordJson (base : RecordBase) (role : RoleProperties) : Json :=
  .obj (present [
    (lit "closedAt", role.closure.map fun closure => .str closure.1),
    (lit "closedBy", role.closure.map fun closure => .str closure.2.text),
    (lit "createdAt", some (.str base.createdAt)),
    (lit "cwd", some (.str base.cwd)),
    (lit "desiredState", role.desiredState.map .str),
    (lit "explicitName", if role.explicitName then some (.bool true) else none),
    (lit "lastOpenedAt", some (.str base.lastOpenedAt)),
    (lit "name", base.name.map .str),
    (lit "persistence", some base.persistence.toJson),
    (lit "role", some (.str role.role)),
    (lit "sessionId", some (.str base.sessionId)),
    (lit "taskRef", role.taskRef.map TaskRef.toJson),
    (lit "version", some (.num (.ofInt 1)))])

def coordinatorJson (record : CoordinatorRecord) : Json :=
  recordJson record ⟨lit "coordinator", none, none, false, none⟩

def WorkRecord.toJson : WorkRecord → Json
  | .opened record =>
    recordJson record.toRecordBase
      ⟨lit "work", some (lit "open"), record.taskRef, record.explicitName, none⟩
  | .closed record =>
    recordJson record.toRecordBase ⟨lit "work", some (lit "closed"), record.taskRef,
      record.explicitName, some (record.closedAt, record.closedBy)⟩

/-- The properties of a manifest, in the order of its canonical text. -/
def SessionManifest.toJson (manifest : SessionManifest) : Json :=
  .obj (present [
    (lit "canonicalCwd", some (.str manifest.canonicalCwd)),
    (lit "coordinator", manifest.coordinator.map coordinatorJson),
    (lit "revision", some (.num manifest.revision)),
    (lit "sessions", some (.arr (manifest.sessions.map WorkRecord.toJson))),
    (lit "updatedAt", some (.str manifest.updatedAt)),
    (lit "version", some (.num (.ofInt 1)))])

/-- `decodeUnknownSync` of the schema library at the manifest's schema: it
takes every value of the schema's type for itself. -/
structure ManifestSchema where
  decode : Json → Option SessionManifest
  decode_toJson : ∀ manifest : SessionManifest, decode manifest.toJson = some manifest

-- -----
-- Checks
-- -----

/-- Code points of a string, as a `u` expression sees them. -/
def codePoints : Str → List Nat
  | [] => []
  | [u] => [u.toNat]
  | u :: v :: rest =>
    if isHighSurrogate u && isLowSurrogate v then
      (0x10000 + (u.toNat - 0xD800) * 0x400 + (v.toNat - 0xDC00)) :: codePoints rest
    else u.toNat :: codePoints (v :: rest)

/-- `\p{Cc}` -/
def isControl (c : Nat) : Bool := c < 0x20 || (0x7F ≤ c && c < 0xA0)

/-- `\p{Cf}` -/
def isFormat (c : Nat) : Bool :=
  c == 0xAD || (0x600 ≤ c && c ≤ 0x605) || c == 0x61C || c == 0x6DD || c == 0x70F ||
    (0x890 ≤ c && c ≤ 0x891) || c == 0x8E2 || c == 0x180E || (0x200B ≤ c && c ≤ 0x200F) ||
    (0x202A ≤ c && c ≤ 0x202E) || (0x2060 ≤ c && c ≤ 0x2064) || (0x2066 ≤ c && c ≤ 0x206F) ||
    c == 0xFEFF || (0xFFF9 ≤ c && c ≤ 0xFFFB) || c == 0x110BD || c == 0x110CD ||
    (0x13430 ≤ c && c ≤ 0x1343F) || (0x1BCA0 ≤ c && c ≤ 0x1BCA3) ||
    (0x1D173 ≤ c && c ≤ 0x1D17A) || c == 0xE0001 || (0xE0020 ≤ c && c ≤ 0xE007F)

def validName (name : Str) : Bool :=
  trim name != [] && byteLength name ≤ 128 && !(codePoints name).any fun c => isControl c || isFormat c

def validRecordName (base : RecordBase) (explicitName : Bool) : Bool :=
  match base.name with
  | none => !explicitName
  | some name => validName name

def validIdentity (sessionId : Str) : Bool :=
  1 ≤ byteLength sessionId && byteLength sessionId ≤ 256 &&
    !sessionId.any fun u => u == 0 || u == 13 || u == 10

def validTimes (base : RecordBase) : Bool :=
  isTimestamp base.createdAt && isTimestamp base.lastOpenedAt && base.createdAt ≤ base.lastOpenedAt

def validateRecordBase (base : RecordBase) (explicitName : Bool) (canonicalCwd : Str) :
    Except Str Unit :=
  if !validIdentity base.sessionId || base.cwd != canonicalCwd ||
      !validRecordName base explicitName || !validTimes base then
    .error (lit "invalid record fields")
  else .ok ()

def validPersistence : Persistence → Bool
  | .pending => true
  | .materialized sessionFile => isAbsolute sessionFile && !sessionFile.contains 0

def validTaskRef : Option TaskRef → Bool
  | none => true
  | some task => 1 ≤ byteLength task.reference && byteLength task.reference ≤ 2048

def validClosure (base : RecordBase) (closedAt : Str) : Bool :=
  isTimestamp closedAt && base.createdAt ≤ closedAt && base.lastOpenedAt ≤ closedAt

def validateRecordDetails : SessionRecord → Except Str Unit
  | .coordinator record =>
    if !validPersistence record.persistence then .error (lit "invalid session file") else .ok ()
  | .work record =>
    if !validPersistence record.base.persistence then .error (lit "invalid session file")
    else if !validTaskRef record.base.taskRef then .error (lit "invalid task reference")
    else
      match record with
      | .opened _ => .ok ()
      | .closed record =>
        if !validClosure record.toRecordBase record.closedAt then .error (lit "invalid closure")
        else .ok ()

def addUniqueIdentity (sessionId : Str) (ids : List Str) : Except Str (List Str) :=
  if ids.contains sessionId then .error (lit "duplicate session id") else .ok (sessionId :: ids)

/-- The last time a record speaks of. -/
def latest : SessionRecord → Str
  | .work (.closed record) => record.closedAt
  | record => record.base.lastOpenedAt

def validateUpdatedAt (record : SessionRecord) (updatedAt : Str) : Except Str Unit :=
  if updatedAt < latest record then .error (lit "updatedAt predates record") else .ok ()

def outOfOrder (previous current : RecordBase) : Bool :=
  current.createdAt < previous.createdAt ||
    (current.createdAt == previous.createdAt && current.sessionId < previous.sessionId)

def validateSessionOrder (previous : Option WorkRecord) (current : WorkRecord) : Except Str Unit :=
  match previous with
  | none => .ok ()
  | some previous =>
    if outOfOrder previous.base.toRecordBase current.base.toRecordBase then
      .error (lit "sessions not ordered")
    else .ok ()

def SessionRecord.explicitName : SessionRecord → Bool
  | .coordinator _ => false
  | .work record => record.base.explicitName

def validateMetadata (manifest : SessionManifest) : Except Str Unit :=
  if !isAbsolute manifest.canonicalCwd || manifest.canonicalCwd.contains 0 then
    .error (lit "invalid canonical cwd")
  else
    match manifest.revision.integer? with
    | some revision =>
      if maxSafe ≤ revision.natAbs || revision < 0 then .error (lit "invalid revision")
      else if !isTimestamp manifest.updatedAt then .error (lit "invalid updated timestamp")
      else .ok ()
    | none => .error (lit "invalid revision")

def validateCoordinator (manifest : SessionManifest) : Except Str (List Str) :=
  match manifest.coordinator with
  | none => .ok []
  | some coordinator => do
    let record := SessionRecord.coordinator coordinator
    validateRecordBase coordinator record.explicitName manifest.canonicalCwd
    validateRecordDetails record
    let ids ← addUniqueIdentity coordinator.sessionId []
    validateUpdatedAt record manifest.updatedAt
    return ids

/-- The loop over the sessions: the ids seen so far, and the record before. -/
def validateSessions (manifest : SessionManifest) (ids : List Str) (previous : Option WorkRecord) :
    List WorkRecord → Except Str Unit
  | [] => .ok ()
  | record :: rest => do
    let base := record.base.toRecordBase
    validateRecordBase base record.base.explicitName manifest.canonicalCwd
    validateRecordDetails (.work record)
    let ids ← addUniqueIdentity base.sessionId ids
    validateSessionOrder previous record
    validateUpdatedAt (.work record) manifest.updatedAt
    validateSessions manifest ids (some record) rest

/-- The domain invariants of a manifest of the right shape. -/
def checkManifest (manifest : SessionManifest) : Except Str Unit := do
  validateMetadata manifest
  let ids ← validateCoordinator manifest
  validateSessions manifest ids none manifest.sessions

def decodeManifest (schema : ManifestSchema) {δ : Type} (value : Json) :
    Except (CatalogFailure δ) SessionManifest :=
  match value with
  | .obj fields =>
    match field fields (lit "version") with
    | some (.num version) =>
      if version ≠ .ofInt 1 then .error (.unsupportedVersion (.num version)) else decoded
    | some version => .error (.unsupportedVersion version)
    | none => decoded
  | _ => decoded
where
  decoded : Except (CatalogFailure δ) SessionManifest :=
    match schema.decode value with
    | some manifest => .ok manifest
    | none => .error (.malformed (lit "invalid strict v1 shape"))

def validateManifest (schema : ManifestSchema) {δ : Type} (value : Json) :
    Except (CatalogFailure δ) SessionManifest := do
  let manifest ← decodeManifest schema value
  (checkManifest manifest).mapError .semantic
  return manifest

-- -----
-- Canonical text
-- -----

mutual
def canonicalJson : Json → Str
  | .arr items => 91 :: join [44] (canonicalItems items) ++ [93]
  | .obj fields =>
    123 :: join [44] (((canonicalFields fields).insertionSort (·.1 ≤ ·.1)).map (·.2)) ++ [125]
  | value => stringify value

def canonicalItems : List Json → List Str
  | [] => []
  | item :: rest => canonicalJson item :: canonicalItems rest

/-- The key of each property, with its text. -/
def canonicalFields : List (Str × Json) → List (Str × Str)
  | [] => []
  | (key, value) :: rest =>
    (key, quote key ++ 58 :: canonicalJson value) :: canonicalFields rest
end

-- -----
-- Tombstones
-- -----

def tombstoneAge : Int := 30 * 24 * 60 * 60 * 1000

/-- `Date.parse(closedAt) >= cutoff`, false where the date is not a number. -/
def isRecent (now : Nat) (closedAt : Str) : Bool :=
  match dateParse closedAt with
  | some closed => now - tombstoneAge ≤ closed
  | none => false

def gcTombstones (manifest : SessionManifest) (now : Nat) : SessionManifest :=
  { manifest with
    sessions := manifest.sessions.filter fun record =>
      match record with
      | .opened _ => true
      | .closed record => isRecent now record.closedAt }

end PiEnv.SessionManager
