import Mathlib.Data.List.Sort
import Mathlib.Logic.Function.Basic
import PiEnv.Lib.Program
import PiEnv.SessionManager.Schema

/-!
# The lifecycle of sessions

Starting, adopting, renaming, refreshing and closing a session, and the choice of
the coordinator, by any number of processes over the durable catalogs. An update of
a catalog reads its manifest, transforms it and commits the result under one lock:
it is one step here, which may also fail with or without its result on disk.
-/

namespace PiEnv.SessionManager.Lifecycle

open Js Effects

inductive DomainError where
  | notManaged (sessionId : Str)
  | alreadyClosed (sessionId : Str)
  | identityConflict (sessionId reason : Str)
  | nameInvalid (requestedName : Str)
  deriving DecidableEq, Repr

-- -----
-- Records
-- -----

/-- `manifest.sessions.find((record) => record.sessionId === sessionId)` -/
def findWork (manifest : SessionManifest) (sessionId : Str) : Option WorkRecord :=
  manifest.sessions.find? fun record => record.base.sessionId = sessionId

def findRecord (manifest : SessionManifest) (sessionId : Str) : Option SessionRecord :=
  match manifest.coordinator with
  | some record =>
    if record.sessionId = sessionId then some (.coordinator record)
    else (findWork manifest sessionId).map .work
  | none => (findWork manifest sessionId).map .work

/-- `left.createdAt.localeCompare(right.createdAt) || left.sessionId.localeCompare(...)` -/
def compareRecords (localeCompare : Str → Str → Ordering) (left right : WorkRecord) : Ordering :=
  (localeCompare left.base.createdAt right.base.createdAt).then
    (localeCompare left.base.sessionId right.base.sessionId)

def replaceWorkRecord (localeCompare : Str → Str → Ordering) (manifest : SessionManifest)
    (record : WorkRecord) : SessionManifest :=
  { manifest with
    sessions := ((manifest.sessions.filter fun candidate =>
      candidate.base.sessionId ≠ record.base.sessionId) ++ [record]).insertionSort fun left right =>
        (compareRecords localeCompare left right).isLE }

def findOpenWorkRecord (manifest : SessionManifest) (sessionId : Str) :
    Except DomainError (Option OpenSessionRecord) :=
  match findRecord manifest sessionId with
  | none => .ok none
  | some (.coordinator _) =>
    .error (.identityConflict sessionId (lit "session ID belongs to the coordinator"))
  | some (.work (.closed _)) => .error (.alreadyClosed sessionId)
  | some (.work (.opened record)) => .ok (some record)

/-- The record that renaming and refreshing look for. -/
def requireOpen (manifest : SessionManifest) (sessionId : Str) : Except DomainError OpenSessionRecord :=
  match findRecord manifest sessionId with
  | some (.work (.opened record)) => .ok record
  | _ => .error (.notManaged sessionId)

/-- A text that is there and not empty. -/
def truthy (text : Option Str) : Option Str := text.filter (· ≠ [])

def persistenceFor (materialized : Bool) (sessionFile : Option Str) : Persistence :=
  match truthy sessionFile with
  | some sessionFile => if materialized then .materialized sessionFile else .pending
  | none => .pending

-- -----
-- Transforms
-- -----

/-- The record of a session that is started (again). -/
def startedRecord (sessionId cwd : Str) (requestedName : Option Str) (observed : Persistence)
    (timestamp : Str) : Option OpenSessionRecord → OpenSessionRecord
  | some found =>
    let persistence := match observed with
      | .materialized _ => observed
      | .pending => found.persistence
    let selected := { found with persistence, lastOpenedAt := timestamp }
    if found.explicitName then selected
    else { selected with name := requestedName, explicitName := requestedName.isSome }
  | none =>
    { sessionId, cwd, name := requestedName, persistence := observed, createdAt := timestamp,
      lastOpenedAt := timestamp, taskRef := none, explicitName := requestedName.isSome }

def adoptedRecord (sessionId cwd : Str) (requestedName : Option Str) (sessionFile timestamp : Str)
    (found : Option OpenSessionRecord) : OpenSessionRecord where
  sessionId
  cwd
  name := requestedName.or (truthy (found.bind fun found => if found.explicitName then found.name else none))
  explicitName := requestedName.isSome || found.any (·.explicitName)
  persistence := .materialized sessionFile
  createdAt := (found.map (·.createdAt)).getD timestamp
  lastOpenedAt := timestamp
  taskRef := found.bind (·.taskRef)

/-- The transforms of the updates, with what they have from before the lock. -/
inductive Change where
  | start (sessionId canonicalCwd : Str) (requestedName : Option Str) (observed : Persistence)
    (timestamp : Str)
  | adopt (sessionId canonicalCwd : Str) (requestedName : Option Str) (sessionFile timestamp : Str)
  | close (sessionId : Str) (persistence : Persistence) (source : CloseSource) (timestamp : Str)
  | rename (sessionId name : Str)
  | refresh (sessionId sessionFile : Str)
  | ensureCoordinator (now : Nat) (uuid : Str)
  deriving DecidableEq, Repr

inductive Selected where
  | nothing
  | session (record : OpenSessionRecord)
  | coordinator (record : CoordinatorRecord)
  deriving DecidableEq, Repr

def ensuredCoordinator (manifest : SessionManifest) (now : Nat) (uuid : Str) : CoordinatorRecord :=
  match manifest.coordinator with
  | some record => { record with name := none }
  | none =>
    { sessionId := uuid, cwd := manifest.canonicalCwd, name := none, persistence := .pending,
      createdAt := toISOString now, lastOpenedAt := toISOString now }

def Change.apply (localeCompare : Str → Str → Ordering) (manifest : SessionManifest) :
    Change → Except DomainError (SessionManifest × Selected)
  | .start sessionId canonicalCwd requestedName observed timestamp => do
    let found ← findOpenWorkRecord manifest sessionId
    let selected := startedRecord sessionId canonicalCwd requestedName observed timestamp found
    return (replaceWorkRecord localeCompare manifest (.opened selected), .session selected)
  | .adopt sessionId canonicalCwd requestedName sessionFile timestamp => do
    let found ← findOpenWorkRecord manifest sessionId
    let selected := adoptedRecord sessionId canonicalCwd requestedName sessionFile timestamp found
    return (replaceWorkRecord localeCompare manifest (.opened selected), .session selected)
  | .close sessionId persistence source timestamp =>
    match findRecord manifest sessionId with
    | some (.work (.closed _)) => return (manifest, .nothing)
    | some (.work (.opened found)) =>
      return (replaceWorkRecord localeCompare manifest (.closed { found with
        persistence, closedAt := timestamp, closedBy := source }), .nothing)
    | _ => throw (.notManaged sessionId)
  | .rename sessionId name => do
    let found ← requireOpen manifest sessionId
    let selected := { found with name := some name, explicitName := true }
    return (replaceWorkRecord localeCompare manifest (.opened selected), .session selected)
  | .refresh sessionId sessionFile => do
    let found ← requireOpen manifest sessionId
    let selected := { found with persistence := .materialized sessionFile }
    return (replaceWorkRecord localeCompare manifest (.opened selected), .session selected)
  | .ensureCoordinator now uuid =>
    let current := gcTombstones manifest now
    let selected := ensuredCoordinator current now uuid
    return ({ current with coordinator := some selected }, .coordinator selected)

-- -----
-- Updates
-- -----

structure Updated where
  committed : SessionManifest
  selected : Selected
  deriving DecidableEq, Repr

/-- `(current?.revision ?? 0) + 1` -/
def nextRevision (current : Option SessionManifest) : Number :=
  .ofInt (((current.bind fun manifest => manifest.revision.integer?).getD 0) + 1)

def emptyManifest (canonicalCwd : Str) (now : Nat) : SessionManifest where
  canonicalCwd
  revision := .ofInt 0
  updatedAt := toISOString now
  coordinator := none
  sessions := []

/-- `readUnlocked`, of a file that is there. -/
def readUnlocked (canonicalCwd : Str) (manifest : SessionManifest) :
    Except (CatalogFailure DomainError) SessionManifest := do
  (checkManifest manifest).mapError .semantic
  if manifest.canonicalCwd = canonicalCwd then return manifest
  else throw (.malformed (lit "workspace identity mismatch"))

/-- What an update commits, from what it reads under the lock. -/
def nextManifest (localeCompare : Str → Str → Ordering) (canonicalCwd : Str) (change : Change)
    (durable : Option SessionManifest) (now : Nat) :
    Except (CatalogFailure DomainError) Updated := do
  let current ← durable.mapM (readUnlocked canonicalCwd)
  let (draft, selected) ←
    (change.apply localeCompare (current.getD (emptyManifest canonicalCwd now))).mapError
      fun error => .operationFailure (.domain error)
  let next := { draft with
    canonicalCwd, revision := nextRevision current, updatedAt := toISOString now }
  (checkManifest next).mapError .semantic
  return ⟨next, selected⟩

-- -----
-- Operations
-- -----

inductive Op where
  | identity (cwd : Str)
  | fileExists (path : Str)
  | verify (path sessionId cwd : Str)
  | read (cwd : Str)
  | currentTimeMillis
  | randomUUID
  | update (cwd : Str) (change : Change)
  | bindCurrent (paneId sessionId : Str) (name : Option Str)
  | renameCurrent (paneId sessionId name : Str)
  deriving DecidableEq

abbrev Res : Op → Type
  | .identity _ => Except (CatalogFailure DomainError) Str
  | .fileExists _ => Except Unit Bool
  | .read _ => Except (CatalogFailure DomainError) (Option SessionManifest)
  | .currentTimeMillis => Nat
  | .randomUUID => Str
  | .update .. => Except (CatalogFailure DomainError) Updated
  | .verify .. | .bindCurrent .. | .renameCurrent .. => Except Unit Unit

structure ManagedSession where
  record : OpenSessionRecord
  paneId : Str
  deriving DecidableEq, Repr

inductive Failure where
  | domain (error : DomainError)
  | catalog (failure : CatalogFailure DomainError)
  | sessionFile
  | bindingFailed (session : ManagedSession)
  | windowSyncFailed (session : ManagedSession)
  /-- A record that the types promise is not there. -/
  | defect

abbrev LifecycleM := ExceptT Failure (Prog Op Res)

def attempt {ε α : Type} (answer : Prog Op Res (Except ε α)) (failure : ε → Failure) : LifecycleM α :=
  ExceptT.mk (Except.mapError failure <$> answer)

def unwrapDomain : CatalogFailure DomainError → Failure
  | .operationFailure (.domain error) => .domain error
  | failure => .catalog failure

def currentTimeMillis : Prog Op Res Nat := call Op.currentTimeMillis

def randomUUID : Prog Op Res Str := call Op.randomUUID

def nowIso : Prog Op Res Str := do
  let ms ← currentTimeMillis
  return toISOString ms

def identity (cwd : Str) : LifecycleM Str := attempt (call (Op.identity cwd)) .catalog

def fileExists (path : Str) : LifecycleM Bool :=
  attempt (call (Op.fileExists path)) fun _ => .sessionFile

def verify (path sessionId cwd : Str) : LifecycleM Unit :=
  attempt (call (Op.verify path sessionId cwd)) fun _ => .sessionFile

def update (cwd : Str) (change : Change) : LifecycleM Updated :=
  attempt (call (Op.update cwd change)) unwrapDomain

def read (cwd : Str) : LifecycleM (Option SessionManifest) := attempt (call (Op.read cwd)) .catalog

/-- `selected ?? (findRecord(committed, sessionId) as OpenSessionRecord)` -/
def Updated.record (updated : Updated) (sessionId : Str) : LifecycleM OpenSessionRecord :=
  match updated.selected, findRecord updated.committed sessionId with
  | .session record, _ | _, some (.work (.opened record)) => return record
  | _, _ => throw .defect

inductive Mode where
  | tui | rpc | json | print
  deriving DecidableEq, Repr

structure StartInput where
  mode : Mode
  cwd : Str
  paneId : Option Str
  sessionId : Str
  sessionFile : Option Str
  sessionName : Option Str
  deriving DecidableEq, Repr

def StartInput.requestedName (input : StartInput) : Option Str := truthy (input.sessionName.map trim)

structure Materialization where
  present : Bool
  persistence : Persistence
  deriving DecidableEq, Repr

def materialization (input : StartInput) (cwd : Str) : LifecycleM Materialization :=
  match truthy input.sessionFile with
  | none => return ⟨false, persistenceFor false none⟩
  | some sessionFile => do
    let present ← fileExists sessionFile
    if present then do
      verify sessionFile input.sessionId cwd
      return ⟨true, persistenceFor true (some sessionFile)⟩
    else return ⟨false, persistenceFor false none⟩

def bindSession (session : ManagedSession) : LifecycleM ManagedSession := do
  let record := session.record
  attempt (call (Op.bindCurrent session.paneId record.sessionId
    (if record.explicitName then record.name else none))) fun _ => .bindingFailed session
  return session

/-- The numbers of open and of closed sessions, and the record of an open one. -/
structure SessionStatus where
  current : Option OpenSessionRecord
  opened : Nat
  closed : Nat
  revision : Number
  deriving DecidableEq, Repr

inductive Outcome where
  | managed (session : ManagedSession)
  | unmanaged (reason : Str)
  | closed
  | coordinator (record : CoordinatorRecord)
  | status (status : SessionStatus)
  deriving DecidableEq, Repr

/-- Why a session that is found or not found is not started. -/
def unstartable (existing : Option SessionRecord) (observed : Materialization) : Option Str :=
  match existing with
  | some (.coordinator _) => some (lit "coordinator lifecycle is not enabled")
  | some (.work (.closed _)) => some (lit "session is closed")
  | some (.work (.opened _)) => none
  | none => if observed.present then some (lit "materialized session requires /session-adopt") else none

def start (input : StartInput) : LifecycleM Outcome :=
  if input.mode ≠ .tui then return .unmanaged (lit "not interactive")
  else match truthy input.paneId with
  | none => return .unmanaged (lit "not inside tmux")
  | some paneId => do
    let canonicalCwd ← identity input.cwd
    let observed ← materialization input canonicalCwd
    let current ← read canonicalCwd
    match unstartable (current.bind (findRecord · input.sessionId)) observed with
    | some reason => return .unmanaged reason
    | none => do
      let timestamp ← nowIso
      let updated ← update canonicalCwd
        (.start input.sessionId canonicalCwd input.requestedName observed.persistence timestamp)
      let record ← updated.record input.sessionId
      return .managed (← bindSession ⟨record, paneId⟩)

def adopt (input : StartInput) : LifecycleM Outcome :=
  match decide (input.mode = .tui), truthy input.paneId, truthy input.sessionFile with
  | true, some paneId, some sessionFile => do
    let canonicalCwd ← identity input.cwd
    verify sessionFile input.sessionId canonicalCwd
    let timestamp ← nowIso
    let updated ← update canonicalCwd
      (.adopt input.sessionId canonicalCwd input.requestedName sessionFile timestamp)
    let record ← updated.record input.sessionId
    return .managed (← bindSession ⟨record, paneId⟩)
  | _, _, _ => throw (.domain (.identityConflict input.sessionId
      (lit "adoption requires a materialized interactive session inside tmux")))

/-- What is closed with: the caller's own copy, unless a file has appeared since. -/
def closingPersistence (session : ManagedSession) (sessionFile : Option Str) : LifecycleM Persistence :=
  match session.record.persistence, truthy sessionFile with
  | .pending, some sessionFile => do
    let present ← fileExists sessionFile
    if present then do
      verify sessionFile session.record.sessionId session.record.cwd
      return .materialized sessionFile
    else return .pending
  | persistence, _ => return persistence

def close (session : ManagedSession) (source : CloseSource) (sessionFile : Option Str) :
    LifecycleM Outcome := do
  let persistence ← closingPersistence session sessionFile
  let timestamp ← nowIso
  let _ ← update session.record.cwd (.close session.record.sessionId persistence source timestamp)
  return .closed

def rename (session : ManagedSession) (name : Str) : LifecycleM Outcome :=
  if trim name = [] then throw (.domain (.nameInvalid name))
  else if some (trim name) = session.record.name ∧ session.record.explicitName then
    return .managed session
  else do
    let updated ← update session.record.cwd (.rename session.record.sessionId (trim name))
    let record ← updated.record session.record.sessionId
    let renamed := { session with record }
    attempt (call (Op.renameCurrent session.paneId record.sessionId (trim name)))
      fun _ => .windowSyncFailed renamed
    return .managed renamed

def refreshMaterialization (session : ManagedSession) (sessionFile : Option Str) : LifecycleM Outcome :=
  match session.record.persistence, truthy sessionFile with
  | .pending, some sessionFile => do
    let present ← fileExists sessionFile
    if present then do
      verify sessionFile session.record.sessionId session.record.cwd
      let updated ← update session.record.cwd (.refresh session.record.sessionId sessionFile)
      let record ← updated.record session.record.sessionId
      return .managed { session with record }
    else return .managed session
  | _, _ => return .managed session

def WorkRecord.isOpen : WorkRecord → Bool
  | .opened _ => true
  | .closed _ => false

def statusOf (manifest : SessionManifest) (sessionId : Str) : SessionStatus where
  current :=
    match findRecord manifest sessionId with
    | some (.work (.opened record)) => some record
    | _ => none
  opened := manifest.sessions.countP (WorkRecord.isOpen ·)
  closed := manifest.sessions.countP (!WorkRecord.isOpen ·)
  revision := manifest.revision

def status (cwd sessionId : Str) : LifecycleM Outcome := do
  let manifest ← read cwd
  return .status ((manifest.map (statusOf · sessionId)).getD ⟨none, 0, 0, .ofInt 0⟩)

def ensureCoordinator (cwd : Str) : LifecycleM Outcome := do
  let now ← currentTimeMillis
  let uuid ← randomUUID
  let updated ← update cwd (.ensureCoordinator now uuid)
  match updated.selected, updated.committed.coordinator with
  | .coordinator record, _ | _, some record => return .coordinator record
  | _, none => throw .defect

-- -----
-- Processes
-- -----

inductive Call where
  | start (input : StartInput)
  | adopt (input : StartInput)
  | close (session : ManagedSession) (source : CloseSource) (sessionFile : Option Str)
  | rename (session : ManagedSession) (name : Str)
  | refreshMaterialization (session : ManagedSession) (sessionFile : Option Str)
  | status (cwd sessionId : Str)
  | ensureCoordinator (cwd : Str)
  deriving DecidableEq, Repr

def Call.run : Call → Prog Op Res (Except Failure Outcome)
  | .start input => (Lifecycle.start input).run
  | .adopt input => (Lifecycle.adopt input).run
  | .close session source sessionFile => (Lifecycle.close session source sessionFile).run
  | .rename session name => (Lifecycle.rename session name).run
  | .refreshMaterialization session sessionFile =>
    (Lifecycle.refreshMaterialization session sessionFile).run
  | .status cwd sessionId => (Lifecycle.status cwd sessionId).run
  | .ensureCoordinator cwd => (Lifecycle.ensureCoordinator cwd).run

/-- The durable manifest of each workspace, by its canonical path. -/
abbrev Catalogs := Str → Option SessionManifest

structure Setting where
  localeCompare : Str → Str → Ordering
  /-- The canonical path of a directory. -/
  canonical : Str → Str

/-- An update is committed and answered for, or fails with its result on disk, or
fails without one. -/
def Setting.Updates (S : Setting) (catalogs : Catalogs) (cwd : Str) (change : Change)
    (answer : Except (CatalogFailure DomainError) Updated) (after : Catalogs) : Prop :=
  (∃ failure, answer = .error failure ∧ after = catalogs) ∨
    ∃ now updated, nextManifest S.localeCompare (S.canonical cwd) change (catalogs (S.canonical cwd)) now =
        .ok updated ∧
      after = Function.update catalogs (S.canonical cwd) (some updated.committed) ∧
      (answer = .ok updated ∨ ∃ failure, answer = .error failure)

def Setting.exec (S : Setting) : Exec Op Res Catalogs := fun catalogs o answer after =>
  match o with
  | .update cwd change => S.Updates catalogs cwd change answer after
  | .read cwd => after = catalogs ∧ ∀ manifest, answer = .ok manifest → manifest = catalogs (S.canonical cwd)
  | _ => after = catalogs

def Setting.machine (S : Setting) (ι : Type) : Machine ι Op Res Catalogs :=
  ⟨fun _ => S.exec, fun _ _ => False⟩

end PiEnv.SessionManager.Lifecycle
