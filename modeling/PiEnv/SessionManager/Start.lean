import PiEnv.Lib.Program
import PiEnv.SessionManager.Host
import PiEnv.SessionManager.Launch

/-!
# Starting the coordinator

A process of `pi --start`: it selects the coordinator under the start lock, and
where none is active it becomes one, under the same process id. Programs over
the calls they make; the runtime files are those of one runtime directory.
-/

namespace PiEnv.SessionManager.Start

open Effects Js RuntimeBus Launch
open Host (CurrentWindow)

-- -----
-- Calls
-- -----

inductive RuntimeFile where
  | socket
  | metadata
  | claim
  deriving DecidableEq, Repr

structure SocketInfo where
  isSocket : Bool
  isSymbolicLink : Bool
  isOwned : Bool
  dev : Nat
  ino : Nat
  deriving DecidableEq, Repr

inductive StartOp where
  | mkdir
  | lock
  | release
  | randomUUID
  | readCatalog
  | ensureCoordinator
  | ping (coordinatorSessionId : Str)
  | readFile (file : RuntimeFile)
  | now
  | processAlive (pid : Nat)
  | inspectCurrent (paneId : Nat)
  | access (path : Str)
  | lstat
  | unlink (file : RuntimeFile)
  | writeClaim (text : Str)
  | checkLaunch
  | bindCurrent (paneId : Nat) (sessionId : Str)
  | listen (coordinatorSessionId : Str)
  | chmod
  | writeTemporary (text : Str)
  | renameTemporary (text : Str)
  | unlinkTemporary
  | closeServer
  | reconcile
  | serve
  | shutdownRequested
  | race
  deriving DecidableEq, Repr

/-- What is thrown: the failure of a call with its code, or an error. -/
inductive StartError where
  | errno (code : Errno)
  | error (message : Str)
  deriving DecidableEq, Repr

def StartRes : StartOp → Type
  | .randomUUID => Str
  | .readCatalog => Except StartError (Option CoordinatorRecord)
  | .ensureCoordinator => Except StartError CoordinatorRecord
  | .readFile _ => Except StartError Str
  | .now => Nat
  | .inspectCurrent _ => Except StartError CurrentWindow
  | .lstat => Except StartError SocketInfo
  | .ping _ | .processAlive _ | .shutdownRequested | .race => Bool
  | .serve => Unit
  | _ => Except StartError Unit

abbrev StartProg := Prog StartOp StartRes
abbrev StartM := ExceptT StartError StartProg

section
variable {α : Type}

/-- A call that may throw. -/
def throwing (operation : StartProg (Except StartError α)) : StartM α := ExceptT.mk operation

def readFile (file : RuntimeFile) : StartM Str := throwing (@call StartOp StartRes (.readFile file))

def lstat : StartM SocketInfo := throwing (@call StartOp StartRes .lstat)

def unlink (file : RuntimeFile) : StartM Unit := throwing (@call StartOp StartRes (.unlink file))

def processAlive (pid : Nat) : StartProg Bool := @call StartOp StartRes (.processAlive pid)

def race : StartProg Bool := @call StartOp StartRes .race

def ping (coordinatorSessionId : Str) : StartProg Bool :=
  @call StartOp StartRes (.ping coordinatorSessionId)

def shutdownRequested : StartProg Bool := @call StartOp StartRes .shutdownRequested

/-- `try { body } catch`, where nothing is thrown for a file that is not there. -/
def unlessMissing (body : StartM α) (missing : α) : StartM α :=
  ExceptT.mk do
    match ← body.run with
    | .error (.errno .enoent) => return .ok missing
    | result => return result

end

-- -----
-- Selection
-- -----

structure StartOptions where
  socketPath : Str
  workspaceId : Str
  paneId : Nat
  pid : Nat
  deriving DecidableEq, Repr

structure StartSelection where
  active : Bool
  coordinator : CoordinatorRecord
  launchId : Str
  deriving DecidableEq, Repr

inductive LiveClaim where
  | none
  | starting
  | unresponsive
  deriving DecidableEq, Repr

/-- Two pings at most. -/
def probeCoordinator (coordinator : CoordinatorRecord) : StartProg Bool := do
  if ← ping coordinator.sessionId then return true
  ping coordinator.sessionId

def ClaimState.live : ClaimState → LiveClaim
  | .replaceable => .none
  | .starting => .starting
  | .unresponsive => .unresponsive

/-- What a claim that was read says. -/
def classifyClaim (o : StartOptions) (coordinator : CoordinatorRecord) (text : Str) :
    StartM LiveClaim := do
  let claim ← (parseStartupClaim text).mapError StartError.error
  let now ← @call StartOp StartRes .now
  let state ← (classifyStartupClaim claim o.workspaceId coordinator.sessionId now processAlive :
    StartProg ClaimState)
  return ClaimState.live state

def classifyLiveClaim (o : StartOptions) (coordinator : CoordinatorRecord) : StartM LiveClaim :=
  unlessMissing (do classifyClaim o coordinator (← readFile .claim)) .none

/-- What metadata that was read says. -/
def checkMetadata (o : StartOptions) (coordinator : CoordinatorRecord) (text : Str) :
    StartM Unit := do
  let metadata ← (parseRuntimeMetadata text).mapError StartError.error
  if metadata.workspaceId ≠ o.workspaceId ∨ metadata.coordinatorSessionId ≠ coordinator.sessionId ∨
      metadata.socketPath ≠ o.socketPath then
    throw (.error (lit "RuntimeMetadataMismatch: runtime metadata identity does not match"))
  if ← (processAlive metadata.pid : StartProg Bool) then
    throw (.error (lit "CoordinatorUnresponsive: " ++ coordinator.sessionId ++ lit " process " ++
      decimal metadata.pid ++ lit " is still alive at " ++ o.socketPath))

def assertCoordinatorOffline (o : StartOptions) (coordinator : CoordinatorRecord) :
    StartM Unit := do
  unlessMissing (do checkMetadata o coordinator (← readFile .metadata)) ()
  let currentWindow ← throwing (@call StartOp StartRes (.inspectCurrent o.paneId))
  let coordinatorWindows := currentWindow.bindings.filter (·.sessionId = coordinator.sessionId)
  if coordinatorWindows ≠ [] then
    throw (.error (lit "CoordinatorUnresponsive: " ++ coordinator.sessionId ++ lit " is bound to " ++
      join (lit ", ") (coordinatorWindows.map fun item => lit "@" ++ decimal item.windowId) ++
      lit " at " ++ o.socketPath))

def removeOwnedSocket : StartM Unit :=
  unlessMissing (do
    let before ← lstat
    if !before.isSocket ∨ before.isSymbolicLink ∨ !before.isOwned then
      throw (.error (lit "stale runtime path is not an owned socket"))
    let after ← lstat
    if before.dev ≠ after.dev ∨ before.ino ≠ after.ino then
      throw (.error (lit "runtime socket changed during stale cleanup"))
    unlink .socket) ()

def removeFileIfPresent (file : RuntimeFile) : StartM Unit := unlessMissing (unlink file) ()

/-- Whether nothing says that a coordinator that was there before is still. -/
def assertReplaceable (o : StartOptions) (coordinator : CoordinatorRecord) : StartM Unit := do
  match ← classifyLiveClaim o coordinator with
  | .starting => throw (.error (lit "WorkspaceStartInProgress: the coordinator is still starting"))
  | .unresponsive =>
    throw (.error (lit "CoordinatorUnresponsive: the claimed coordinator process is still alive"))
  | .none => assertCoordinatorOffline o coordinator

def accessSession (coordinator : CoordinatorRecord) : StartM Unit :=
  match coordinator.persistence with
  | .materialized sessionFile => throwing (@call StartOp StartRes (.access sessionFile))
  | .pending => return ()

/-- The runtime files of a coordinator that is gone are replaced by a claim. -/
def claimWorkspace (o : StartOptions) (coordinator : CoordinatorRecord) (launchId : Str) :
    StartM Unit := do
  accessSession coordinator
  removeOwnedSocket
  removeFileIfPresent .metadata
  removeFileIfPresent .claim
  let createdAt ← @call StartOp StartRes .now
  throwing (@call StartOp StartRes (.writeClaim
    (StartupClaim.text ⟨o.workspaceId, coordinator.sessionId, launchId, o.pid, createdAt⟩)))

/-- What is done under the start lock. -/
def selectLocked (o : StartOptions) (launchId : Str) : StartM StartSelection := do
  let current ← throwing (@call StartOp StartRes .readCatalog)
  let coordinator ← throwing (@call StartOp StartRes .ensureCoordinator)
  if current.isSome then
    if ← (probeCoordinator coordinator : StartProg Bool) then
      return ⟨true, coordinator, launchId⟩
    assertReplaceable o coordinator
  claimWorkspace o coordinator launchId
  return ⟨false, coordinator, launchId⟩

def selectCoordinator (o : StartOptions) : StartM StartSelection := do
  throwing (@call StartOp StartRes .mkdir)
  throwing (@call StartOp StartRes .lock)
  let launchId ← @call StartOp StartRes .randomUUID
  ExceptT.mk do
    let result ← (selectLocked o launchId).run
    match ← @call StartOp StartRes .release with
    | .error error => return .error error
    | .ok () => return result

-- -----
-- The coordinator
-- -----

/-- Two calls at once, in either order. -/
def concurrently (first second : StartProg Unit) : StartProg Unit := do
  if ← race then
    first
    second
  else
    second
    first

/-- `unlink(..).catch(() => undefined)` -/
def discard (file : RuntimeFile) : StartProg Unit := do
  let _ ← (unlink file).run
  return ()

/-- The bus on the socket, and the metadata that tells of it, which is written
to a temporary file first. -/
def startRuntimeBus (o : StartOptions) (coordinatorSessionId : Str) : StartM Unit := do
  let runtimeId ← @call StartOp StartRes .randomUUID
  throwing (@call StartOp StartRes (.listen coordinatorSessionId))
  ExceptT.mk do
    let text := RuntimeMetadata.text
      ⟨o.workspaceId, coordinatorSessionId, runtimeId, o.pid, o.socketPath⟩
    let started ← (do
      let socketInfo ← lstat
      if !socketInfo.isSocket ∨ socketInfo.isSymbolicLink ∨ !socketInfo.isOwned then
        throw (.error (lit "bound path is not an owned Unix socket"))
      throwing (@call StartOp StartRes .chmod)
      throwing (@call StartOp StartRes (.writeTemporary text))
      throwing (@call StartOp StartRes (.renameTemporary text)) : StartM Unit).run
    match started with
    | .ok () => return .ok ()
    | .error error =>
      let _ ← @call StartOp StartRes .closeServer
      concurrently (discard .socket) (discard .metadata)
      let _ ← @call StartOp StartRes .unlinkTemporary
      return .error error

def closeBus : StartProg Unit := do
  match ← @call StartOp StartRes .closeServer with
  | .error _ => return ()
  | .ok () => concurrently (discard .socket) (discard .metadata)

/-- Up to the bus: what the claim has to say, and the window of the coordinator. -/
def enterCoordinator (o : StartOptions) (launch : StartSelection) : StartM Unit := do
  throwing (@call StartOp StartRes .checkLaunch)
  match ← throwing (@call StartOp StartRes .readCatalog) with
  | none => throw (.error (lit "durable coordinator identity does not match"))
  | some coordinator =>
    if coordinator.sessionId ≠ launch.coordinator.sessionId then
      throw (.error (lit "durable coordinator identity does not match"))
    let claim ← (parseStartupClaim (← readFile .claim)).mapError StartError.error
    if claim.workspaceId ≠ o.workspaceId ∨ claim.coordinatorSessionId ≠ coordinator.sessionId ∨
        claim.launchId ≠ launch.launchId ∨ claim.pid ≠ o.pid then
      throw (.error (lit "startup claim does not match the coordinator runtime"))
    throwing (@call StartOp StartRes (.bindCurrent o.paneId coordinator.sessionId))
    startRuntimeBus o coordinator.sessionId

/-- From the bus to its end. A shutdown may be asked for before the claim is
gone. -/
def runCoordinator : StartProg Unit := do
  if ← shutdownRequested then
    concurrently (discard .claim) closeBus
  else
    let started ← (do
      unlink .claim
      throwing (@call StartOp StartRes .reconcile) : StartM Unit).run
    match started with
    | .error _ => closeBus
    | .ok () =>
      let () ← @call StartOp StartRes .serve
      closeBus

def startCoordinatorSession (o : StartOptions) (launch : StartSelection) : StartProg Unit := do
  match ← (enterCoordinator o launch).run with
  | .error _ => return ()
  | .ok () => runCoordinator

/-- A process of `pi --start`, through its change of program. -/
def startProcess (o : StartOptions) : StartProg Unit := do
  match ← (selectCoordinator o).run with
  | .error _ => return ()
  | .ok selection =>
    if selection.active then return ()
    startCoordinatorSession o selection

end PiEnv.SessionManager.Start
