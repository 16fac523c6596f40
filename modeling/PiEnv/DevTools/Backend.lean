import Mathlib.Logic.Function.Basic
import PiEnv.Lib.Json
import PiEnv.Lib.Transitions
import PiEnv.DevTools.DocumentManager

/-!
# A language-server backend

The state of one `LspBackend` and the servers it starts one after the other,
each under a generation. A start, a cleanup and a request are taken up to the
point where they wait; between two steps anything else may happen, and what a
server sends may be handled at any later time.
-/

namespace PiEnv.DevTools.Backend

open Js

abbrev Generation := Nat

-- -----
-- Errors and status
-- -----

inductive LspBackendErrorKind where
  | unavailable | shuttingDown | lookup | startup | cancelled | initialization | request
  | processExit | shutdown | document
  deriving DecidableEq, Repr

structure LspBackendError where
  kind : LspBackendErrorKind
  message : Str
  deriving DecidableEq, Repr

/-- `value.replace(/\s+/g, " ")`; `within` a run of white space. -/
def collapseSpaces (within : Bool) : Str → Str
  | [] => []
  | u :: rest =>
    if isSpace u then
      if within then collapseSpaces true rest else space :: collapseSpaces true rest
    else u :: collapseSpaces false rest

def MAX_STATUS_DETAIL_LENGTH : Nat := 256

def compactStatusDetail (value : Str) : Str :=
  let normalized := trim (collapseSpaces false value)
  if normalized.length ≤ MAX_STATUS_DETAIL_LENGTH then normalized
  else normalized.take (MAX_STATUS_DETAIL_LENGTH - 3) ++ lit "..."

/-- `detail` is the message of the cause. -/
def backendErrorFromCause (kind : LspBackendErrorKind) (prefixed detail : Str) : LspBackendError :=
  ⟨kind, (prefixed ++ lit ": " ++ detail).take 4000⟩

structure SemanticRequestSummary where
  method : Str
  itemCount : Nat
  deriving DecidableEq, Repr

structure SemanticFailureSummary where
  method : Str
  detail : Str
  deriving DecidableEq, Repr

-- -----
-- Messages
-- -----

/-- What a server sends; a field that is absent is `none`. -/
structure LspMessage where
  id : Option Json
  method : Option Json
  params : Option Json
  result : Option Json
  error : Option Json

def truthy : Json → Bool
  | .null => false
  | .bool value => value
  | .num (.finite value) => value ≠ 0
  | .num (.infinite _) => true
  | .num .nan => false
  | .str value => !value.isEmpty
  | .arr _ => true
  | .obj _ => true

/-- The key of a map of numbers that a message's id is, if it is one. -/
def LspMessage.idKey (message : LspMessage) : Option Nat :=
  match message.id with
  | some (.num number) => number.integer?.bind Int.toNat?
  | _ => none

def LspMessage.isPublishDiagnostics (message : LspMessage) : Bool :=
  match message.method with
  | some (.str method) => method = lit "textDocument/publishDiagnostics"
  | _ => false

/-- What is written to the standard input of a server. -/
inductive Written where
  | initializeRequest (id : Nat)
  | initialized
  | request (id : Nat) (method : Str)
  | document (notification : DocumentNotification)
  | didChangeWorkspaceFolders (root : Str)
  | shutdown (id : Nat)
  | exit
  deriving DecidableEq, Repr

def Written.notification? : Written → Option DocumentNotification
  | .document notification => some notification
  | _ => none

-- -----
-- State
-- -----

structure Config where
  name : Str
  binaryName : Str
  /-- The first extension of the backend, without its dot. -/
  extension : Str
  /-- `launchCommand === binaryName` -/
  looksUp : Bool
  documents : Documents
  /-- The text of an error response's code and message. -/
  describeError : Json → Str

structure Resource where
  scope : Bool
  process : Bool
  listeners : Bool
  stderrTail : Str
  deriving DecidableEq, Repr

def emptyResource : Resource := ⟨false, false, false, []⟩

inductive Lifecycle where
  | idle (generation : Generation)
  | unavailable (generation : Generation) (message : Str)
  | starting (generation : Generation) (resource : Resource)
  | running (generation : Generation) (resource : Resource)
  | stopping (generation : Generation) (done : Nat) (resource : Resource) (startup : Bool)
  deriving DecidableEq, Repr

def Lifecycle.generation : Lifecycle → Generation
  | idle generation => generation
  | unavailable generation _ => generation
  | starting generation _ => generation
  | running generation _ => generation
  | stopping generation _ _ _ => generation

structure Pending where
  generation : Generation
  /-- What its timer fails it with. -/
  timeoutError : LspBackendError
  deriving DecidableEq, Repr

/-- Where `startEffect` waits; a start that failed is about to run
`failStartupEffect`. -/
inductive Startup where
  | lookup
  | spawning
  | initializing (id : Nat)
  | failing (error : LspBackendError)
  | ended
  deriving DecidableEq, Repr

inductive CleanupKind where
  /-- `failStartupEffect`, with the message of an unavailable server. -/
  | startup (unavailable : Option Str)
  | reset
  | shutdown
  deriving DecidableEq, Repr

/-- What waits for the resource of a generation it has put into `stopping`. -/
structure Cleanup where
  generation : Generation
  done : Nat
  kind : CleanupKind
  deriving DecidableEq, Repr

/-- A request that was given an id; the one that initializes has no method here. -/
structure Request where
  generation : Generation
  method : Option Str
  /-- Its caller has gone on. -/
  finished : Bool
  deriving DecidableEq, Repr

/-- An `ensureFile` before its document step. -/
structure Caller where
  path : Str
  /-- The start it waits for. -/
  startup : Option Generation
  deriving DecidableEq, Repr

structure State where
  lifecycle : Lifecycle
  nextLspId : Nat
  pendingLsp : JsMap Nat Pending
  initialWorkspaceRoot : Option Str
  semanticAvailable : Bool
  lastSemanticRequest : Option SemanticRequestSummary
  startupFailureDetail : Option Str
  semanticFailure : Option SemanticFailureSummary
  docManager : DocumentManager
  /-- Names a deferred that was never made. -/
  nextDone : Nat
  startups : Generation → Option Startup
  cleanups : List Cleanup
  callers : Nat → Option Caller
  requests : Nat → Option Request
  /-- What each request's deferred was done with, in order. -/
  settlements : Nat → List (Except LspBackendError LspMessage)
  /-- What `ready` of each start was done with. -/
  ready : Generation → Option (Except LspBackendError Unit)
  /-- The listeners of the generation's process are attached. -/
  attached : Generation → Bool
  stdinDestroyed : Generation → Bool
  written : Generation → List Written

def State.initial : State where
  lifecycle := .idle 0
  nextLspId := 1
  pendingLsp := .empty
  initialWorkspaceRoot := none
  semanticAvailable := false
  lastSemanticRequest := none
  startupFailureDetail := none
  semanticFailure := none
  docManager := .empty
  nextDone := 0
  startups := fun _ => none
  cleanups := []
  callers := fun _ => none
  requests := fun _ => none
  settlements := fun _ => []
  ready := fun _ => none
  attached := fun _ => false
  stdinDestroyed := fun _ => false
  written := fun _ => []

/-- The document notifications written to the server of a generation. -/
def State.notified (s : State) (g : Generation) : List DocumentNotification :=
  (s.written g).filterMap Written.notification?

-- -----
-- Sending
-- -----

/-- The generation whose standard input `sendLsp` would write to. -/
def State.sendTarget (s : State) : Option Generation :=
  match s.lifecycle with
  | .starting g resource | .running g resource =>
    if resource.process = true ∧ s.stdinDestroyed g = false then some g else none
  | _ => none

def State.write (s : State) (g : Generation) (message : Written) : State :=
  { s with written := Function.update s.written g (s.written g ++ [message]) }

def State.sendLsp (s : State) (message : Written) : State :=
  match s.sendTarget with
  | some g => s.write g message
  | none => s

/-- `sendLsp` with a generation. -/
def State.sendLspTo (s : State) (generation : Generation) (message : Written) : State :=
  if s.lifecycle.generation = generation then s.sendLsp message else s

-- -----
-- Pending requests
-- -----

/-- An id, its pending entry and what is sent for it. -/
def State.addPending (s : State) (request : Request) (timeoutError : LspBackendError) : State :=
  { s with
    nextLspId := s.nextLspId + 1
    pendingLsp := s.pendingLsp.set s.nextLspId ⟨request.generation, timeoutError⟩
    requests := Function.update s.requests s.nextLspId (some request) }

def State.settle (s : State) (id : Nat) (outcome : Except LspBackendError LspMessage) : State :=
  { s with settlements := Function.update s.settlements id (s.settlements id ++ [outcome]) }

/-- `completePendingEffect` of a generation. -/
def State.completePending (s : State) (id : Nat) (generation : Generation)
    (outcome : Except LspBackendError LspMessage) : State :=
  match s.pendingLsp.get id with
  | none => s
  | some pending =>
    if pending.generation = generation then
      { s with pendingLsp := s.pendingLsp.delete id }.settle id outcome
    else s

def State.failPendings (s : State) (error : LspBackendError) (ids : List Nat) : State :=
  ids.foldl (fun s id => { s with pendingLsp := s.pendingLsp.delete id }.settle id (.error error)) s

/-- `failAllPendingEffect`; without a generation it fails them all. -/
def State.failAllPending (s : State) (error : LspBackendError) (generation : Option Generation) :
    State :=
  s.failPendings error
    ((s.pendingLsp.entries.filter fun entry =>
      generation.all fun g => decide (entry.2.generation = g)).map (·.1))

-- -----
-- Starting
-- -----

def State.resetCaches (s : State) : State := { s with docManager := s.docManager.clear }

def State.resetSemanticState (s : State) : State :=
  { s with semanticAvailable := false, lastSemanticRequest := none, semanticFailure := none }

def State.recordSemanticFailure (s : State) (method detail : Str) : State :=
  { s with
    semanticAvailable := false
    semanticFailure := some ⟨method, compactStatusDetail detail⟩
    lastSemanticRequest := some ⟨method, 0⟩ }

def State.recordSemanticResult (s : State) (method : Str) (itemCount : Nat) : State :=
  { s with
    semanticAvailable := true
    semanticFailure := none
    lastSemanticRequest := some ⟨method, itemCount⟩ }

def State.doneReady (s : State) (g : Generation) (outcome : Except LspBackendError Unit) : State :=
  { s with ready := Function.update s.ready g ((s.ready g).or (some outcome)) }

def State.setStartup (s : State) (g : Generation) (startup : Startup) : State :=
  { s with startups := Function.update s.startups g (some startup) }

def startupCancelled (config : Config) : LspBackendError :=
  ⟨.cancelled, config.name ++ lit " LSP startup cancelled"⟩

def State.isStarting (s : State) (g : Generation) : Bool :=
  match s.lifecycle with
  | .starting generation _ => generation = g
  | _ => false

/-- `installResourceEffect` and what follows it, or a start that is cancelled. -/
def State.whileStarting (config : Config) (s : State) (g : Generation)
    (act : Resource → State) : State :=
  match s.lifecycle with
  | .starting generation resource =>
    if generation = g then act resource else s.setStartup g (.failing (startupCancelled config))
  | _ => s.setStartup g (.failing (startupCancelled config))

/-- Behind the lookup: the scope is installed and the process spawned. -/
def State.spawn (config : Config) (s : State) (g : Generation) : State :=
  s.whileStarting config g fun resource =>
    { s with lifecycle := .starting g { resource with scope := true } }.setStartup g .spawning

/-- `ensureStartedEffect` of an idle backend. -/
def State.start (config : Config) (s : State) (generation : Generation) : State :=
  let g := generation + 1
  let s := { s.resetSemanticState with lifecycle := .starting g emptyResource }
  if config.looksUp then s.setStartup g .lookup else s.spawn config g

def initializeTimedOut (config : Config) : LspBackendError :=
  ⟨.initialization, config.name ++ lit " LSP initialize timed out"⟩

/-- The process is there: it is attached and asked to initialize. -/
def State.initializeServer (config : Config) (s : State) (g : Generation) : State :=
  s.whileStarting config g fun resource =>
    let id := s.nextLspId
    (({ s with
        lifecycle := .starting g { resource with process := true, listeners := true }
        attached := Function.update s.attached g true }.addPending ⟨g, none, false⟩
          (initializeTimedOut config)).sendLspTo g
            (.initializeRequest id)).setStartup g (.initializing id)

/-- The server is initialized: `publishRunningEffect`. -/
def State.publishRunning (config : Config) (s : State) (g : Generation) : State :=
  s.whileStarting config g fun resource =>
    let s := s.sendLspTo g .initialized
    ({ s with lifecycle := .running g resource, startupFailureDetail := none }.doneReady g
      (.ok ())).setStartup g .ended

/-- The lifecycle goes into `stopping`, with what is to wait for the cleanup. -/
def State.stop (s : State) (g : Generation) (resource : Resource) (startup : Bool)
    (kind : CleanupKind) : State :=
  { s with
    lifecycle := .stopping (g + 1) s.nextDone resource startup
    nextDone := s.nextDone + 1
    cleanups := s.cleanups ++ [⟨g, s.nextDone, kind⟩] }

/-- `failStartupEffect` up to the cleanup of what the start owns. -/
def State.failStartup (s : State) (g : Generation) (error : LspBackendError) : State :=
  let s := { s with
    semanticAvailable := false
    startupFailureDetail := some (compactStatusDetail error.message) }
  let s :=
    match s.lifecycle with
    | .starting generation resource =>
      if generation = g then
        let unavailable :=
          if error.kind = LspBackendErrorKind.unavailable then some error.message else none
        (s.stop g resource true (.startup unavailable)).resetCaches
      else s
    | _ => s
  ((s.failAllPending error (some g)).doneReady g (.error error)).setStartup g .ended

-- -----
-- Stopping
-- -----

/-- `failAndResetEffect` up to its cleanup. -/
def State.failAndReset (s : State) (g : Generation) (error : LspBackendError) : State :=
  let s := { s with semanticAvailable := false }
  match s.lifecycle with
  | .starting generation resource =>
    let s := { s with startupFailureDetail := some (compactStatusDetail error.message) }
    if generation = g then
      (((s.stop g resource true .reset).resetCaches).failAllPending error (some g)).doneReady g
        (.error error)
    else s
  | .running generation resource =>
    if generation = g then
      ((s.stop g resource false .reset).resetCaches).failAllPending error (some g)
    else s
  | _ => s

def exitDetail (code : Option Int) (signal : Option Str) : Str :=
  match signal, code with
  | some signal, _ => lit " by " ++ signal
  | none, some code => lit " with code " ++ decimalInt code
  | none, none => []

def State.onProcessExit (config : Config) (s : State) (g : Generation) (code : Option Int)
    (signal : Option Str) : State :=
  match s.lifecycle with
  | .starting generation resource | .running generation resource =>
    if generation = g then
      let stderr := trim resource.stderrTail
      let detail := if stderr.isEmpty then [] else lit ": " ++ stderr
      s.failAndReset g
        ⟨.processExit, config.name ++ lit " LSP exited" ++ exitDetail code signal ++ detail⟩
    else s
  | _ => s

/-- `shutdownEffect` up to its cleanup. -/
def State.shutdown (config : Config) (s : State) : State :=
  let error : LspBackendError := ⟨.shutdown, config.name ++ lit " LSP shutdown"⟩
  match s.lifecycle with
  | .starting g resource =>
    ((s.stop g resource true .shutdown).doneReady g (.error (startupCancelled config))).failAllPending
      error none
  | .running g resource =>
    let stopped := s.stop g resource false .shutdown
    let stopped :=
      if resource.process = true ∧ s.stdinDestroyed g = false then
        ({ stopped with nextLspId := s.nextLspId + 1 }.write g (.shutdown s.nextLspId)).write g .exit
      else stopped
    stopped.failAllPending error none
  | _ => s

/-- What a cleanup does when its resource is released. -/
def State.finishCleanup (s : State) (cleanup : Cleanup) : State :=
  let s := if cleanup.kind = .shutdown then s.resetCaches.resetSemanticState else s
  match s.lifecycle with
  | .stopping _ done _ _ =>
    if done = cleanup.done then
      match cleanup.kind with
      | .startup (some message) =>
        { s with lifecycle := .unavailable (cleanup.generation + 1) message }
      | _ => { s with lifecycle := .idle (cleanup.generation + 1) }
    else s
  | _ => s

-- -----
-- What a server sends
-- -----

def State.isLive (s : State) (g : Generation) : Bool :=
  match s.lifecycle with
  | .starting generation _ | .running generation _ => generation = g
  | _ => false

/-- `onLspMessageEffect`; published diagnostics are not kept here. -/
def State.onLspMessage (config : Config) (s : State) (g : Generation) (message : LspMessage) :
    State :=
  if !s.isLive g then s
  else if message.isPublishDiagnostics then s
  else
    match message.idKey with
    | none => s
    | some id =>
      match message.error with
      | some error =>
        if truthy error then
          s.completePending id g
            (.error ⟨.request, config.name ++ lit " LSP request failed " ++ config.describeError error⟩)
        else s.completePending id g (.ok message)
      | none => s.completePending id g (.ok message)

def State.appendStderr (s : State) (g : Generation) (chunk : Str) : State :=
  let append (resource : Resource) : Resource :=
    let tail := resource.stderrTail ++ chunk
    { resource with stderrTail := tail.drop (tail.length - 4000) }
  match s.lifecycle with
  | .starting generation resource =>
    if generation = g then { s with lifecycle := .starting g (append resource) } else s
  | .running generation resource =>
    if generation = g then { s with lifecycle := .running g (append resource) } else s
  | _ => s

-- -----
-- Documents and requests
-- -----

/-- Notifications sent one after the other. -/
def State.sendDocuments (s : State) (notifications : List DocumentNotification) : State :=
  notifications.foldl (fun s notification => s.sendLsp (.document notification)) s

/-- The document step of `ensureFileEffect`. -/
def State.openDocument (config : Config) (s : State) (path : Str) (content resolved : Option Str) :
    State :=
  let (_, opened, docManager) := s.docManager.ensure config.documents path content resolved
  let s := { s with docManager }
  let s :=
    if opened.isNewRoot = true ∧ s.initialWorkspaceRoot ≠ some opened.projectRoot then
      s.sendLsp (.didChangeWorkspaceFolders opened.projectRoot)
    else s
  let s := s.sendDocuments opened.notification.toList
  let (evicted, docManager) := s.docManager.evict MAX_OPEN_DOCUMENTS
  { s with docManager }.sendDocuments (evicted.map DocumentNotification.didClose)

def State.closeFile (config : Config) (s : State) (path : Str) : State :=
  let (uri, docManager) := s.docManager.close config.documents path
  { s with docManager }.sendDocuments (uri.map DocumentNotification.didClose).toList

def State.ensureStarted (config : Config) (s : State) : State :=
  match s.lifecycle with
  | .idle generation => s.start config generation
  | _ => s

/-- `ensureFileEffect` up to where it waits; it fails at once on a backend that
is stopping or unavailable. -/
def State.ensureFile (config : Config) (s : State) (c : Nat) (path : Str) (resolved : Option Str) :
    State :=
  let (projectRoot, docManager) :=
    s.docManager.getProjectRoot (Posix.resolve config.documents.cwd path) resolved
  let s := { s with docManager }
  let wait (s : State) (startup : Option Generation) : State :=
    { s with callers := Function.update s.callers c (some ⟨path, startup⟩) }
  match s.lifecycle with
  | .idle generation =>
    wait ({ s with initialWorkspaceRoot := some projectRoot }.start config generation)
      (some (generation + 1))
  | .starting generation _ => wait s (some generation)
  | .running _ _ => wait s none
  | _ => s

/-- `lspRequestEffect` up to where it waits. -/
def State.lspRequest (config : Config) (s : State) (method : Str) : State :=
  match s.lifecycle with
  | .running g _ =>
    (s.addPending ⟨g, some method, false⟩
      ⟨.request, config.name ++ lit " LSP request timed out: " ++ method⟩).sendLspTo g
        (.request s.nextLspId method)
  | _ => s

-- -----
-- Steps
-- -----

inductive LookupResult where
  | found
  | missing
  | failed (detail : Str)
  deriving DecidableEq, Repr

inductive Event where
  | ensureStarted
  | lookedUp (g : Generation) (result : LookupResult)
  /-- The process was spawned, or was not for a reason. -/
  | spawned (g : Generation) (failure : Option Str)
  /-- The start goes on with the settled `initialize`. -/
  | initialized (g : Generation)
  | failStartup (g : Generation)
  | cleaned (i : Nat)
  | message (g : Generation) (message : LspMessage)
  | stderr (g : Generation) (chunk : Str)
  | processExit (g : Generation) (code : Option Int) (signal : Option Str)
  | processError (g : Generation) (detail : Str)
  | destroyStdin (g : Generation)
  | shutdown
  | lspRequest (method : Str)
  | timeout (id : Nat)
  /-- A caller goes on with its settled request. -/
  | finishRequest (id : Nat)
  | recordSemanticResult (method : Str) (itemCount : Nat)
  | ensureFile (c : Nat) (path : Str) (resolved : Option Str)
  | openDocument (c : Nat) (content resolved : Option Str)
  | failCaller (c : Nat)
  | closeFile (path : Str)

/-- A missing server. -/
def notInstalled (config : Config) : LspBackendError :=
  ⟨.unavailable, config.name ++ lit " language server (" ++ config.binaryName ++
    lit ") is not installed — ." ++ config.extension ++ lit " language intelligence unavailable"⟩

def State.mayOpen (s : State) (caller : Caller) : Bool :=
  match caller.startup with
  | none => true
  | some g =>
    match s.ready g with
    | some (.ok _) => true
    | _ => false

def step (config : Config) (s : State) : Event → Option State
  | .ensureStarted => some (s.ensureStarted config)
  | .lookedUp g result =>
    match s.startups g with
    | some .lookup =>
      match result with
      | .found => some (s.spawn config g)
      | .missing => some (s.setStartup g (.failing (notInstalled config)))
      | .failed detail =>
        some (s.setStartup g (.failing (backendErrorFromCause .lookup
          (config.name ++ lit " language server lookup failed") detail)))
    | _ => none
  | .spawned g failure =>
    match s.startups g with
    | some .spawning =>
      match failure with
      | none => some (s.initializeServer config g)
      | some detail =>
        some (s.setStartup g (.failing (backendErrorFromCause .startup
          (config.name ++ lit " language server failed to start") detail)))
    | _ => none
  | .initialized g =>
    match s.startups g with
    | some (.initializing id) =>
      match s.settlements id with
      | .ok _ :: _ => some (s.publishRunning config g)
      | .error error :: _ => some (s.setStartup g (.failing error))
      | [] => none
    | _ => none
  | .failStartup g =>
    match s.startups g with
    | some (.failing error) => some (s.failStartup g error)
    | _ => none
  | .cleaned i =>
    match s.cleanups[i]? with
    | some cleanup => some ({ s with cleanups := s.cleanups.eraseIdx i }.finishCleanup cleanup)
    | none => none
  | .message g message => if s.attached g then some (s.onLspMessage config g message) else none
  | .stderr g chunk => if s.attached g then some (s.appendStderr g chunk) else none
  | .processExit g code signal =>
    if s.attached g then some (s.onProcessExit config g code signal) else none
  | .processError g detail =>
    if s.attached g then
      some (s.failAndReset g
        (backendErrorFromCause .processExit (config.name ++ lit " LSP process failed") detail))
    else none
  | .destroyStdin g => some { s with stdinDestroyed := Function.update s.stdinDestroyed g true }
  | .shutdown => some (s.shutdown config)
  | .lspRequest method => some (s.lspRequest config method)
  | .timeout id =>
    match s.pendingLsp.get id with
    | some pending => some (s.completePending id pending.generation (.error pending.timeoutError))
    | none => none
  | .finishRequest id =>
    match s.requests id with
    | some ⟨g, some method, false⟩ =>
      let finished :=
        { s with requests := Function.update s.requests id (some ⟨g, some method, true⟩) }
      match s.settlements id with
      | .ok _ :: _ => some finished
      | .error error :: _ => some (finished.recordSemanticFailure method error.message)
      | [] => none
    | _ => none
  | .recordSemanticResult method itemCount => some (s.recordSemanticResult method itemCount)
  | .ensureFile c path resolved =>
    if s.callers c = none then some (s.ensureFile config c path resolved) else none
  | .openDocument c content resolved =>
    match s.callers c with
    | some caller =>
      if s.mayOpen caller then
        some ({ s with callers := Function.update s.callers c none }.openDocument config caller.path
          content resolved)
      else none
    | none => none
  | .failCaller c =>
    match s.callers c with
    | some _ => some { s with callers := Function.update s.callers c none }
    | none => none
  | .closeFile path => some (s.closeFile config path)

end PiEnv.DevTools.Backend
