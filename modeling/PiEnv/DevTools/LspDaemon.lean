import PiEnv.DevTools.DaemonSocket
import PiEnv.Lib.JsonText

/-!
# Admission and drain of the daemon

One daemon from its start to the end of its shutdown. Requests are admitted while
it accepts, and run as tasks of their own; a shutdown waits for what is being
acquired and for every task, and then releases what the daemon owns, one
attempt after the other. Each attempt may fail.
-/

namespace PiEnv.DevTools.LspDaemon

open Js
open PiEnv.DevTools.DaemonSocket (Phase)

abbrev ConnId := Nat
abbrev TaskId := Nat

def MAX_BUFFER_BYTES : Nat := 1024 * 1024

inductive Acquisition where
  | scheduled
  /-- `listen` was called. -/
  | listening
  | succeeded
  | failed
  deriving DecidableEq, Repr

inductive Startup where
  | pending
  | resolved
  /-- Before the shutdown it awaits has ended. -/
  | failing
  | rejected
  deriving DecidableEq, Repr

inductive Path where
  | socket | pid
  deriving DecidableEq, Repr

/-- Where the promise of `shutdown` is. -/
inductive Finalizer where
  | acquisition
  | draining
  | ending (visited : List ConnId)
  /-- Backends whose shutdown has not settled. -/
  | backends (remaining : List Nat)
  | destroying (visited : List ConnId)
  | unlinking (paths : List Path)
  | disposing
  | closing
  | settled
  deriving DecidableEq, Repr

/-- What `release` has attempted. -/
inductive Attempt where
  | endSocket (c : ConnId)
  | shutdownBackend (i : Nat)
  | destroy (c : ConnId)
  | closeListener
  | unlink (path : Path)
  | disposeTelemetry
  deriving DecidableEq, Repr

inductive StartAnswer where
  /-- Daemon is stopping or stopped -/
  | rejected
  | startup
  deriving DecidableEq, Repr

structure OwnedResources where
  listener : Bool
  pidPath : Bool
  socketPath : Bool
  deriving DecidableEq, Repr

def OwnedResources.paths (owned : OwnedResources) : List Path :=
  (if owned.socketPath then [.socket] else []) ++ if owned.pidPath then [.pid] else []

structure DaemonRequest where
  id : Number
  action : Str

structure State where
  phase : Phase
  acquisition : Option Acquisition
  startup : Option Startup
  stopping : Option Finalizer
  owned : OwnedResources
  /-- `server.listening` -/
  listening : Bool
  /-- `server.close` has called back. -/
  listenerClosed : Bool
  /-- Connections with their `endAfterDrain`. -/
  connections : List (ConnId × Bool)
  bufs : ConnId → Str
  /-- Every connection that was ever one of `connections`. -/
  accepted : List ConnId
  /-- Connections that have closed. -/
  closed : List ConnId
  destroyed : List ConnId
  ended : List ConnId
  /-- Tasks that have not settled. -/
  tasks : List TaskId
  /-- Every request that was ever admitted. -/
  admitted : List (ConnId × DaemonRequest)
  idleTimer : Bool
  errors : Nat
  attempts : List Attempt
  starts : List StartAnswer
  responses : List (ConnId × Json)

namespace State

def initial : State where
  phase := .closed
  acquisition := none
  startup := none
  stopping := none
  owned := ⟨false, false, false⟩
  listening := false
  listenerClosed := false
  connections := []
  bufs := fun _ => []
  accepted := []
  closed := []
  destroyed := []
  ended := []
  tasks := []
  admitted := []
  idleTimer := false
  errors := 0
  attempts := []
  starts := []
  responses := []

def resetIdleTimer (s : State) : State :=
  if s.phase = .accepting then { s with idleTimer := true } else s

def shutdown (s : State) : State :=
  match s.stopping with
  | some _ => s
  | none => { s with phase := .stopping, idleTimer := false, stopping := some .acquisition }

-- -----
-- Startup
-- -----

def start (s : State) : State :=
  match s.stopping, s.startup with
  | some _, _ => { s with starts := s.starts ++ [.rejected] }
  | none, some _ => { s with starts := s.starts ++ [.startup] }
  | none, none =>
    { s with
      acquisition := some .scheduled
      startup := some .pending
      starts := s.starts ++ [.startup] }

/-- `acquire`, up to the call of `listen`. -/
def acquire (s : State) (writes listens : Bool) : State :=
  match s.stopping with
  | some _ => { s with acquisition := some .failed }
  | none =>
    if writes then
      { s with
        owned := { s.owned with pidPath := true, listener := true }
        acquisition := some (if listens then .listening else .failed) }
    else { s with acquisition := some .failed }

def onListening (s : State) : State :=
  { s with
    owned := { s.owned with socketPath := true }
    listening := true
    acquisition := some .succeeded }

/-- What follows the acquisition in `start`. -/
def settleStartup (s : State) : State :=
  if s.acquisition = some .succeeded ∧ s.stopping = none then
    { s with phase := .accepting, startup := some .resolved }.resetIdleTimer
  else { s with startup := some .failing }.shutdown

-- -----
-- Connections and requests
-- -----

def handleConnection (s : State) (c : ConnId) : State :=
  if s.phase ≠ .accepting then { s with destroyed := c :: s.destroyed }
  else { s with connections := s.connections ++ [(c, false)], accepted := s.accepted ++ [c] }

/-- The request of a line; an error is the text of its response. -/
def parseRequest (line : Str) : Except Str DaemonRequest :=
  match parse (trim line) with
  | none => .error (lit "Invalid request JSON")
  | some value =>
    match value with
    | .obj fields =>
      match field fields (lit "action"), field fields (lit "id") with
      | some (.str action), some (.num (.finite id)) =>
        if trim action = [] then .error (lit "Invalid request envelope")
        else .ok ⟨.finite id, action⟩
      | _, _ => .error (lit "Invalid request envelope")
    | _ => .error (lit "Invalid request envelope")

def errorResponse (id : Number) (message : Str) : Json :=
  .obj [(lit "id", .num id), (lit "ok", .bool false), (lit "error", .str message)]

def writeResponse (s : State) (c : ConnId) (response : Json) : State :=
  if c ∈ s.destroyed ∨ c ∈ s.ended then s
  else { s with responses := s.responses ++ [(c, response)] }

/-- The connection of a request for a shutdown. -/
def endAfterDrain (s : State) (c : ConnId) : State :=
  { s with
    connections := s.connections.map fun connection =>
      if connection.1 = c then (c, true) else connection }

/-- The task of a request that is admitted. -/
def admitRequest (s : State) (c : ConnId) (request : DaemonRequest) : State :=
  { s with tasks := s.tasks ++ [s.admitted.length], admitted := s.admitted ++ [(c, request)] }

def handleRequest (s : State) (c : ConnId) (line : Str) : State :=
  match parseRequest line with
  | .error message => s.writeResponse c (errorResponse (.finite 0) message)
  | .ok request =>
    if s.phase ≠ .accepting then
      s.writeResponse c (errorResponse request.id (lit "Daemon is stopping"))
    else
      let s := s.resetIdleTimer.admitRequest c request
      if request.action = lit "shutdown" then (s.endAfterDrain c).shutdown else s

def handleLines (s : State) (c : ConnId) : List Str → State
  | [] => s
  | line :: lines =>
    (if trim line = [] then s else s.handleRequest c line).handleLines c lines

def handleData (s : State) (c : ConnId) (chunk : Str) : State :=
  let buf := s.bufs c ++ chunk
  if buf.length > MAX_BUFFER_BYTES then
    { s with bufs := Function.update s.bufs c buf, destroyed := c :: s.destroyed }
  else
    let lines := buf.splitOn LF
    { s with bufs := Function.update s.bufs c (lines.getLast?.getD []) }.handleLines c lines.dropLast

/-- A task of an admitted request ends, with its response or an error. -/
def settleTask (s : State) (t : TaskId) (response : Option Json) : State :=
  let s := { s with tasks := s.tasks.filter (· ≠ t) }
  match response, s.admitted[t]? with
  | some response, some (c, _) => s.writeResponse c response
  | _, _ => s

-- -----
-- Release
-- -----

def attempt (s : State) (attempt : Attempt) (fails : Bool) : State :=
  { s with
    attempts := s.attempts ++ [attempt]
    errors := if fails then s.errors + 1 else s.errors }

/-- The next connection of a loop over them. -/
def nextConnection (s : State) (visited : List ConnId) : Option (ConnId × Bool) :=
  s.connections.find? (·.1 ∉ visited)

def shutdownBackends (s : State) (backends : Nat) : State :=
  { s with
    attempts := s.attempts ++ (List.range backends).map .shutdownBackend
    stopping := some (.backends (List.range backends)) }

/-- Behind the loop over the connections, up to the first path. -/
def closeListener (s : State) : State :=
  let s := { s with connections := [] }
  let s := if s.listening then { s with attempts := s.attempts ++ [.closeListener] } else s
  { s with stopping := some (.unlinking s.owned.paths) }

/-- The promise of `shutdown` goes on when what it awaits has settled. -/
def finalize (backends : Nat) (s : State) (fails : Bool) : Option State :=
  match s.stopping with
  | none | some .disposing | some .settled => none
  | some .acquisition =>
    if s.acquisition = some .scheduled ∨ s.acquisition = some .listening then none
    else some { s with stopping := some .draining }
  | some .draining => if s.tasks = [] then some { s with stopping := some (.ending []) } else none
  | some (.ending visited) =>
    match s.nextConnection visited with
    | some (c, true) =>
      some { s.attempt (.endSocket c) fails with
        stopping := some (.ending (c :: visited))
        ended := if fails then s.ended else c :: s.ended }
    | some (c, false) => some { s with stopping := some (.ending (c :: visited)) }
    | none => some (s.shutdownBackends backends)
  | some (.backends remaining) =>
    if remaining = [] then some { s with stopping := some (.destroying []) } else none
  | some (.destroying visited) =>
    match s.nextConnection visited with
    | some (c, _) =>
      some { s.attempt (.destroy c) fails with
        stopping := some (.destroying (c :: visited))
        destroyed := if fails then s.destroyed else c :: s.destroyed }
    | none => some s.closeListener
  | some (.unlinking (path :: paths)) =>
    some { s.attempt (.unlink path) fails with stopping := some (.unlinking paths) }
  | some (.unlinking []) =>
    some { s with attempts := s.attempts ++ [.disposeTelemetry], stopping := some .disposing }
  | some .closing =>
    if s.listening = true ∧ s.listenerClosed = false then none
    else
      some { s with
        stopping := some .settled
        startup := if s.startup = some .failing then some .rejected else s.startup }

end State

-- -----
-- Steps
-- -----

inductive Event where
  | start
  | acquire (writes listens : Bool)
  | onListening
  | failListening
  | settleStartup
  /-- An error of a listener that listens. -/
  | failListener
  | connection (c : ConnId)
  | closeConnection (c : ConnId)
  | destroyConnection (c : ConnId)
  | data (c : ConnId) (chunk : Str)
  | settleTask (t : TaskId) (response : Option Json)
  | idle
  | shutdown
  | finalize (fails : Bool)
  | settleBackend (i : Nat) (fails : Bool)
  | disposeTelemetry (fails : Bool)
  | closedListener (fails : Bool)

/-- What settles outside goes on only where it is awaited. -/
def State.settled (s : State) (next : Finalizer) (fails : Bool) : State :=
  { s with stopping := some next, errors := if fails then s.errors + 1 else s.errors }

def step (backends : Nat) (s : State) : Event → Option State
  | .start => some s.start
  | .acquire writes listens =>
    if s.acquisition = some .scheduled then some (s.acquire writes listens) else none
  | .onListening => if s.acquisition = some .listening then some s.onListening else none
  | .failListening =>
    if s.acquisition = some .listening then some { s with acquisition := some .failed } else none
  | .settleStartup =>
    if s.startup = some .pending ∧ s.acquisition ≠ some .scheduled ∧
        s.acquisition ≠ some .listening then some s.settleStartup
    else none
  | .failListener => if s.listening then some s.shutdown else none
  | .connection c =>
    if s.listening ∧ c ∉ s.accepted ∧ c ∉ s.destroyed then some (s.handleConnection c) else none
  | .closeConnection c =>
    if c ∈ s.accepted ∧ c ∉ s.closed then
      some { s with connections := s.connections.filter (·.1 ≠ c), closed := s.closed ++ [c] }
    else none
  | .destroyConnection c => some { s with destroyed := c :: s.destroyed }
  | .data c chunk =>
    if c ∈ s.accepted ∧ c ∉ s.closed then some (s.handleData c chunk) else none
  | .settleTask t response => if t ∈ s.tasks then some (s.settleTask t response) else none
  | .idle => if s.idleTimer then some s.shutdown else none
  | .shutdown => some s.shutdown
  | .finalize fails => s.finalize backends fails
  | .settleBackend i fails =>
    match s.stopping with
    | some (.backends remaining) =>
      if i ∈ remaining then some (s.settled (.backends (remaining.erase i)) fails) else none
    | _ => none
  | .disposeTelemetry fails =>
    match s.stopping with
    | some .disposing => some (s.settled .closing fails)
    | _ => none
  | .closedListener fails =>
    if .closeListener ∈ s.attempts ∧ s.listenerClosed = false then
      some { s with
        listenerClosed := true
        errors := if fails then s.errors + 1 else s.errors }
    else none

end PiEnv.DevTools.LspDaemon
