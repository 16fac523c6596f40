import PiEnv.DevTools.ClientRequests
import PiEnv.Lib.JsMap
import PiEnv.Lib.JsonText

/-!
# The table of pending requests

One client with any number of calls under way. Responses come in as lines of the
current socket, in whatever chunks; sockets fail, close and are replaced, timers
fire, and the client is closed. A line that is dispatched may resume a call
before the next line is.
-/

namespace PiEnv.DevTools.LspClient

open Js
open PiEnv.DevTools.ClientRequests (LspAction Attempt CallId)

abbrev Socket := Nat

inductive LspClientError where
  | clientClosed (message : Str)
  | connectionUnavailable (message : Str)
  | requestTimeout (action : LspAction) (message : Str)
  | clientTransport (message : Str)
  deriving DecidableEq, Repr

def actionText : LspAction → Str
  | .diagnostics => lit "diagnostics"
  | .hover => lit "hover"
  | .definition => lit "definition"
  | .implementation => lit "implementation"
  | .references => lit "references"
  | .rename => lit "rename"
  | .incomingCalls => lit "incoming-calls"
  | .outgoingCalls => lit "outgoing-calls"
  | .symbols => lit "symbols"
  | .status => lit "status"
  | .shutdown => lit "shutdown"

def timeoutError (action : LspAction) : LspClientError :=
  .requestTimeout action (lit "LSP request timed out: " ++ actionText action)

def closeError : LspClientError := .clientClosed (lit "Client closed")

def socketClosed : LspClientError := .clientTransport (lit "Socket closed")

/-- How a deferred was done; a response has the socket it came from. -/
inductive Completion where
  | response (socket : Socket) (value : Json)
  | failure (error : LspClientError)

/-- How the request of an id settled. -/
inductive Settlement where
  | completed (completion : Completion)
  | timedOut
  | interrupted
  /-- `socket.write` threw. -/
  | notWritten (error : LspClientError)

inductive Call where
  | idle
  /-- In `ensureConnectedEffect`. -/
  | connecting (attempt : Attempt)
  /-- Registered under an id; how the deferred was done, once it is. -/
  | waiting (attempt : Attempt) (id : Nat) (deferred : Option Completion)
  /-- Before the release of its registration. -/
  | releasing (attempt : Attempt) (id : Nat) (settlement : Settlement)
  | settled (completion : Completion)
  | interrupted
  /-- `removeStaleArtifact` threw. -/
  | died

structure State where
  socket : Option Socket
  destroyed : List Socket
  /-- An entry is the deferred of that id that a call made. -/
  pendingRequests : JsMap Nat CallId
  nextId : Nat
  buf : Str
  closed : Bool
  calls : CallId → Call
  /-- The lines `onSocketData` has not dispatched yet. -/
  reading : Option (Socket × List Str)
  /-- The ids of the requests written to each socket. -/
  written : List (Socket × Nat)
  settlements : List (Nat × Settlement)

namespace State

def initial : State :=
  ⟨none, [], JsMap.empty, 1, [], false, fun _ => .idle, none, [], []⟩

def setCall (s : State) (c : CallId) (call : Call) : State :=
  { s with calls := Function.update s.calls c call }

-- -----
-- Deferreds
-- -----

/-- A deferred is done once. -/
def complete (completion : Completion) (id : Nat) : Call → Call
  | .waiting attempt id' none =>
    if id' = id then .waiting attempt id (some completion) else .waiting attempt id' none
  | call => call

/-- `Deferred.succeed` or `Deferred.fail`. -/
def completeDeferred (s : State) (completion : Completion) (id : Nat) (c : CallId) : State :=
  s.setCall c (complete completion id (s.calls c))

def settlePending (s : State) (error : LspClientError) : State :=
  s.pendingRequests.entries.foldl (fun s entry => s.completeDeferred (.failure error) entry.1 entry.2)
    { s with pendingRequests := JsMap.empty }

def destroy (s : State) (socket : Socket) : State := { s with destroyed := socket :: s.destroyed }

def teardownSocket (s : State) (socket : Socket) (error : LspClientError) (destroy : Bool) : State :=
  if s.socket = some socket then
    let s := { s with socket := none, buf := [] }
    (if destroy then s.destroy socket else s).settlePending error
  else s

def discardStaleSocket (s : State) (error : LspClientError) : State :=
  match s.socket with
  | some socket => s.teardownSocket socket error true
  | none => s

def close (s : State) : State :=
  if s.closed then s
  else
    let s := { s with closed := true }
    match s.socket with
    | some socket => s.teardownSocket socket closeError true
    | none => s.settlePending closeError

def setupSocket (s : State) (socket : Socket) : State :=
  let s := match s.socket with
    | some other =>
      if other = socket then s
      else s.teardownSocket other (.clientTransport (lit "Socket replaced")) true
    | none => s
  { s with socket := some socket, buf := [] }

/-- `onConnect` -/
def onConnect (s : State) (socket : Socket) : State :=
  if s.closed then s.destroy socket else s.setupSocket socket

-- -----
-- Responses
-- -----

/-- `response.id` as a key; reading it from null or undefined throws. -/
def responseId (value : Json) : Option Nat :=
  match value with
  | .obj fields =>
    match field fields (lit "id") with
    | some (.num number) =>
      match number.integer? with
      | some (.ofNat id) => some id
      | _ => none
    | _ => none
  | _ => none

def parseResponse (line : Str) : Option Json :=
  let trimmed := trim line
  if trimmed = [] then none else parse trimmed

def dispatch (s : State) (socket : Socket) (line : Str) : State :=
  match (parseResponse line).bind fun value => (responseId value).map (·, value) with
  | none => s
  | some (id, value) =>
    match s.pendingRequests.get id with
    | none => s
    | some c =>
      { s with pendingRequests := s.pendingRequests.delete id }.completeDeferred
        (.response socket value) id c

/-- The lines of a chunk, before the first of them is dispatched. -/
def onSocketData (s : State) (socket : Socket) (chunk : Str) : State :=
  if s.socket = some socket then
    let lines := (s.buf ++ chunk).splitOn LF
    { s with buf := lines.getLast?.getD [], reading := some (socket, lines.dropLast) }
  else s

-- -----
-- Calls
-- -----

/-- What `requestEffect` does when a `doRequestEffect` fails. -/
def failAttempt (s : State) (c : CallId) (attempt : Attempt) (error : LspClientError)
    (removes : Bool) : State :=
  match attempt, error with
  | .first, .requestTimeout _ _ => s.setCall c (.connecting .second)
  | .second, .requestTimeout _ _ =>
    if removes then (s.setCall c (.settled (.failure error))).discardStaleSocket error
    else s.setCall c .died
  | _, _ => s.setCall c (.settled (.failure error))

/-- `registerRequestEffect`; `socket.write` may throw. -/
def registerRequest (s : State) (c : CallId) (attempt : Attempt) (writes : Bool)
    (cause : LspClientError) : State :=
  if s.closed then s.failAttempt c attempt closeError true
  else
    match s.socket with
    | none => s.failAttempt c attempt socketClosed true
    | some socket =>
      if socket ∈ s.destroyed then s.failAttempt c attempt socketClosed true
      else
        let id := s.nextId
        let s := { s with nextId := id + 1 }
        if writes then
          { s with
            pendingRequests := s.pendingRequests.set id c
            written := s.written ++ [(socket, id)] }.setCall c (.waiting attempt id none)
        else
          { s with settlements := s.settlements ++ [(id, Settlement.notWritten cause)] }.failAttempt c attempt
            cause true

/-- The race of a deferred and its timer is decided. -/
def settle (s : State) (c : CallId) (attempt : Attempt) (id : Nat) (settlement : Settlement) :
    State :=
  { s with settlements := s.settlements ++ [(id, settlement)] }.setCall c
    (.releasing attempt id settlement)

def releaseRequest (s : State) (c : CallId) (id : Nat) : State :=
  if s.pendingRequests.get id = some c then
    { s with pendingRequests := s.pendingRequests.delete id }
  else s

/-- A call goes on with how its request settled. -/
def proceed (actionOf : CallId → LspAction) (s : State) (c : CallId) (attempt : Attempt)
    (settlement : Settlement) (removes : Bool) : State :=
  match settlement with
  | .completed (.response socket value) => s.setCall c (.settled (.response socket value))
  | .completed (.failure error) => s.failAttempt c attempt error removes
  | .timedOut => s.failAttempt c attempt (timeoutError (actionOf c)) removes
  | .interrupted => s.setCall c .interrupted
  | .notWritten error => s.failAttempt c attempt error removes

end State

-- -----
-- Steps
-- -----

inductive Event where
  | requestEffect (c : CallId)
  | failConnection (c : CallId) (error : LspClientError)
  | register (c : CallId) (writes : Bool) (cause : LspClientError)
  /-- A call sees that its deferred is done. -/
  | resume (c : CallId)
  | timeout (c : CallId)
  | interrupt (c : CallId)
  | release (c : CallId) (removes : Bool)
  | connect (socket : Socket)
  | data (socket : Socket) (chunk : Str)
  /-- The next line of the chunk that is being read, or its end. -/
  | line
  /-- `onSocketError` -/
  | socketError (socket : Socket) (error : LspClientError)
  /-- `onSocketClose` -/
  | socketClose (socket : Socket)
  /-- A socket is destroyed before it says so. -/
  | destroy (socket : Socket)
  | close

/-- What comes from outside while no chunk is being read. -/
def State.whenIdle (s : State) (next : State) : Option State :=
  if s.reading.isNone then some next else none

def step (actionOf : CallId → LspAction) (s : State) : Event → Option State
  | .requestEffect c =>
    match s.calls c with
    | .idle => some (s.setCall c (.connecting .first))
    | _ => none
  | .failConnection c error =>
    match s.calls c with
    | .connecting attempt => some (s.failAttempt c attempt error true)
    | _ => none
  | .register c writes cause =>
    match s.calls c with
    | .connecting attempt => some (s.registerRequest c attempt writes cause)
    | _ => none
  | .resume c =>
    match s.calls c with
    | .waiting attempt id (some completion) => some (s.settle c attempt id (.completed completion))
    | _ => none
  | .timeout c =>
    match s.calls c with
    | .waiting attempt id _ => s.whenIdle (s.settle c attempt id .timedOut)
    | _ => none
  | .interrupt c =>
    match s.calls c with
    | .connecting _ => some (s.setCall c .interrupted)
    | .waiting attempt id _ => some (s.settle c attempt id .interrupted)
    | _ => none
  | .release c removes =>
    match s.calls c with
    | .releasing attempt id settlement =>
      some ((s.releaseRequest c id).proceed actionOf c attempt settlement removes)
    | _ => none
  | .connect socket => s.whenIdle (s.onConnect socket)
  | .data socket chunk => s.whenIdle (s.onSocketData socket chunk)
  | .line =>
    match s.reading with
    | some (socket, line :: lines) =>
      some ({ s with reading := some (socket, lines) }.dispatch socket line)
    | some (_, []) => some { s with reading := none }
    | none => none
  | .socketError socket error => s.whenIdle (s.teardownSocket socket error true)
  | .socketClose socket => s.whenIdle (s.teardownSocket socket socketClosed false)
  | .destroy socket => s.whenIdle (s.destroy socket)
  | .close => some s.close

end PiEnv.DevTools.LspClient
