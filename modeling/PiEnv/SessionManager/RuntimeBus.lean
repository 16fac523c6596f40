import Mathlib.Logic.Function.Basic
import PiEnv.Lib.JsMap
import PiEnv.Lib.JsonLength
import PiEnv.Lib.Transitions
import PiEnv.SessionManager.RuntimeFrames

/-!
# The runtime bus

Its connections, the table of idempotency keys and the handler runs behind it.
A request that is admitted waits for a promise, writes its response and leaves
the count of its connection; between two of these steps anything else may
happen.
-/

namespace PiEnv.SessionManager.RuntimeBus

open Js Utf8

def MAX_IN_FLIGHT : Nat := 8
def MAX_DEADLINE_AHEAD_MS : Nat := 60000
/-- Entries of the table, and how long each is kept. -/
def MAX_CACHE : Nat := 256
def CACHE_TTL_MS : Nat := 600000

structure Config where
  workspaceId : Str
  coordinatorSessionId : Str
  runtimeId : Str
  generated : uuid runtimeId = true

-- -----
-- Responses
-- -----

structure Failure where
  code : Str
  message : Str
  deriving DecidableEq, Repr

structure Response where
  requestId : Str
  outcome : Except Failure Json

def Response.toJson (config : Config) (response : Response) : Json :=
  .obj ([(lit "version", .num (.ofInt 1)), (lit "type", .str (lit "response")),
    (lit "requestId", .str response.requestId),
    (lit "coordinatorRuntimeId", .str config.runtimeId)] ++
      match response.outcome with
      | .ok result => [(lit "ok", .bool true), (lit "result", result)]
      | .error failure => [(lit "ok", .bool false),
          (lit "error", .obj [(lit "code", .str failure.code), (lit "message", .str failure.message)])])

/-- `writeFrame` takes a frame of so many bytes. -/
def Response.fits (config : Config) (response : Response) : Bool :=
  byteLength (stringify (response.toJson config)) ≤ MAX_FRAME_BYTES

def boundedReason (message : Str) : Str := decode ((encode message).take 2048)

def requestFailed (message : Str) : Failure where
  code :=
    if message = lit "IdempotencyConflict" then lit "IdempotencyConflict" else lit "RequestFailed"
  message := boundedReason message

/-- What is written for a promise that is settled; a result that does not fit is
reported as an error. -/
def answer (config : Config) (requestId : Str) (settled : Except Str Json) : Option Response :=
  let failed (message : Str) : Option Response :=
    let response : Response := ⟨requestId, .error (requestFailed message)⟩
    if response.fits config then some response else none
  match settled with
  | .ok result =>
    let response : Response := ⟨requestId, .ok result⟩
    if response.fits config then some response
    else failed (lit "response frame exceeds 64 KiB")
  | .error message => failed message

-- -----
-- State
-- -----

structure Connection where
  /-- After a protocol error. -/
  closed : Bool
  /-- Nothing can be written any more. -/
  ended : Bool
  inFlight : Nat
  errors : List Response

/-- A run of a handler that a mutating request has started. -/
structure Run where
  idempotencyKey : Str
  digest : Str
  startedAt : Nat
  /-- What its promise is settled with. -/
  outcome : Option (Except Str Json)

structure Entry where
  digest : Str
  expiresAt : Nat
  run : Nat
  deriving DecidableEq, Repr

inductive Promise where
  /-- Of a ping; it is settled at once. -/
  | alive
  | run (j : Nat)
  deriving DecidableEq, Repr

inductive Stage where
  | waiting
  | writing
  | finished
  deriving DecidableEq, Repr

structure Admitted where
  connection : Nat
  requestId : Str
  promise : Promise
  stage : Stage
  responses : List Response

structure State where
  connections : Nat → Option Connection
  cache : JsMap Str Entry
  runs : List Run
  admitted : List Admitted
  /-- When the table was last asked. -/
  now : Nat
  /-- The process has ended on an exception. -/
  crashed : Bool

def State.initial : State := ⟨fun _ => none, .empty, [], [], 0, false⟩

-- -----
-- Requests
-- -----

def ReadyPublication.toJson (publication : ReadyPublication) : Json :=
  .obj [(lit "sessionId", .str publication.sessionId), (lit "runtimeId", .str publication.runtimeId),
    (lit "launchId", .str publication.launchId), (lit "windowId", .str publication.windowId)]

def RuntimeCall.idempotencyKey : RuntimeCall → Option Str
  | .ping => none
  | .reconcile key => some key
  | .publishReady key _ => some key

/-- `JSON.stringify({ method, params })` -/
def RuntimeCall.digest : RuntimeCall → Str
  | .ping => stringify (.obj [(lit "method", .str (lit "ping")), (lit "params", .obj [])])
  | .reconcile _ => stringify (.obj [(lit "method", .str (lit "reconcile")), (lit "params", .obj [])])
  | .publishReady _ params =>
    stringify (.obj [(lit "method", .str (lit "publish-ready")), (lit "params", params.toJson)])

/-- The entries that are not expired. -/
def unexpired (cache : JsMap Str Entry) (now : Nat) : JsMap Str Entry :=
  ⟨cache.entries.filter fun entry => !decide (entry.2.expiresAt ≤ now),
    cache.nodup.sublist (List.filter_sublist.map _)⟩

/-- `cache.delete(cache.keys().next().value)` -/
def dropOldest (cache : JsMap Str Entry) : JsMap Str Entry :=
  match cache.keys with
  | [] => cache
  | key :: _ => cache.delete key

/-- Conflicts throw. -/
inductive Invoked where
  | promise (promise : Promise) (cache : JsMap Str Entry) (runs : List Run)
  | threw (cache : JsMap Str Entry)

def invokeRequest (cache : JsMap Str Entry) (runs : List Run) (call : RuntimeCall) (now : Nat) :
    Invoked :=
  match call.idempotencyKey with
  | none => .promise .alive cache runs
  | some key =>
    let cache := unexpired cache now
    match cache.get key with
    | some existing =>
      if existing.digest ≠ call.digest then .threw cache else .promise (.run existing.run) cache runs
    | none =>
      let started := runs ++ [⟨key, call.digest, now, none⟩]
      let cache := if MAX_CACHE ≤ cache.size then dropOldest cache else cache
      .promise (.run runs.length)
        (cache.set key ⟨call.digest, now + CACHE_TTL_MS, runs.length⟩) started

/-- `deadline <= now` -/
def isAtMost (deadline : Number) (now : Nat) : Bool :=
  match deadline with
  | .finite value => value ≤ now
  | .infinite negative => negative
  | .nan => false

/-- `deadline > now` -/
def isAbove (deadline : Number) (now : Nat) : Bool :=
  match deadline with
  | .finite value => (now : Rat) < value
  | .infinite negative => !negative
  | .nan => false

/-- Why a request is refused whatever else is in flight. -/
def refusal (config : Config) (request : RuntimeRequest) (now : Nat) : Option Failure :=
  if request.workspaceId ≠ config.workspaceId ∨
      request.coordinatorSessionId ≠ config.coordinatorSessionId then
    some ⟨lit "IdentityMismatch", lit "workspace or coordinator identity does not match"⟩
  else if isAtMost request.deadline now || isAbove request.deadline (now + MAX_DEADLINE_AHEAD_MS) then
    some ⟨lit "InvalidDeadline", lit "request deadline is expired or too far ahead"⟩
  else none

def tooManyRequests : Failure :=
  ⟨lit "TooManyRequests", lit "connection has more than eight requests in flight"⟩

def State.setConnection (s : State) (c : Nat) (connection : Connection) : State :=
  { s with connections := Function.update s.connections c (some connection) }

/-- `protocolError` up to its write. -/
def State.protocolError (s : State) (c : Nat) (connection : Connection) (requestId : Str)
    (failure : Failure) : State :=
  s.setConnection c { connection with
    closed := true
    errors := connection.errors ++ [⟨requestId, .error failure⟩] }

def State.acceptRequest (config : Config) (s : State) (c : Nat) (connection : Connection)
    (request : RuntimeRequest) (now : Nat) : State :=
  match refusal config request now with
  | some failure => s.protocolError c connection request.requestId failure
  | none =>
    -- the count goes up before the load is checked
    let connection := { connection with inFlight := connection.inFlight + 1 }
    if connection.inFlight > MAX_IN_FLIGHT then
      s.protocolError c connection request.requestId tooManyRequests
    else
      let s := { s.setConnection c connection with now }
      match invokeRequest s.cache s.runs request.call now with
      | .promise promise cache runs =>
        { s with
          cache
          runs
          admitted := s.admitted ++ [⟨c, request.requestId, promise, .waiting, []⟩] }
      | .threw cache =>
        -- nothing is attached to the promise that was never made
        { s with cache, crashed := true }

/-- A request is refused, which closes its connection, or its promise is made,
or nothing is and the process ends. -/
theorem acceptRequest_cases (config : Config) (s : State) (c : Nat) (connection : Connection)
    (request : RuntimeRequest) (now : Nat) :
    (∃ closed, closed.closed = true ∧ closed.ended = connection.ended ∧
      s.acceptRequest config c connection request now = s.setConnection c closed ∧
      ¬ (refusal config request now = none ∧ connection.inFlight < MAX_IN_FLIGHT)) ∨
    (∃ promise cache runs, invokeRequest s.cache s.runs request.call now = .promise promise cache runs ∧
      s.acceptRequest config c connection request now =
        { s.setConnection c { connection with inFlight := connection.inFlight + 1 } with
          now, cache, runs,
          admitted := s.admitted ++ [⟨c, request.requestId, promise, .waiting, []⟩] } ∧
      refusal config request now = none ∧ connection.inFlight < MAX_IN_FLIGHT) ∨
    (∃ cache, invokeRequest s.cache s.runs request.call now = .threw cache ∧
      s.acceptRequest config c connection request now =
        { s.setConnection c { connection with inFlight := connection.inFlight + 1 } with
          now, cache, crashed := true } ∧
      refusal config request now = none ∧ connection.inFlight < MAX_IN_FLIGHT) := by
  unfold State.acceptRequest
  cases hrefusal : refusal config request now with
  | some failure =>
    exact .inl ⟨{ connection with
      closed := true
      errors := connection.errors ++ [⟨request.requestId, .error failure⟩] }, rfl, rfl, rfl, nofun⟩
  | none =>
    by_cases hload : connection.inFlight + 1 > MAX_IN_FLIGHT
    · simp only [hload, if_true]
      exact .inl ⟨{ connection with
        closed := true
        inFlight := connection.inFlight + 1
        errors := connection.errors ++ [⟨request.requestId, .error tooManyRequests⟩] },
        rfl, rfl, rfl, fun h => absurd h.2 (by omega)⟩
    · have hless : connection.inFlight < MAX_IN_FLIGHT := by omega
      simp only [hload, if_false]
      cases hinvoked : invokeRequest s.cache s.runs request.call now with
      | promise promise cache runs =>
        refine .inr (.inl ⟨promise, cache, runs, rfl, ?_, trivial, hless⟩)
        simp only [State.setConnection, hinvoked]
      | threw cache =>
        refine .inr (.inr ⟨cache, rfl, ?_, trivial, hless⟩)
        simp only [State.setConnection, hinvoked]

-- -----
-- Steps
-- -----

def State.settled (s : State) : Promise → Option (Except Str Json)
  | .alive => some (.ok (.obj [(lit "alive", .bool true)]))
  | .run j => (s.runs[j]?).bind (·.outcome)

inductive Event where
  | connect (c : Nat)
  | request (c : Nat) (request : RuntimeRequest) (now : Nat)
  /-- A frame that is no request. -/
  | invalid (c : Nat) (failure : Failure)
  /-- The error of a connection is written, and its socket ends. -/
  | endSocket (c : Nat)
  /-- The peer is gone, or was idle. -/
  | close (c : Nat)
  | settle (j : Nat) (outcome : Except Str Json)
  /-- The promise of a request is settled, and its response is written. -/
  | respond (i : Nat)
  /-- The write is through: the request is no longer in flight. -/
  | flushed (i : Nat)

def step (config : Config) (s : State) (event : Event) : Option State :=
  if s.crashed then none
  else
    match event with
    | .connect c =>
      match s.connections c with
      | none => some (s.setConnection c ⟨false, false, 0, []⟩)
      | some _ => none
    | .request c request now =>
      match s.connections c with
      | some connection =>
        if connection.closed || connection.ended then none
        else some (s.acceptRequest config c connection request now)
      | none => none
    | .invalid c failure =>
      match s.connections c with
      | some connection =>
        if connection.closed || connection.ended then none
        else some (s.protocolError c connection (lit "unknown") failure)
      | none => none
    | .endSocket c =>
      match s.connections c with
      | some connection =>
        if connection.closed then some (s.setConnection c { connection with ended := true }) else none
      | none => none
    | .close c =>
      match s.connections c with
      | some connection => some (s.setConnection c { connection with ended := true })
      | none => none
    | .settle j outcome =>
      match s.runs[j]? with
      | some run =>
        match run.outcome with
        | none => some { s with runs := s.runs.set j { run with outcome := some outcome } }
        | some _ => none
      | none => none
    | .respond i =>
      match s.admitted[i]? with
      | some request =>
        match request.stage, s.settled request.promise, s.connections request.connection with
        | .waiting, some settled, some connection =>
          some { s with
            admitted := s.admitted.set i { request with
              stage := .writing
              responses :=
                if connection.ended then [] else (answer config request.requestId settled).toList } }
        | _, _, _ => none
      | none => none
    | .flushed i =>
      match s.admitted[i]? with
      | some request =>
        match request.stage, s.connections request.connection with
        | .writing, some connection =>
          some ({ s with admitted := s.admitted.set i { request with stage := .finished } }.setConnection
            request.connection { connection with inFlight := connection.inFlight - 1 })
        | _, _ => none
      | none => none

end PiEnv.SessionManager.RuntimeBus
