import PiEnv.Subagent.Control

/-!
# The runtime of a subagent session

Calls of `startSession` and `shutdownSession` on one runtime object, and the
bodies they put behind one another, from one await to the next. The supervisors
live in a registry of the process; each is a supervisor as in `Control`.
-/

namespace PiEnv.Subagent.SessionRuntime

open Js

-- -----
-- State
-- -----

inductive SubagentSessionState where
  | inactive | active | shuttingDown
  deriving DecidableEq, Repr

/-- What a start gets: the parent session, and the configuration that is loaded
for its directory or resolved without one. -/
structure Context where
  sessionId : Str
  config : Control.Config

structure Supervisor where
  sessionId : Str
  config : Control.Config
  state : Control.State

/-- What `disposeActiveResources` has read at its beginning. -/
structure Resources where
  manager : Option Nat
  runtime : Option Nat
  supervisorSessionId : Option Str
  deriving DecidableEq, Repr

/-- What `disposeActiveResources` waits for. -/
inductive Disposing where
  | manager
  /-- The supervisor that was in the registry, if any. -/
  | supervisor (registered : Option Nat)
  | telemetry
  deriving DecidableEq, Repr

inductive Outcome where
  | resolved (installed : Bool)
  | finished
  | rejected
  deriving DecidableEq, Repr

inductive Phase where
  | queued
  | disposing (resources : Resources) (waitsFor : Disposing)
  | creating
  /-- The factory has answered, the body has not gone on. -/
  | created (nextRuntime : Nat)
  | discarding (nextRuntime : Nat)
  | settled (outcome : Outcome)
  deriving DecidableEq, Repr

/-- A start with its context, or a shutdown. -/
abbrev Kind := Option Context

structure Transition where
  kind : Kind
  generation : Nat
  /-- The transition that was the tail when this one was put behind it. -/
  after : Option Nat
  phase : Phase
  /-- Something that the body waited for has failed. -/
  failed : Bool
  /-- A later call came before this one was settled. -/
  superseded : Bool

structure State where
  telemetryRuntime : Option Nat
  supervisor : Option Nat
  supervisorSessionId : Option Str
  jobs : Option Nat
  sessionState : SubagentSessionState
  lifecycleGeneration : Nat
  transitionTail : Option Nat
  /-- The transitions by their numbers, in the order of the calls. -/
  transitions : List Transition
  /-- The transition that installed what is installed. -/
  installer : Option Nat
  /-- How many telemetry runtimes and job managers have been created. -/
  telemetryRuntimes : Nat
  managers : Nat
  /-- The telemetry runtimes whose disposal was called for. -/
  disposed : List Nat
  supervisors : List Supervisor
  registry : JsMap Str Nat

/-- A new runtime object in a process that may have had others. -/
def initial (supervisors : List Supervisor) (registry : JsMap Str Nat) : State where
  telemetryRuntime := none
  supervisor := none
  supervisorSessionId := none
  jobs := none
  sessionState := .inactive
  lifecycleGeneration := 0
  transitionTail := none
  transitions := []
  installer := none
  telemetryRuntimes := 0
  managers := 0
  disposed := []
  supervisors
  registry

def Phase.isSettled : Phase → Bool
  | .settled _ => true
  | _ => false

/-- The body has begun and is not over. -/
def Phase.isRunning : Phase → Bool
  | .queued | .settled _ => false
  | _ => true

namespace State

def settled (s : State) (i : Nat) : Bool := s.transitions[i]?.any (·.phase.isSettled)

-- -----
-- Calls
-- -----

/-- `startSession` and `shutdownSession`, as far as they run at once. -/
def enqueueTransition (s : State) (kind : Kind) : State :=
  let generation := s.lifecycleGeneration + 1
  let passed := s.transitions.map fun t => { t with superseded := t.superseded || !t.phase.isSettled }
  { s with
    lifecycleGeneration := generation
    sessionState := .shuttingDown
    transitionTail := some s.transitions.length
    transitions := passed ++ [⟨kind, generation, s.transitionTail, .queued, false, false⟩] }

-- -----
-- Bodies
-- -----

def goto (s : State) (i : Nat) (t : Transition) (phase : Phase) : State :=
  { s with transitions := s.transitions.set i { t with phase } }

def settle (s : State) (i : Nat) (t : Transition) (outcome : Outcome) : State :=
  s.goto i t (.settled outcome)

/-- The body begins with `disposeActiveResources`, which calls `manager?.shutdown()`. -/
def begin (s : State) (i : Nat) (t : Transition) : State :=
  s.goto i t (.disposing ⟨s.jobs, s.telemetryRuntime, s.supervisorSessionId⟩ .manager)

def shutdownSupervisor (s : State) (n : Nat) : State :=
  { s with supervisors := s.supervisors.modify n fun v => { v with state := v.state.shutdown } }

/-- `disposeSubagentRunSupervisor`, as far as it runs at once. -/
def callDispose (s : State) (i : Nat) (t : Transition) (resources : Resources) : State :=
  match resources.supervisorSessionId with
  | none => s.goto i t (.disposing resources (.supervisor none))
  | some sessionId =>
    if sessionId = [] then s.goto i t (.disposing resources (.supervisor none))
    else
      match s.registry.get sessionId with
      | none => s.goto i t (.disposing resources (.supervisor none))
      | some n => (s.shutdownSupervisor n).goto i t (.disposing resources (.supervisor (some n)))

/-- What the shutdown of a supervisor came to. -/
def shutdownFailed (s : State) (n : Nat) : Option Bool :=
  s.supervisors[n]?.bind fun v => v.state.history.findSome? fun
    | .shutdownCompleted failed => some failed
    | _ => none

/-- The supervisor leaves the registry if it still is there. -/
def unregister (s : State) (resources : Resources) (n : Nat) : State :=
  match resources.supervisorSessionId with
  | none => s
  | some sessionId =>
    if s.registry.get sessionId = some n then { s with registry := s.registry.delete sessionId }
    else s

/-- The fields are cleared, and the telemetry runtime is disposed of. -/
def clear (s : State) (i : Nat) (t : Transition) (resources : Resources) : State :=
  { s with
    jobs := none
    supervisor := none
    supervisorSessionId := none
    telemetryRuntime := none
    installer := none
    disposed := resources.runtime.toList ++ s.disposed }.goto i t (.disposing resources .telemetry)

/-- The end of a shutdown: its `finally` block. -/
def finishShutdown (s : State) (i : Nat) (t : Transition) (outcome : Outcome) : State :=
  let s :=
    if t.generation = s.lifecycleGeneration then { s with sessionState := .inactive } else s
  s.settle i t outcome

/-- `disposeActiveResources` is over. -/
def afterDisposal (s : State) (i : Nat) (t : Transition) : State :=
  match t.kind with
  | none => s.finishShutdown i t (if t.failed then .rejected else .finished)
  | some _ =>
    if t.failed then s.settle i t .rejected
    else if t.generation ≠ s.lifecycleGeneration then s.settle i t (.resolved false)
    else s.goto i t .creating

/-- `getOrCreateSubagentRunSupervisor` -/
def getOrCreate (s : State) (ctx : Context) : State × Nat :=
  match s.registry.get ctx.sessionId with
  | some n => (s, n)
  | none =>
    let n := s.supervisors.length
    ({ s with
      supervisors := s.supervisors ++ [⟨ctx.sessionId, ctx.config, Control.initial⟩]
      registry := s.registry.set ctx.sessionId n }, n)

/-- What is created for a session is installed. -/
def install (s : State) (i : Nat) (t : Transition) (ctx : Context) (nextRuntime : Nat) : State :=
  let (s, n) := s.getOrCreate ctx
  { s with
    managers := s.managers + 1
    telemetryRuntime := some nextRuntime
    supervisor := some n
    supervisorSessionId := some ctx.sessionId
    jobs := some s.managers
    installer := some i
    sessionState := .active }.settle i t (.resolved true)

/-- The factory has answered: the body looks at the generation again. -/
def afterCreation (s : State) (i : Nat) (t : Transition) (ctx : Context) (nextRuntime : Nat) : State :=
  if t.generation ≠ s.lifecycleGeneration then
    { s with disposed := nextRuntime :: s.disposed }.goto i t (.discarding nextRuntime)
  else s.install i t ctx nextRuntime

/-- What a body waits for is over, with or without success, and the body goes on
to its next await. Nothing fails where there is nothing to wait for. -/
def turn (s : State) (i : Nat) (t : Transition) (succeeded : Bool) : Option State :=
  match t.phase with
  | .queued => if t.after.all s.settled then some (s.begin i t) else none
  | .disposing resources .manager =>
    let t := { t with failed := t.failed || (resources.manager.isSome && !succeeded) }
    some (s.callDispose i t resources)
  | .disposing resources (.supervisor none) => some (s.clear i t resources)
  | .disposing resources (.supervisor (some n)) =>
    match s.shutdownFailed n with
    | none => none
    | some true => some (s.clear i { t with failed := true } resources)
    | some false => some ((s.unregister resources n).clear i t resources)
  | .disposing resources .telemetry =>
    let t := { t with failed := t.failed || (resources.runtime.isSome && !succeeded) }
    some (s.afterDisposal i t)
  | .creating =>
    if succeeded then
      some ({ s with telemetryRuntimes := s.telemetryRuntimes + 1 }.goto i t
        (.created s.telemetryRuntimes))
    else some (s.settle i { t with failed := true } .rejected)
  | .created nextRuntime => t.kind.map fun ctx => s.afterCreation i t ctx nextRuntime
  | .discarding _ =>
    some (if succeeded then s.settle i t (.resolved false)
      else s.settle i { t with failed := true } .rejected)
  | .settled _ => none

def onSupervisor (s : State) (n : Nat) (event : Control.Event) : Option State :=
  if event matches .shutdown then none
  else s.supervisors[n]?.bind fun v =>
    (Control.step v.config v.state event).map fun state =>
      { s with supervisors := s.supervisors.set n { v with state } }

end State

inductive Event where
  | startSession (ctx : Context)
  | shutdownSession
  | turn (transition : Nat) (succeeded : Bool)
  /-- Anything but a shutdown happens on a supervisor. -/
  | supervisor (n : Nat) (event : Control.Event)
  /-- Somebody else asks for the supervisor of a session. -/
  | getOrCreate (ctx : Context)

def step (s : State) : Event → Option State
  | .startSession ctx => some (s.enqueueTransition (some ctx))
  | .shutdownSession => some (s.enqueueTransition none)
  | .turn i succeeded => s.transitions[i]?.bind fun t => s.turn i t succeeded
  | .supervisor n event => s.onSupervisor n event
  | .getOrCreate ctx => some (s.getOrCreate ctx).1

end PiEnv.Subagent.SessionRuntime
