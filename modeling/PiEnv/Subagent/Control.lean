import Mathlib.Algebra.Order.Ring.Rat
import PiEnv.Lib.JsMap
import PiEnv.Lib.PosixPath
import PiEnv.Lib.Transitions

/-!
# Admission of subagent runs

The supervisor of one parent session, one call or callback a step. An acquire
has a number, which is also the number of the lease it is granted; a history
that no step reads but the end of a shutdown keeps what happened.
-/

namespace PiEnv.Subagent

open Js Posix

-- -----
-- Usage
-- -----

structure UsageStats where
  input : Rat
  output : Rat
  cacheRead : Rat
  cacheWrite : Rat
  cost : Rat
  turns : Rat
  deriving DecidableEq, Repr

def zeroUsage : UsageStats := ⟨0, 0, 0, 0, 0, 0⟩

def addUsageDelta (total previous next : UsageStats) : UsageStats where
  input := total.input + max 0 (next.input - previous.input)
  output := total.output + max 0 (next.output - previous.output)
  cacheRead := total.cacheRead + max 0 (next.cacheRead - previous.cacheRead)
  cacheWrite := total.cacheWrite + max 0 (next.cacheWrite - previous.cacheWrite)
  cost := total.cost + max 0 (next.cost - previous.cost)
  turns := total.turns + max 0 (next.turns - previous.turns)

-- -----
-- Workspaces
-- -----

/-- What the file system answers; `realpathSync` may throw. -/
structure Disk where
  realpathSync : Str → Option Str
  existsSync : Str → Bool

/-- The loop of `canonicalWorkspaceKey`; each turn shortens the path or ends. -/
def climb (disk : Disk) (resolved : Str) : Nat → Str → Str
  | 0, _ => resolved
  | fuel + 1, current =>
    if disk.existsSync (joinPath current (lit ".git")) then current
    else
      let parent := dirname current
      if parent = current then resolved else climb disk resolved fuel parent

def canonicalWorkspaceKey (disk : Disk) (cwd : Str) : Str :=
  let resolved := (disk.realpathSync cwd).getD cwd
  climb disk resolved (resolved.length + 2) resolved

namespace Control

-- -----
-- State
-- -----

inductive WorkspaceAccess where
  | read | write
  deriving DecidableEq, Repr

inductive Reason where
  | closed | capacity | aborted
  deriving DecidableEq, Repr

structure Config where
  maxConcurrentRuns : Nat
  maxPendingRuns : Nat

/-- A signal is a number; several requests may share one. -/
structure Request where
  runId : Option Str
  cwd : Str
  workspaceAccess : WorkspaceAccess
  signal : Option Nat
  deriving DecidableEq, Repr

structure PendingAdmission where
  acquire : Nat
  runId : Str
  request : Request
  deriving DecidableEq, Repr

structure ActiveRun where
  lease : Nat
  request : Request
  usage : UsageStats
  /-- Whether its controller has aborted. -/
  aborted : Bool
  deriving DecidableEq, Repr

inductive Observation where
  | rejected (acquire : Nat) (reason : Reason)
  | granted (acquire : Nat)
  | released (lease : Nat)
  | shutdownBegan
  | shutdownCompleted (failed : Bool)
  deriving DecidableEq, Repr

structure State where
  active : JsMap Str ActiveRun
  pending : List PendingAdmission
  activeWorkspaceWriters : List Str
  totalUsage : UsageStats
  usageByRun : JsMap Str UsageStats
  closed : Bool
  /-- The signals that have aborted. -/
  abortedSignals : List Nat
  /-- How many acquires there have been. -/
  acquires : Nat
  /-- The run ids of the leases that were granted. -/
  leases : JsMap Nat Str
  /-- The leases a shutdown waits for, once there is one. -/
  awaited : Option (List Nat)
  /-- A run was started under the id of a run that was active. -/
  collided : Bool
  /-- The last observation is the first. -/
  history : List Observation

def initial : State :=
  ⟨.empty, [], [], zeroUsage, .empty, false, [], 0, .empty, none, false, []⟩

def Request.writes (request : Request) (workspace : Str) : Prop :=
  request.workspaceAccess = .write ∧ request.cwd = workspace

instance (request : Request) (workspace : Str) : Decidable (request.writes workspace) :=
  inferInstanceAs (Decidable (_ ∧ _))

namespace State

def observe (s : State) (o : Observation) : State := { s with history := o :: s.history }

def isAborted (s : State) (request : Request) : Bool := request.signal.any (· ∈ s.abortedSignals)

variable (config : Config)

def rejection (s : State) (request : Request) : Option Reason :=
  if s.closed then some .closed
  else if s.isAborted request then some .aborted
  else if s.active.size + s.pending.length ≥ config.maxPendingRuns + config.maxConcurrentRuns then
    some .capacity
  else none

def canStart (s : State) (pending : PendingAdmission) : Bool :=
  if s.active.size ≥ config.maxConcurrentRuns then false
  else
    pending.request.workspaceAccess != .write ||
      pending.request.cwd ∉ s.activeWorkspaceWriters

/-- `start`, and the lease that the acquire is resolved with. -/
def start (s : State) (p : PendingAdmission) : State :=
  { s with
    active := s.active.set p.runId ⟨p.acquire, p.request, zeroUsage, false⟩
    activeWorkspaceWriters :=
      if p.request.workspaceAccess = WorkspaceAccess.write then s.activeWorkspaceWriters.insert p.request.cwd
      else s.activeWorkspaceWriters
    leases := s.leases.set p.acquire p.runId
    collided := s.collided || s.active.has p.runId }.observe (.granted p.acquire)

/-- One turn of the loop in `drain`, or its end. -/
def drainOnce (s : State) : Option State :=
  if s.active.size < config.maxConcurrentRuns then
    match s.pending.find? (s.canStart config) with
    | none => none
    | some p =>
      let rest := { s with pending := s.pending.eraseP (s.canStart config) }
      if s.isAborted p.request then some (rest.observe (.rejected p.acquire .aborted))
      else some (rest.start p)
  else none

/-- Every turn of the loop takes one admission from the queue. -/
def drainLoop : Nat → State → State
  | 0, s => s
  | fuel + 1, s =>
    match s.drainOnce config with
    | none => s
    | some s' => drainLoop fuel s'

def drain (s : State) : State := if s.closed then s else drainLoop config s.pending.length s

/-- `acquire`; `uuid` is the run id of a request without one. -/
def acquire (s : State) (disk : Disk) (request : Request) (uuid : Str) : State :=
  let request := { request with cwd := canonicalWorkspaceKey disk request.cwd }
  let i := s.acquires
  let s := { s with acquires := i + 1 }
  match s.rejection config request with
  | some reason => s.observe (.rejected i reason)
  | none =>
    let p : PendingAdmission := ⟨i, request.runId.getD uuid, request⟩
    { s with pending := s.pending ++ [p] }.drain config

/-- The listener of a pending request for the abort of its signal. -/
def onAbort (s : State) (i : Nat) : State :=
  { s with pending := s.pending.filter (·.acquire ≠ i) }.observe (.rejected i .aborted)

def updateUsage (s : State) (runId : Str) (usage : UsageStats) : State :=
  match s.active.get runId with
  | none => s
  | some run =>
    { s with
      totalUsage := addUsageDelta s.totalUsage run.usage usage
      active := s.active.set runId { run with usage }
      usageByRun := s.usageByRun.set runId usage }

/-- A run is taken out of the map, so none that is in it has been released. -/
def release (s : State) (runId : Str) (usage : Option UsageStats) : State :=
  match s.active.get runId with
  | none => s
  | some run =>
    let s := match usage with
      | none => s
      | some usage => s.updateUsage runId usage
    let s : State := { s with
      active := s.active.delete runId
      activeWorkspaceWriters :=
        if run.request.workspaceAccess = .write then
          s.activeWorkspaceWriters.filter (· ≠ run.request.cwd)
        else s.activeWorkspaceWriters }
    (s.observe (.released run.lease)).drain config

/-- The timer of a run, which its release clears. -/
def deadline (s : State) (runId : Str) : State :=
  match s.active.get runId with
  | none => s
  | some run => { s with active := s.active.set runId { run with aborted := true } }

/-- `shutdown`, as far as it runs at once. -/
def shutdown (s : State) : State :=
  if s.closed then s
  else
    { s with
      closed := true
      pending := []
      active := s.active.mapValues fun run => { run with aborted := true }
      awaited := some (s.active.values.map (·.lease))
      history := s.pending.reverse.map (fun p => .rejected p.acquire .closed) ++
        .shutdownBegan :: s.history }

/-- All the runs that a shutdown waits for have finished. -/
def finished (s : State) : Bool :=
  s.awaited.any fun leases => leases.all fun lease => .released lease ∈ s.history

end State

inductive Event where
  | acquire (disk : Disk) (request : Request) (uuid : Str)
  | signalled (signal : Nat)
  | onAbort (acquire : Nat)
  | updateUsage (lease : Nat) (usage : UsageStats)
  | release (lease : Nat) (usage : Option UsageStats)
  | deadline (runId : Str)
  | shutdown
  /-- The runs and the closes of the children that a shutdown waits for are over. -/
  | shutdownCompleted (failed : Bool)

/-- Whether a request is pending whose signal has aborted. -/
def State.listening (s : State) (i : Nat) : Bool :=
  s.pending.any fun p => p.acquire = i && s.isAborted p.request

def step (config : Config) (s : State) : Event → Option State
  | .acquire disk request uuid => some (s.acquire config disk request uuid)
  | .signalled signal => some { s with abortedSignals := signal :: s.abortedSignals }
  | .onAbort i => if s.listening i then some (s.onAbort i) else none
  | .updateUsage lease usage =>
    (s.leases.get lease).map fun runId => s.updateUsage runId usage
  | .release lease usage => (s.leases.get lease).map fun runId => s.release config runId usage
  | .deadline runId => some (s.deadline runId)
  | .shutdown => some s.shutdown
  | .shutdownCompleted failed =>
    if s.finished && !s.history.any fun o => o matches .shutdownCompleted _ then
      some (s.observe (.shutdownCompleted failed))
    else none

end Control

end PiEnv.Subagent
