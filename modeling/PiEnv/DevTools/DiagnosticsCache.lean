import PiEnv.Lib.JsMap
import PiEnv.Lib.Json
import PiEnv.Lib.Transitions

/-!
# The diagnostics cache

Publications for each uri, and the waits for them: first for any publication,
then for a revision that outlasts a sleep. Time passes between the steps of a
wait; a history that no step reads keeps what happened.
-/

namespace PiEnv.DevTools.DiagnosticsCache

open Js

inductive DiagnosticSeverity where
  | error | warning | info | hint
  deriving DecidableEq, Repr

structure DiagnosticItem where
  line : Number
  character : Number
  severity : DiagnosticSeverity
  code : Str
  message : Str
  deriving DecidableEq, Repr

/-- Where a fiber in `waitForSettledEffect` is. -/
inductive Stage where
  /-- In `waitForFirstEffect`, registered, until the limit. -/
  | first (limit : Rat)
  | resumed
  /-- In the sleep of the loop; so much of the history is from before it. -/
  | sleeping (deadline : Rat) (revision : Nat) (wakeAt : Rat) (begun : Nat)
  | done
  deriving DecidableEq, Repr

structure Wait where
  uri : Str
  settleMs : Rat
  timeoutMs : Rat
  stage : Stage
  deriving DecidableEq, Repr

inductive Observation where
  | published (uri : Str) (time : Rat)
  | deleted (uri : Str)
  | cleared
  /-- A revision is set down as settled, after this much time without another. -/
  | recorded (uri : Str) (time quietFor : Rat)
  /-- A wait returns because the revision is settled. -/
  | reported (uri : Str) (time settleMs deadline : Rat)
  deriving DecidableEq, Repr

structure State where
  now : Rat
  cache : JsMap Str (List DiagnosticItem)
  waiters : JsMap Str (List Nat)
  revisions : JsMap Str Nat
  settledRevisions : JsMap Str Nat
  waiterCount : Int
  /-- The waits by their numbers. -/
  waits : List Wait
  /-- The last observation is the first. -/
  history : List Observation

def initial : State := ⟨0, .empty, .empty, .empty, .empty, 0, [], []⟩

namespace State

def revision (s : State) (uri : Str) : Nat := (s.revisions.get uri).getD 0

def observe (s : State) (o : Observation) : State := { s with history := o :: s.history }

def setStage (s : State) (i : Nat) (stage : Stage) : State :=
  { s with waits := s.waits.modify i fun w => { w with stage } }

/-- `Deferred.succeed` for each of the waiters. -/
def release (waits : List Wait) (pending : List Nat) : List Wait :=
  waits.mapIdx fun i w => if i ∈ pending then { w with stage := .resumed } else w

def settleWaiters (s : State) (uri : Str) : State :=
  match s.waiters.get uri with
  | none => s
  | some pending =>
    { s with
      waiters := s.waiters.delete uri
      waiterCount := s.waiterCount - pending.length
      waits := release s.waits pending }

def addWaiter (s : State) (uri : Str) (i : Nat) : State :=
  { s with
    waiters := s.waiters.set uri ((s.waiters.get uri).getD [] ++ [i])
    waiterCount := s.waiterCount + 1 }

def removeWaiter (s : State) (uri : Str) (i : Nat) : State :=
  match s.waiters.get uri with
  | none => s
  | some pending =>
    if i ∉ pending then s
    else
      let left := pending.filter (· ≠ i)
      { s with
        waiterCount := s.waiterCount - 1
        waiters := if left.isEmpty then s.waiters.delete uri else s.waiters.set uri left }

def publish (s : State) (uri : Str) (items : List DiagnosticItem) : State :=
  let s := { s with
    cache := s.cache.set uri items
    revisions := s.revisions.set uri (s.revision uri + 1) }
  (s.settleWaiters uri).observe (.published uri s.now)

def delete (s : State) (uri : Str) : State :=
  let s := { s with cache := s.cache.delete uri }.settleWaiters uri
  { s with
    revisions := s.revisions.delete uri
    settledRevisions := s.settledRevisions.delete uri }.observe (.deleted uri)

def clear (s : State) : State :=
  let s := s.waiters.keys.foldl settleWaiters s
  { s with cache := .empty, revisions := .empty, settledRevisions := .empty }.observe .cleared

/-- `waitForSettled`, as far as it runs at once. -/
def wait (s : State) (uri : Str) (settleMs timeoutMs : Rat) : State :=
  let fiber (stage : Stage) : State := { s with waits := s.waits ++ [⟨uri, settleMs, timeoutMs, stage⟩] }
  if s.cache.has uri then fiber .resumed
  else (fiber (.first (s.now + timeoutMs))).addWaiter uri s.waits.length

/-- `settledRevisions.set(uri, revisions.get(uri) ?? 0)` -/
def record (s : State) (uri : Str) (quietFor : Rat) : State :=
  { s with settledRevisions := s.settledRevisions.set uri (s.revision uri) }.observe
    (.recorded uri s.now quietFor)

/-- The head of the loop. -/
def loop (s : State) (i : Nat) (w : Wait) (deadline : Rat) (revision : Nat) : State :=
  if s.now < deadline then
    s.setStage i (.sleeping deadline revision (s.now + w.settleMs) s.history.length)
  else (s.record w.uri 0).setStage i .done

/-- What follows the first publication. -/
def resume (s : State) (i : Nat) (w : Wait) : State :=
  let deadline := s.now + w.timeoutMs
  let revision := s.revision w.uri
  if s.settledRevisions.get w.uri = some revision then
    (s.observe (.reported w.uri s.now w.settleMs deadline)).setStage i .done
  else s.loop i w deadline revision

/-- What follows a sleep. -/
def wake (s : State) (i : Nat) (w : Wait) (deadline : Rat) (revision : Nat) : State :=
  let current := s.revision w.uri
  if current = revision then
    ((s.record w.uri w.settleMs).observe (.reported w.uri s.now w.settleMs deadline)).setStage i .done
  else s.loop i w deadline current

end State

inductive Event where
  | tick (now : Rat)
  | publish (uri : Str) (items : List DiagnosticItem)
  | delete (uri : Str)
  | clear
  | wait (uri : Str) (settleMs timeoutMs : Rat)
  /-- The wait for a first publication times out. -/
  | timeout (i : Nat)
  | resume (i : Nat)
  | wake (i : Nat)
  | interrupt (i : Nat)

def step (s : State) : Event → Option State
  | .tick now => if s.now ≤ now then some { s with now } else none
  | .publish uri items => some (s.publish uri items)
  | .delete uri => some (s.delete uri)
  | .clear => some s.clear
  | .wait uri settleMs timeoutMs => some (s.wait uri settleMs timeoutMs)
  | .timeout i =>
    match s.waits[i]? with
    | some ⟨uri, _, _, .first limit⟩ =>
      if limit ≤ s.now then some ((s.removeWaiter uri i).setStage i .resumed) else none
    | _ => none
  | .resume i =>
    match s.waits[i]? with
    | some ⟨uri, settleMs, timeoutMs, .resumed⟩ => some (s.resume i ⟨uri, settleMs, timeoutMs, .resumed⟩)
    | _ => none
  | .wake i =>
    match s.waits[i]? with
    | some ⟨uri, settleMs, timeoutMs, .sleeping deadline revision wakeAt begun⟩ =>
      if wakeAt ≤ s.now then
        some (s.wake i ⟨uri, settleMs, timeoutMs, .sleeping deadline revision wakeAt begun⟩ deadline revision)
      else none
    | _ => none
  | .interrupt i =>
    match s.waits[i]? with
    | some w => some ((s.removeWaiter w.uri i).setStage i .done)
    | none => none

end PiEnv.DevTools.DiagnosticsCache
