import Mathlib.Data.List.Sort
import PiEnv.Subagent.Control

/-!
# Subagent jobs

The manager of one session's jobs. Jobs are numbered in the order of their
starts; a job that is no longer retained is still written by its own run. A run
that is over calls its handler and its release in one turn.
-/

namespace PiEnv.Subagent.Jobs

open Js

-- -----
-- State
-- -----

inductive SubagentJobStatus where
  | queued | running | cancelling | completed | failed | cancelled | interrupted | rejected
  deriving DecidableEq, Repr

def terminal : SubagentJobStatus → Bool
  | .queued | .running | .cancelling => false
  | _ => true

/-- A result may come without a task or a usage. -/
structure SubagentDetails where
  task : Option Str
  usage : Option UsageStats
  sessionFile : Option Str
  errorMessage : Option Str
  finalOutput : Str
  stopReason : Option Str
  isError : Bool
  deriving DecidableEq, Repr

structure SubagentParams where
  name : Option Str
  task : Str
  cwd : Option Str

/-- The text parts of a result, joined, and its details. -/
structure RunResult where
  text : Str
  details : SubagentDetails

/-- What a cause has for its first failure. -/
inductive RunFailure where
  | admission (message : Str)
  | tagged (tag : Str)
  | other
  deriving DecidableEq, Repr

structure SubagentJob where
  name : Str
  task : Str
  cwd : Str
  status : SubagentJobStatus
  latestDetails : Option SubagentDetails
  resultText : Option Str
  resultTruncated : Option Bool
  errorMessage : Option Str
  createdAt : Nat
  finishedAt : Option Nat
  /-- Whether its controller has aborted. -/
  aborted : Bool
  /-- The start signal that its `startSignalCleanup` would leave. -/
  listensTo : Option Nat
  /-- Its run has been forked and is not over. -/
  inFlight : Bool
  /-- How often its `done` has been completed. -/
  completions : Nat
  /-- Every status it has had, the last first. -/
  statuses : List SubagentJobStatus
  deriving DecidableEq, Repr

/-- A call of `settle`: the jobs it knew, those it waits for, whether it resolved. -/
structure Settle where
  known : List Nat
  awaited : List Nat
  resolved : Bool
  deriving DecidableEq, Repr

structure State where
  jobs : List SubagentJob
  /-- The keys of the map of jobs, in its order. -/
  retained : List Nat
  shutdownStarted : Bool
  /-- The settle whose promise a shutdown returns. -/
  shutdownPromise : Option Nat
  settles : List Settle
  abortedSignals : List Nat
  /-- What was appended to the session for each job. -/
  entries : List (Nat × SubagentJob)
  /-- The jobs whose usage was given to the ledger, the last first. -/
  ledgerRecords : List Nat

def initial : State := ⟨[], [], false, none, [], [], [], []⟩

/-- The bounds on texts, and how many terminal jobs are retained. -/
structure Config where
  boundedText : Str → Str × Bool
  boundedTask : Str → Str
  maxRetainedJobs : Nat

-- -----
-- Texts
-- -----

def isAsciiLetter (c : UInt16) : Bool := (65 ≤ c && c ≤ 90) || (97 ≤ c && c ≤ 122)

/-- `/^[A-Za-z][A-Za-z0-9_-]{0,63}$/` -/
def isTag : Str → Bool
  | [] => false
  | first :: rest =>
    isAsciiLetter first && rest.length ≤ 63 &&
      rest.all fun c => isAsciiLetter c || (48 ≤ c && c ≤ 57) || c == 95 || c == 45

def safeJobFailureMessage : RunFailure → Str
  | .admission message => message
  | .tagged tag => if isTag tag then tag else lit "SubagentJobFailed"
  | .other => lit "SubagentJobFailed"

def sanitizeDetails (config : Config) (details : SubagentDetails) (resultText : Str) :
    SubagentDetails :=
  { details with task := details.task.map config.boundedTask, finalOutput := resultText }

def SubagentJob.setStatus (job : SubagentJob) (status : SubagentJobStatus) : SubagentJob :=
  { job with status, statuses := status :: job.statuses }

-- -----
-- Operations
-- -----

variable (config : Config)

namespace State

def put (s : State) (j : Nat) (job : SubagentJob) : State := { s with jobs := s.jobs.set j job }

def record (s : State) (j : Nat) (job : SubagentJob) : State :=
  { s with entries := s.entries ++ [(j, job)] }

def pruneTerminalJobs (s : State) : State :=
  let createdAt (j : Nat) : Nat := (s.jobs[j]?.map (·.createdAt)).getD 0
  let terminalJobs := (s.retained.filter fun j => s.jobs[j]?.any (terminal ·.status)).insertionSort
    fun i j => createdAt i ≤ createdAt j
  let removed := terminalJobs.take (terminalJobs.length - config.maxRetainedJobs)
  { s with retained := s.retained.filter (· ∉ removed) }

/-- `finish`, on a job as its caller has left it. -/
def finish (s : State) (j : Nat) (job : SubagentJob) : State :=
  let job := { job with listensTo := none }
  let s := if job.latestDetails.isSome then { s with ledgerRecords := j :: s.ledgerRecords } else s
  ((s.record j job).put j { job with completions := job.completions + 1 }).pruneTerminalJobs config

def cancel (s : State) (j : Nat) (now : Nat) : State :=
  if j ∈ s.retained then
    match s.jobs[j]? with
    | none => s
    | some job =>
      match job.status with
      | .queued =>
        s.finish config j { job.setStatus .cancelled with
          finishedAt := some now
          errorMessage := some (lit "Cancelled before launch.")
          aborted := true }
      | .running =>
        let job := { job.setStatus .cancelling with aborted := true }
        (s.put j job).record j job
      | _ => s
  else s

/-- The run of a job that is still queued is forked. -/
def fork (s : State) (j : Nat) : State :=
  match s.jobs[j]? with
  | none => s
  | some job => if job.status = .queued then s.put j { job with inFlight := true } else s

/-- The job of a call of `start`, as it is put into the map. -/
def newJob (params : SubagentParams) (ctxCwd : Str) (now : Nat) (rejected : Bool) : SubagentJob :=
  let status := if rejected then SubagentJobStatus.rejected else .queued
  { name := params.name.getD (lit "unnamed")
    task := config.boundedTask params.task
    cwd := params.cwd.getD ctxCwd
    status
    latestDetails := none
    resultText := none
    resultTruncated := none
    errorMessage := if rejected then some (lit "Parent subagent session is shutting down.") else none
    createdAt := now
    finishedAt := if rejected then some now else none
    aborted := false
    listensTo := none
    inFlight := false
    completions := if rejected then 1 else 0
    statuses := [status] }

def add (s : State) (job : SubagentJob) : State :=
  let j := s.jobs.length
  { s with jobs := s.jobs ++ [job], retained := s.retained ++ [j] }.record j job

/-- A job listens for the abort of its start signal, which may have aborted. -/
def listen (s : State) (j : Nat) (signal now : Nat) : State :=
  match s.jobs[j]? with
  | none => s
  | some job =>
    let s := s.put j { job with listensTo := some signal }
    if signal ∈ s.abortedSignals then s.cancel config j now else s

def start (s : State) (params : SubagentParams) (ctxCwd : Str) (signal : Option Nat) (now : Nat) :
    State :=
  let j := s.jobs.length
  let rejected := s.shutdownStarted
  let s := s.add (newJob config params ctxCwd now rejected)
  if rejected then s.pruneTerminalJobs config
  else
    match signal with
    | none => s.fork j
    | some signal => (s.listen config j signal now).fork j

/-- `settle`, as far as it runs at once. -/
def settle (s : State) (now : Nat) : State :=
  let known := s.retained
  let s := known.foldl (fun s j => s.cancel config j now) s
  { s with settles := s.settles ++ [⟨known, s.retained, false⟩] }

def shutdown (s : State) (now : Nat) : State :=
  if s.shutdownPromise.isSome then s
  else
    let s := { s with shutdownStarted := true, shutdownPromise := some s.settles.length }
    s.settle config now

-- -----
-- Runs
-- -----

def onAdmitted (s : State) (j : Nat) (job : SubagentJob) : State :=
  if job.status ≠ .queued then s
  else
    let job := job.setStatus .running
    (s.put j job).record j job

def onUsage (s : State) (j : Nat) (job : SubagentJob) (details : SubagentDetails) : State :=
  s.put j { job with latestDetails := some (sanitizeDetails config details (job.resultText.getD [])) }

end State

def successStatus (job : SubagentJob) (details : SubagentDetails) : SubagentJobStatus :=
  if job.aborted then .cancelled
  else if details.stopReason = some (lit "aborted") then .interrupted
  else if details.isError then .failed
  else .completed

def onSuccess (job : SubagentJob) (result : RunResult) : SubagentJob :=
  if job.status = .cancelled then job
  else
    let bounded := config.boundedText result.text
    let details := result.details
    { job.setStatus (successStatus job details) with
      resultText := some bounded.1
      resultTruncated := some bounded.2
      latestDetails :=
        if details.task.isSome && details.usage.isSome then
          some (sanitizeDetails config details bounded.1)
        else job.latestDetails }

def failureStatus (job : SubagentJob) (failure : RunFailure) : SubagentJobStatus :=
  match failure with
  | .admission _ => if job.aborted then .cancelled else .rejected
  | _ => if job.aborted then .cancelled else .failed

def onFailure (job : SubagentJob) (failure : RunFailure) : SubagentJob :=
  if job.status = .cancelled then job
  else
    { job.setStatus (failureStatus job failure) with
      errorMessage := some (safeJobFailureMessage failure) }

namespace State

/-- The release of a run, on a job as its handler has left it. -/
def release (s : State) (j : Nat) (job : SubagentJob) (now : Nat) : State :=
  if terminal job.status && job.finishedAt.isSome then s.put j job
  else
    let job :=
      if job.status = .running ∨ job.status = .cancelling then
        { job.setStatus .interrupted with
          errorMessage := some (lit "Subagent execution ended without a terminal result.") }
      else job
    s.finish config j { job with finishedAt := some now }

/-- A callback of a run that is in flight. -/
def during (s : State) (j : Nat) (callback : SubagentJob → State) : Option State :=
  s.jobs[j]?.bind fun job => if job.inFlight then some (callback job) else none

end State

inductive Event where
  | start (params : SubagentParams) (ctxCwd : Str) (signal : Option Nat) (now : Nat)
  | signalled (signal : Nat)
  /-- The listener of a job for the abort of its start signal. -/
  | onAbort (j : Nat) (now : Nat)
  | admitted (j : Nat)
  | usage (j : Nat) (details : SubagentDetails)
  | succeeded (j : Nat) (result : RunResult) (now : Nat)
  | failed (j : Nat) (failure : RunFailure) (now : Nat)
  | cancel (j : Nat) (now : Nat)
  | settle (now : Nat)
  | shutdown (now : Nat)
  | settleResolved (settle : Nat)
  /-- A wait for a job returns, interrupted or because the job is done. -/
  | waitReturned (j : Nat) (interrupted : Bool)

def State.isDone (s : State) (j : Nat) : Bool := s.jobs[j]?.any (0 < ·.completions)

def State.listens (s : State) (j : Nat) : Bool :=
  s.jobs[j]?.any fun job => job.listensTo.any (· ∈ s.abortedSignals)

def step (s : State) : Event → Option State
  | .start params ctxCwd signal now => some (s.start config params ctxCwd signal now)
  | .signalled signal => some { s with abortedSignals := signal :: s.abortedSignals }
  | .onAbort j now => if s.listens j then some (s.cancel config j now) else none
  | .admitted j => s.during j fun job => s.onAdmitted j job
  | .usage j details => s.during j fun job => s.onUsage config j job details
  | .succeeded j result now =>
    s.during j fun job => s.release config j { onSuccess config job result with inFlight := false } now
  | .failed j failure now =>
    s.during j fun job => s.release config j { onFailure job failure with inFlight := false } now
  | .cancel j now => some (s.cancel config j now)
  | .settle now => some (s.settle config now)
  | .shutdown now => some (s.shutdown config now)
  | .settleResolved k =>
    s.settles[k]?.bind fun settle =>
      if !settle.resolved && settle.awaited.all s.isDone then
        some { s with settles := s.settles.set k { settle with resolved := true } }
      else none
  | .waitReturned j interrupted => if interrupted || s.isDone j then some s else none

end PiEnv.Subagent.Jobs
