import Mathlib.Logic.Function.Basic
import PiEnv.Lib.JsString
import PiEnv.Lib.Transitions

/-!
# The heavyweight lock

Calls of `acquireHeavyweightLock` in any number of processes, one file system
call or liveness check a step. A path means whatever is there at the step. A
log keeps what was taken away from lock directories.
-/

namespace PiEnv.Scripts.HeavyweightLock

open Js

-- -----
-- State
-- -----

structure Owner where
  token : Str
  pid : Nat
  deriving DecidableEq, Repr

/-- What one call got: its process, its token and the token in its environment. -/
structure Settings where
  pid : Nat
  token : Str
  inheritedToken : Option Str

def Settings.owner (settings : Settings) : Owner := ⟨settings.token, settings.pid⟩

/-- `inheritedToken && owner?.token === inheritedToken` -/
def Settings.inherits (settings : Settings) (owner : Owner) : Bool :=
  owner.token ≠ [] && settings.inheritedToken == some owner.token

/-- A lock directory. No step reads who made it and what was published in it,
which stays when the owner file is unlinked. -/
structure LockDir (ι : Type) where
  creator : ι
  published : Option Owner
  owner : Option Owner
  /-- The tokens of the files `owner.json.<token>.tmp`. -/
  temporaries : List Str
  deriving DecidableEq, Repr

inductive Entry where
  | owner
  | temporary (token : Str)
  deriving DecidableEq, Repr

/-- How far an `rm(path, { recursive: true, force: true })` is. -/
inductive Removal where
  | listing
  | unlinking (names : List Entry)
  deriving DecidableEq, Repr

/-- The call that `tryCreateLease` makes next. -/
inductive Creating where
  | mkdir | writeFile | rename | rm (removal : Removal)
  deriving DecidableEq, Repr

/-- The call that `recoverStaleLease` makes next; the last is its `finally`. -/
inductive Recovering where
  | mkdir
  | readOwner
  | isPidAlive (found : Owner)
  | rename (found : Owner)
  | rm (removal : Removal)
  | unguard (outcome : Option Bool)
  deriving DecidableEq, Repr

inductive LockError where
  | aborted
  | timedOut (holder : Option Nat)
  | system
  deriving DecidableEq, Repr

inductive Stage where
  | idle
  | creating (next : Creating)
  | readOwner
  | isPidAlive (owner : Owner)
  | recovering (owner : Owner) (next : Recovering)
  | waiting (owner : Option Owner)
  | holding (inherited : Bool)
  | releasing
  | removing (removal : Removal)
  | released
  | rejected (error : LockError)
  deriving DecidableEq, Repr

inductive Operation where
  | cleanup | recovery | discard | release
  deriving DecidableEq, Repr

/-- A directory as it was when something was taken away from it or when it was
taken away itself, and whether the process published in it was alive. -/
structure Change (ι : Type) where
  operation : Operation
  call : ι
  dir : LockDir ι
  ownerAlive : Bool
  deriving DecidableEq, Repr

structure State (ι : Type) where
  alive : Nat → Bool
  lock : Option (LockDir ι)
  /-- The recovery guard, by the call that made it. -/
  recovery : Option ι
  /-- The directories `<lock>.stale-<token>`. -/
  stale : Str → Option (LockDir ι)
  stage : ι → Stage
  log : List (Change ι)

def initial {ι : Type} : State ι := ⟨fun _ => true, none, none, fun _ => none, fun _ => .idle, []⟩

section
variable {ι : Type}

def LockDir.entries (dir : LockDir ι) : List Entry :=
  (if dir.owner.isSome then [.owner] else []) ++ dir.temporaries.map .temporary

def LockDir.unlink (dir : LockDir ι) : Entry → LockDir ι
  | .owner => { dir with owner := none }
  | .temporary token => { dir with temporaries := dir.temporaries.filter (· ≠ token) }

def LockDir.write (dir : LockDir ι) (token : Str) : LockDir ι :=
  { dir with temporaries := token :: dir.temporaries.filter (· ≠ token) }

def LockDir.publish (dir : LockDir ι) (owner : Owner) : LockDir ι :=
  { dir.unlink (.temporary owner.token) with owner := some owner, published := some owner }

namespace State

def readOwner (s : State ι) : Option Owner := s.lock.bind (·.owner)

def change (s : State ι) (operation : Operation) (call : ι) (dir : LockDir ι) : Change ι :=
  ⟨operation, call, dir, dir.published.any fun owner => s.alive owner.pid⟩

variable [DecidableEq ι]

/-- The log after an operation has left `after` of what was there before. -/
def taken (s : State ι) (operation : Operation) (c : ι) (before after : Option (LockDir ι)) :
    List (Change ι) :=
  if after = before then s.log else (before.map (s.change operation c)).toList ++ s.log

def goto (s : State ι) (c : ι) (stage : Stage) : State ι :=
  { s with stage := Function.update s.stage c stage }

end State

-- -----
-- Removing a directory
-- -----

/-- What is next in a removal; nothing is next when it is over or has thrown. -/
inductive RemovalResult where
  | going (removal : Removal)
  | over
  | threw

/-- The next call of a removal, on what is at the path now. -/
def Removal.advance (dir : Option (LockDir ι)) : Removal → Option (LockDir ι) × RemovalResult
  | .listing =>
    match dir with
    | none => (none, .over)
    | some d => (some d, .going (.unlinking d.entries))
  | .unlinking (entry :: rest) => (dir.map (·.unlink entry), .going (.unlinking rest))
  | .unlinking [] =>
    match dir with
    | none => (none, .over)
    | some d => if d.entries = [] then (none, .over) else (some d, .threw)

-- -----
-- Steps
-- -----

variable [DecidableEq ι] (settings : ι → Settings)

namespace State

/-- A removal at the path of the lock. -/
def removeLock (s : State ι) (operation : Operation) (c : ι) (removal : Removal)
    (onto : RemovalResult → Stage) : State ι :=
  let (lock, result) := removal.advance s.lock
  { s with lock, log := s.taken operation c s.lock lock }.goto c (onto result)

def tryCreateLease (s : State ι) (c : ι) : Creating → State ι
  | .mkdir =>
    match s.lock with
    | some _ => s.goto c .readOwner
    | none => { s with lock := some ⟨c, none, none, []⟩ }.goto c (.creating .writeFile)
  | .writeFile =>
    match s.lock with
    | some dir =>
      { s with lock := some (dir.write (settings c).token) }.goto c (.creating .rename)
    | none => s.goto c (.creating (.rm .listing))
  | .rename =>
    match s.lock with
    | some dir =>
      if (settings c).token ∈ dir.temporaries then
        { s with lock := some (dir.publish (settings c).owner) }.goto c (.holding false)
      else s.goto c (.creating (.rm .listing))
    | none => s.goto c (.creating (.rm .listing))
  | .rm removal =>
    s.removeLock .cleanup c removal fun
      | .going removal => .creating (.rm removal)
      | .over | .threw => .rejected .system

/-- A directory is renamed to a name that is free or an empty directory's. -/
def renameStale (s : State ι) (c : ι) (owner : Owner) : State ι :=
  match s.lock with
  | none => s.goto c (.recovering owner (.unguard (some false)))
  | some dir =>
    if (s.stale (settings c).token).all fun there => there.entries = [] then
      { s with
        lock := none
        stale := Function.update s.stale (settings c).token (some dir)
        log := s.change .recovery c dir :: s.log }.goto c (.recovering owner (.rm .listing))
    else s.goto c (.recovering owner (.unguard none))

def removeStale (s : State ι) (c : ι) (removal : Removal) (onto : RemovalResult → Stage) : State ι :=
  let token := (settings c).token
  let (dir, result) := removal.advance (s.stale token)
  { s with
    stale := Function.update s.stale token dir
    log := s.taken .discard c (s.stale token) dir }.goto c (onto result)

def recoverStaleLease (s : State ι) (c : ι) (owner : Owner) : Recovering → State ι
  | .mkdir =>
    match s.recovery with
    | some _ => s.goto c (.waiting owner)
    | none => { s with recovery := some c }.goto c (.recovering owner .readOwner)
  | .readOwner =>
    match s.readOwner with
    | none => s.goto c (.recovering owner (.unguard (some false)))
    | some found => s.goto c (.recovering owner (.isPidAlive found))
  | .isPidAlive found =>
    if s.alive found.pid then s.goto c (.recovering owner (.unguard (some false)))
    else s.goto c (.recovering owner (.rename found))
  | .rename _ => s.renameStale settings c owner
  | .rm removal =>
    s.removeStale settings c removal fun
      | .going removal => .recovering owner (.rm removal)
      | .over => .recovering owner (.unguard (some true))
      | .threw => .recovering owner (.unguard none)
  | .unguard outcome =>
    { s with recovery := none }.goto c
      (match outcome with
      | some true => .creating .mkdir
      | some false => .waiting owner
      | none => .rejected .system)

/-- The next call of `acquireHeavyweightLock` or of `release` has its answer. -/
def turn (s : State ι) (c : ι) : Option (State ι) :=
  match s.stage c with
  | .idle | .waiting _ => some (s.goto c (.creating .mkdir))
  | .creating next => some (s.tryCreateLease settings c next)
  | .readOwner =>
    some (s.goto c
      (match s.readOwner with
      | none => .waiting none
      | some owner => if (settings c).inherits owner then .holding true else .isPidAlive owner))
  | .isPidAlive owner =>
    some (s.goto c (if s.alive owner.pid then .waiting owner else .recovering owner .mkdir))
  | .recovering owner next => some (s.recoverStaleLease settings c owner next)
  | .releasing =>
    some (s.goto c
      (if s.readOwner.any fun owner => owner.token = (settings c).token then .removing .listing
      else .released))
  | .removing removal =>
    some (s.removeLock .release c removal fun
      | .going removal => .removing removal
      | .over | .threw => .released)
  | .holding _ | .released | .rejected _ => none

/-- The next call fails; a write that fails may leave its file. -/
def fault (s : State ι) (c : ι) (torn : Bool) : Option (State ι) :=
  match s.stage c with
  | .creating .writeFile =>
    let lock := if torn then s.lock.map (·.write (settings c).token) else s.lock
    some ({ s with lock }.goto c (.creating (.rm .listing)))
  | .creating .rename => some (s.goto c (.creating (.rm .listing)))
  | .creating .mkdir | .creating (.rm _) | .readOwner | .recovering _ .mkdir
  | .recovering _ (.unguard _) => some (s.goto c (.rejected .system))
  | .recovering owner .readOwner | .recovering owner (.rename _) | .recovering owner (.rm _) =>
    some (s.goto c (.recovering owner (.unguard none)))
  | .releasing | .removing _ => some (s.goto c .released)
  | .idle | .isPidAlive _ | .recovering _ (.isPidAlive _) | .waiting _ | .holding _ | .released
  | .rejected _ => none

/-- `lease.release()`, as far as it runs at once. -/
def release (s : State ι) (c : ι) : Option (State ι) :=
  match s.stage c with
  | .holding false => some (s.goto c .releasing)
  | .holding true | .releasing | .removing _ | .released => some s
  | _ => none

def abort (s : State ι) (c : ι) : Option (State ι) :=
  match s.stage c with
  | .creating .mkdir | .waiting _ => some (s.goto c (.rejected .aborted))
  | _ => none

def expire (s : State ι) (c : ι) : Option (State ι) :=
  match s.stage c with
  | .waiting owner => some (s.goto c (.rejected (.timedOut (owner.map (·.pid)))))
  | _ => none

end State

inductive Event (ι : Type) where
  | turn (c : ι)
  | fault (c : ι) (torn : Bool)
  | release (c : ι)
  | abort (c : ι)
  | expire (c : ι)
  /-- A process exits or crashes. -/
  | ended (pid : Nat)
  deriving Repr

/-- Calls of a process that is gone do nothing. -/
def step (s : State ι) : Event ι → Option (State ι)
  | .turn c => if s.alive (settings c).pid then s.turn settings c else none
  | .fault c torn => if s.alive (settings c).pid then s.fault settings c torn else none
  | .release c => if s.alive (settings c).pid then s.release c else none
  | .abort c => if s.alive (settings c).pid then s.abort c else none
  | .expire c => if s.alive (settings c).pid then s.expire c else none
  | .ended pid => some { s with alive := Function.update s.alive pid false }

end

end PiEnv.Scripts.HeavyweightLock
