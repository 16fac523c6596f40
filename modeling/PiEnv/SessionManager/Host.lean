import PiEnv.Lib.JsString
import PiEnv.Lib.Program
import PiEnv.SessionManager.Contracts

/-!
# Binding windows to sessions

The operations of the session host on the windows of one tmux server, as
programs over the commands they run. A window goes by the number of its id, and
a tmux session by the number of its own.
-/

namespace PiEnv.SessionManager.Host

open Js Effects

abbrev WindowId := Nat
abbrev TmuxSession := Nat

-- -----
-- Failures
-- -----

structure SessionHostFailure where
  operation : Str
  reason : Str
  deriving DecidableEq, Repr

inductive SessionHostError where
  | failure (failure : SessionHostFailure)
  | windowBindingConflict (windowId : WindowId) (existingSessionId : Str)
  | duplicateWindowBinding (sessionId : Str) (windowIds : List WindowId)
  | orphanWindowCreated (sessionId : Str) (windowId : WindowId) (reason : Str)
  deriving DecidableEq, Repr

-- -----
-- Commands
-- -----

/-- What is read of a window: two of its options, or its name. -/
inductive Shown where
  | session
  | owner
  | name
  deriving DecidableEq, Repr

/-- What is changed in a window. `createSession` is `set-option -o`, which does
not replace; no value of `automaticRename` unsets the option. -/
inductive Change where
  | createSession (sessionId : Str)
  | setOwner (text : Str)
  | unsetSession
  | unsetOwner
  | automaticRename (value : Option Bool)
  | rename (name : Str)
  deriving DecidableEq, Repr

structure NewWindow where
  target : TmuxSession
  name : Option Str
  cwd : Str
  environment : List Str
  command : List Str
  deriving DecidableEq, Repr

inductive HostOp where
  | socket (paneId : Nat)
  | lock (socketPath : Str)
  | unlock
  | session (paneId : Nat)
  | window (paneId : Nat)
  | listWindows (target : TmuxSession)
  | show (windowId : WindowId) (what : Shown)
  | change (windowId : WindowId) (change : Change)
  | newWindow (input : NewWindow)
  | ownerAlive (pid : Nat)
  deriving DecidableEq, Repr

def HostRes : HostOp → Type
  | .socket _ => Except Str Str
  | .lock _ => Except Str Unit
  | .unlock => Unit
  | .session _ => Except Str TmuxSession
  | .window _ => Except Str WindowId
  | .listWindows _ => Except Str (List WindowId)
  | .show _ _ => Except Str Str
  | .change _ _ => Except Str Unit
  | .newWindow _ => Except Str WindowId
  | .ownerAlive _ => Bool

abbrev HostProg := Prog HostOp HostRes
abbrev HostM := ExceptT SessionHostError HostProg

section
variable {α : Type}

/-- A command, with the name of what failed. -/
def attempt (operation : Str) (command : HostProg (Except Str α)) :
    HostProg (Except SessionHostFailure α) :=
  (Except.mapError fun reason => ⟨operation, reason⟩) <$> command

def run (operation : Str) (command : HostProg (Except Str α)) : HostM α :=
  ExceptT.mk (Except.mapError .failure <$> attempt operation command)

end

def readText (operation : Str) (windowId : WindowId) (what : Shown) : HostM Str := do
  return trim (← run operation (@call HostOp HostRes (.show windowId what)))

def change (operation : Str) (windowId : WindowId) (change : Change) : HostM Unit :=
  run operation (@call HostOp HostRes (.change windowId change))

def ownerAlive (pid : Nat) : HostProg Bool := @call HostOp HostRes (.ownerAlive pid)

-- -----
-- Inspection
-- -----

def windowLabel (sessionId : Str) : Str := lit "pi-" ++ sessionId.drop (sessionId.length - 6)

structure Binding where
  windowId : WindowId
  sessionId : Str
  deriving DecidableEq, Repr

structure CurrentWindow where
  socketPath : Str
  tmuxSessionId : TmuxSession
  windowId : WindowId
  boundSessionId : Option Str
  bindings : List Binding
  deriving DecidableEq, Repr

/-- `text || undefined` -/
def nonEmpty (text : Str) : Option Str := if text = [] then none else some text

def readBinding (windowId : WindowId) : HostM Binding := do
  return ⟨windowId, ← readText (lit "read window binding") windowId .session⟩

def inspectCurrent (paneId : Nat) : HostM CurrentWindow := do
  let socketPath ← run (lit "resolve socket") (@call HostOp HostRes (.socket paneId))
  let tmuxSessionId ← run (lit "resolve session") (@call HostOp HostRes (.session paneId))
  let windowId ← run (lit "resolve window") (@call HostOp HostRes (.window paneId))
  let windowIds ← run (lit "list windows") (@call HostOp HostRes (.listWindows tmuxSessionId))
  let tagged ← windowIds.mapM readBinding
  return {
    socketPath := trim socketPath
    tmuxSessionId
    windowId
    boundSessionId := (tagged.find? (·.windowId = windowId)).bind (nonEmpty ·.sessionId)
    bindings := tagged.filter (·.sessionId ≠ []) }

/-- The windows bound to the session other than the current one. -/
def CurrentWindow.duplicates (window : CurrentWindow) (sessionId : Str) : List WindowId :=
  (window.bindings.filter fun entry =>
    entry.sessionId = sessionId ∧ entry.windowId ≠ window.windowId).map (·.windowId)

def assertBinding (window : CurrentWindow) (sessionId : Str) : Except SessionHostError Unit := do
  match window.boundSessionId with
  | some bound =>
    if bound ≠ sessionId then throw (.windowBindingConflict window.windowId bound)
  | none => pure ()
  let duplicates := window.duplicates sessionId
  if duplicates ≠ [] then
    throw (.duplicateWindowBinding sessionId (window.windowId :: duplicates))

-- -----
-- Owners
-- -----

/-- `/^[1-9][0-9]*$/` and `Number` -/
def parsePid (text : Str) : Option Nat :=
  match text with
  | [] => none
  | first :: rest =>
    if first ≠ 48 ∧ isDigit first ∧ rest.all isDigit then some (digitsValue text) else none

def unsetBinding (operation : Str) (window : CurrentWindow) : HostM Unit := do
  change operation window.windowId .unsetSession
  change operation window.windowId .unsetOwner

section
variable (ownerPid : Nat)

def assertLiveOwner (window : CurrentWindow) : HostM (Option Nat) := do
  let owner ← readText (lit "read window binding owner") window.windowId .owner
  match parsePid owner with
  | some pid =>
    if pid ≠ ownerPid then
      if ← (ownerAlive pid : HostProg Bool) then
        throw (.windowBindingConflict window.windowId (window.boundSessionId.getD []))
    return some pid
  | none => return none

def reclaimStaleBinding (window : CurrentWindow) (sessionId : Str) : HostM CurrentWindow := do
  match window.boundSessionId with
  | none => return window
  | some bound =>
    match ← assertLiveOwner ownerPid window with
    | none => return window
    | some _ =>
      if bound = sessionId then return window
      unsetBinding (lit "release stale window binding") window
      return { window with
        boundSessionId := none
        bindings := window.bindings.filter (·.windowId ≠ window.windowId) }

-- -----
-- Operations
-- -----

def bindCurrent (paneId : Nat) (sessionId : Str) (name : Option Str) : HostM CurrentWindow := do
  let inspected ← inspectCurrent paneId
  let window ← reclaimStaleBinding ownerPid inspected sessionId
  assertBinding window sessionId
  if window.boundSessionId = none then
    change (lit "create window binding") window.windowId (.createSession sessionId)
  change (lit "record window binding owner") window.windowId (.setOwner (decimal ownerPid))
  change (lit "disable automatic rename") window.windowId (.automaticRename (some false))
  change (lit "rename window") window.windowId (.rename (name.getD (windowLabel sessionId)))
  let verified ← inspectCurrent paneId
  if verified.boundSessionId ≠ some sessionId then
    throw (.failure ⟨lit "verify window binding", lit "tmux did not preserve the session ID tag"⟩)
  assertBinding verified sessionId
  return verified

def renameCurrent (paneId : Nat) (sessionId name : Str) : HostM Unit := do
  let window ← inspectCurrent paneId
  assertBinding window sessionId
  let _ ← assertLiveOwner ownerPid window
  if window.boundSessionId ≠ some sessionId then
    throw (.failure ⟨lit "rename window",
      lit "the current window is not bound to this Pi session"⟩)
  change (lit "disable automatic rename") window.windowId (.automaticRename (some false))
  change (lit "rename window") window.windowId (.rename name)

def releaseCurrent (paneId : Nat) (sessionId : Str) : HostM Unit := do
  let window ← inspectCurrent paneId
  assertBinding window sessionId
  let _ ← assertLiveOwner ownerPid window
  if window.boundSessionId ≠ some sessionId then return ()
  unsetBinding (lit "release window binding") window
  let windowName ← readText (lit "read window name") window.windowId .name
  if windowName ≠ windowLabel sessionId then return ()
  change (lit "restore automatic rename") window.windowId (.automaticRename none)

end

structure RestoreWindowInput where
  paneId : Nat
  sessionId : Str
  name : Option Str
  explicitName : Bool
  cwd : Str
  wrapperPath : Str
  extensionPath : Str
  workspaceId : Str
  coordinatorSessionId : Str
  launchId : Str
  persistence : Persistence
  deriving DecidableEq, Repr

inductive RestoredWindow where
  | existing (windowId : WindowId)
  | created (windowId : WindowId)
  deriving DecidableEq, Repr

/-- `input.explicitName && input.name`, where an empty name is no name. -/
def RestoreWindowInput.shownName (input : RestoreWindowInput) : Option Str :=
  if input.explicitName then input.name.bind nonEmpty else none

def RestoreWindowInput.sessionArgs (input : RestoreWindowInput) : List Str :=
  match input.persistence with
  | .materialized sessionFile => [lit "--session", sessionFile]
  | .pending => [lit "--session-id", input.sessionId] ++
      (match input.shownName with
        | some name => [lit "--name", name]
        | none => [])

def RestoreWindowInput.newWindow (input : RestoreWindowInput) (target : TmuxSession) :
    NewWindow where
  target
  name := input.shownName
  cwd := input.cwd
  environment := [
    lit "PI_ENV_SESSION_MANAGER_EXPECTED=1",
    lit "PI_ENV_SESSION_MANAGER_ROLE=work",
    lit "PI_ENV_SESSION_MANAGER_WORKSPACE_ID=" ++ input.workspaceId,
    lit "PI_ENV_SESSION_MANAGER_COORDINATOR_ID=" ++ input.coordinatorSessionId,
    lit "PI_ENV_SESSION_MANAGER_EXPECTED_SESSION_ID=" ++ input.sessionId,
    lit "PI_ENV_SESSION_MANAGER_LAUNCH_ID=" ++ input.launchId,
    lit "PI_ENV_SESSION_MANAGER_EXTENSION=" ++ input.extensionPath]
  command :=
    input.wrapperPath :: input.sessionArgs ++ [lit "--extension", input.extensionPath]

/-- The tag of a new window; where it cannot be set, the session that has
started there may have set it. -/
def tagRestored (windowId : WindowId) (sessionId : Str) : HostM Unit :=
  ExceptT.mk do
    match ← attempt (lit "tag restored window")
        (@call HostOp HostRes (.change windowId (.createSession sessionId))) with
    | .ok () => return .ok ()
    | .error error =>
      (do
        let existing ← readText (lit "inspect raced restored window binding") windowId .session
        if existing ≠ sessionId then
          throw (.orphanWindowCreated sessionId windowId error.reason) : HostM Unit).run

def restoreWindow (input : RestoreWindowInput) : HostM RestoredWindow := do
  let current ← inspectCurrent input.paneId
  match current.bindings.filter (·.sessionId = input.sessionId) with
  | [found] => return .existing found.windowId
  | [] =>
    let windowId ← run (lit "create detached window")
      (@call HostOp HostRes (.newWindow (input.newWindow current.tmuxSessionId)))
    tagRestored windowId input.sessionId
    if input.explicitName then
      change (lit "disable restored window automatic rename") windowId
        (.automaticRename (some false))
    let verified ← readText (lit "verify restored window binding") windowId .session
    if verified ≠ input.sessionId then
      throw (.orphanWindowCreated input.sessionId windowId
        (lit "tmux did not preserve the session ID tag"))
    return .created windowId
  | found => throw (.duplicateWindowBinding input.sessionId (found.map (·.windowId)))

def withBindingLock {α : Type} (paneId : Nat) (operation : HostM α) : HostM α := do
  let socketPath ← run (lit "resolve socket for binding lock") (@call HostOp HostRes (.socket paneId))
  run (lit "lock window bindings") (@call HostOp HostRes (.lock (trim socketPath)))
  ExceptT.mk do
    let result ← operation.run
    let () ← (@call HostOp HostRes .unlock)
    return result

end PiEnv.SessionManager.Host
