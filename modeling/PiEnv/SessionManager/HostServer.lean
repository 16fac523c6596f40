import Mathlib.Data.Fintype.Defs
import Mathlib.Data.Option.Basic
import PiEnv.SessionManager.Host

/-!
# The tmux server of the host operations

The windows of one tmux server, the processes that run host operations on them,
and the lock beside the server's socket. Users open, close, move and rename
windows as they please; what only the operations write are the two tags.
-/

namespace PiEnv.SessionManager.Host

open Js Effects

-- -----
-- Windows
-- -----

structure Window where
  session : Option Str
  owner : Option Str
  name : Str
  automaticRename : Option Bool
  shownIn : List TmuxSession
  deriving DecidableEq, Repr

/-- A window's number is its place, which is empty once the window is closed. -/
abbrev Windows := List (Option Window)

def windowAt (windows : Windows) (windowId : WindowId) : Option Window := windows[windowId]?.join

def tagAt (windows : Windows) (windowId : WindowId) : Option Str :=
  (windowAt windows windowId).bind (·.session)

/-- No two windows carry the same session id, which is never empty. -/
def UniqueTags (windows : Windows) : Prop :=
  ∀ w w' sessionId, sessionId ≠ [] → tagAt windows w = some sessionId →
    tagAt windows w' = some sessionId → w = w'

/-- The session a window is bound to, as the operations read it. -/
def Window.binding (window : Window) : Option Str := nonEmpty (trim (window.session.getD []))

/-- The process its owner tag names, as the operations read it. -/
def Window.ownerPid (window : Window) : Option Nat := parsePid (trim (window.owner.getD []))

def Shown.text (window : Window) : Shown → Str
  | .session => window.session.getD []
  | .owner => window.owner.getD []
  | .name => window.name

/-- `rename-window` also turns off automatic renaming. -/
def Change.apply (window : Window) : Change → Option Window
  | .createSession sessionId =>
    if window.session = none then some { window with session := some sessionId } else none
  | .setOwner text => some { window with owner := some text }
  | .unsetSession => some { window with session := none }
  | .unsetOwner => some { window with owner := none }
  | .automaticRename value => some { window with automaticRename := value }
  | .rename name => some { window with name, automaticRename := some false }

/-- A new window is untagged, and goes by a name of tmux's choice unless it is
given one. -/
def NewWindow.open (input : NewWindow) (title : Str) : Window where
  session := none
  owner := none
  name := input.name.getD title
  automaticRename := input.name.map fun _ => false
  shownIn := [input.target]

-- -----
-- Processes
-- -----

inductive Life where
  | unborn
  | alive
  | gone
  deriving DecidableEq, Repr

/-- No two live processes share a pid. -/
structure Processes {π : Type} (pid : π → Nat) where
  life : π → Life
  distinct : ∀ {p q : π}, life p = .alive → life q = .alive → pid p = pid q → p = q

section
variable {π : Type} [DecidableEq π] {pid : π → Nat}

def Processes.start (processes : Processes pid) (p : π)
    (free : ∀ q, processes.life q = .alive → pid q ≠ pid p) : Processes pid where
  life := Function.update processes.life p .alive
  distinct := by
    have hother : ∀ q, q ≠ p → Function.update processes.life p Life.alive q = .alive →
        processes.life q = .alive := by
      intro q hq h
      rwa [Function.update_of_ne hq] at h
    intro q q' hq hq' hpid
    by_cases hp : q = p <;> by_cases hp' : q' = p
    · rw [hp, hp']
    · exact absurd (hpid.symm.trans (by rw [hp])) (free q' (hother q' hp' hq'))
    · exact absurd (hpid.trans (by rw [hp'])) (free q (hother q hp hq))
    · exact processes.distinct (hother q hp hq) (hother q' hp' hq') hpid

def Processes.exit (processes : Processes pid) (p : π) : Processes pid where
  life := Function.update processes.life p .gone
  distinct := by
    have halive : ∀ q, Function.update processes.life p Life.gone q = .alive →
        processes.life q = .alive := by
      intro q h
      by_cases hq : q = p
      · subst hq
        simp at h
      · rwa [Function.update_of_ne hq] at h
    intro q q' hq hq' hpid
    exact processes.distinct (halive q hq) (halive q' hq') hpid

end

-- -----
-- Tasks
-- -----

/-- The operations under the binding lock. -/
inductive Task where
  | bind (paneId : Nat) (sessionId : Str) (name : Option Str)
  | rename (paneId : Nat) (sessionId name : Str)
  | release (paneId : Nat) (sessionId : Str)
  | restore (input : RestoreWindowInput)
  deriving DecidableEq, Repr

/-- The session an operation is about. -/
def Task.sessionId : Task → Str
  | .bind _ sessionId _ => sessionId
  | .rename _ sessionId _ => sessionId
  | .release _ sessionId => sessionId
  | .restore input => input.sessionId

/-- The windows an operation need not look for: only the ones that give out an
id look for others that have it, and one that binds its window not for that. -/
def Task.Spares (current : Option WindowId) (windowId : WindowId) : Task → Prop
  | .bind _ _ _ => current = some windowId
  | .restore _ => False
  | _ => True

instance {current : Option WindowId} {windowId : WindowId} :
    ∀ task : Task, Decidable (task.Spares current windowId)
  | .bind _ _ _ => inferInstanceAs (Decidable (current = some windowId))
  | .rename _ _ _ => .isTrue trivial
  | .release _ _ => .isTrue trivial
  | .restore _ => .isFalse nofun

inductive Outcome where
  | bound (window : CurrentWindow)
  | done
  | restored (window : RestoredWindow)
  deriving DecidableEq, Repr

def Task.program (ownerPid : Nat) : Task → HostM Outcome
  | .bind paneId sessionId name =>
    withBindingLock paneId (.bound <$> bindCurrent ownerPid paneId sessionId name)
  | .rename paneId sessionId name =>
    withBindingLock paneId ((fun () => .done) <$> renameCurrent ownerPid paneId sessionId name)
  | .release paneId sessionId =>
    withBindingLock paneId ((fun () => .done) <$> releaseCurrent ownerPid paneId sessionId)
  | .restore input => withBindingLock input.paneId (.restored <$> restoreWindow input)

/-- Which operations there are, and which process runs each. With `covering`,
the listings of the operations cover the windows they have to. -/
structure Setting (ι π : Type) where
  task : ι → Task
  process : ι → π
  pid : π → Nat
  socketPath : Str
  covering : Bool

def Setting.threads {ι π : Type} (S : Setting ι π) (i : ι) :
    HostProg (Except SessionHostError Outcome) :=
  ((S.task i).program (S.pid (S.process i))).run

-- -----
-- The server
-- -----

/-- The windows and processes as they were when the lock was last taken, which
no operation reads. -/
structure Opening {π : Type} (pid : π → Nat) where
  windows : Windows
  processes : Processes pid

/-- `current` is the window an operation found itself in first, which no other
operation reads. -/
structure Server (ι : Type) {π : Type} (pid : π → Nat) where
  windows : Windows
  panes : Nat → Option WindowId
  processes : Processes pid
  holder : Option ι
  opening : Opening pid
  current : ι → Option WindowId

section
variable {ι π : Type} {pid : π → Nat}

def Server.window (s : Server ι pid) (windowId : WindowId) : Option Window :=
  windowAt s.windows windowId

def Server.tag (s : Server ι pid) (windowId : WindowId) : Option Str := tagAt s.windows windowId

def Server.shows (s : Server ι pid) (target : TmuxSession) (windowId : WindowId) : Prop :=
  ∃ window, s.window windowId = some window ∧ target ∈ window.shownIn

instance (s : Server ι pid) (target : TmuxSession) (w : WindowId) :
    Decidable (s.shows target w) :=
  match h : s.window w with
  | none => .isFalse fun ⟨_, hw, _⟩ => nomatch h.symm.trans hw
  | some window => decidable_of_iff (target ∈ window.shownIn)
      ⟨fun hmem => ⟨window, h, hmem⟩, fun ⟨_, hw, hmem⟩ => Option.some.inj (h.symm.trans hw) ▸ hmem⟩

def Server.list (s : Server ι pid) (target : TmuxSession) : List WindowId :=
  (List.range s.windows.length).filter fun w => s.shows target w

theorem mem_list {s : Server ι pid} {target : TmuxSession} {w : WindowId} :
    w ∈ s.list target ↔ s.shows target w := by
  rw [Server.list, List.mem_filter, decide_eq_true_eq, List.mem_range]
  refine and_iff_right_of_imp fun ⟨window, hwindow, _⟩ => ?_
  exact (List.getElem?_eq_some_iff.mp (Option.join_eq_some_iff.mp hwindow)).1

def Server.put (s : Server ι pid) (windowId : WindowId) (window : Window) : Server ι pid :=
  { s with windows := s.windows.set windowId (some window) }

def Server.append (s : Server ι pid) (window : Window) : Server ι pid :=
  { s with windows := s.windows ++ [some window] }

def Server.alive (s : Server ι pid) (p : π) : Prop := s.processes.life p = .alive

variable [DecidableEq ι]

def Server.enter (s : Server ι pid) (i : ι) (windowId : WindowId) : Server ι pid :=
  { s with current := Function.update s.current i (some ((s.current i).getD windowId)) }

end

section
variable {ι π : Type} [DecidableEq ι] {S : Setting ι π}

/-- A window that carries the id an operation gives out, other than the one it
binds, is among those it lists, and the id is read as it was written. -/
def Covers (S : Setting ι π) (s : Server ι S.pid) (i : ι) (target : TmuxSession) : Prop :=
  ∀ w < s.windows.length, s.tag w = some (S.task i).sessionId →
    (S.task i).Spares (s.current i) w ∨
      s.shows target w ∧ trim (S.task i).sessionId = (S.task i).sessionId

/-- What a command may do. One that fails may have had its effect. -/
inductive HostCall (S : Setting ι π) (i : ι) : Exec HostOp HostRes (Server ι S.pid)
  | socket {s : Server ι S.pid} {paneId : Nat} :
      HostCall S i s (.socket paneId) (.ok S.socketPath) s
  | socketFails {s : Server ι S.pid} {paneId : Nat} (reason : Str) :
      HostCall S i s (.socket paneId) (.error reason) s
  | locked {s : Server ι S.pid} {path : Str} (free : s.holder = none) :
      HostCall S i s (.lock path) (.ok ())
        { s with holder := some i, opening := ⟨s.windows, s.processes⟩ }
  | lockFails {s : Server ι S.pid} {path : Str} (reason : Str) :
      HostCall S i s (.lock path) (.error reason) s
  | unlocked {s : Server ι S.pid} :
      HostCall S i s .unlock () { s with holder := if s.holder = some i then none else s.holder }
  | session {s : Server ι S.pid} {paneId : Nat} {w : WindowId} {target : TmuxSession}
      (pane : s.panes paneId = some w) (shown : s.shows target w) :
      HostCall S i s (.session paneId) (.ok target) s
  | sessionFails {s : Server ι S.pid} {paneId : Nat} (reason : Str) :
      HostCall S i s (.session paneId) (.error reason) s
  | window {s : Server ι S.pid} {paneId : Nat} {w : WindowId} (pane : s.panes paneId = some w) :
      HostCall S i s (.window paneId) (.ok w) (s.enter i w)
  | windowFails {s : Server ι S.pid} {paneId : Nat} (reason : Str) :
      HostCall S i s (.window paneId) (.error reason) s
  | listed {s : Server ι S.pid} {target : TmuxSession} {ids : List WindowId}
      (all : ∀ w, w ∈ ids ↔ s.shows target w) (covers : S.covering = true → Covers S s i target) :
      HostCall S i s (.listWindows target) (.ok ids) s
  | listFails {s : Server ι S.pid} {target : TmuxSession} (reason : Str) :
      HostCall S i s (.listWindows target) (.error reason) s
  | shown {s : Server ι S.pid} {w : WindowId} {what : Shown} {window : Window} {raw : Str}
      (found : s.window w = some window) (text : trim raw = trim (what.text window)) :
      HostCall S i s (.show w what) (.ok raw) s
  | showFails {s : Server ι S.pid} {w : WindowId} {what : Shown} (reason : Str) :
      HostCall S i s (.show w what) (.error reason) s
  | changed {s : Server ι S.pid} {w : WindowId} {change : Change} {window window' : Window}
      (found : s.window w = some window) (applied : change.apply window = some window')
      (answer : Except Str Unit) : HostCall S i s (.change w change) answer (s.put w window')
  | changeFails {s : Server ι S.pid} {w : WindowId} {change : Change} (reason : Str) :
      HostCall S i s (.change w change) (.error reason) s
  | opened {s : Server ι S.pid} {input : NewWindow} (title : Str)
      (answer : Except Str WindowId) (id : ∀ w, answer = .ok w → w = s.windows.length) :
      HostCall S i s (.newWindow input) answer (s.append (input.open title))
  | openFails {s : Server ι S.pid} {input : NewWindow} (reason : Str) :
      HostCall S i s (.newWindow input) (.error reason) s
  | asked {s : Server ι S.pid} {pid : Nat} {answer : Bool}
      (alive : answer = true ↔ ∃ p, s.alive p ∧ S.pid p = pid) :
      HostCall S i s (.ownerAlive pid) answer s

/-- A command is run by a process that is alive. -/
structure HostExec (S : Setting ι π) (i : ι) (s : Server ι S.pid) (o : HostOp) (r : HostRes o)
    (s' : Server ι S.pid) : Prop where
  alive : s.alive (S.process i)
  run : HostCall S i s o r s'

/-- Windows that were there keep their tags or are gone, and new ones have none. -/
structure TagsKept (windows windows' : Windows) : Prop where
  length : windows.length ≤ windows'.length
  kept : ∀ w window', windowAt windows' w = some window' →
    (∃ window, windowAt windows w = some window ∧ window'.session = window.session ∧
      window'.owner = window.owner) ∨
    windows.length ≤ w ∧ window'.session = none ∧ window'.owner = none

variable [DecidableEq π]

/-- What users do to windows and panes, and processes that start and end. The
lock of a process that ends is released. -/
inductive HostEnv (S : Setting ι π) : Server ι S.pid → Server ι S.pid → Prop
  | used {s : Server ι S.pid} {windows : Windows} {panes : Nat → Option WindowId}
      (kept : TagsKept s.windows windows) : HostEnv S s { s with windows, panes }
  | started {s : Server ι S.pid} {p : π} (unborn : s.processes.life p = .unborn)
      (free : ∀ q, s.alive q → S.pid q ≠ S.pid p) :
      HostEnv S s { s with processes := s.processes.start p free }
  | exited {s : Server ι S.pid} {p : π} (alive : s.alive p) :
      HostEnv S s { s with
        processes := s.processes.exit p
        holder := s.holder.filter fun i => S.process i ≠ p }

def hostMachine (S : Setting ι π) : Machine ι HostOp HostRes (Server ι S.pid) where
  exec := HostExec S
  env := HostEnv S

end

-- -----
-- Executable answers
-- -----

section
variable {ι π : Type} [DecidableEq ι] {S : Setting ι π}

instance (s : Server ι S.pid) (i : ι) (target : TmuxSession) : Decidable (Covers S s i target) :=
  inferInstanceAs (Decidable (∀ w < s.windows.length, s.tag w = some (S.task i).sessionId →
    (S.task i).Spares (s.current i) w ∨
      s.shows target w ∧ trim (S.task i).sessionId = (S.task i).sessionId))

variable [Fintype π]

/-- An answer a command may get: it succeeds where it can, unless it is to fail. -/
def answer (S : Setting ι π) (i : ι) (fails : HostOp → Bool) (s : Server ι S.pid) :
    (o : HostOp) → Option (HostRes o × Server ι S.pid)
  | .socket _ => some (.ok S.socketPath, s)
  | .lock _ =>
    if s.holder = none then
      some (.ok (), { s with holder := some i, opening := ⟨s.windows, s.processes⟩ })
    else some (.error [], s)
  | .unlock => some ((), { s with holder := if s.holder = some i then none else s.holder })
  | .session paneId =>
    match (s.panes paneId).bind s.window with
    | some window => window.shownIn.head?.map fun target => (.ok target, s)
    | none => some (.error [], s)
  | .window paneId =>
    match s.panes paneId with
    | some w => some (.ok w, s.enter i w)
    | none => some (.error [], s)
  | .listWindows target =>
    if S.covering = true → Covers S s i target then some (.ok (s.list target), s) else none
  | .show w what =>
    match s.window w with
    | some window => some (.ok (what.text window), s)
    | none => some (.error [], s)
  | .change w change =>
    if fails (.change w change) then some (.error [], s) else
    match (s.window w).bind change.apply with
    | some window => some (.ok (), s.put w window)
    | none => some (.error [], s)
  | .newWindow input => some (.ok s.windows.length, s.append (input.open []))
  | .ownerAlive pid => some (decide (∃ p, s.processes.life p = .alive ∧ S.pid p = pid), s)

def respond (S : Setting ι π) (i : ι) (fails : HostOp → Bool) (s : Server ι S.pid) (o : HostOp) :
    Option (HostRes o × Server ι S.pid) :=
  if s.processes.life (S.process i) = .alive then answer S i fails s o else none

theorem answer_sound {i : ι} {fails : HostOp → Bool} {s s' : Server ι S.pid} {o : HostOp}
    {r : HostRes o} (h : answer S i fails s o = some (r, s')) : HostCall S i s o r s' := by
  cases o with
  | socket paneId =>
    cases h
    exact .socket
  | lock path =>
    rw [answer] at h
    split at h <;> cases h
    · exact .locked ‹_›
    · exact .lockFails _
  | unlock =>
    cases h
    exact .unlocked
  | session paneId =>
    rw [answer] at h
    split at h
    · rename_i window hwindow
      obtain ⟨w, hpane, hw⟩ := Option.bind_eq_some_iff.mp hwindow
      obtain ⟨target, htarget, he⟩ := Option.map_eq_some_iff.mp h
      cases he
      exact .session hpane ⟨window, hw, List.mem_of_head? htarget⟩
    · cases h
      exact .sessionFails _
  | window paneId =>
    rw [answer] at h
    split at h <;> cases h
    · exact .window ‹_›
    · exact .windowFails _
  | listWindows target =>
    rw [answer] at h
    split at h <;> cases h
    exact .listed (fun _ => mem_list) ‹_›
  | «show» w what =>
    rw [answer] at h
    split at h <;> cases h
    · exact .shown ‹_› rfl
    · exact .showFails _
  | change w change =>
    rw [answer] at h
    split at h
    · cases h
      exact .changeFails _
    · split at h <;> cases h
      · rename_i window' hchanged
        obtain ⟨window, hwindow, happlied⟩ := Option.bind_eq_some_iff.mp hchanged
        exact .changed hwindow happlied _
      · exact .changeFails _
  | newWindow input =>
    cases h
    exact .opened _ _ fun _ hw => (Except.ok.inj hw).symm
  | ownerAlive pid =>
    cases h
    exact .asked decide_eq_true_iff

theorem respond_sound {i : ι} {fails : HostOp → Bool} {s s' : Server ι S.pid} {o : HostOp}
    {r : HostRes o} (h : respond S i fails s o = some (r, s')) : HostExec S i s o r s' := by
  unfold respond at h
  split at h
  · exact ⟨‹_›, answer_sound h⟩
  · cases h

variable [DecidableEq π]

/-- Turns of the operations, where said commands fail. -/
def hostRun (S : Setting ι π) (s : Server ι S.pid) (fails : ι → HostOp → Bool)
    (turns : List (ι × Nat)) :
    Option (Config ι HostOp HostRes (Except SessionHostError Outcome) (Server ι S.pid)) :=
  schedule (fun i => respond S i (fails i)) turns ⟨s, S.threads⟩

theorem hostRun_reach {s : Server ι S.pid} {fails : ι → HostOp → Bool} {turns : List (ι × Nat)}
    {c : Config ι HostOp HostRes (Except SessionHostError Outcome) (Server ι S.pid)}
    (h : hostRun S s fails turns = some c) : Reach (hostMachine S) ⟨s, S.threads⟩ c :=
  schedule_reach (fun i s o r s' hrespond =>
    (respond_sound hrespond : HostExec S i s o r s')) h

end

end PiEnv.SessionManager.Host
