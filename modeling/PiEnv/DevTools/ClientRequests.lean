import Mathlib.Data.List.Perm.Basic
import Mathlib.Logic.Function.Basic
import PiEnv.Lib.Transitions

/-!
# Requests of a client, from the call to the daemon

One client with any number of calls under way, the lines it writes, and the
daemons that accept and execute them. Connections are lost, daemons stop and
restart, and lines and responses take as long as they take.
-/

namespace PiEnv.DevTools.ClientRequests

open Transitions (run AllMeet)

abbrev CallId := Nat
abbrev Conn := Nat
abbrev DaemonId := Nat

inductive LspAction where
  | diagnostics | hover | definition | implementation | references | rename
  | incomingCalls | outgoingCalls | symbols | status | shutdown
  deriving DecidableEq, Repr

inductive LspClientError where
  | clientClosed | connectionUnavailable | requestTimeout | clientTransport
  deriving DecidableEq, Repr

-- -----
-- The client
-- -----

structure DaemonResponse where
  id : Nat
  ok : Bool
  deriving DecidableEq, Repr

/-- The two `doRequestEffect` of a `requestEffect`. -/
inductive Attempt where
  | first | second
  deriving DecidableEq, Repr

inductive Call where
  | idle
  /-- In `ensureConnectedEffect`. -/
  | connecting (attempt : Attempt)
  /-- Registered under an id; the deferred, once it is done. -/
  | waiting (attempt : Attempt) (id : Nat) (deferred : Option (Except LspClientError DaemonResponse))
  | settled (outcome : Except LspClientError DaemonResponse)
  | interrupted

/-- A request, with the call it is written for. The line does not carry it. -/
structure Request where
  id : Nat
  action : LspAction
  call : CallId
  deriving DecidableEq, Repr

structure Packet where
  conn : Conn
  request : Request
  deriving DecidableEq, Repr

/-- A request a daemon has admitted. -/
structure Task where
  daemon : DaemonId
  conn : Conn
  request : Request
  deriving DecidableEq, Repr

inductive Phase where
  | accepting | stopping | ended
  deriving DecidableEq, Repr

structure State where
  nextId : Nat
  socket : Option Conn
  closed : Bool
  pendingRequests : Nat → Option CallId
  calls : CallId → Call
  /-- The daemon a connection leads to. -/
  peer : Conn → Option DaemonId
  /-- Written by the client, not read by a daemon. -/
  wire : List Packet
  daemons : DaemonId → Option Phase
  /-- Tasks whose execution has not begun. -/
  admitted : List Task
  /-- Tasks in their handler. -/
  running : List Task
  /-- Renames whose workspace edit is committed, before they respond. -/
  refreshing : List Task
  /-- Written by a daemon, not read by the client. -/
  responses : List (Conn × DaemonResponse)
  /-- Every execution that ever began. -/
  executed : List Task
  /-- Every workspace edit ever committed. -/
  edits : List Task

def State.initial : State :=
  ⟨1, none, false, fun _ => none, fun _ => .idle, fun _ => none, [], fun _ => none, [], [], [], [],
    [], []⟩

def State.setCall (s : State) (c : CallId) (call : Call) : State :=
  { s with calls := Function.update s.calls c call }

/-- Every pending deferred fails. -/
def State.settlePending (s : State) (error : LspClientError) : State :=
  { s with
    pendingRequests := fun _ => none
    calls := fun c =>
      match s.calls c with
      | .waiting attempt id none =>
        if s.pendingRequests id = some c then .waiting attempt id (some (.error error))
        else .waiting attempt id none
      | call => call }

def State.teardownSocket (s : State) (error : LspClientError) : State :=
  match s.socket with
  | some _ => { s with socket := none }.settlePending error
  | none => s

/-- The error is the timeout of the call that discards. -/
def State.discardStaleSocket (s : State) : State := s.teardownSocket .requestTimeout

def State.close (s : State) : State :=
  if s.closed then s
  else
    match s.socket with
    | some _ => { s with closed := true }.teardownSocket .clientClosed
    | none => { s with closed := true }.settlePending .clientClosed

def State.setupSocket (s : State) (conn : Conn) : State :=
  { s.teardownSocket .clientTransport with socket := some conn }

/-- What `requestEffect` does when a `doRequestEffect` fails. -/
def State.failAttempt (s : State) (c : CallId) (attempt : Attempt) (error : LspClientError) :
    State :=
  match attempt, error with
  | .first, .requestTimeout => s.setCall c (.connecting .second)
  | .second, .requestTimeout => (s.setCall c (.settled (.error error))).discardStaleSocket
  | _, _ => s.setCall c (.settled (.error error))

/-- The end of a registration: an id that is still pending is not any more. -/
def State.releaseRequest (s : State) (id : Nat) : State :=
  { s with pendingRequests := Function.update s.pendingRequests id none }

/-- The line of a call's next id is written, and the call waits for it. -/
def State.writeRequest (s : State) (c : CallId) (action : LspAction) (attempt : Attempt)
    (conn : Conn) : State :=
  { s with
    nextId := s.nextId + 1
    pendingRequests := Function.update s.pendingRequests s.nextId (some c)
    wire := s.wire ++ [⟨conn, ⟨s.nextId, action, c⟩⟩]
    calls := Function.update s.calls c (.waiting attempt s.nextId none) }

/-- `registerRequestEffect`; `socket.write` may throw. -/
def State.registerRequest (actionOf : CallId → LspAction) (s : State) (c : CallId)
    (attempt : Attempt) (writes : Bool) : State :=
  if s.closed then s.failAttempt c attempt .clientClosed
  else
    match s.socket with
    | none => s.failAttempt c attempt .clientTransport
    | some conn =>
      if writes then s.writeRequest c (actionOf c) attempt conn
      else { s with nextId := s.nextId + 1 }.failAttempt c attempt .clientTransport

/-- A response line of the current connection. -/
def State.handleResponse (s : State) (response : DaemonResponse) : State :=
  match s.pendingRequests response.id with
  | none => s
  | some c =>
    match s.calls c with
    | .waiting attempt id none =>
      if id = response.id then
        (s.releaseRequest id).setCall c (.waiting attempt id (some (.ok response)))
      else s.releaseRequest response.id
    | _ => s.releaseRequest response.id

-- -----
-- Daemons
-- -----

/-- `handleRequest`. What is sent to a daemon that has ended is lost. -/
def State.handleRequest (s : State) (packet : Packet) : State :=
  match s.peer packet.conn with
  | none => s
  | some d =>
    match s.daemons d with
    | some .accepting => { s with admitted := s.admitted ++ [⟨d, packet.conn, packet.request⟩] }
    | some .stopping =>
      { s with responses := s.responses ++ [(packet.conn, ⟨packet.request.id, false⟩)] }
    | _ => s

/-- A process that ends takes what it has not finished with it. -/
def State.endDaemon (s : State) (d : DaemonId) : State :=
  { s with
    daemons := Function.update s.daemons d (some .ended)
    admitted := s.admitted.filter (·.daemon ≠ d)
    running := s.running.filter (·.daemon ≠ d)
    refreshing := s.refreshing.filter (·.daemon ≠ d) }

def State.writeResponse (s : State) (task : Task) (ok : Bool) : State :=
  { s with responses := s.responses ++ [(task.conn, ⟨task.request.id, ok⟩)] }

-- -----
-- Steps
-- -----

inductive Event where
  | requestEffect (c : CallId)
  /-- A daemon that does not accept closes the connection again. -/
  | connect (conn : Conn) (d : DaemonId)
  | failConnection (c : CallId) (error : LspClientError)
  | register (c : CallId) (writes : Bool)
  /-- The timer of a registered request fires. -/
  | timeout (c : CallId)
  /-- A call goes on with what its deferred was done with. -/
  | resume (c : CallId)
  | interrupt (c : CallId)
  /-- `onSocketError` or `onSocketClose`. -/
  | loseSocket
  | close
  | startDaemon (d : DaemonId)
  | stopDaemon (d : DaemonId)
  | endDaemon (d : DaemonId)
  /-- The line at a place on the wire arrives, or is lost. -/
  | deliver (i : Nat)
  | lose (i : Nat)
  | execute (i : Nat)
  | applyWorkspaceEdit (i : Nat)
  | respond (i : Nat) (ok : Bool)
  | respondRefreshed (i : Nat) (ok : Bool)
  | receive (i : Nat)
  | loseResponse (i : Nat)
  deriving DecidableEq, Repr

/-- Nothing of the same connection is before it. -/
def isNext {α : Type} (connOf : α → Conn) (items : List α) (i : Nat) : Bool :=
  match items[i]? with
  | some item => (items.take i).all (connOf · ≠ connOf item)
  | none => false

def takeAt {α : Type} (items : List α) (i : Nat) (act : α → List α → State) : Option State :=
  match items[i]? with
  | some item => some (act item (items.eraseIdx i))
  | none => none

def step (actionOf : CallId → LspAction) (s : State) : Event → Option State
  | .requestEffect c =>
    match s.calls c with
    | .idle => some (s.setCall c (.connecting .first))
    | _ => none
  | .connect conn d =>
    if s.closed = false ∧ s.peer conn = none ∧ (s.daemons d).isSome then
      some { s.setupSocket conn with peer := Function.update s.peer conn (some d) }
    else none
  | .failConnection c error =>
    match s.calls c with
    | .connecting attempt =>
      if error = .requestTimeout then none else some (s.failAttempt c attempt error)
    | _ => none
  | .register c writes =>
    match s.calls c with
    | .connecting attempt => some (s.registerRequest actionOf c attempt writes)
    | _ => none
  | .timeout c =>
    match s.calls c with
    | .waiting attempt id none => some ((s.releaseRequest id).failAttempt c attempt .requestTimeout)
    | _ => none
  | .resume c =>
    match s.calls c with
    | .waiting _ _ (some (.ok response)) => some (s.setCall c (.settled (.ok response)))
    | .waiting attempt _ (some (.error error)) => some (s.failAttempt c attempt error)
    | _ => none
  | .interrupt c =>
    match s.calls c with
    | .connecting _ => some (s.setCall c .interrupted)
    | .waiting _ id none => some ((s.releaseRequest id).setCall c .interrupted)
    | .waiting _ _ (some _) => some (s.setCall c .interrupted)
    | _ => none
  | .loseSocket => some (s.teardownSocket .clientTransport)
  | .close => some s.close
  | .startDaemon d =>
    if s.daemons d = none then
      some { s with daemons := Function.update s.daemons d (some .accepting) }
    else none
  | .stopDaemon d =>
    if s.daemons d = some .accepting then
      some { s with daemons := Function.update s.daemons d (some .stopping) }
    else none
  | .endDaemon d => some (s.endDaemon d)
  | .deliver i =>
    if isNext (·.conn) s.wire i then
      takeAt s.wire i fun packet rest => { s with wire := rest }.handleRequest packet
    else none
  | .lose i => takeAt s.wire i fun _ rest => { s with wire := rest }
  | .execute i =>
    takeAt s.admitted i fun task rest =>
      { s with admitted := rest, running := s.running ++ [task], executed := s.executed ++ [task] }
  | .applyWorkspaceEdit i =>
    takeAt s.running i fun task rest =>
      if task.request.action = .rename then
        { s with running := rest, refreshing := s.refreshing ++ [task], edits := s.edits ++ [task] }
      else s
  | .respond i ok =>
    takeAt s.running i fun task rest => { s with running := rest }.writeResponse task ok
  | .respondRefreshed i ok =>
    takeAt s.refreshing i fun task rest => { s with refreshing := rest }.writeResponse task ok
  | .receive i =>
    if isNext (·.1) s.responses i then
      takeAt s.responses i fun response rest =>
        if s.socket = some response.1 then { s with responses := rest }.handleResponse response.2
        else { s with responses := rest }
    else none
  | .loseResponse i => takeAt s.responses i fun _ rest => { s with responses := rest }

-- -----
-- Executions of a call
-- -----

def countCall {α : Type} (requestOf : α → Request) (c : CallId) (items : List α) : Nat :=
  items.countP fun item => decide ((requestOf item).call = c)

def State.executionsOf (s : State) (c : CallId) : Nat := countCall Task.request c s.executed

def State.editsOf (s : State) (c : CallId) : Nat := countCall Task.request c s.edits

/-- Executions of a call, and lines of it that may still lead to one. -/
def State.sentFor (s : State) (c : CallId) : Nat :=
  countCall Packet.request c s.wire + countCall Task.request c s.admitted + s.executionsOf c

/-- A rename is written again only when what was written before is lost. -/
def RetriesLost (actionOf : CallId → LspAction) (s : State) (event : Event) : Prop :=
  ∀ c, event = .register c true → actionOf c = .rename → s.calls c = .connecting .second →
    s.sentFor c = 0

/-- A rename runs at most once per call, and edits at most once. -/
def AtMostOnce (actionOf : CallId → LspAction) (s : State) : Prop :=
  ∀ c, actionOf c = .rename → s.executionsOf c ≤ 1 ∧ s.editsOf c ≤ 1

section Counting

variable {α : Type} {requestOf : α → Request} {c : CallId} {items : List α} {item : α} {i : Nat}

theorem countCall_append (more : List α) :
    countCall requestOf c (items ++ more) = countCall requestOf c items + countCall requestOf c more :=
  List.countP_append

theorem countCall_eraseIdx (h : items[i]? = some item) :
    countCall requestOf c items =
      countCall requestOf c (items.eraseIdx i) + countCall requestOf c [item] := by
  obtain ⟨hi, rfl⟩ := List.getElem?_eq_some_iff.mp h
  have := (List.getElem_cons_eraseIdx_perm hi).countP_eq
    (fun item => decide ((requestOf item).call = c))
  rw [countCall, ← this]
  simp [countCall, List.countP_cons]

theorem countCall_filter (keep : α → Bool) :
    countCall requestOf c (items.filter keep) ≤ countCall requestOf c items :=
  (List.filter_sublist (p := keep)).countP_le

end Counting

theorem takeAt_eq_some {α : Type} {items : List α} {i : Nat} {act : α → List α → State} {s' : State}
    (h : takeAt items i act = some s') :
    ∃ item, items[i]? = some item ∧ act item (items.eraseIdx i) = s' := by
  unfold takeAt at h
  cases hitem : items[i]? with
  | none => simp [hitem] at h
  | some item => exact ⟨item, rfl, by simpa [hitem] using h⟩

/-- No request was written for the call yet. -/
def State.Fresh (s : State) (c : CallId) : Prop :=
  s.calls c = .idle ∨ s.calls c = .connecting .first

/-- Edits of a call, and its executions that may still lead to one. -/
def State.editing (s : State) (c : CallId) : Nat := countCall Task.request c s.running + s.editsOf c

structure Counted (s : State) (c : CallId) : Prop where
  fresh : s.Fresh c → s.sentFor c = 0
  sent : s.sentFor c ≤ 1
  edits : s.editing c ≤ s.executionsOf c

/-- A step of the client that writes nothing. -/
structure ClientStep (s s' : State) : Prop where
  wire : s'.wire = s.wire
  admitted : s'.admitted = s.admitted
  running : s'.running = s.running
  executed : s'.executed = s.executed
  edits : s'.edits = s.edits
  fresh : ∀ c, s'.Fresh c → s.Fresh c

namespace ClientStep

variable {s s' s'' : State} {c : CallId}

theorem refl : ClientStep s s := ⟨rfl, rfl, rfl, rfl, rfl, fun _ h => h⟩

theorem trans (h : ClientStep s s') (h' : ClientStep s' s'') : ClientStep s s'' :=
  ⟨h'.wire.trans h.wire, h'.admitted.trans h.admitted, h'.running.trans h.running,
    h'.executed.trans h.executed, h'.edits.trans h.edits, fun c hc => h.fresh c (h'.fresh c hc)⟩

/-- Steps of the connection and of the registered ids alone. -/
theorem connection {nextId : Nat} {socket : Option Conn} {closed : Bool}
    {pendingRequests : Nat → Option CallId} {peer : Conn → Option DaemonId} :
    ClientStep s { s with nextId, socket, closed, pendingRequests, peer } :=
  ⟨rfl, rfl, rfl, rfl, rfl, fun _ h => h⟩

theorem setCall {call : Call} (h : call = .idle ∨ call = .connecting .first → s.Fresh c) :
    ClientStep s (s.setCall c call) := by
  refine ⟨rfl, rfl, rfl, rfl, rfl, fun c' hfresh => ?_⟩
  by_cases hc : c' = c
  · subst hc
    unfold State.Fresh State.setCall at hfresh
    simp only [Function.update_self] at hfresh
    exact h hfresh
  · unfold State.Fresh State.setCall at hfresh
    simp only [Function.update_of_ne hc] at hfresh
    exact hfresh

theorem setCall_later {call : Call} (h : call ≠ .idle ∧ call ≠ .connecting .first) :
    ClientStep s (s.setCall c call) :=
  setCall fun hcall => (hcall.elim h.1 h.2).elim

theorem settlePending {error : LspClientError} : ClientStep s (s.settlePending error) := by
  refine ⟨rfl, rfl, rfl, rfl, rfl, fun c hfresh => ?_⟩
  unfold State.Fresh State.settlePending at hfresh
  simp only at hfresh
  unfold State.Fresh
  split at hfresh
  · split at hfresh <;> simp at hfresh
  · exact hfresh

theorem teardownSocket {error : LspClientError} : ClientStep s (s.teardownSocket error) := by
  unfold State.teardownSocket
  split
  · exact connection.trans settlePending
  · exact refl

theorem close : ClientStep s s.close := by
  unfold State.close
  split
  · exact refl
  · split
    · exact connection.trans teardownSocket
    · exact connection.trans settlePending

theorem failAttempt {attempt : Attempt} {error : LspClientError} :
    ClientStep s (s.failAttempt c attempt error) := by
  unfold State.failAttempt
  split
  · exact setCall_later ⟨nofun, by simp⟩
  · have hcall : ClientStep s (s.setCall c (.settled (.error .requestTimeout))) :=
      setCall_later ⟨nofun, nofun⟩
    exact hcall.trans teardownSocket
  · exact setCall_later ⟨nofun, nofun⟩

theorem handleResponse {response : DaemonResponse} : ClientStep s (s.handleResponse response) := by
  unfold State.handleResponse
  split
  · exact refl
  · split
    · split
      · exact connection.trans (setCall_later ⟨nofun, nofun⟩)
      · exact connection
    · exact connection

end ClientStep

theorem Counted.client {s s' : State} {c : CallId} (h : Counted s c) (hstep : ClientStep s s') :
    Counted s' c := by
  have hsent : s'.sentFor c = s.sentFor c := by
    simp [State.sentFor, State.executionsOf, hstep.wire, hstep.admitted, hstep.executed]
  refine ⟨fun hfresh => hsent.trans (h.fresh (hstep.fresh c hfresh)), hsent ▸ h.sent, ?_⟩
  simpa [State.editing, State.editsOf, State.executionsOf, hstep.running, hstep.edits,
    hstep.executed] using h.edits

/-- A step of the network or of a daemon: what may lead to an execution only
moves or is lost. -/
theorem Counted.moved {s s' : State} {c : CallId} (h : Counted s c) (hcalls : s'.calls = s.calls)
    (hsent : s'.sentFor c ≤ s.sentFor c) (hedits : s'.editing c ≤ s'.executionsOf c) :
    Counted s' c := by
  refine ⟨fun hfresh => ?_, Nat.le_trans hsent h.sent, hedits⟩
  have : s.sentFor c = 0 := h.fresh (by simpa [State.Fresh, hcalls] using hfresh)
  omega

theorem State.handleRequest_calls {s : State} {packet : Packet} :
    (s.handleRequest packet).calls = s.calls := by
  unfold State.handleRequest
  split
  · rfl
  · split <;> rfl

theorem State.handleRequest_sentFor {s : State} {packet : Packet} {c : CallId} :
    (s.handleRequest packet).sentFor c ≤ s.sentFor c + countCall Packet.request c [packet] := by
  unfold State.handleRequest
  split
  · exact Nat.le_add_right _ _
  · split
    · simp only [State.sentFor, State.executionsOf, countCall_append]
      simp only [countCall, List.countP_singleton]
      omega
    · exact Nat.le_add_right _ _
    · exact Nat.le_add_right _ _

theorem State.handleRequest_executed {s : State} {packet : Packet} {c : CallId} :
    (s.handleRequest packet).editing c = s.editing c ∧
      (s.handleRequest packet).executionsOf c = s.executionsOf c := by
  unfold State.handleRequest
  split
  · exact ⟨rfl, rfl⟩
  · split <;> exact ⟨rfl, rfl⟩

theorem writeRequest_counted {s : State} {c c' : CallId} {action : LspAction} {attempt : Attempt}
    {conn : Conn} (h : Counted s c') (hlost : c' = c → s.sentFor c' = 0) :
    Counted (s.writeRequest c action attempt conn) c' := by
  have hsent : (s.writeRequest c action attempt conn).sentFor c' =
      s.sentFor c' + if c = c' then 1 else 0 := by
    simp only [State.sentFor, State.writeRequest, State.executionsOf, countCall_append]
    simp only [countCall, List.countP_singleton, decide_eq_true_eq]
    omega
  by_cases hcc : c' = c
  · subst hcc
    rw [hlost rfl, if_pos rfl] at hsent
    refine ⟨fun hfresh => ?_, Nat.le_of_eq hsent, h.edits⟩
    simp [State.Fresh, State.writeRequest] at hfresh
  · rw [if_neg fun h => hcc h.symm, Nat.add_zero] at hsent
    refine ⟨fun hfresh => hsent.trans (h.fresh ?_), hsent ▸ h.sent, h.edits⟩
    unfold State.Fresh State.writeRequest at hfresh
    simp only [Function.update_of_ne hcc] at hfresh
    exact hfresh

theorem registerRequest_counted {actionOf : CallId → LspAction} {s : State} {c c' : CallId}
    {attempt : Attempt} {writes : Bool} (h : Counted s c')
    (hlost : c' = c → writes = true → s.sentFor c' = 0) :
    Counted (s.registerRequest actionOf c attempt writes) c' := by
  unfold State.registerRequest
  split
  · exact h.client .failAttempt
  · split
    · exact h.client .failAttempt
    · split
      case isTrue hwrites => exact writeRequest_counted h fun hcc => hlost hcc hwrites
      case isFalse => exact h.client (ClientStep.connection.trans .failAttempt)

theorem step_counted {actionOf : CallId → LspAction} {s s' : State} {event : Event}
    (h : ∀ c, actionOf c = .rename → Counted s c) (hok : RetriesLost actionOf s event)
    (hstep : step actionOf s event = some s') : ∀ c, actionOf c = .rename → Counted s' c := by
  intro c hrename
  have hc := h c hrename
  cases event with
  | requestEffect c' =>
    simp only [step] at hstep
    split at hstep
    case h_1 hidle =>
      rw [← Option.some.inj hstep]
      exact hc.client (.setCall fun _ => .inl hidle)
    case h_2 => exact absurd hstep nofun
  | connect conn d =>
    simp only [step] at hstep
    split at hstep
    · rw [← Option.some.inj hstep]
      exact hc.client (ClientStep.teardownSocket.trans .connection)
    · exact absurd hstep nofun
  | failConnection c' error =>
    simp only [step] at hstep
    split at hstep
    · split at hstep
      · exact absurd hstep nofun
      · rw [← Option.some.inj hstep]
        exact hc.client .failAttempt
    · exact absurd hstep nofun
  | register c' writes =>
    simp only [step] at hstep
    split at hstep
    case h_1 attempt hconnecting =>
      rw [← Option.some.inj hstep]
      refine registerRequest_counted hc fun hcc hwrites => ?_
      subst hcc hwrites
      cases attempt with
      | first => exact hc.fresh (.inr hconnecting)
      | second => exact hok c rfl hrename hconnecting
    case h_2 => exact absurd hstep nofun
  | timeout c' =>
    simp only [step] at hstep
    split at hstep
    · rw [← Option.some.inj hstep]
      exact hc.client (ClientStep.connection.trans .failAttempt)
    · exact absurd hstep nofun
  | resume c' =>
    simp only [step] at hstep
    split at hstep
    · rw [← Option.some.inj hstep]
      exact hc.client (.setCall_later ⟨nofun, nofun⟩)
    · rw [← Option.some.inj hstep]
      exact hc.client .failAttempt
    · exact absurd hstep nofun
  | interrupt c' =>
    simp only [step] at hstep
    split at hstep
    · rw [← Option.some.inj hstep]
      exact hc.client (.setCall_later ⟨nofun, nofun⟩)
    · rw [← Option.some.inj hstep]
      exact hc.client (ClientStep.connection.trans (.setCall_later ⟨nofun, nofun⟩))
    · rw [← Option.some.inj hstep]
      exact hc.client (.setCall_later ⟨nofun, nofun⟩)
    · exact absurd hstep nofun
  | loseSocket =>
    rw [← Option.some.inj hstep]
    exact hc.client .teardownSocket
  | close =>
    rw [← Option.some.inj hstep]
    exact hc.client .close
  | startDaemon d =>
    simp only [step] at hstep
    split at hstep
    · rw [← Option.some.inj hstep]
      exact hc.moved rfl (Nat.le_refl _) hc.edits
    · exact absurd hstep nofun
  | stopDaemon d =>
    simp only [step] at hstep
    split at hstep
    · rw [← Option.some.inj hstep]
      exact hc.moved rfl (Nat.le_refl _) hc.edits
    · exact absurd hstep nofun
  | endDaemon d =>
    rw [← Option.some.inj hstep]
    refine hc.moved rfl ?_ ?_
    · exact Nat.add_le_add_right (Nat.add_le_add_left (countCall_filter _) _) _
    · exact Nat.le_trans (Nat.add_le_add_right (countCall_filter _) _) hc.edits
  | deliver i =>
    simp only [step] at hstep
    split at hstep
    · obtain ⟨packet, hpacket, rfl⟩ := takeAt_eq_some hstep
      let left : State := { s with wire := s.wire.eraseIdx i }
      obtain ⟨hediting, hexecuted⟩ : (left.handleRequest packet).editing c = left.editing c ∧
          (left.handleRequest packet).executionsOf c = left.executionsOf c :=
        State.handleRequest_executed
      refine hc.moved State.handleRequest_calls ?_ (hediting ▸ hexecuted ▸ hc.edits)
      refine Nat.le_trans State.handleRequest_sentFor (Nat.le_of_eq ?_)
      simp only [State.sentFor, countCall_eraseIdx hpacket]
      simp only [State.executionsOf]
      omega
    · exact absurd hstep nofun
  | lose i =>
    simp only [step] at hstep
    obtain ⟨packet, hpacket, rfl⟩ := takeAt_eq_some hstep
    refine hc.moved rfl ?_ hc.edits
    simp only [State.sentFor, countCall_eraseIdx hpacket]
    simp only [State.executionsOf]
    omega
  | execute i =>
    simp only [step] at hstep
    obtain ⟨task, htask, rfl⟩ := takeAt_eq_some hstep
    have hedits := hc.edits
    refine hc.moved rfl ?_ ?_
    · simp only [State.sentFor, State.executionsOf, countCall_eraseIdx htask, countCall_append]
      omega
    · simp only [State.editing, State.editsOf, State.executionsOf, countCall_append] at hedits ⊢
      omega
  | applyWorkspaceEdit i =>
    simp only [step] at hstep
    obtain ⟨task, htask, rfl⟩ := takeAt_eq_some hstep
    have hedits := hc.edits
    split
    · refine hc.moved rfl (Nat.le_refl _) ?_
      simp only [State.editing, State.editsOf, State.executionsOf, countCall_eraseIdx htask,
        countCall_append] at hedits ⊢
      omega
    · exact hc
  | respond i ok =>
    simp only [step] at hstep
    obtain ⟨task, htask, rfl⟩ := takeAt_eq_some hstep
    have hedits := hc.edits
    refine hc.moved rfl (Nat.le_refl _) ?_
    simp only [State.editing, State.editsOf, State.executionsOf, countCall_eraseIdx htask,
      State.writeResponse] at hedits ⊢
    omega
  | respondRefreshed i ok =>
    simp only [step] at hstep
    obtain ⟨task, htask, rfl⟩ := takeAt_eq_some hstep
    exact hc.moved rfl (Nat.le_refl _) hc.edits
  | receive i =>
    simp only [step] at hstep
    split at hstep
    · obtain ⟨response, hresponse, rfl⟩ := takeAt_eq_some hstep
      have hread : Counted { s with responses := s.responses.eraseIdx i } c :=
        hc.moved rfl (Nat.le_refl _) hc.edits
      split
      · exact hread.client .handleResponse
      · exact hread
    · exact absurd hstep nofun
  | loseResponse i =>
    simp only [step] at hstep
    obtain ⟨response, hresponse, rfl⟩ := takeAt_eq_some hstep
    exact hc.moved rfl (Nat.le_refl _) hc.edits

-- -----
-- Runs
-- -----

/-- In every run in which a rename is written again only when what was written
before is lost, daemons execute it at most once. -/
theorem rename_atMostOnce {actionOf : CallId → LspAction} {s : State} {events : List Event}
    (hlost : AllMeet (step actionOf) (RetriesLost actionOf) State.initial events)
    (hrun : run (step actionOf) State.initial events = some s) : AtMostOnce actionOf s := by
  have hcounted : ∀ c, actionOf c = .rename → Counted s c :=
    Transitions.invariant (fun _ _ _ => step_counted)
      (fun c _ => ⟨fun _ => rfl, Nat.zero_le _, Nat.le_refl _⟩) hlost hrun
  intro c hrename
  have hc := hcounted c hrename
  have hexecuted : s.executionsOf c ≤ 1 := Nat.le_trans (Nat.le_add_left _ _) hc.sent
  have hedits : s.editsOf c ≤ s.executionsOf c := Nat.le_trans (Nat.le_add_left _ _) hc.edits
  exact ⟨hexecuted, Nat.le_trans hedits hexecuted⟩

/-- A first line that is lost with its connection, and a retry that is not. -/
def lostLine : List Event :=
  [.startDaemon 0, .requestEffect 0, .connect 0 0, .register 0 true, .lose 0, .timeout 0,
    .register 0 true, .deliver 0, .execute 0, .applyWorkspaceEdit 0, .respondRefreshed 0 true,
    .receive 0, .resume 0]

theorem RetriesLost.of_other {actionOf : CallId → LspAction} {s : State} {event : Event}
    (h : ∀ c, event ≠ .register c true) : RetriesLost actionOf s event :=
  fun c hevent => absurd hevent (h c)

theorem rename_atMostOnce_lostLine :
    ∃ s, run (step fun _ => .rename) State.initial lostLine = some s ∧
      AtMostOnce (fun _ => .rename) s := by
  have hlost : AllMeet (step fun _ => .rename) (RetriesLost fun _ => .rename) State.initial
      lostLine := by
    refine .cons (.of_other nofun) rfl (.cons (.of_other nofun) rfl (.cons (.of_other nofun) rfl ?_))
    refine .cons (fun _ _ _ _ => rfl) rfl ?_
    refine .cons (.of_other nofun) rfl (.cons (.of_other nofun) rfl ?_)
    refine .cons (fun _ _ _ _ => rfl) rfl ?_
    refine .cons (.of_other nofun) rfl (.cons (.of_other nofun) rfl (.cons (.of_other nofun) rfl ?_))
    exact .cons (.of_other nofun) rfl (.cons (.of_other nofun) rfl (.cons (.of_other nofun) rfl .nil))
  exact ⟨_, rfl, rename_atMostOnce hlost rfl⟩

/-- A rename that takes the daemon longer than the client waits, with a
connection that stays: the retry is admitted and executed as well. -/
def slowRename : List Event :=
  [.startDaemon 0, .requestEffect 0, .connect 0 0, .register 0 true, .deliver 0, .execute 0,
    .timeout 0, .applyWorkspaceEdit 0, .register 0 true, .deliver 0, .execute 0,
    .applyWorkspaceEdit 0]

theorem slowRename_twice :
    ¬ ∀ (actionOf : CallId → LspAction) (s : State) (events : List Event),
      run (step actionOf) State.initial events = some s → AtMostOnce actionOf s := by
  intro h
  obtain ⟨s, hrun⟩ : ∃ s, run (step fun _ => .rename) State.initial slowRename = some s := ⟨_, rfl⟩
  have htwice : (run (step fun _ => .rename) State.initial slowRename).map (·.executionsOf 0) =
      some 2 := rfl
  rw [hrun] at htwice
  have := (h (fun _ => .rename) s slowRename hrun 0 rfl).1
  rw [Option.map_some, Option.some.injEq] at htwice
  omega

end PiEnv.DevTools.ClientRequests
