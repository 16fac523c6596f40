import Mathlib.Logic.Function.Basic
import PiEnv.Lib.Transitions

/-!
# The socket path of the daemon

Daemons that start and stop, and clients that connect, on one socket path. A
daemon's acquisition and release and a client's connection attempt are taken
one system call at a time; between any two of them, any other process may run.
-/

namespace PiEnv.DevTools.DaemonSocket

open Transitions (run AllMeet)

abbrev DaemonId := Nat
abbrev ClientId := Nat

-- -----
-- Processes
-- -----

inductive Phase where
  | closed | accepting | stopping
  deriving DecidableEq, Repr

/-- Where `acquire` is: before its next system call, or settled. -/
inductive Acquisition where
  | writePid | checkSocket | unlinkSocket | listen | done | failed
  deriving DecidableEq, Repr

/-- Where `release` is, once what the daemon accepted has been drained. -/
inductive Release where
  | closeListener | unlinkSocket | unlinkPid | done
  deriving DecidableEq, Repr

structure Daemon where
  phase : Phase
  acquisition : Acquisition
  release : Release
  /-- The listener is open. -/
  listening : Bool
  ownsSocket : Bool
  ownsPid : Bool
  deriving DecidableEq, Repr

/-- A daemon whose `start` was called. -/
def Daemon.started : Daemon := ⟨.closed, .writePid, .closeListener, false, false, false⟩

/-- Where `doConnectEffect` is, or a request of a connected client. -/
inductive Client where
  | idle
  /-- The first `tryConnectEffect`, behind `existsSync`. -/
  | connect
  | checkStale | unlinkStale | spawn
  /-- A later `tryConnectEffect`, before and behind `existsSync`. -/
  | retry | reconnect
  | connected (daemon : DaemonId)
  /-- `discardStaleSocket`, behind `existsSync`. -/
  | discard
  deriving DecidableEq, Repr

def Client.isConnected : Client → Bool
  | .connected _ => true
  | _ => false

structure State where
  /-- The daemon whose listener made the file at the socket path. -/
  socket : Option DaemonId
  pidFile : Option DaemonId
  daemons : DaemonId → Option Daemon
  clients : ClientId → Client

inductive Event where
  /-- Some process starts a daemon. -/
  | startDaemon (d : DaemonId)
  | writePid (d : DaemonId)
  | checkSocket (d : DaemonId)
  | unlinkSocket (d : DaemonId)
  | listen (d : DaemonId)
  /-- `acquire` throws. -/
  | failAcquisition (d : DaemonId)
  /-- The continuation of `start` behind `acquire`. -/
  | settleStartup (d : DaemonId)
  | shutdown (d : DaemonId)
  | closeListener (d : DaemonId)
  | unlinkOwnSocket (d : DaemonId)
  | unlinkOwnPid (d : DaemonId)
  /-- The process of a daemon is killed. -/
  | kill (d : DaemonId)
  | tryConnect (c : ClientId)
  | connect (c : ClientId)
  | checkStale (c : ClientId)
  | unlinkStale (c : ClientId)
  | spawnDaemon (c : ClientId) (d : DaemonId)
  | retryConnect (c : ClientId)
  | reconnect (c : ClientId)
  /-- An attempt fails or is interrupted, or a connection is closed. -/
  | leave (c : ClientId)
  /-- A request of a connected client times out for the second time. -/
  | requestTimeout (c : ClientId)
  | discardSocket (c : ClientId)
  deriving DecidableEq, Repr

-- -----
-- Steps
-- -----

def State.setDaemon (s : State) (d : DaemonId) (daemon : Daemon) : State :=
  { s with daemons := Function.update s.daemons d (some daemon) }

def State.setClient (s : State) (c : ClientId) (client : Client) : State :=
  { s with clients := Function.update s.clients c client }

/-- Whether a connection to the socket path is taken by a listener. -/
def State.listener (s : State) : Option DaemonId :=
  match s.socket with
  | some d => if (s.daemons d).any (·.listening) then some d else none
  | none => none

/-- A client's connection attempt: it is at `missed` when the path does not
lead to a listener. -/
def State.connectClient (s : State) (c : ClientId) (missed : Client) : State :=
  match s.listener with
  | some d => s.setClient c (.connected d)
  | none => s.setClient c missed

def writePid (s : State) (d : DaemonId) (daemon : Daemon) : State :=
  if daemon.phase = .stopping then s.setDaemon d { daemon with acquisition := .failed }
  else { s with pidFile := some d }.setDaemon d
    { daemon with acquisition := .checkSocket, ownsPid := true }

/-- `removeStaleArtifact` in two calls: whether the path exists, and `unlink`. -/
def checkSocket (s : State) (d : DaemonId) (daemon : Daemon) : State :=
  s.setDaemon d
    { daemon with acquisition := if s.socket.isSome then .unlinkSocket else .listen }

def unlinkSocket (s : State) (d : DaemonId) (daemon : Daemon) : State :=
  { s with socket := none }.setDaemon d { daemon with acquisition := .listen }

/-- A path that exists cannot be bound. -/
def listen (s : State) (d : DaemonId) (daemon : Daemon) : State :=
  match s.socket with
  | none => { s with socket := some d }.setDaemon d
      { daemon with acquisition := .done, listening := true, ownsSocket := true }
  | some _ => s.setDaemon d { daemon with acquisition := .failed }

def failAcquisition (s : State) (d : DaemonId) (daemon : Daemon) : State :=
  s.setDaemon d { daemon with acquisition := .failed }

def settleStartup (s : State) (d : DaemonId) (daemon : Daemon) : State :=
  s.setDaemon d { daemon with phase := if daemon.acquisition = .done then .accepting else .stopping }

def shutdown (s : State) (d : DaemonId) (daemon : Daemon) : State :=
  s.setDaemon d { daemon with phase := .stopping }

/-- Closing a listener removes its socket path. -/
def closeListener (s : State) (d : DaemonId) (daemon : Daemon) : State :=
  { s with socket := if daemon.listening then none else s.socket }.setDaemon d
    { daemon with release := .unlinkSocket, listening := false }

def unlinkOwnSocket (s : State) (d : DaemonId) (daemon : Daemon) : State :=
  { s with socket := if daemon.ownsSocket then none else s.socket }.setDaemon d
    { daemon with release := .unlinkPid }

def unlinkOwnPid (s : State) (d : DaemonId) (daemon : Daemon) : State :=
  { s with pidFile := if daemon.ownsPid then none else s.pidFile }.setDaemon d
    { daemon with release := .done }

/-- The file of a listener outlives a process that is killed. -/
def kill (s : State) (d : DaemonId) (daemon : Daemon) : State :=
  s.setDaemon d { daemon with phase := .stopping, release := .done, listening := false }

/-- What a process that has not ended does when it is there. -/
def daemonStep (s : State) (d : DaemonId) (may : Daemon → Bool)
    (act : State → DaemonId → Daemon → State) : Option State :=
  match s.daemons d with
  | some daemon => if daemon.release ≠ .done ∧ may daemon then some (act s d daemon) else none
  | none => none

def clientStep (s : State) (c : ClientId) (may : Client → Bool) (act : State) : Option State :=
  if may (s.clients c) then some act else none

def isReleasing (daemon : Daemon) (release : Release) : Bool :=
  daemon.phase == .stopping && (daemon.acquisition == .done || daemon.acquisition == .failed) &&
    daemon.release == release

def step (s : State) : Event → Option State
  | .startDaemon d => if s.daemons d = none then some (s.setDaemon d .started) else none
  | .writePid d => daemonStep s d (·.acquisition == .writePid) writePid
  | .checkSocket d => daemonStep s d (·.acquisition == .checkSocket) checkSocket
  | .unlinkSocket d => daemonStep s d (·.acquisition == .unlinkSocket) unlinkSocket
  | .listen d => daemonStep s d (·.acquisition == .listen) listen
  | .failAcquisition d =>
    daemonStep s d (fun daemon => daemon.acquisition != .done && daemon.acquisition != .failed)
      failAcquisition
  | .settleStartup d =>
    daemonStep s d
      (fun daemon => daemon.phase == .closed &&
        (daemon.acquisition == .done || daemon.acquisition == .failed)) settleStartup
  | .shutdown d => daemonStep s d (·.phase != .stopping) shutdown
  | .closeListener d => daemonStep s d (isReleasing · .closeListener) closeListener
  | .unlinkOwnSocket d => daemonStep s d (isReleasing · .unlinkSocket) unlinkOwnSocket
  | .unlinkOwnPid d => daemonStep s d (isReleasing · .unlinkPid) unlinkOwnPid
  | .kill d => daemonStep s d (fun _ => true) kill
  | .tryConnect c =>
    clientStep s c (· == .idle) (s.setClient c (if s.socket.isSome then .connect else .checkStale))
  | .connect c => clientStep s c (· == .connect) (s.connectClient c .checkStale)
  | .checkStale c =>
    clientStep s c (· == .checkStale) (s.setClient c (if s.socket.isSome then .unlinkStale else .spawn))
  | .unlinkStale c => clientStep s c (· == .unlinkStale) ({ s with socket := none }.setClient c .spawn)
  | .spawnDaemon c d =>
    if s.daemons d = none then clientStep s c (· == .spawn) ((s.setDaemon d .started).setClient c .retry)
    else none
  | .retryConnect c =>
    clientStep s c (· == .retry) (s.setClient c (if s.socket.isSome then .reconnect else .retry))
  | .reconnect c => clientStep s c (· == .reconnect) (s.connectClient c .retry)
  | .leave c => clientStep s c (· != .idle) (s.setClient c .idle)
  | .requestTimeout c =>
    clientStep s c Client.isConnected (s.setClient c (if s.socket.isSome then .discard else .idle))
  | .discardSocket c => clientStep s c (· == .discard) ({ s with socket := none }.setClient c .idle)

/-- No daemon and no client yet; the socket path may be left from before. -/
def Initial (s : State) : Prop := (∀ d, s.daemons d = none) ∧ ∀ c, s.clients c = .idle

-- -----
-- While nothing removes the path of a daemon that serves
-- -----

/-- From its listening until it begins to shut down. -/
def Daemon.Serves (daemon : Daemon) : Prop := daemon.listening = true ∧ daemon.phase ≠ .stopping

/-- The events that remove whatever is at the socket path. -/
def removesSocket (s : State) : Event → Bool
  | .closeListener d => (s.daemons d).any (·.listening)
  | .unlinkOwnSocket d => (s.daemons d).any (·.ownsSocket)
  | .unlinkSocket _ | .unlinkStale _ | .discardSocket _ => true
  | _ => false

/-- The socket path is removed only while no daemon serves. -/
def RemovesStale (s : State) (event : Event) : Prop :=
  removesSocket s event = true → ∀ d daemon, s.daemons d = some daemon → ¬ daemon.Serves

/-- A daemon that accepts requests is where the socket path leads, and the only
one. -/
def Reachable (s : State) : Prop :=
  (∀ d daemon, s.daemons d = some daemon → daemon.phase = .accepting → s.listener = some d) ∧
  ∀ d d' daemon daemon', s.daemons d = some daemon → s.daemons d' = some daemon' →
    daemon.phase = .accepting → daemon'.phase = .accepting → d = d'

/-- A daemon accepts once it has acquired, and then it listens. -/
structure Daemon.Sound (daemon : Daemon) : Prop where
  acquired : daemon.phase = .accepting → daemon.acquisition = .done
  listens : daemon.acquisition = .done → daemon.phase ≠ .stopping → daemon.listening = true

theorem Daemon.Sound.unacquired {daemon daemon' : Daemon} (h : daemon.Sound)
    (hnot : daemon.acquisition ≠ .done) (hphase : daemon'.phase = daemon.phase)
    (hnot' : daemon'.acquisition ≠ .done) : daemon'.Sound :=
  ⟨fun haccepting => absurd (h.acquired (hphase ▸ haccepting)) hnot, fun hdone => absurd hdone hnot'⟩

theorem Daemon.Sound.stopping {daemon : Daemon} (h : daemon.phase = .stopping) : daemon.Sound :=
  ⟨fun haccepting => absurd (h.symm.trans haccepting) nofun, fun _ hnot => absurd h hnot⟩

theorem Daemon.Serves.not_stopping {daemon : Daemon} (hs : daemon.Serves)
    (h : daemon.phase = .stopping) : False :=
  hs.2 h

def Held (socket : Option DaemonId) (daemons : DaemonId → Option Daemon) : Prop :=
  ∀ d daemon, daemons d = some daemon → daemon.Sound ∧ (daemon.Serves → socket = some d)

theorem Held.update {socket socket' : Option DaemonId} {daemons : DaemonId → Option Daemon}
    {d : DaemonId} {daemon : Daemon} (h : Held socket daemons)
    (hsocket : socket' = socket ∨ ∀ e other, daemons e = some other → ¬ other.Serves)
    (hsound : daemon.Sound) (hserves : daemon.Serves → socket' = some d) :
    Held socket' (Function.update daemons d (some daemon)) := by
  intro e other he
  by_cases hde : e = d
  · subst hde
    rw [Function.update_self, Option.some.injEq] at he
    exact he ▸ ⟨hsound, hserves⟩
  · rw [Function.update_of_ne hde] at he
    obtain ⟨hother, hs⟩ := h e other he
    refine ⟨hother, fun hserving => ?_⟩
    rcases hsocket with rfl | hnone
    · exact hs hserving
    · exact absurd hserving (hnone e other he)

theorem Held.removed {socket : Option DaemonId} {daemons : DaemonId → Option Daemon}
    (h : Held socket daemons) (hnone : ∀ d daemon, daemons d = some daemon → ¬ daemon.Serves) :
    Held none daemons :=
  fun d daemon hd => ⟨(h d daemon hd).1, fun hs => absurd hs (hnone d daemon hd)⟩

theorem Held.reachable {s : State} (h : Held s.socket s.daemons) : Reachable s := by
  have hsocket : ∀ d daemon, s.daemons d = some daemon → daemon.phase = .accepting →
      s.socket = some d ∧ daemon.listening = true := by
    intro d daemon hd hphase
    obtain ⟨hsound, hserves⟩ := h d daemon hd
    have hlistens : daemon.listening = true :=
      hsound.listens (hsound.acquired hphase) (by simp [hphase])
    exact ⟨hserves ⟨hlistens, by simp [hphase]⟩, hlistens⟩
  refine ⟨fun d daemon hd hphase => ?_, fun d d' daemon daemon' hd hd' hphase hphase' => ?_⟩
  · obtain ⟨hs, hl⟩ := hsocket d daemon hd hphase
    simp [State.listener, hs, hd, hl]
  · have := (hsocket d daemon hd hphase).1.symm.trans (hsocket d' daemon' hd' hphase').1
    exact Option.some.inj this

theorem daemonStep_eq_some {s s' : State} {d : DaemonId} {may : Daemon → Bool}
    {act : State → DaemonId → Daemon → State} (h : daemonStep s d may act = some s') :
    ∃ daemon, s.daemons d = some daemon ∧ may daemon = true ∧ act s d daemon = s' := by
  unfold daemonStep at h
  cases hd : s.daemons d with
  | none => simp [hd] at h
  | some daemon =>
    rw [hd] at h
    by_cases hmay : daemon.release ≠ .done ∧ may daemon = true
    · exact ⟨daemon, rfl, hmay.2, by simpa [hmay] using h⟩
    · simp [hmay] at h

theorem clientStep_eq_some {s s' act : State} {c : ClientId} {may : Client → Bool}
    (h : clientStep s c may act = some s') : act = s' := by
  unfold clientStep at h
  by_cases hmay : may (s.clients c) = true
  · simpa [hmay] using h
  · simp [hmay] at h

def State.Held (s : State) : Prop := DaemonSocket.Held s.socket s.daemons

theorem State.Held.initial {s : State} (h : Initial s) : s.Held := by
  intro d daemon hd
  rw [h.1 d] at hd
  exact absurd hd nofun

theorem State.Held.connectClient {s : State} {c : ClientId} {missed : Client} (h : s.Held) :
    (s.connectClient c missed).Held := by
  unfold State.connectClient
  split <;> exact h

/-- A daemon that is started takes the place of none. -/
theorem State.Held.started {s : State} {d : DaemonId} (h : s.Held) : (s.setDaemon d .started).Held :=
  h.update (.inl rfl) ⟨nofun, nofun⟩ fun hs => absurd hs.1 nofun

/-- A step of a daemon that does not make it serve. -/
theorem State.Held.daemon {s : State} {d : DaemonId} {before daemon : Daemon} (h : s.Held)
    (hd : s.daemons d = some before) (hsound : daemon.Sound)
    (hserves : daemon.Serves → before.Serves) : (s.setDaemon d daemon).Held :=
  h.update (.inl rfl) hsound fun hs => (h d before hd).2 (hserves hs)

/-- A step that removes the path is one of those that do so while none serves. -/
theorem State.Held.removing {s : State} {event : Event} {d : DaemonId} {daemon : Daemon}
    {socket : Option DaemonId} (h : s.Held) (hok : RemovesStale s event)
    (hsocket : socket = s.socket ∨ removesSocket s event = true)
    (hsound : daemon.Sound) (hserves : daemon.Serves → socket = some d) :
    ({ s with socket := socket }.setDaemon d daemon).Held :=
  h.update (hsocket.imp_right hok) hsound hserves

theorem step_held {s s' : State} {event : Event} (h : s.Held) (hok : RemovesStale s event)
    (hstep : step s event = some s') : s'.Held := by
  cases event with
  | startDaemon d =>
    by_cases hd : s.daemons d = none
    · rw [← Option.some.inj ((if_pos hd).symm.trans hstep)]
      exact h.started
    · exact absurd ((if_neg hd).symm.trans hstep) nofun
  | writePid d =>
    obtain ⟨daemon, hd, hmay, rfl⟩ := daemonStep_eq_some hstep
    have hat : daemon.acquisition ≠ .done := by simp_all
    unfold writePid
    split
    · exact h.daemon hd ((h d daemon hd).1.unacquired hat rfl nofun) id
    · exact h.daemon hd ((h d daemon hd).1.unacquired hat rfl nofun) id
  | checkSocket d =>
    obtain ⟨daemon, hd, hmay, rfl⟩ := daemonStep_eq_some hstep
    have hat : daemon.acquisition ≠ .done := by simp_all
    refine h.daemon hd ((h d daemon hd).1.unacquired hat rfl ?_) id
    show (if s.socket.isSome then Acquisition.unlinkSocket else .listen) ≠ .done
    split <;> decide
  | unlinkSocket d =>
    obtain ⟨daemon, hd, hmay, rfl⟩ := daemonStep_eq_some hstep
    have hat : daemon.acquisition ≠ .done := by simp_all
    refine h.removing hok (.inr rfl) ((h d daemon hd).1.unacquired hat rfl nofun) fun hs => ?_
    exact absurd hs (hok rfl d daemon hd)
  | listen d =>
    obtain ⟨daemon, hd, hmay, rfl⟩ := daemonStep_eq_some hstep
    have hat : daemon.acquisition ≠ .done := by simp_all
    unfold listen
    split
    case h_1 hnone =>
      -- Nobody serves: the path of a daemon that does would be there.
      refine h.update (.inr fun e other he hs => ?_) ⟨fun haccepting => ?_, fun _ _ => rfl⟩
        fun _ => rfl
      · exact absurd (hnone.symm.trans ((h e other he).2 hs)) nofun
      · exact absurd ((h d daemon hd).1.acquired haccepting) hat
    case h_2 => exact h.daemon hd ((h d daemon hd).1.unacquired hat rfl nofun) id
  | failAcquisition d =>
    obtain ⟨daemon, hd, hmay, rfl⟩ := daemonStep_eq_some hstep
    have hat : daemon.acquisition ≠ .done := by simp_all
    exact h.daemon hd ((h d daemon hd).1.unacquired hat rfl nofun) id
  | settleStartup d =>
    obtain ⟨daemon, hd, hmay, rfl⟩ := daemonStep_eq_some hstep
    have hclosed : daemon.phase ≠ .stopping := by simp_all
    refine h.daemon hd ⟨fun haccepting => ?_, fun hdone _ => (h d daemon hd).1.listens hdone hclosed⟩
      fun hs => ⟨hs.1, hclosed⟩
    by_contra hnot
    simp [show daemon.acquisition ≠ .done from hnot] at haccepting
  | shutdown d =>
    obtain ⟨daemon, hd, hmay, rfl⟩ := daemonStep_eq_some hstep
    exact h.daemon hd (.stopping rfl) fun hs => (hs.not_stopping rfl).elim
  | closeListener d =>
    obtain ⟨daemon, hd, hmay, rfl⟩ := daemonStep_eq_some hstep
    have hphase : daemon.phase = .stopping := by simp_all [isReleasing]
    refine h.removing hok ?_ (.stopping hphase) fun hs => (hs.not_stopping hphase).elim
    cases hl : daemon.listening with
    | true => exact .inr (by simp [removesSocket, hd, hl])
    | false => exact .inl rfl
  | unlinkOwnSocket d =>
    obtain ⟨daemon, hd, hmay, rfl⟩ := daemonStep_eq_some hstep
    have hphase : daemon.phase = .stopping := by simp_all [isReleasing]
    refine h.removing hok ?_ (.stopping hphase) fun hs => (hs.not_stopping hphase).elim
    cases hl : daemon.ownsSocket with
    | true => exact .inr (by simp [removesSocket, hd, hl])
    | false => exact .inl rfl
  | unlinkOwnPid d =>
    obtain ⟨daemon, hd, hmay, rfl⟩ := daemonStep_eq_some hstep
    have hphase : daemon.phase = .stopping := by simp_all [isReleasing]
    exact h.daemon hd (.stopping hphase) fun hs => (hs.not_stopping hphase).elim
  | kill d =>
    obtain ⟨daemon, hd, hmay, rfl⟩ := daemonStep_eq_some hstep
    exact h.daemon hd (.stopping rfl) fun hs => (hs.not_stopping rfl).elim
  | tryConnect c =>
    simp only [step] at hstep
    rw [← clientStep_eq_some hstep]
    exact h
  | connect c =>
    simp only [step] at hstep
    rw [← clientStep_eq_some hstep]
    exact h.connectClient
  | checkStale c =>
    simp only [step] at hstep
    rw [← clientStep_eq_some hstep]
    exact h
  | unlinkStale c =>
    simp only [step] at hstep
    rw [← clientStep_eq_some hstep]
    exact DaemonSocket.Held.removed h (hok rfl)
  | spawnDaemon c d =>
    by_cases hd : s.daemons d = none
    · rw [← clientStep_eq_some ((if_pos hd).symm.trans hstep)]
      exact h.started
    · exact absurd ((if_neg hd).symm.trans hstep) nofun
  | retryConnect c =>
    simp only [step] at hstep
    rw [← clientStep_eq_some hstep]
    exact h
  | reconnect c =>
    simp only [step] at hstep
    rw [← clientStep_eq_some hstep]
    exact h.connectClient
  | leave c =>
    simp only [step] at hstep
    rw [← clientStep_eq_some hstep]
    exact h
  | requestTimeout c =>
    simp only [step] at hstep
    rw [← clientStep_eq_some hstep]
    exact h
  | discardSocket c =>
    simp only [step] at hstep
    rw [← clientStep_eq_some hstep]
    exact DaemonSocket.Held.removed h (hok rfl)

/-- What `RemovesStale` leaves out: a removal while a daemon accepts leaves it
accepting, and without its path. -/
theorem removal_unreachable {s s' : State} {event : Event} {d : DaemonId} {daemon : Daemon}
    (hremoves : removesSocket s event = true) (hd : s.daemons d = some daemon)
    (haccepting : daemon.phase = .accepting) (hstep : step s event = some s') : ¬ Reachable s' := by
  suffices s'.socket = none ∧ ∃ after, s'.daemons d = some after ∧ after.phase = .accepting by
    intro hreachable
    obtain ⟨hsocket, after, hafter, hphase⟩ := this
    have := hreachable.1 d after hafter hphase
    simp [State.listener, hsocket] at this
  cases event with
  | closeListener e =>
    obtain ⟨other, he, hmay, rfl⟩ := daemonStep_eq_some hstep
    have hne : d ≠ e := by
      rintro rfl
      simp_all [isReleasing]
    have hlistening : other.listening = true := by simpa [removesSocket, he] using hremoves
    exact ⟨if_pos hlistening, daemon, (Function.update_of_ne hne _ _).trans hd, haccepting⟩
  | unlinkOwnSocket e =>
    obtain ⟨other, he, hmay, rfl⟩ := daemonStep_eq_some hstep
    have hne : d ≠ e := by
      rintro rfl
      simp_all [isReleasing]
    have howns : other.ownsSocket = true := by simpa [removesSocket, he] using hremoves
    exact ⟨if_pos howns, daemon, (Function.update_of_ne hne _ _).trans hd, haccepting⟩
  | unlinkSocket e =>
    obtain ⟨other, he, hmay, rfl⟩ := daemonStep_eq_some hstep
    refine ⟨rfl, ?_⟩
    by_cases hde : d = e
    · subst hde
      obtain rfl := Option.some.inj (hd.symm.trans he)
      exact ⟨_, Function.update_self _ _ _, haccepting⟩
    · exact ⟨daemon, (Function.update_of_ne hde _ _).trans hd, haccepting⟩
  | unlinkStale c | discardSocket c =>
    simp only [step] at hstep
    rw [← clientStep_eq_some hstep]
    exact ⟨rfl, daemon, hd, haccepting⟩
  | _ => exact absurd hremoves nofun

-- -----
-- Runs
-- -----

/-- A daemon that serves stays reachable in every run that removes the socket
path only while none serves. -/
theorem serving_daemon_reachable {s₀ s : State} {events : List Event} (hinitial : Initial s₀)
    (hstale : AllMeet step RemovesStale s₀ events) (hrun : run step s₀ events = some s) :
    Reachable s :=
  DaemonSocket.Held.reachable
    (Transitions.invariant (fun _ _ _ => step_held) (State.Held.initial hinitial) hstale hrun)

/-- No process, and the socket file of one that was killed. -/
def leftSocket : State := ⟨some 7, none, fun _ => none, fun _ => .idle⟩

theorem RemovesStale.of_keeps {s : State} {event : Event} (h : removesSocket s event = false) :
    RemovesStale s event :=
  fun hremoves => absurd (hremoves.symm.trans h) nofun

/-- A client that finds the left file removes it and starts a daemon. -/
def leftSocketStart : List Event :=
  [.tryConnect 1, .connect 1, .checkStale 1, .unlinkStale 1, .spawnDaemon 1 0, .writePid 0,
    .checkSocket 0, .listen 0, .settleStartup 0]

theorem serving_daemon_reachable_leftSocket :
    ∃ s, run step leftSocket leftSocketStart = some s ∧ Reachable s := by
  have hstale : AllMeet step RemovesStale leftSocket leftSocketStart := by
    refine .cons (.of_keeps rfl) rfl (.cons (.of_keeps rfl) rfl (.cons (.of_keeps rfl) rfl ?_))
    refine .cons (fun _ d daemon h => absurd h nofun) rfl ?_
    refine .cons (.of_keeps rfl) rfl (.cons (.of_keeps rfl) rfl (.cons (.of_keeps rfl) rfl ?_))
    exact .cons (.of_keeps rfl) rfl (.cons (.of_keeps rfl) rfl .nil)
  exact ⟨_, rfl, serving_daemon_reachable ⟨fun _ => rfl, fun _ => rfl⟩ hstale rfl⟩

/-- Two clients that find no socket, and the daemons they start: the second
takes the file of the first, which serves, for a stale one. -/
def twoStarts : List Event :=
  [.tryConnect 1, .tryConnect 2, .checkStale 1, .checkStale 2, .spawnDaemon 1 0, .spawnDaemon 2 1,
    .writePid 0, .checkSocket 0, .listen 0, .settleStartup 0, .retryConnect 1, .reconnect 1,
    .writePid 1, .checkSocket 1, .unlinkSocket 1, .listen 1, .settleStartup 1]

theorem twoStarts_bothAccept :
    ¬ ∀ (s₀ s : State) (events : List Event), Initial s₀ → run step s₀ events = some s →
      Reachable s := by
  intro h
  let noSocket : State := ⟨none, none, fun _ => none, fun _ => .idle⟩
  let accepting : Daemon := ⟨.accepting, .done, .closeListener, true, true, true⟩
  obtain ⟨s, hrun⟩ : ∃ s, run step noSocket twoStarts = some s := ⟨_, rfl⟩
  have hfirst : (run step noSocket twoStarts).bind (·.daemons 0) = some accepting := rfl
  have hsecond : (run step noSocket twoStarts).bind (·.daemons 1) = some accepting := rfl
  rw [hrun] at hfirst hsecond
  have := (h noSocket s twoStarts ⟨fun _ => rfl, fun _ => rfl⟩ hrun).2 0 1 accepting accepting
    hfirst hsecond rfl rfl
  exact absurd this (by decide)

end PiEnv.DevTools.DaemonSocket
