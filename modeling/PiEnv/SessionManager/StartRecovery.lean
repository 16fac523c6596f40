import PiEnv.Lib.Evaluation
import PiEnv.SessionManager.HostServer
import PiEnv.SessionManager.Start

/-!
# Starting after a crash

A workspace as a start finds it when no other start is under way: the runtime
files, the socket, the tags of the windows and the processes that are alive. A
start succeeds exactly when nothing that was left behind is in its way.
-/

namespace PiEnv.SessionManager.Start

open Effects Js RuntimeBus Launch
open Host (CurrentWindow HostOp HostRes SessionHostError Shown TmuxSession Window WindowId Windows
  windowAt)

-- -----
-- The workspace
-- -----

/-- `update` is whether the manifest can be written; `locked` whether the start
lock is there and not stale. -/
structure Workspace where
  manifest : Except StartError (Option CoordinatorRecord)
  update : Except StartError Unit
  cwd : Str
  timestamp : Str
  uuids : Nat → Str
  drawn : Nat
  now : Nat
  locked : Bool
  claim : Option Str
  metadata : Option Str
  socket : Option SocketInfo
  listening : Option Str
  sessionFiles : Str → Bool
  alive : Nat → Bool
  windows : Windows
  panes : Nat → Option (TmuxSession × WindowId)

def Workspace.list (w : Workspace) (target : TmuxSession) : List WindowId :=
  (List.range w.windows.length).filter fun windowId =>
    (windowAt w.windows windowId).any (target ∈ ·.shownIn)

def Workspace.draw (w : Workspace) : Str × Workspace :=
  (w.uuids w.drawn, { w with drawn := w.drawn + 1 })

/-- A lost pane, a closed window or a tag that is there already. -/
def refused {α : Type} : Option α → Except Str α
  | some value => .ok value
  | none => .error (lit "tmux command failed")

def hostAnswer : Answers HostOp HostRes Workspace := fun w => fun
  | .socket paneId => (refused ((w.panes paneId).map fun _ => lit "/tmp/tmux/default"), w)
  | .lock _ => (.ok (), w)
  | .unlock => ((), w)
  | .session paneId => (refused ((w.panes paneId).map Prod.fst), w)
  | .window paneId => (refused ((w.panes paneId).map Prod.snd), w)
  | .listWindows target => (.ok (w.list target), w)
  | .show windowId what => (refused ((windowAt w.windows windowId).map what.text), w)
  | .change windowId change =>
    match (windowAt w.windows windowId).bind change.apply with
    | some window => (.ok (), { w with windows := w.windows.set windowId (some window) })
    | none => (refused none, w)
  | .newWindow input =>
    (.ok w.windows.length, { w with windows := w.windows ++ [some (input.open [])] })
  | .ownerAlive pid => (w.alive pid, w)

/-- A tagged error has no message. -/
def hosted {α : Type} : Except SessionHostError α → Except StartError α :=
  Except.mapError fun _ => .error []

/-- The coordinator of the manifest, without its name, or a new one. -/
def ensureCoordinator (w : Workspace) : Except StartError CoordinatorRecord × Workspace :=
  match w.manifest, w.update with
  | .error error, _ => (.error error, w)
  | _, .error error => (.error error, w)
  | .ok (some coordinator), .ok () =>
    (.ok { coordinator with name := none },
      { w with manifest := .ok (some { coordinator with name := none }) })
  | .ok none, .ok () =>
    let (sessionId, w) := w.draw
    let coordinator : CoordinatorRecord := {
      sessionId
      cwd := w.cwd
      name := none
      persistence := .pending
      createdAt := w.timestamp
      lastOpenedAt := w.timestamp }
    (.ok coordinator, { w with manifest := .ok (some coordinator) })

def found {α : Type} : Option α → Except StartError α
  | some value => .ok value
  | none => .error (.errno .enoent)

/-- The socket a process has bound. -/
def ownSocket : SocketInfo where
  isSocket := true
  isSymbolicLink := false
  isOwned := true
  dev := 0
  ino := 0

/-- The answers to the process of the pid. The disk and the tmux server work. -/
def startAnswer (pid : Nat) : Answers StartOp StartRes Workspace := fun w => fun
  | .lock => if w.locked then (.error (.errno .elocked), w) else (.ok (), { w with locked := true })
  | .release => (.ok (), { w with locked := false })
  | .randomUUID => w.draw
  | .readCatalog => (w.manifest, w)
  | .ensureCoordinator => ensureCoordinator w
  | .ping coordinatorSessionId => (decide (w.listening = some coordinatorSessionId), w)
  | .readFile .claim => (found w.claim, w)
  | .readFile .metadata => (found w.metadata, w)
  | .readFile .socket => (.error (.errno .other), w)
  | .now => (w.now, w)
  | .processAlive pid => (w.alive pid, w)
  | .inspectCurrent paneId =>
    let (window, w) := (Host.inspectCurrent paneId).run.eval hostAnswer w
    (hosted window, w)
  | .access path => (if w.sessionFiles path then .ok () else .error (.errno .enoent), w)
  | .lstat => (found w.socket, w)
  | .unlink .claim => (found (w.claim.map fun _ => ()), { w with claim := none })
  | .unlink .metadata => (found (w.metadata.map fun _ => ()), { w with metadata := none })
  | .unlink .socket => (found (w.socket.map fun _ => ()), { w with socket := none })
  | .writeClaim text =>
    if w.claim = none then (.ok (), { w with claim := some text })
    else (.error (.errno .other), w)
  | .bindCurrent paneId sessionId =>
    let (window, w) := (Host.withBindingLock paneId
      (Host.bindCurrent pid paneId sessionId none)).run.eval hostAnswer w
    (hosted (Functor.map (fun _ => ()) window), w)
  | .listen coordinatorSessionId =>
    if w.socket = none then
      (.ok (), { w with socket := some ownSocket, listening := some coordinatorSessionId })
    else (.error (.errno .other), w)
  | .renameTemporary text => (.ok (), { w with metadata := some text })
  | .closeServer => (.ok (), { w with listening := none })
  | .mkdir | .checkLaunch | .chmod | .writeTemporary _ | .unlinkTemporary | .reconcile => (.ok (), w)
  | .serve => ((), w)
  | .shutdownRequested => (false, w)
  | .race => (true, w)

/-- A start in the workspace. -/
def select (o : StartOptions) (w : Workspace) : Except StartError StartSelection × Workspace :=
  (selectCoordinator o).run.eval (startAnswer o.pid) w

-- -----
-- What is in the way
-- -----

/-- No process that a runtime file or a window of the coordinator tells of is
alive, and no one listens on the socket. -/
structure Gone (w : Workspace) : Prop where
  listening : w.listening = none
  claim : ∀ {text claim}, w.claim = some text → parseStartupClaim text = .ok claim →
    w.alive claim.pid = false
  metadata : ∀ {text metadata}, w.metadata = some text →
    parseRuntimeMetadata text = .ok metadata → w.alive metadata.pid = false
  owner : ∀ {windowId window pid}, windowAt w.windows windowId = some window →
    window.ownerPid = some pid → w.alive pid = false

/-- The windows of a tmux session, with what is read as their tags. -/
def Workspace.tagged (w : Workspace) (target : TmuxSession) : List Host.Binding :=
  (w.list target).map fun windowId => ⟨windowId, trim ((Host.tagAt w.windows windowId).getD [])⟩

def Workspace.bindings (w : Workspace) (target : TmuxSession) : List Host.Binding :=
  (w.tagged target).filter (·.sessionId ≠ [])

def Workspace.currentWindow (w : Workspace) (target : TmuxSession) (current : WindowId) :
    CurrentWindow where
  socketPath := trim (lit "/tmp/tmux/default")
  tmuxSessionId := target
  windowId := current
  boundSessionId :=
    ((w.tagged target).find? (·.windowId = current)).bind (Host.nonEmpty ·.sessionId)
  bindings := w.bindings target

/-- No window beside the pane is bound to the session. -/
def Unbound (w : Workspace) (paneId : Nat) (sessionId : Str) : Prop :=
  ∃ target current, w.panes paneId = some (target, current) ∧
    ∀ windowId window, windowAt w.windows windowId = some window → target ∈ window.shownIn →
      window.binding ≠ some sessionId

def ClaimReads (w : Workspace) : Prop :=
  ∀ text, w.claim = some text → ∃ claim, parseStartupClaim text = .ok claim

def MetadataMatches (o : StartOptions) (w : Workspace) (sessionId : Str) : Prop :=
  ∀ text, w.metadata = some text → ∃ metadata, parseRuntimeMetadata text = .ok metadata ∧
    metadata.workspaceId = o.workspaceId ∧ metadata.coordinatorSessionId = sessionId ∧
      metadata.socketPath = o.socketPath

def SocketRemovable (w : Workspace) : Prop :=
  ∀ info, w.socket = some info →
    info.isSocket = true ∧ info.isSymbolicLink = false ∧ info.isOwned = true

/-- Of the coordinator that was there before. -/
structure Replaceable (o : StartOptions) (w : Workspace) (coordinator : CoordinatorRecord) :
    Prop where
  claim : ClaimReads w
  metadata : MetadataMatches o w coordinator.sessionId
  window : Unbound w o.paneId coordinator.sessionId
  sessionFile : ∀ path, coordinator.persistence = .materialized path → w.sessionFiles path = true

structure Recoverable (o : StartOptions) (w : Workspace) : Prop where
  unlocked : w.locked = false
  updates : w.update = .ok ()
  coordinator : ∃ current, w.manifest = .ok current ∧
    ∀ coordinator, current = some coordinator → Replaceable o w coordinator
  socket : SocketRemovable w

-- -----
-- Windows
-- -----

section
variable {w w' : Workspace} {paneId : Nat} {target : TmuxSession} {current : WindowId}

theorem mem_list {windowId : WindowId} :
    windowId ∈ w.list target ↔
      ∃ window, windowAt w.windows windowId = some window ∧ target ∈ window.shownIn := by
  simp only [Workspace.list, List.mem_filter, List.mem_range, Option.any_eq_true_iff_get,
    decide_eq_true_eq]
  constructor
  · rintro ⟨-, hsome, hshown⟩
    exact ⟨_, (Option.some_get hsome).symm, hshown⟩
  · rintro ⟨window, hwindow, hshown⟩
    refine ⟨(List.getElem?_eq_some_iff.mp (Option.join_eq_some_iff.mp hwindow)).1, ?_, ?_⟩
    · simp [hwindow]
    · simpa [hwindow] using hshown

theorem run_eval {α : Type} {operation : Str} {command : Host.HostProg (Except Str α)} {a : α}
    (h : command.eval hostAnswer w = (.ok a, w')) :
    (Host.run operation command).run.eval hostAnswer w = (.ok a, w') :=
  eval_map (eval_map h)

theorem run_eval_error {α : Type} {operation reason : Str}
    {command : Host.HostProg (Except Str α)}
    (h : command.eval hostAnswer w = (.error reason, w')) :
    (Host.run operation command).run.eval hostAnswer w =
      (.error (.failure ⟨operation, reason⟩), w') :=
  eval_map (eval_map h)

theorem readBinding_eval {windowId : WindowId} (h : windowId ∈ w.list target) :
    (Host.readBinding windowId).run.eval hostAnswer w =
      (.ok ⟨windowId, trim ((Host.tagAt w.windows windowId).getD [])⟩, w) := by
  obtain ⟨window, hwindow, -⟩ := mem_list.mp h
  have hshow : (@call HostOp HostRes (.show windowId .session)).eval hostAnswer w =
      (.ok (window.session.getD []), w) := by
    simp only [eval_call, hostAnswer, hwindow, Option.map_some, refused, Shown.text]
  have htag : Host.tagAt w.windows windowId = window.session := by
    rw [Host.tagAt, hwindow, Option.bind_some]
  have htext : (Host.readText (lit "read window binding") windowId .session).run.eval hostAnswer w =
      (.ok (trim (window.session.getD [])), w) :=
    eval_bindExcept (run_eval hshow)
  rw [htag]
  exact eval_bindExcept htext

theorem inspectCurrent_eval (h : w.panes paneId = some (target, current)) :
    (Host.inspectCurrent paneId).run.eval hostAnswer w =
      (.ok (w.currentWindow target current), w) := by
  have hsocket : (@call HostOp HostRes (.socket paneId)).eval hostAnswer w =
      (.ok (lit "/tmp/tmux/default"), w) := by
    simp only [eval_call, hostAnswer, h, Option.map_some, refused]
  have hsession : (@call HostOp HostRes (.session paneId)).eval hostAnswer w = (.ok target, w) := by
    simp only [eval_call, hostAnswer, h, Option.map_some, refused]
  have hwindow : (@call HostOp HostRes (.window paneId)).eval hostAnswer w = (.ok current, w) := by
    simp only [eval_call, hostAnswer, h, Option.map_some, refused]
  have hlist : (@call HostOp HostRes (.listWindows target)).eval hostAnswer w =
      (.ok (w.list target), w) := rfl
  have htagged : ((w.list target).mapM Host.readBinding).run.eval hostAnswer w =
      (.ok (w.tagged target), w) := eval_mapM fun _ => readBinding_eval
  unfold Host.inspectCurrent
  rw [eval_bindExcept (run_eval hsocket), eval_bindExcept (run_eval hsession),
    eval_bindExcept (run_eval hwindow), eval_bindExcept (run_eval hlist), eval_bindExcept htagged]
  rfl

theorem inspectCurrent_lost (h : w.panes paneId = none) :
    ∃ error, (Host.inspectCurrent paneId).run.eval hostAnswer w = (.error error, w) := by
  have hsocket : (@call HostOp HostRes (.socket paneId)).eval hostAnswer w =
      (.error (lit "tmux command failed"), w) := by
    simp only [eval_call, hostAnswer, h, Option.map_none, refused]
  exact ⟨_, eval_bindError (run_eval_error hsocket)⟩

theorem bindings_filter_eq_nil {sessionId : Str} :
    (w.bindings target).filter (·.sessionId = sessionId) = [] ↔
      ∀ windowId window, windowAt w.windows windowId = some window → target ∈ window.shownIn →
        window.binding ≠ some sessionId := by
  have hbinding : ∀ {windowId : WindowId} {window : Window},
      windowAt w.windows windowId = some window →
      (window.binding = some sessionId ↔ trim ((Host.tagAt w.windows windowId).getD []) ≠ [] ∧
        trim ((Host.tagAt w.windows windowId).getD []) = sessionId) := by
    intro windowId window hwindow
    have htag : Host.tagAt w.windows windowId = window.session := by
      rw [Host.tagAt, hwindow, Option.bind_some]
    rw [htag, Window.binding, Host.nonEmpty]
    split <;> simp_all
  rw [List.filter_eq_nil_iff]
  simp only [Workspace.bindings, Workspace.tagged, List.mem_filter, List.mem_map, decide_eq_true_eq]
  constructor
  · intro h windowId window hwindow hshown hbound
    obtain ⟨hne, heq⟩ := (hbinding hwindow).mp hbound
    exact h _ ⟨⟨windowId, mem_list.mpr ⟨window, hwindow, hshown⟩, rfl⟩, hne⟩ heq
  · rintro h _ ⟨⟨windowId, hmem, rfl⟩, hne⟩ heq
    obtain ⟨window, hwindow, hshown⟩ := mem_list.mp hmem
    exact h windowId window hwindow hshown ((hbinding hwindow).mpr ⟨hne, heq⟩)

end

-- -----
-- Guards
-- -----

/-- What is thrown is not that a file is missing. -/
def Present (error : StartError) : Prop := error ≠ .errno .enoent

section
variable {α : Type} {o : StartOptions} {w w' : Workspace} {pid : Nat} {text : Str}
  {coordinator : CoordinatorRecord}

theorem unlessMissing_passes {x : StartM α} {condition : Prop} {a missing : α}
    (h : Passes (startAnswer pid) Present x w condition a w') :
    Passes (startAnswer pid) Present (unlessMissing x missing) w condition a w' where
  gives := fun hcondition => by
    unfold unlessMissing
    exact (eval_bind (h.gives hcondition)).trans rfl
  throws := fun hnot => by
    obtain ⟨error, t, hpresent, ht⟩ := h.throws hnot
    refine ⟨error, t, hpresent, (eval_bind ht).trans ?_⟩
    split
    · exact absurd (Except.error.inj ‹_›) hpresent
    · rfl

theorem unlessMissing_missing {x : StartM α} {missing : α}
    (h : x.run.eval (startAnswer pid) w = (.error (.errno .enoent), w')) :
    (unlessMissing x missing).run.eval (startAnswer pid) w = (.ok missing, w') :=
  (eval_bind h).trans rfl

/-- What is made of a file that need not be there. -/
theorem unlessMissing_readFile {file : RuntimeFile} {contents : Option Str} {f : Str → StartM α}
    {condition : Str → Prop} {a : α}
    (hfile : startAnswer pid w (.readFile file) = (found contents, w))
    (h : ∀ text, contents = some text →
      Passes (startAnswer pid) Present (f text) w (condition text) a w) :
    Passes (startAnswer pid) Present (unlessMissing (do f (← readFile file)) a) w
      (∀ text, contents = some text → condition text) a w := by
  cases contents with
  | none =>
    have hmissing : (do f (← readFile file) : StartM α).run.eval (startAnswer pid) w =
        (.error (.errno .enoent), w) := eval_bindError hfile
    exact (Passes.of_ok (unlessMissing_missing hmissing)).congr (by simp)
  | some text =>
    have hread : Passes (startAnswer pid) Present (readFile file) w True text w :=
      .of_ok hfile
    exact (unlessMissing_passes (hread.bind fun _ => h text rfl)).congr (by simp)

theorem processAlive_eval {p : Nat} (hdead : w.alive p = false) :
    (processAlive p).eval (startAnswer pid) w = (false, w) := by
  show (w.alive p, w) = _
  rw [hdead]

theorem classifyStartupClaim_eval {claim : StartupClaim} (pid now : Nat)
    (workspaceId sessionId : Str) (hdead : w.alive claim.pid = false) :
    (classifyStartupClaim claim workspaceId sessionId now processAlive : StartProg ClaimState).eval
      (startAnswer pid) w = (.replaceable, w) := by
  unfold classifyStartupClaim
  split
  · rfl
  · exact (eval_bind (processAlive_eval hdead)).trans rfl

theorem classifyClaim_passes
    (hdead : ∀ claim, parseStartupClaim text = .ok claim → w.alive claim.pid = false) :
    Passes (startAnswer pid) Present (classifyClaim o coordinator text) w
      (∃ claim, parseStartupClaim text = .ok claim) LiveClaim.none w := by
  unfold classifyClaim
  cases hparse : parseStartupClaim text with
  | error reason => exact (Passes.of_error rfl nofun).congr (by simp)
  | ok claim =>
    have hstate := classifyStartupClaim_eval pid w.now o.workspaceId coordinator.sessionId
      (hdead claim hparse)
    refine (Passes.of_ok ?_).congr (iff_of_true trivial ⟨claim, rfl⟩)
    exact (eval_bindLift hstate).trans rfl

theorem classifyLiveClaim_passes (h : Gone w) :
    Passes (startAnswer pid) Present (classifyLiveClaim o coordinator) w (ClaimReads w)
      LiveClaim.none w :=
  unlessMissing_readFile rfl fun _ htext => classifyClaim_passes fun _ hparse => h.claim htext hparse

theorem checkMetadata_passes
    (hdead : ∀ metadata, parseRuntimeMetadata text = .ok metadata → w.alive metadata.pid = false) :
    Passes (startAnswer pid) Present (checkMetadata o coordinator text) w
      (∃ metadata, parseRuntimeMetadata text = .ok metadata ∧
        metadata.workspaceId = o.workspaceId ∧
        metadata.coordinatorSessionId = coordinator.sessionId ∧
        metadata.socketPath = o.socketPath) () w := by
  unfold checkMetadata
  cases hparse : parseRuntimeMetadata text with
  | error reason => exact (Passes.of_error rfl nofun).congr (by simp)
  | ok metadata =>
    refine ((Passes.of_ok (a := metadata) rfl).bind fun _ => .check rfl nofun fun _ =>
      .bindLift (processAlive_eval (hdead metadata hparse)) (.of_ok rfl)).congr ?_
    simp

theorem inspect_eval {target : TmuxSession} {current : WindowId}
    (h : w.panes o.paneId = some (target, current)) :
    (throwing (@call StartOp StartRes (.inspectCurrent o.paneId))).run.eval (startAnswer pid) w =
      (.ok (w.currentWindow target current), w) := by
  show (hosted ((Host.inspectCurrent o.paneId).run.eval hostAnswer w).1,
    ((Host.inspectCurrent o.paneId).run.eval hostAnswer w).2) = _
  rw [inspectCurrent_eval h]
  rfl

theorem inspect_lost (h : w.panes o.paneId = none) :
    (throwing (@call StartOp StartRes (.inspectCurrent o.paneId))).run.eval (startAnswer pid) w =
      (.error (.error []), w) := by
  show (hosted ((Host.inspectCurrent o.paneId).run.eval hostAnswer w).1,
    ((Host.inspectCurrent o.paneId).run.eval hostAnswer w).2) = _
  obtain ⟨error, herror⟩ := inspectCurrent_lost h
  rw [herror]
  rfl

theorem assertCoordinatorOffline_passes (h : Gone w) :
    Passes (startAnswer pid) Present (assertCoordinatorOffline o coordinator) w
      (MetadataMatches o w coordinator.sessionId ∧ Unbound w o.paneId coordinator.sessionId)
      () w := by
  unfold assertCoordinatorOffline
  have hfile : startAnswer pid w (.readFile .metadata) = (found w.metadata, w) := rfl
  refine (unlessMissing_readFile hfile fun _ htext =>
    checkMetadata_passes fun _ hparse => h.metadata htext hparse).bind fun _ => ?_
  cases hpane : w.panes o.paneId with
  | none =>
    refine (Passes.of_error (eval_bindError (inspect_lost hpane)) nofun).congr
      (iff_of_false not_false ?_)
    rintro ⟨_, _, hfound, -⟩
    rw [hpane] at hfound
    cases hfound
  | some pane =>
    obtain ⟨target, current⟩ := pane
    refine ((Passes.of_ok (inspect_eval hpane)).bind fun _ => .check rfl nofun fun _ =>
      .of_ok rfl).congr ?_
    rw [true_and, and_true, Decidable.not_not]
    refine bindings_filter_eq_nil.trans ⟨fun hnone => ⟨target, current, hpane, hnone⟩, ?_⟩
    rintro ⟨target', current', hfound, hnone⟩
    rw [hpane] at hfound
    cases hfound
    exact hnone

theorem probeCoordinator_eval (h : w.listening = none) :
    (probeCoordinator coordinator).eval (startAnswer pid) w = (false, w) := by
  have hping : (ping coordinator.sessionId).eval (startAnswer pid) w = (false, w) := by
    show (decide (w.listening = some coordinator.sessionId), w) = _
    rw [h]
    rfl
  exact (eval_bind hping).trans hping

theorem removeOwnedSocket_passes :
    Passes (startAnswer pid) Present removeOwnedSocket w (SocketRemovable w) ()
      { w with socket := none } := by
  unfold removeOwnedSocket
  cases hsocket : w.socket with
  | none =>
    have hmissing : lstat.run.eval (startAnswer pid) w = (.error (.errno .enoent), w) := by
      show (found w.socket, w) = _
      rw [hsocket]
      rfl
    have hw : w = { w with socket := none } := by rw [← hsocket]
    refine (Passes.of_ok ?_).congr (iff_of_true trivial fun info hinfo => ?_)
    · exact (unlessMissing_missing (eval_bindError hmissing)).trans (by rw [← hw])
    · rw [hsocket] at hinfo
      cases hinfo
  | some info =>
    have hread : lstat.run.eval (startAnswer pid) w = (.ok info, w) := by
      show (found w.socket, w) = _
      rw [hsocket]
      rfl
    have hunlink : (unlink .socket).run.eval (startAnswer pid) w =
        (.ok (), { w with socket := none }) := by
      show (found (w.socket.map fun _ => ()), _) = _
      rw [hsocket]
      rfl
    refine (unlessMissing_passes ((Passes.of_ok hread).bind fun _ => .check rfl nofun fun _ =>
      (Passes.of_ok hread).bind fun _ => .check rfl nofun fun _ => .of_ok hunlink)).congr ?_
    simp [SocketRemovable, hsocket]

theorem removeMetadata_eval : (removeFileIfPresent .metadata).run.eval (startAnswer pid) w =
    (.ok (), { w with metadata := none }) := by
  cases hmetadata : w.metadata with
  | none =>
    refine unlessMissing_missing (?_ : (found (w.metadata.map fun _ => ()), _) = _)
    rw [hmetadata]
    rfl
  | some text =>
    have hunlink : (unlink .metadata).run.eval (startAnswer pid) w =
        (.ok (), { w with metadata := none }) := by
      show (found (w.metadata.map fun _ => ()), _) = _
      rw [hmetadata]
      rfl
    exact (unlessMissing_passes (.of_ok hunlink)).gives trivial

theorem removeClaim_eval : (removeFileIfPresent .claim).run.eval (startAnswer pid) w =
    (.ok (), { w with claim := none }) := by
  cases hclaim : w.claim with
  | none =>
    refine unlessMissing_missing (?_ : (found (w.claim.map fun _ => ()), _) = _)
    rw [hclaim]
    rfl
  | some text =>
    have hunlink : (unlink .claim).run.eval (startAnswer pid) w =
        (.ok (), { w with claim := none }) := by
      show (found (w.claim.map fun _ => ()), _) = _
      rw [hclaim]
      rfl
    exact (unlessMissing_passes (.of_ok hunlink)).gives trivial

theorem assertReplaceable_passes (h : Gone w) :
    Passes (startAnswer pid) Present (assertReplaceable o coordinator) w
      (ClaimReads w ∧ MetadataMatches o w coordinator.sessionId ∧
        Unbound w o.paneId coordinator.sessionId) () w := by
  unfold assertReplaceable
  exact (classifyLiveClaim_passes h).bind fun _ => assertCoordinatorOffline_passes h

/-- Once the claim is written. -/
def Workspace.claimed (w : Workspace) (o : StartOptions) (sessionId launchId : Str) : Workspace :=
  { w with
    socket := none
    metadata := none
    claim := some (StartupClaim.text ⟨o.workspaceId, sessionId, launchId, o.pid, w.now⟩) }

theorem accessSession_passes :
    Passes (startAnswer pid) (fun _ => True) (accessSession coordinator) w
      (∀ path, coordinator.persistence = .materialized path → w.sessionFiles path = true) () w := by
  unfold accessSession
  cases coordinator.persistence with
  | pending => exact (Passes.of_ok rfl).congr (by simp)
  | materialized path =>
    cases hfile : w.sessionFiles path with
    | true =>
      refine (Passes.of_ok ((?_ : (ite _ _ _, w) = _))).congr (by simp [hfile])
      rw [hfile, if_pos rfl]
    | false =>
      refine (Passes.of_error (e := .errno .enoent) ((?_ : (ite _ _ _, w) = (_, w))) trivial).congr
        (by simp [hfile])
      rw [hfile, if_neg Bool.false_ne_true]

theorem claimWorkspace_passes {launchId : Str} :
    Passes (startAnswer pid) (fun _ => True) (claimWorkspace o coordinator launchId) w
      ((∀ path, coordinator.persistence = .materialized path → w.sessionFiles path = true) ∧
        SocketRemovable w) () (w.claimed o coordinator.sessionId launchId) := by
  unfold claimWorkspace
  refine (accessSession_passes.bind fun _ =>
    (removeOwnedSocket_passes.mono fun _ _ => trivial).bind fun _ =>
      (Passes.of_ok removeMetadata_eval).bind fun _ => (Passes.of_ok removeClaim_eval).bind fun _ =>
        (Passes.of_ok rfl).bind fun _ => .of_ok rfl).congr ?_
  simp

theorem Replaceable.iff : Replaceable o w coordinator ↔
    (ClaimReads w ∧ MetadataMatches o w coordinator.sessionId ∧
      Unbound w o.paneId coordinator.sessionId) ∧
      ∀ path, coordinator.persistence = .materialized path → w.sessionFiles path = true :=
  ⟨fun h => ⟨⟨h.claim, h.metadata, h.window⟩, h.sessionFile⟩,
    fun ⟨⟨hclaim, hmetadata, hwindow⟩, hfile⟩ => ⟨hclaim, hmetadata, hwindow, hfile⟩⟩

theorem readCatalog_eval :
    (throwing (@call StartOp StartRes .readCatalog)).run.eval (startAnswer pid) w =
      (w.manifest, w) := rfl

theorem ensure_eval :
    (throwing (@call StartOp StartRes .ensureCoordinator)).run.eval (startAnswer pid) w =
      ensureCoordinator w := rfl

/-- Where the workspace had no coordinator. -/
theorem selectLocked_new (o : StartOptions) (pid : Nat) (hmanifest : w.manifest = .ok none) (hupdate : w.update = .ok ())
    (launchId : Str) : ∃ selection t, Passes (startAnswer pid) (fun _ => True)
      (selectLocked o launchId) w (SocketRemovable w) selection t := by
  obtain ⟨sessionId, hdraw⟩ : ∃ sessionId, ensureCoordinator w = (.ok ⟨sessionId, w.cwd, none,
      .pending, w.timestamp, w.timestamp⟩, { w with
        drawn := w.drawn + 1
        manifest := .ok (some ⟨sessionId, w.cwd, none, .pending, w.timestamp, w.timestamp⟩) }) := by
    refine ⟨w.uuids w.drawn, ?_⟩
    simp only [ensureCoordinator, hmanifest, hupdate, Workspace.draw]
  refine ⟨_, _, ((Passes.of_ok (readCatalog_eval.trans (by rw [hmanifest]))).bind fun _ =>
    (Passes.of_ok (ensure_eval.trans hdraw)).bind fun _ =>
      claimWorkspace_passes.bind fun _ => .of_ok rfl).congr ?_⟩
  simp [SocketRemovable]

/-- Where the workspace had one. -/
theorem selectLocked_again (o : StartOptions) (pid : Nat) (h : Gone w) (hmanifest : w.manifest = .ok (some coordinator))
    (hupdate : w.update = .ok ()) (launchId : Str) :
    ∃ selection t, Passes (startAnswer pid) (fun _ => True) (selectLocked o launchId) w
      (Replaceable o w coordinator ∧ SocketRemovable w) selection t := by
  have hensure : ensureCoordinator w = (.ok { coordinator with name := none },
      { w with manifest := .ok (some { coordinator with name := none }) }) := by
    unfold ensureCoordinator
    rw [hmanifest, hupdate]
  have hgone : Gone { w with manifest := .ok (some { coordinator with name := none }) } :=
    ⟨h.listening, h.claim, h.metadata, h.owner⟩
  refine ⟨_, _, ((Passes.of_ok (readCatalog_eval.trans (by rw [hmanifest]))).bind fun _ =>
    (Passes.of_ok (ensure_eval.trans hensure)).bind fun _ =>
      .bindLift (probeCoordinator_eval hgone.listening) <|
      ((assertReplaceable_passes hgone).mono fun _ _ => trivial).bind fun _ =>
      claimWorkspace_passes.bind fun _ => .of_ok rfl).congr ?_⟩
  rw [Replaceable.iff]
  simp only [true_and, and_true]
  exact and_assoc.symm

theorem selectLocked_iff (h : Gone w) {launchId : Str} :
    (∃ selection, ((selectLocked o launchId).run.eval (startAnswer pid) w).1 = .ok selection) ↔
      w.update = .ok () ∧ (∃ current, w.manifest = .ok current ∧
        ∀ coordinator, current = some coordinator → Replaceable o w coordinator) ∧
        SocketRemovable w := by
  cases hmanifest : w.manifest with
  | error error =>
    have hthrows : (selectLocked o launchId).run.eval (startAnswer pid) w = (.error error, w) :=
      eval_bindError (readCatalog_eval.trans (by rw [hmanifest]))
    simp [hthrows]
  | ok current =>
    cases hupdate : w.update with
    | error error =>
      have hensure : ensureCoordinator w = (.error error, w) := by
        simp only [ensureCoordinator, hmanifest, hupdate]
      have hthrows : (selectLocked o launchId).run.eval (startAnswer pid) w = (.error error, w) :=
        (eval_bindExcept (readCatalog_eval.trans (by rw [hmanifest]))).trans
          (eval_bindError (ensure_eval.trans hensure))
      simp [hthrows]
    | ok done =>
      cases current with
      | none =>
        obtain ⟨selection, t, hpasses⟩ := selectLocked_new o pid hmanifest hupdate launchId
        exact hpasses.iff.trans (by simp)
      | some coordinator =>
        obtain ⟨selection, t, hpasses⟩ := selectLocked_again o pid h hmanifest hupdate launchId
        exact hpasses.iff.trans (by simp)

theorem select_locked (hlocked : w.locked = true) :
    select o w = (.error (.errno .elocked), w) := by
  have hlock : (throwing (@call StartOp StartRes .lock)).run.eval (startAnswer o.pid) w =
      (.error (.errno .elocked), w) := by
    show (if w.locked = true then (_ : Except StartError Unit × Workspace) else _) = _
    exact if_pos hlocked
  exact (eval_bindExcept rfl).trans (eval_bindError hlock)

theorem select_unlocked (hlocked : w.locked = false) :
    (select o w).1 = ((selectLocked o (w.uuids w.drawn)).run.eval (startAnswer o.pid)
      { w with locked := true, drawn := w.drawn + 1 }).1 := by
  have hlock : (throwing (@call StartOp StartRes .lock)).run.eval (startAnswer o.pid) w =
      (.ok (), { w with locked := true }) := by
    show (if w.locked = true then (_ : Except StartError Unit × Workspace) else _) = _
    exact if_neg (by simp [hlocked])
  have hmkdir : (throwing (@call StartOp StartRes .mkdir)).run.eval (startAnswer o.pid) w =
      (.ok (), w) := rfl
  unfold select selectCoordinator
  rw [eval_bindExcept hmkdir, eval_bindExcept hlock]
  refine (congrArg Prod.fst (eval_bindLift rfl)).trans ?_
  rcases hresult : (selectLocked o (w.uuids w.drawn)).run.eval (startAnswer o.pid)
    { w with locked := true, drawn := w.drawn + 1 } with ⟨result, t⟩
  exact (congrArg Prod.fst (eval_bind hresult)).trans rfl

/-- A start after the coordinator's process is gone succeeds exactly where
nothing that was left behind is in its way. -/
theorem selectCoordinator_recovers (h : Gone w) :
    (∃ selection, (select o w).1 = .ok selection) ↔ Recoverable o w := by
  cases hlocked : w.locked with
  | true =>
    rw [select_locked hlocked]
    exact iff_of_false (by simp) fun hr => by
      rw [hr.unlocked] at hlocked
      cases hlocked
  | false =>
    have hgone : Gone { w with locked := true, drawn := w.drawn + 1 } :=
      ⟨h.listening, h.claim, h.metadata, h.owner⟩
    have hreplaceable : ∀ coordinator,
        Replaceable o { w with locked := true, drawn := w.drawn + 1 } coordinator ↔
          Replaceable o w coordinator := fun _ =>
      ⟨fun hr => ⟨hr.claim, hr.metadata, hr.window, hr.sessionFile⟩,
        fun hr => ⟨hr.claim, hr.metadata, hr.window, hr.sessionFile⟩⟩
    rw [select_unlocked hlocked, selectLocked_iff hgone]
    simp only [hreplaceable]
    exact ⟨fun ⟨hupdates, hcoordinator, hsocket⟩ => ⟨hlocked, hupdates, hcoordinator, hsocket⟩,
      fun hr => ⟨hr.updates, hr.coordinator, hr.socket⟩⟩

end

-- -----
-- Crashes
-- -----

def startsAs (pid : Nat) : StartOptions where
  socketPath := lit "/run/user/1000/ws.sock"
  workspaceId := List.replicate 64 97
  paneId := 0
  pid

/-- One window, and no coordinator yet. -/
def newWorkspace : Workspace where
  manifest := .ok none
  update := .ok ()
  cwd := lit "/work"
  timestamp := lit "2026-01-01T00:00:00.000Z"
  uuids _ := lit "123e4567-e89b-42d3-a456-426614174000"
  drawn := 0
  now := 1700000000000
  locked := false
  claim := none
  metadata := none
  socket := none
  listening := none
  sessionFiles _ := true
  alive _ := true
  windows := [some ⟨none, none, lit "zsh", none, [0]⟩]
  panes _ := some (0, 0)

/-- What is left when the process ends after so many calls. -/
def died (o : StartOptions) (calls : Nat) (w : Workspace) : Option Workspace :=
  (advance (fun w op => some (startAnswer o.pid w op)) calls (startProcess o) w).map fun (_, w) =>
    { w with listening := none, alive := Function.update w.alive o.pid false }

def newCoordinator : CoordinatorRecord where
  sessionId := lit "123e4567-e89b-42d3-a456-426614174000"
  cwd := lit "/work"
  name := none
  persistence := .pending
  createdAt := lit "2026-01-01T00:00:00.000Z"
  lastOpenedAt := lit "2026-01-01T00:00:00.000Z"

def newClaim : StartupClaim :=
  ⟨List.replicate 64 97, newCoordinator.sessionId, newCoordinator.sessionId, 1, 1700000000000⟩

/-- The first process has ended with its claim written and no window bound. -/
def claimLeft : Workspace :=
  { newWorkspace with
    manifest := .ok (some newCoordinator)
    claim := some newClaim.text
    alive := (· ≠ 1) }

theorem parse_newClaim : parseStartupClaim newClaim.text = .ok newClaim :=
  parseStartupClaim_valid ⟨by decide +kernel, by decide +kernel, by decide +kernel, by decide,
    by decide⟩

theorem claimLeft_gone : Gone claimLeft where
  listening := rfl
  claim := fun htext hparse => by
    obtain rfl := Option.some.inj htext
    obtain rfl := Except.ok.inj (parse_newClaim.symm.trans hparse)
    decide
  metadata := nofun
  owner := fun {windowId window pid} hwindow howner => by
    have hmem := List.mem_of_getElem? (Option.join_eq_some_iff.mp hwindow)
    obtain rfl := Option.some.inj (List.mem_singleton.mp hmem)
    cases howner

theorem selectCoordinator_recovers_claim :
    ∃ selection, (select (startsAs 2) claimLeft).1 = .ok selection := by
  refine (selectCoordinator_recovers claimLeft_gone).mpr ⟨rfl, rfl, ⟨_, rfl, ?_⟩, nofun⟩
  intro coordinator hcoordinator
  obtain rfl := Option.some.inj hcoordinator
  refine ⟨fun text htext => ?_, nofun, ⟨0, 0, rfl, ?_⟩, fun _ _ => rfl⟩
  · obtain rfl := Option.some.inj htext
    exact ⟨newClaim, parse_newClaim⟩
  · intro windowId window hwindow _
    have hmem := List.mem_of_getElem? (Option.join_eq_some_iff.mp hwindow)
    obtain rfl := Option.some.inj (List.mem_singleton.mp hmem)
    decide

/-- The coordinator ends while it serves. The window it was started in still has
its tag, and the start from there is rejected. -/
theorem start_rejected_after_crash : ¬ ∀ {o o' : StartOptions} {calls : Nat} {w w' : Workspace},
    died o calls w = some w' → Gone w' → w'.locked = false →
      ∃ selection, (select o' w').1 = .ok selection := by
  intro h
  have hdied : (died (startsAs 1) 24 newWorkspace).map (fun w =>
      (w.listening, w.locked, w.claim, w.metadata.map fun text =>
        (parseRuntimeMetadata text).toOption.map fun metadata => w.alive metadata.pid)) =
      some (none, false, none, some (some false)) := by decide +kernel
  have hrejected : (died (startsAs 1) 24 newWorkspace).map (fun w =>
      (w.windows.map (·.map fun window => window.ownerPid.map w.alive),
        (select (startsAs 2) w).1.toOption)) = some ([some (some false)], none) := by decide +kernel
  obtain ⟨w, hw, hview⟩ := Option.map_eq_some_iff.mp hdied
  simp only [Prod.mk.injEq] at hview
  obtain ⟨hlistening, hlocked, hclaim, hmetadata⟩ := hview
  rw [hw, Option.map_some] at hrejected
  obtain ⟨hwindows, hselect⟩ := Prod.mk.inj (Option.some.inj hrejected)
  have hgone : Gone w := by
    refine ⟨hlistening, fun htext _ => ?_, fun htext hparse => ?_, fun hwindow howner => ?_⟩
    · rw [hclaim] at htext
      cases htext
    · rw [htext, Option.map_some, hparse] at hmetadata
      exact Option.some.inj (Option.some.inj hmetadata)
    · have hmem := List.mem_map_of_mem
        (f := Option.map fun window : Window => window.ownerPid.map w.alive)
        (List.mem_of_getElem? (Option.join_eq_some_iff.mp hwindow))
      rw [hwindows, Option.map_some, howner] at hmem
      exact Option.some.inj (Option.some.inj (List.mem_singleton.mp hmem))
  obtain ⟨selection, hselected⟩ := @h _ (startsAs 2) _ _ _ hw hgone hlocked
  rw [hselected] at hselect
  cases hselect

end PiEnv.SessionManager.Start
