import PiEnv.DevTools.BackendRequests
import PiEnv.DevTools.DocumentSync

/-!
# Documents of a running server

What the steps of a backend do to the table of open documents and to what each
server was sent. Where every change of the table finds a server to be written
to, a running one has the documents of the table.
-/

namespace PiEnv.DevTools.Backend

open Js
open Transitions (run AllMeet)

/-- What the server of a generation makes of what it was sent. -/
def State.serverDocuments (s : State) (g : Generation) : ServerDocuments :=
  ServerDocuments.none.receiveAll (s.notified g)

/-- Documents are opened, changed and closed in turn, and a running server has
the documents of the table with their content. -/
structure InStep (s : State) : Prop where
  sessions : ∀ g uri, DocumentSession none ((s.notified g).filter (·.uri = uri))
  opened : ∀ g resource, s.lifecycle = .running g resource → ∀ uri,
    (∃ document, s.serverDocuments g uri = some document) ↔ uri ∈ s.docManager.openUris
  texts : ∀ g resource, s.lifecycle = .running g resource → ∀ uri doc,
    s.docManager.getDoc uri = some doc → ∃ version, s.serverDocuments g uri = some (version, doc.content)

def Lifecycle.isLive : Lifecycle → Bool
  | .starting _ _ | .running _ _ => true
  | _ => false

/-- A start finds no document in the table, and a document that a starting or
running backend opens, changes or closes finds a server to be written to. -/
def Served (config : Config) (s : State) : Event → Prop
  | .ensureStarted => ∀ generation, s.lifecycle = .idle generation → s.docManager.openUris = []
  | .ensureFile _ _ _ => ∀ generation, s.lifecycle = .idle generation → s.docManager.openUris = []
  | .openDocument c content _ => ∀ caller, s.callers c = some caller → s.lifecycle.isLive = true →
      s.sendTarget = none → ∀ text, content = some text →
        ∃ doc, s.docManager.getDoc
          (config.documents.pathToUri (Posix.resolve config.documents.cwd caller.path)) = some doc ∧
            doc.content = text
  | .closeFile path => s.lifecycle.isLive = true → s.sendTarget = none →
      s.docManager.getDoc
        (config.documents.pathToUri (Posix.resolve config.documents.cwd path)) = none
  | _ => True

variable {config : Config} {s s' : State} {event : Event} {g : Generation}

-- -----
-- Sending
-- -----

/-- What the servers were sent, and then the notifications. -/
def State.notifiedAlso (s : State) (notifications : List DocumentNotification) :
    Generation → List DocumentNotification :=
  match s.sendTarget with
  | some g => Function.update s.notified g (s.notified g ++ notifications)
  | none => s.notified

theorem notifiedAlso_some {notifications : List DocumentNotification} (h : s.sendTarget = some g) :
    s.notifiedAlso notifications = Function.update s.notified g (s.notified g ++ notifications) := by
  rw [State.notifiedAlso, h]

theorem notifiedAlso_none {notifications : List DocumentNotification} (h : s.sendTarget = none) :
    s.notifiedAlso notifications = s.notified := by
  rw [State.notifiedAlso, h]

theorem sendLsp_sendTarget {message : Written} : (s.sendLsp message).sendTarget = s.sendTarget := by
  obtain ⟨written, h⟩ := s.sendLsp_frame message
  rw [h]
  rfl

theorem sendLsp_document {n : DocumentNotification} :
    (s.sendLsp (.document n)).notified = s.notifiedAlso [n] := by
  unfold State.sendLsp
  split
  case h_1 g htarget =>
    rw [notifiedAlso_some htarget]
    funext other
    unfold State.notified State.write
    by_cases hother : other = g
    · subst hother
      simp [Written.notification?]
    · simp [hother]
  case h_2 htarget => rw [notifiedAlso_none htarget]

theorem sendDocuments_notified {notifications : List DocumentNotification} :
    (s.sendDocuments notifications).notified = s.notifiedAlso notifications := by
  induction notifications generalizing s with
  | nil =>
    cases htarget : s.sendTarget with
    | none => rw [notifiedAlso_none htarget]; rfl
    | some g =>
      rw [notifiedAlso_some htarget, List.append_nil, Function.update_eq_self]
      rfl
  | cons n rest ih =>
    show ((s.sendLsp (.document n)).sendDocuments rest).notified = _
    rw [ih]
    cases htarget : s.sendTarget with
    | none =>
      rw [notifiedAlso_none (sendLsp_sendTarget.trans htarget), sendLsp_document,
        notifiedAlso_none htarget, notifiedAlso_none htarget]
    | some g =>
      rw [notifiedAlso_some (sendLsp_sendTarget.trans htarget), sendLsp_document,
        notifiedAlso_some htarget, notifiedAlso_some htarget]
      simp

-- -----
-- Steps
-- -----

/-- What a step does to the table and to what servers were sent. -/
inductive DocumentStep (config : Config) (event : Event) (s s' : State) : Prop where
  | kept (documents : s'.docManager.openDocs = s.docManager.openDocs)
      (notified : s'.notified = s.notified)
      (lifecycle : ∀ g resource,
        (s'.lifecycle = .starting g resource ∨ s'.lifecycle = .running g resource) →
          ∃ resource, s.lifecycle = .starting g resource ∨ s.lifecycle = .running g resource)
  | started (generation : Generation) (resource : Resource)
      (before : s.lifecycle = .idle generation)
      (after : s'.lifecycle = .starting (generation + 1) resource)
      (documents : s'.docManager.openDocs = s.docManager.openDocs)
      (notified : s'.notified = s.notified)
      (closed : Served config s event → s.docManager.openUris = [])
  | ended (documents : s'.docManager.openDocs = .empty) (notified : s'.notified = s.notified)
      (after : s'.lifecycle.isLive = false)
  | sent (notifications : List DocumentNotification)
      (documents : s.docManager.Notifies s'.docManager notifications)
      (size : s.docManager.openDocs.size ≤ MAX_OPEN_DOCUMENTS →
        s'.docManager.openDocs.size ≤ MAX_OPEN_DOCUMENTS)
      (notified : s'.notified = s.notifiedAlso notifications)
      (lifecycle : s'.lifecycle = s.lifecycle)
      (skipped : Served config s event → s.lifecycle.isLive = true → s.sendTarget = none →
        s'.docManager.documents = s.docManager.documents)

theorem DocumentStep.of_kept (hdocuments : s'.docManager.openDocs = s.docManager.openDocs)
    (hnotified : s'.notified = s.notified) (hlifecycle : s'.lifecycle = s.lifecycle) :
    DocumentStep config event s s' :=
  .kept hdocuments hnotified fun _ resource h => ⟨resource, hlifecycle ▸ h⟩

theorem DocumentStep.of_eq (h : s' = s) : DocumentStep config event s s' :=
  .of_kept (h ▸ rfl) (h ▸ rfl) (h ▸ rfl)

theorem spawn_documents : DocumentStep config event s (s.spawn config g) := by
  rcases s.spawn_cases config g with ⟨resource, resource', _, hstarting, h⟩ | ⟨_, h⟩
  · refine .kept (h ▸ rfl) (h ▸ rfl) fun other _ hlive => ?_
    rw [h] at hlive
    rcases hlive with hlive | hlive
    · obtain ⟨rfl, -⟩ := Lifecycle.starting.inj hlive
      exact ⟨resource, .inl hstarting⟩
    · exact absurd hlive nofun
  · exact .of_kept (h ▸ rfl) (h ▸ rfl) (h ▸ rfl)

theorem start_documents {t : State} {generation : Generation} (hidle : s.lifecycle = .idle generation)
    (hdocuments : t.docManager.openDocs = s.docManager.openDocs) (hnotified : t.notified = s.notified)
    (hclosed : Served config s event → s.docManager.openUris = []) :
    DocumentStep config event s (t.start config generation) := by
  obtain ⟨resource, startups, h⟩ := t.start_frame config generation
  exact .started generation resource hidle (h ▸ rfl) (h ▸ hdocuments) (h ▸ hnotified)
    hclosed

theorem initializeServer_documents : DocumentStep config event s (s.initializeServer config g) := by
  rcases s.initializeServer_cases config g with
    ⟨resource, resource', _, _, _, hstarting, h, hnotified⟩ | ⟨_, h⟩
  · refine .kept (h ▸ rfl) hnotified fun other _ hlive => ?_
    rw [h] at hlive
    rcases hlive with hlive | hlive
    · obtain ⟨rfl, -⟩ := Lifecycle.starting.inj hlive
      exact ⟨resource, .inl hstarting⟩
    · exact absurd hlive nofun
  · exact .of_kept (h ▸ rfl) (h ▸ rfl) (h ▸ rfl)

theorem publishRunning_documents : DocumentStep config event s (s.publishRunning config g) := by
  rcases s.publishRunning_cases config g with ⟨resource, _, _, _, hstarting, h, hnotified⟩ | ⟨_, h⟩
  · refine .kept (h ▸ rfl) hnotified fun other _ hlive => ?_
    rw [h] at hlive
    rcases hlive with hlive | hlive
    · exact absurd hlive nofun
    · obtain ⟨rfl, -⟩ := Lifecycle.running.inj hlive
      exact ⟨resource, .inl hstarting⟩
  · exact .of_kept (h ▸ rfl) (h ▸ rfl) (h ▸ rfl)

theorem failStartup_documents {error : LspBackendError} :
    DocumentStep config event s (s.failStartup g error) := by
  obtain ⟨t, h, ht⟩ := s.failStartup_cases g error
  obtain ⟨pendingLsp, settlements, hfail⟩ := t.failAllPending_frame error (some g)
  rw [hfail] at h
  rcases ht with ⟨rfl, -⟩ | ⟨resource, unavailable, hstarting, rfl⟩
  · exact .of_kept (h ▸ rfl) (h ▸ rfl) (h ▸ rfl)
  · exact .ended (h ▸ rfl) (h ▸ rfl) (h ▸ rfl)

theorem failAndReset_documents {error : LspBackendError} :
    DocumentStep config event s (s.failAndReset g error) := by
  obtain ⟨detail, hreport⟩ := reportReset_eq s error
  rcases s.failAndReset_cases g error with ⟨resource, -, h⟩ | ⟨resource, -, h⟩ | ⟨-, h⟩
  · obtain ⟨pendingLsp, settlements, hfail⟩ := State.failAllPending_frame
      ((s.reportReset error).stop g resource true .reset).resetCaches error (some g)
    rw [hfail, hreport] at h
    exact .ended (h ▸ rfl) (h ▸ rfl) (h ▸ rfl)
  · obtain ⟨pendingLsp, settlements, hfail⟩ := State.failAllPending_frame
      ((s.reportReset error).stop g resource false .reset).resetCaches error (some g)
    rw [hfail, hreport] at h
    exact .ended (h ▸ rfl) (h ▸ rfl) (h ▸ rfl)
  · rw [hreport] at h
    exact .of_kept (h ▸ rfl) (h ▸ rfl) (h ▸ rfl)

theorem onProcessExit_documents {code : Option Int} {signal : Option Str} :
    DocumentStep config event s (s.onProcessExit config g code signal) := by
  rcases s.onProcessExit_cases config g code signal with ⟨-, error, h⟩ | ⟨-, h⟩
  · exact h ▸ failAndReset_documents
  · exact .of_eq h

theorem shutdown_documents : DocumentStep config event s (s.shutdown config) := by
  rcases s.shutdown_cases config with ⟨g, resource, startup, _, _, _, -, -, h, hnotified⟩ | h
  · obtain ⟨pendingLsp, settlements, hfail⟩ := State.failAllPending_frame
      { s.stop g resource startup .shutdown with nextLspId := _, written := _, ready := _ }
      (shutdownError config) none
    rw [hfail] at h
    refine .kept (h ▸ rfl) hnotified fun other _ hlive => ?_
    rw [h] at hlive
    rcases hlive with hlive | hlive <;> exact absurd hlive nofun
  · exact .of_eq h

theorem appendStderr_documents {chunk : Str} : DocumentStep config event s (s.appendStderr g chunk) := by
  rcases s.appendStderr_cases g chunk with ⟨r, _, hstarting, h⟩ | ⟨r, _, hrunning, h⟩ | h
  · refine .kept (h ▸ rfl) (h ▸ rfl) fun other _ hlive => ?_
    rw [h] at hlive
    rcases hlive with hlive | hlive
    · obtain ⟨rfl, -⟩ := Lifecycle.starting.inj hlive
      exact ⟨r, .inl hstarting⟩
    · exact absurd hlive nofun
  · refine .kept (h ▸ rfl) (h ▸ rfl) fun other _ hlive => ?_
    rw [h] at hlive
    rcases hlive with hlive | hlive
    · exact absurd hlive nofun
    · obtain ⟨rfl, -⟩ := Lifecycle.running.inj hlive
      exact ⟨r, .inr hrunning⟩
  · exact .of_eq h

theorem onLspMessage_documents {message : LspMessage} :
    DocumentStep config event s (s.onLspMessage config g message) := by
  rcases s.onLspMessage_cases config g message with h | ⟨id, outcome, -, -, -, h, -⟩
  · exact .of_eq h
  · obtain ⟨pendingLsp, settlements, hcomplete⟩ := s.completePending_frame id g outcome
    rw [hcomplete] at h
    exact .of_kept (h ▸ rfl) (h ▸ rfl) (h ▸ rfl)

theorem resetBy_documents (s : State) (cleanup : Cleanup) :
    (s.resetBy cleanup).docManager.openDocs = s.docManager.openDocs ∨
      (s.resetBy cleanup).docManager.openDocs = .empty := by
  unfold State.resetBy
  split
  · exact .inr rfl
  · exact .inl rfl

theorem resetBy_written (s : State) (cleanup : Cleanup) :
    (s.resetBy cleanup).written = s.written := by
  obtain ⟨_, _, _, _, h⟩ := s.resetBy_frame cleanup
  rw [h]

/-- The cleanup that waits ends the generation it is of. -/
theorem finishCleanup_documents {i : Nat} {cleanup : Cleanup} (hcleaning : Cleaning s)
    (hfound : s.cleanups[i]? = some cleanup) :
    DocumentStep config event s ({ s with cleanups := s.cleanups.eraseIdx i }.finishCleanup cleanup) := by
  obtain ⟨resource, startup, hstopping, -, -⟩ := hcleaning.own hfound
  let t : State := { s with cleanups := s.cleanups.eraseIdx i }
  rcases t.finishCleanup_cases cleanup with ⟨_, _, _, lifecycle, -, hnext, h⟩ | ⟨hother, -⟩
  · have hended : (t.finishCleanup cleanup).lifecycle.isLive = false := by
      rw [h]
      rcases hnext with rfl | ⟨message, rfl⟩ <;> rfl
    have hnotified : (t.finishCleanup cleanup).notified = s.notified := by
      funext g
      rw [h]
      show ((t.resetBy cleanup).written g).filterMap _ = _
      rw [resetBy_written]
      rfl
    have hdocuments : (t.finishCleanup cleanup).docManager = (t.resetBy cleanup).docManager :=
      h ▸ rfl
    rcases resetBy_documents t cleanup with hreset | hreset
    · refine .kept (hdocuments ▸ hreset) hnotified fun other resource' hlive => ?_
      rcases hlive with hlive | hlive <;> rw [hlive] at hended <;> exact absurd hended nofun
    · exact .ended (hdocuments ▸ hreset) hnotified hended
  · exact absurd hstopping (hother _ _ _)

theorem notifiedAlso_append {t : State} {first second : List DocumentNotification}
    (htarget : t.sendTarget = s.sendTarget) (hnotified : t.notified = s.notifiedAlso first) :
    t.notifiedAlso second = s.notifiedAlso (first ++ second) := by
  cases h : s.sendTarget with
  | none =>
    rw [notifiedAlso_none (htarget.trans h), hnotified, notifiedAlso_none h, notifiedAlso_none h]
  | some g =>
    rw [notifiedAlso_some (htarget.trans h), hnotified, notifiedAlso_some h, notifiedAlso_some h]
    simp

theorem sendLsp_folders {root : Str} :
    (s.sendLsp (.didChangeWorkspaceFolders root)).notified = s.notified := by
  unfold State.sendLsp
  split
  · exact s.write_notified _ _ rfl
  · rfl

theorem notifiedAlso_nil : s.notifiedAlso [] = s.notified := by
  cases h : s.sendTarget with
  | none => exact notifiedAlso_none h
  | some g => rw [notifiedAlso_some h, List.append_nil, Function.update_eq_self]

/-- A state that is `s` but for its table and what was written since. -/
structure After (s t : State) (docManager : DocumentManager)
    (notifications : List DocumentNotification) : Prop where
  target : t.sendTarget = s.sendTarget
  lifecycle : t.lifecycle = s.lifecycle
  documents : t.docManager = docManager
  notified : t.notified = s.notifiedAlso notifications

theorem After.sendDocuments {t : State} {docManager : DocumentManager}
    {first second : List DocumentNotification} (h : After s t docManager first) :
    After s (t.sendDocuments second) docManager (first ++ second) := by
  obtain ⟨written, hsend⟩ := t.sendDocuments_frame second
  refine ⟨?_, ?_, ?_, ?_⟩
  · rw [hsend]
    exact h.target
  · rw [hsend]
    exact h.lifecycle
  · rw [hsend]
    exact h.documents
  · rw [sendDocuments_notified, notifiedAlso_append h.target h.notified]

theorem after_table {docManager : DocumentManager} : After s { s with docManager } docManager [] :=
  ⟨rfl, rfl, rfl, notifiedAlso_nil.symm⟩

/-- The folder of a new root is no document. -/
def State.sendFolder (s : State) (opened : DocumentManager.Opened) : State :=
  if opened.isNewRoot = true ∧ s.initialWorkspaceRoot ≠ some opened.projectRoot then
    s.sendLsp (.didChangeWorkspaceFolders opened.projectRoot)
  else s

theorem After.sendFolder {t : State} {docManager : DocumentManager} {opened : DocumentManager.Opened}
    {notifications : List DocumentNotification} (h : After s t docManager notifications) :
    After s (t.sendFolder opened) docManager notifications := by
  unfold State.sendFolder
  split
  · obtain ⟨written, hsend⟩ := t.sendLsp_frame (.didChangeWorkspaceFolders opened.projectRoot)
    refine ⟨sendLsp_sendTarget.trans h.target, ?_, ?_, sendLsp_folders.trans h.notified⟩
    · rw [hsend]
      exact h.lifecycle
    · rw [hsend]
      exact h.documents
  · exact h

theorem openDocument_after {path : Str} {content resolved : Option Str}
    {opened : DocumentManager.Opened} {m : DocumentManager}
    (hopen : s.docManager.openFile config.documents (Posix.resolve config.documents.cwd path) content
      resolved = (opened, m)) :
    After s (s.openDocument config path content resolved) (m.evict MAX_OPEN_DOCUMENTS).2
      (opened.notification.toList ++ (m.evict MAX_OPEN_DOCUMENTS).1.map .didClose) := by
  have hsent : After s (({ s with docManager := m }.sendFolder opened).sendDocuments
      opened.notification.toList) m opened.notification.toList :=
    after_table.sendFolder.sendDocuments
  generalize ht : ({ s with docManager := m }.sendFolder opened).sendDocuments
    opened.notification.toList = t at hsent
  have hevicted : After s { t with docManager := (t.docManager.evict MAX_OPEN_DOCUMENTS).2 }
      (t.docManager.evict MAX_OPEN_DOCUMENTS).2 opened.notification.toList :=
    ⟨hsent.target, hsent.lifecycle, rfl, hsent.notified⟩
  have hopened : s.openDocument config path content resolved =
      { t with docManager := (t.docManager.evict MAX_OPEN_DOCUMENTS).2 }.sendDocuments
        ((t.docManager.evict MAX_OPEN_DOCUMENTS).1.map .didClose) := by
    unfold State.openDocument DocumentManager.ensure
    rw [← ht]
    simp only [hopen]
    rfl
  rw [hopened, ← hsent.documents]
  exact hevicted.sendDocuments

theorem openDocument_documents {c : Nat} {caller : Caller} {callers : Nat → Option Caller}
    {content resolved : Option Str} (hkeyed : s.docManager.Keyed)
    (hsize : s.docManager.openDocs.size ≤ MAX_OPEN_DOCUMENTS) (hcaller : s.callers c = some caller) :
    DocumentStep config (.openDocument c content resolved) s
      ({ s with callers }.openDocument config caller.path content resolved) := by
  let abs := Posix.resolve config.documents.cwd caller.path
  rcases hopen : s.docManager.openFile config.documents abs content resolved with ⟨opened, m⟩
  have hopened : s.docManager.Notifies (s.docManager.openFile config.documents abs content resolved).2
      (s.docManager.openFile config.documents abs content resolved).1.notification.toList :=
    DocumentManager.openFile_notifies hkeyed
  rw [hopen] at hopened
  let waiting : State := { s with callers }
  obtain ⟨-, hlifecycle, hdocuments, hnotified⟩ : After waiting
      (waiting.openDocument config caller.path content resolved) (m.evict MAX_OPEN_DOCUMENTS).2
      (opened.notification.toList ++
        (m.evict MAX_OPEN_DOCUMENTS).1.map DocumentNotification.didClose) :=
    openDocument_after (s := waiting) hopen
  refine .sent _ ?_ (fun _ => ?_) hnotified hlifecycle fun hserved hlive htarget => ?_
  · rw [hdocuments]
    exact hopened.trans (DocumentManager.evict_notifies hopened.keyed)
  · rw [hdocuments]
    exact DocumentManager.evict_size hopened.keyed
  · -- nothing is due, and nothing is evicted
    have hsame : (s.docManager.openFile config.documents abs content resolved).1.notification = none ∧
        (s.docManager.openFile config.documents abs content resolved).2.openDocs.size =
          s.docManager.openDocs.size :=
      DocumentManager.openFile_same (hserved caller hcaller hlive htarget)
    rw [hopen] at hsame
    rw [hdocuments, DocumentManager.evict_of_le (hsame.2 ▸ hsize)]
    have hreceived := hopened.received
    rw [hsame.1] at hreceived
    exact hreceived.symm

theorem closeFile_after {path : Str} :
    After s (s.closeFile config path) (s.docManager.close config.documents path).2
      ((s.docManager.close config.documents path).1.map .didClose).toList :=
  after_table.sendDocuments

theorem closeFile_documents {path : Str} (hkeyed : s.docManager.Keyed) :
    DocumentStep config (.closeFile path) s (s.closeFile config path) := by
  obtain ⟨-, hlifecycle, hdocuments, hnotified⟩ : After s (s.closeFile config path)
      (s.docManager.close config.documents path).2
      ((s.docManager.close config.documents path).1.map .didClose).toList := closeFile_after
  refine .sent _ ?_ (fun hsize => ?_) hnotified hlifecycle fun hserved hlive htarget => ?_
  · rw [hdocuments]
    exact DocumentManager.close_notifies hkeyed
  · rw [hdocuments]
    exact Nat.le_trans DocumentManager.close_size hsize
  · rw [hdocuments, DocumentManager.close_closed (hserved hlive htarget)]

theorem ensureFile_documents {c : Nat} {path : Str} {resolved : Option Str} :
    DocumentStep config (.ensureFile c path resolved) s (s.ensureFile config c path resolved) := by
  unfold State.ensureFile
  simp only
  split
  case h_1 generation hidle =>
    obtain ⟨resource, startups, h⟩ := State.start_frame config _ generation
    rw [h]
    exact .started generation resource hidle rfl DocumentManager.getProjectRoot_openDocs rfl
      fun hserved => hserved generation hidle
  all_goals exact .of_kept DocumentManager.getProjectRoot_openDocs rfl rfl

theorem step_documents (hcleaning : Cleaning s) (hkeyed : s.docManager.Keyed)
    (hsize : s.docManager.openDocs.size ≤ MAX_OPEN_DOCUMENTS)
    (hstep : step config s event = some s') : DocumentStep config event s s' := by
  cases event with
  | ensureStarted =>
    rw [← Option.some.inj hstep]
    unfold State.ensureStarted
    split
    case h_1 generation hidle =>
      exact start_documents hidle rfl rfl fun hserved => hserved generation hidle
    case h_2 => exact .of_eq rfl
  | lookedUp g result =>
    simp only [step] at hstep
    split at hstep
    · cases result with
      | found => exact Option.some.inj hstep ▸ spawn_documents
      | missing | failed detail => exact Option.some.inj hstep ▸ .of_kept rfl rfl rfl
    · cases hstep
  | spawned g failure =>
    simp only [step] at hstep
    split at hstep
    · cases failure with
      | none => exact Option.some.inj hstep ▸ initializeServer_documents
      | some detail => exact Option.some.inj hstep ▸ .of_kept rfl rfl rfl
    · cases hstep
  | initialized g =>
    simp only [step] at hstep
    split at hstep
    · split at hstep
      · exact Option.some.inj hstep ▸ publishRunning_documents
      · exact Option.some.inj hstep ▸ .of_kept rfl rfl rfl
      · cases hstep
    · cases hstep
  | failStartup g =>
    simp only [step] at hstep
    split at hstep
    · exact Option.some.inj hstep ▸ failStartup_documents
    · cases hstep
  | cleaned i =>
    simp only [step] at hstep
    split at hstep
    case h_1 cleanup hfound =>
      exact Option.some.inj hstep ▸ finishCleanup_documents hcleaning hfound
    case h_2 => cases hstep
  | message g message =>
    simp only [step] at hstep
    split at hstep
    · exact Option.some.inj hstep ▸ onLspMessage_documents
    · cases hstep
  | stderr g chunk =>
    simp only [step] at hstep
    split at hstep
    · exact Option.some.inj hstep ▸ appendStderr_documents
    · cases hstep
  | processExit g code signal =>
    simp only [step] at hstep
    split at hstep
    · exact Option.some.inj hstep ▸ onProcessExit_documents
    · cases hstep
  | processError g detail =>
    simp only [step] at hstep
    split at hstep
    · exact Option.some.inj hstep ▸ failAndReset_documents
    · cases hstep
  | destroyStdin g => exact Option.some.inj hstep ▸ .of_kept rfl rfl rfl
  | shutdown => exact Option.some.inj hstep ▸ shutdown_documents
  | lspRequest method =>
    rw [← Option.some.inj hstep]
    unfold State.lspRequest
    split
    case h_1 g resource hrunning =>
      obtain ⟨written, h, hnotified⟩ := State.sendLspTo_frame (s.addPending ⟨g, some method, false⟩
        ⟨.request, config.name ++ lit " LSP request timed out: " ++ method⟩) g
        (.request s.nextLspId method) rfl
      exact .of_kept (h ▸ rfl) hnotified (h ▸ rfl)
    case h_2 => exact .of_eq rfl
  | timeout id =>
    simp only [step] at hstep
    split at hstep
    case h_1 pending hpending =>
      obtain ⟨pendingLsp, settlements, h⟩ :=
        s.completePending_frame id pending.generation (.error pending.timeoutError)
      rw [← Option.some.inj hstep, h]
      exact .of_kept rfl rfl rfl
    case h_2 => cases hstep
  | finishRequest id =>
    simp only [step] at hstep
    split at hstep
    · split at hstep
      · exact Option.some.inj hstep ▸ .of_kept rfl rfl rfl
      · exact Option.some.inj hstep ▸ .of_kept rfl rfl rfl
      · cases hstep
    · cases hstep
  | recordSemanticResult method itemCount => exact Option.some.inj hstep ▸ .of_kept rfl rfl rfl
  | ensureFile c path resolved =>
    simp only [step] at hstep
    split at hstep
    · rw [← Option.some.inj hstep]
      exact ensureFile_documents
    · cases hstep
  | openDocument c content resolved =>
    simp only [step] at hstep
    split at hstep
    case h_1 caller hcaller =>
      split at hstep
      · exact Option.some.inj hstep ▸ openDocument_documents hkeyed hsize hcaller
      · cases hstep
    case h_2 => cases hstep
  | failCaller c =>
    simp only [step] at hstep
    split at hstep
    · exact Option.some.inj hstep ▸ .of_kept rfl rfl rfl
    · cases hstep
  | closeFile path => exact Option.some.inj hstep ▸ closeFile_documents hkeyed

-- -----
-- Runs
-- -----

/-- What the server of a starting or running backend was sent is the table. -/
structure Sent (s : State) : Prop where
  cleaning : Cleaning s
  keyed : s.docManager.Keyed
  size : s.docManager.openDocs.size ≤ MAX_OPEN_DOCUMENTS
  accepted : ∀ g, ServerDocuments.none.AcceptsAll (s.notified g)
  fresh : ∀ g, s.lifecycle.generation < g → s.notified g = []
  live : ∀ g resource, (s.lifecycle = .starting g resource ∨ s.lifecycle = .running g resource) →
    s.serverDocuments g = s.docManager.documents

theorem sent_initial : Sent State.initial :=
  ⟨cleaning_initial, DocumentManager.keyed_empty, Nat.zero_le _, fun _ => trivial, fun _ _ => rfl,
    fun _ _ h => by rcases h with h | h <;> exact absurd h nofun⟩

theorem documents_of_openDocs {m m' : DocumentManager} (h : m'.openDocs = m.openDocs) :
    m'.documents = m.documents := by
  unfold DocumentManager.documents DocumentManager.getDoc
  rw [h]

theorem keyed_of_openDocs {m m' : DocumentManager} (h : m'.openDocs = m.openDocs) (hm : m.Keyed) :
    m'.Keyed := by
  intro uri doc hdoc
  rw [DocumentManager.getDoc, h] at hdoc
  exact hm uri doc hdoc

theorem documents_of_closed {m : DocumentManager} (h : m.openUris = []) :
    m.documents = ServerDocuments.none := by
  funext uri
  have hclosed : m.getDoc uri = none := by
    rw [DocumentManager.getDoc, ← Option.not_isSome_iff_eq_none, ← JsMap.mem_keys]
    intro hmem
    rw [DocumentManager.openUris] at h
    rw [h] at hmem
    exact absurd hmem List.not_mem_nil
  rw [DocumentManager.documents, hclosed]
  rfl

theorem sendTarget_live (h : s.sendTarget = some g) :
    ∃ resource, s.lifecycle = .starting g resource ∨ s.lifecycle = .running g resource := by
  unfold State.sendTarget at h
  split at h
  case h_1 generation resource hstarting =>
    split at h
    · exact ⟨resource, .inl (Option.some.inj h ▸ hstarting)⟩
    · exact absurd h nofun
  case h_2 generation resource hrunning =>
    split at h
    · exact ⟨resource, .inr (Option.some.inj h ▸ hrunning)⟩
    · exact absurd h nofun
  case h_3 => exact absurd h nofun

theorem isLive_of_live {lifecycle : Lifecycle} {resource : Resource}
    (h : lifecycle = .starting g resource ∨ lifecycle = .running g resource) :
    lifecycle.isLive = true ∧ lifecycle.generation = g := by
  rcases h with rfl | rfl <;> exact ⟨rfl, rfl⟩

theorem Sent.sent {notifications : List DocumentNotification} (h : Sent s)
    (hserved : Served config s event)
    (hdocuments : s.docManager.Notifies s'.docManager notifications)
    (hnotified : s'.notified = s.notifiedAlso notifications)
    (hlifecycle : s'.lifecycle = s.lifecycle)
    (hskipped : Served config s event → s.lifecycle.isLive = true → s.sendTarget = none →
      s'.docManager.documents = s.docManager.documents) :
    (∀ g, ServerDocuments.none.AcceptsAll (s'.notified g)) ∧
      (∀ g, s'.lifecycle.generation < g → s'.notified g = []) ∧
      ∀ g resource, (s'.lifecycle = .starting g resource ∨ s'.lifecycle = .running g resource) →
        s'.serverDocuments g = s'.docManager.documents := by
  cases htarget : s.sendTarget with
  | none =>
    rw [notifiedAlso_none htarget] at hnotified
    refine ⟨fun g => hnotified ▸ h.accepted g, fun g => hnotified ▸ hlifecycle ▸ h.fresh g,
      fun g resource hlive => ?_⟩
    rw [hlifecycle] at hlive
    rw [hskipped hserved (isLive_of_live hlive).1 htarget, State.serverDocuments, hnotified]
    exact h.live g resource hlive
  | some target =>
    rw [notifiedAlso_some htarget] at hnotified
    obtain ⟨resource, hlive⟩ := sendTarget_live htarget
    have hbefore : s.serverDocuments target = s.docManager.documents := h.live target resource hlive
    have hcurrent := (isLive_of_live hlive).2
    refine ⟨fun g => ?_, fun g hg => ?_, fun g resource' hlive' => ?_⟩
    · by_cases hg : g = target
      · subst hg
        rw [hnotified, Function.update_self, ServerDocuments.acceptsAll_append]
        refine ⟨h.accepted g, ?_⟩
        show (s.serverDocuments g).AcceptsAll notifications
        rw [hbefore]
        exact hdocuments.accepted
      · rw [hnotified, Function.update_of_ne hg]
        exact h.accepted g
    · rw [hlifecycle] at hg
      have hne : g ≠ target := fun heq => Nat.lt_irrefl g ((hcurrent.trans heq.symm) ▸ hg)
      rw [hnotified, Function.update_of_ne hne]
      exact h.fresh g hg
    · rw [hlifecycle] at hlive'
      obtain rfl : target = g := hcurrent.symm.trans (isLive_of_live hlive').2
      rw [State.serverDocuments, hnotified, Function.update_self,
        ServerDocuments.receiveAll_append]
      show (s.serverDocuments target).receiveAll notifications = _
      rw [hbefore]
      exact hdocuments.received

theorem step_sent (h : Sent s) (hserved : Served config s event)
    (hstep : step config s event = some s') : Sent s' := by
  have hlifecycle := step_lifecycle hstep
  have hcleaning : Cleaning s' := hlifecycle.cleaning h.cleaning
  have hgeneration := hlifecycle.generation_le h.cleaning
  cases step_documents h.cleaning h.keyed h.size hstep with
  | kept documents notified lifecycle =>
    refine ⟨hcleaning, keyed_of_openDocs documents h.keyed, documents ▸ h.size,
      fun g => notified ▸ h.accepted g, fun g hg => ?_, fun g resource hlive => ?_⟩
    · rw [notified]
      exact h.fresh g (Nat.lt_of_le_of_lt hgeneration hg)
    · obtain ⟨before, hbefore⟩ := lifecycle g resource hlive
      rw [documents_of_openDocs documents, State.serverDocuments, notified]
      exact h.live g before hbefore
  | started generation resource before after documents notified closed =>
    refine ⟨hcleaning, keyed_of_openDocs documents h.keyed, documents ▸ h.size,
      fun g => notified ▸ h.accepted g, fun g hg => ?_, fun g other hlive => ?_⟩
    · rw [notified]
      exact h.fresh g (Nat.lt_of_le_of_lt hgeneration hg)
    · -- a new server was sent nothing, and the table is empty
      obtain rfl : generation + 1 = g := by
        rw [after] at hlive
        exact (isLive_of_live hlive).2
      have hnothing : s.notified (generation + 1) = [] :=
        h.fresh _ (by rw [before]; exact Nat.lt_succ_self _)
      rw [documents_of_openDocs documents, documents_of_closed (closed hserved),
        State.serverDocuments, notified, hnothing]
      rfl
  | ended documents notified after =>
    have hempty : s'.docManager.openDocs = DocumentManager.empty.openDocs := documents
    refine ⟨hcleaning, keyed_of_openDocs hempty DocumentManager.keyed_empty,
      documents ▸ Nat.zero_le _, fun g => notified ▸ h.accepted g, fun g hg => ?_,
      fun g resource hlive => ?_⟩
    · rw [notified]
      exact h.fresh g (Nat.lt_of_le_of_lt hgeneration hg)
    · exact absurd (after.symm.trans (isLive_of_live hlive).1) nofun
  | sent notifications documents size notified lifecycle skipped =>
    obtain ⟨haccepted, hfresh, hlive⟩ := h.sent hserved documents notified lifecycle skipped
    exact ⟨hcleaning, documents.keyed, size h.size, haccepted, hfresh, hlive⟩

theorem Sent.inStep (h : Sent s) : InStep s := by
  have hcurrent : ∀ g resource, s.lifecycle = .running g resource → ∀ uri,
      s.serverDocuments g uri = (s.docManager.getDoc uri).map fun doc => (doc.version, doc.content) :=
    fun g resource hrunning uri => congrFun (h.live g resource (.inr hrunning)) uri
  refine ⟨fun g => (h.accepted g).session, fun g resource hrunning uri => ?_,
    fun g resource hrunning uri doc hdoc => ?_⟩
  · rw [hcurrent g resource hrunning, DocumentManager.openUris, JsMap.mem_keys,
      ← Option.isSome_iff_exists, Option.isSome_map]
    rfl
  · exact ⟨doc.version, by rw [hcurrent g resource hrunning, hdoc, Option.map_some]⟩

/-- In every run in which starts find an empty table, and documents that a
starting or running backend opens, changes or closes find a server, servers and
table are in step. -/
theorem documents_in_step {events : List Event}
    (hserved : AllMeet (step config) (Served config) State.initial events)
    (hrun : run (step config) State.initial events = some s) : InStep s :=
  (Transitions.invariant (fun _ _ _ => step_sent) sent_initial hserved hrun).inStep

/-- A file that is opened while the first server runs. -/
def openedOnce : List Event :=
  [.ensureStarted, .lookedUp 1 .found, .spawned 1 none, .message 1 (emptyResult 1), .initialized 1,
    .ensureFile 0 (lit "/a.ts") none, .openDocument 0 (some (lit "1")) none]

theorem documents_in_step_openedOnce :
    ∃ s, run (step typescript) State.initial openedOnce = some s ∧ InStep s := by
  have hserved : AllMeet (step typescript) (Served typescript) State.initial openedOnce := by
    refine .cons (fun _ _ => rfl) rfl (.cons trivial rfl (.cons trivial rfl (.cons trivial rfl ?_)))
    refine .cons trivial rfl (.cons (fun _ _ => rfl) rfl ?_)
    refine .cons (fun _ _ _ htarget => absurd htarget nofun) rfl .nil
  exact ⟨_, rfl, documents_in_step hserved rfl⟩

/-- A file that is opened when the server is gone, before its exit is handled. -/
def openedLate : List Event :=
  runningOnce ++ [.destroyStdin 1, .ensureFile 0 (lit "/a.ts") none,
    .openDocument 0 (some (lit "1")) none]

theorem openedLate_unsent :
    ¬ ∀ (config : Config) (events : List Event) (s : State),
      run (step config) State.initial events = some s → InStep s := by
  intro h
  obtain ⟨s, hrun⟩ : ∃ s, run (step typescript) State.initial openedLate = some s := ⟨_, rfl⟩
  have hrunning : (run (step typescript) State.initial openedLate).map (·.lifecycle) =
      some (.running 1 ⟨true, true, true, []⟩) := rfl
  have hopen : (run (step typescript) State.initial openedLate).map (·.docManager.openUris) =
      some [lit "file:///a.ts"] := rfl
  have hnothing : (run (step typescript) State.initial openedLate).map (·.notified 1) = some [] :=
    rfl
  rw [hrun, Option.map_some, Option.some.injEq] at hrunning hopen hnothing
  obtain ⟨document, hdocument⟩ := ((h typescript openedLate s hrun).opened 1 _ hrunning
    (lit "file:///a.ts")).mpr (hopen ▸ List.mem_singleton_self _)
  rw [State.serverDocuments, hnothing] at hdocument
  exact absurd hdocument nofun

end PiEnv.DevTools.Backend
