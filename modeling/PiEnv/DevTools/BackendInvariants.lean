import PiEnv.DevTools.BackendFrames

/-!
# What a step of a backend can do

To the lifecycle and to the requests, and what follows for every run: one
cleanup at a time, and requests that are pending or settled.
-/

namespace PiEnv.DevTools.Backend

open Js
open Transitions (run AllMeet)

-- -----
-- The lifecycle
-- -----

inductive LifecycleStep (s s' : State) : Prop where
  | kept (lifecycle : s'.lifecycle = s.lifecycle) (cleanups : s'.cleanups = s.cleanups)
  | started (generation : Generation) (resource : Resource)
      (before : s.lifecycle = .idle generation)
      (after : s'.lifecycle = .starting (generation + 1) resource)
      (cleanups : s'.cleanups = s.cleanups)
  | starting (g : Generation) (resource resource' : Resource)
      (before : s.lifecycle = .starting g resource) (after : s'.lifecycle = .starting g resource')
      (cleanups : s'.cleanups = s.cleanups)
  | running (g : Generation) (resource resource' : Resource)
      (before : s.lifecycle = .starting g resource ∨ s.lifecycle = .running g resource)
      (after : s'.lifecycle = .running g resource') (cleanups : s'.cleanups = s.cleanups)
  | stopped (g : Generation) (resource : Resource) (startup : Bool) (kind : CleanupKind)
      (before : s.lifecycle = .starting g resource ∨ s.lifecycle = .running g resource)
      (after : s'.lifecycle = .stopping (g + 1) s.nextDone resource startup)
      (cleanups : s'.cleanups = s.cleanups ++ [⟨g, s.nextDone, kind⟩])
  | cleaned (i : Nat) (cleanup : Cleanup) (found : s.cleanups[i]? = some cleanup)
      (own : ∀ generation resource startup,
        s.lifecycle = .stopping generation cleanup.done resource startup →
          s'.lifecycle = .idle (cleanup.generation + 1) ∨
            ∃ message, s'.lifecycle = .unavailable (cleanup.generation + 1) message)
      (other : (∀ generation resource startup,
        s.lifecycle ≠ .stopping generation cleanup.done resource startup) →
          s'.lifecycle = s.lifecycle)
      (cleanups : s'.cleanups = s.cleanups.eraseIdx i)

variable {config : Config} {s s' : State} {event : Event} {g : Generation}

theorem LifecycleStep.of_eq (h : s' = s) : LifecycleStep s s' := .kept (h ▸ rfl) (h ▸ rfl)

theorem spawn_lifecycle : LifecycleStep s (s.spawn config g) := by
  rcases s.spawn_cases config g with ⟨resource, resource', startups, hstarting, h⟩ | ⟨startups, h⟩
  · exact .starting g resource resource' hstarting (h ▸ rfl) (h ▸ rfl)
  · exact .kept (h ▸ rfl) (h ▸ rfl)

theorem start_lifecycle {t : State} {generation : Generation} (hidle : s.lifecycle = .idle generation)
    (ht : t.cleanups = s.cleanups) : LifecycleStep s (t.start config generation) := by
  obtain ⟨resource, startups, h⟩ := t.start_frame config generation
  exact .started generation resource hidle (h ▸ rfl) (h ▸ ht)

theorem initializeServer_lifecycle : LifecycleStep s (s.initializeServer config g) := by
  rcases s.initializeServer_cases config g with ⟨resource, resource', _, _, _, hstarting, h, _⟩ | ⟨_, h⟩
  · exact .starting g resource resource' hstarting (h ▸ rfl) (h ▸ rfl)
  · exact .kept (h ▸ rfl) (h ▸ rfl)

theorem publishRunning_lifecycle : LifecycleStep s (s.publishRunning config g) := by
  rcases s.publishRunning_cases config g with ⟨resource, _, _, _, hstarting, h, _⟩ | ⟨_, h⟩
  · exact .running g resource resource (.inl hstarting) (h ▸ rfl) (h ▸ rfl)
  · exact .kept (h ▸ rfl) (h ▸ rfl)

theorem failStartup_lifecycle {error : LspBackendError} : LifecycleStep s (s.failStartup g error) := by
  obtain ⟨t, h, ht⟩ := s.failStartup_cases g error
  obtain ⟨pendingLsp, settlements, hfail⟩ := t.failAllPending_frame error (some g)
  rw [hfail] at h
  rcases ht with ⟨rfl, -⟩ | ⟨resource, unavailable, hstarting, rfl⟩
  · exact .kept (h ▸ rfl) (h ▸ rfl)
  · exact .stopped g resource true (.startup unavailable) (.inl hstarting) (h ▸ rfl) (h ▸ rfl)

theorem reportReset_eq (s : State) (error : LspBackendError) :
    ∃ startupFailureDetail,
      s.reportReset error = { s with semanticAvailable := false, startupFailureDetail } := by
  unfold State.reportReset
  split
  · exact ⟨_, rfl⟩
  · exact ⟨s.startupFailureDetail, rfl⟩

theorem failAndReset_lifecycle {error : LspBackendError} :
    LifecycleStep s (s.failAndReset g error) := by
  obtain ⟨detail, hreport⟩ := reportReset_eq s error
  rcases s.failAndReset_cases g error with ⟨resource, hstarting, h⟩ | ⟨resource, hrunning, h⟩ | ⟨-, h⟩
  · obtain ⟨pendingLsp, settlements, hfail⟩ := State.failAllPending_frame
      ((s.reportReset error).stop g resource true .reset).resetCaches error (some g)
    rw [hfail, hreport] at h
    exact .stopped g resource true .reset (.inl hstarting) (h ▸ rfl) (h ▸ rfl)
  · obtain ⟨pendingLsp, settlements, hfail⟩ := State.failAllPending_frame
      ((s.reportReset error).stop g resource false .reset).resetCaches error (some g)
    rw [hfail, hreport] at h
    exact .stopped g resource false .reset (.inr hrunning) (h ▸ rfl) (h ▸ rfl)
  · rw [hreport] at h
    exact .kept (h ▸ rfl) (h ▸ rfl)

theorem onProcessExit_lifecycle {code : Option Int} {signal : Option Str} :
    LifecycleStep s (s.onProcessExit config g code signal) := by
  rcases s.onProcessExit_cases config g code signal with ⟨-, error, h⟩ | ⟨-, h⟩
  · exact h ▸ failAndReset_lifecycle
  · exact .of_eq h

theorem shutdown_lifecycle : LifecycleStep s (s.shutdown config) := by
  rcases s.shutdown_cases config with ⟨g, resource, startup, _, _, _, hlive, -, h, -⟩ | h
  · obtain ⟨pendingLsp, settlements, hfail⟩ := State.failAllPending_frame
      { s.stop g resource startup .shutdown with nextLspId := _, written := _, ready := _ }
      (shutdownError config) none
    rw [hfail] at h
    exact .stopped g resource startup .shutdown hlive (h ▸ rfl) (h ▸ rfl)
  · exact .of_eq h

theorem appendStderr_lifecycle {chunk : Str} : LifecycleStep s (s.appendStderr g chunk) := by
  rcases s.appendStderr_cases g chunk with ⟨r, r', hstarting, h⟩ | ⟨r, r', hrunning, h⟩ | h
  · exact .starting g r r' hstarting (h ▸ rfl) (h ▸ rfl)
  · exact .running g r r' (.inr hrunning) (h ▸ rfl) (h ▸ rfl)
  · exact .of_eq h

theorem onLspMessage_lifecycle {message : LspMessage} :
    LifecycleStep s (s.onLspMessage config g message) := by
  rcases s.onLspMessage_cases config g message with h | ⟨id, outcome, -, -, -, h, -⟩
  · exact .of_eq h
  · obtain ⟨pendingLsp, settlements, hcomplete⟩ := s.completePending_frame id g outcome
    rw [hcomplete] at h
    exact .kept (h ▸ rfl) (h ▸ rfl)

theorem openDocument_frame {path : Str} {content resolved : Option Str} :
    ∃ docManager written,
      s.openDocument config path content resolved = { s with docManager, written } := by
  unfold State.openDocument
  simp only
  split
  · obtain ⟨w₁, h₁⟩ := State.sendLsp_frame
      { s with docManager := (s.docManager.ensure config.documents path content resolved).2.2 }
      (.didChangeWorkspaceFolders
        (s.docManager.ensure config.documents path content resolved).2.1.projectRoot)
    obtain ⟨w₂, h₂⟩ := State.sendDocuments_frame
      { s with
        docManager := (s.docManager.ensure config.documents path content resolved).2.2
        written := w₁ }
      (s.docManager.ensure config.documents path content resolved).2.1.notification.toList
    rw [h₁, h₂]
    obtain ⟨w₃, h₃⟩ := State.sendDocuments_frame _ _
    exact ⟨_, w₃, h₃⟩
  · obtain ⟨w₂, h₂⟩ := State.sendDocuments_frame
      { s with docManager := (s.docManager.ensure config.documents path content resolved).2.2 }
      (s.docManager.ensure config.documents path content resolved).2.1.notification.toList
    rw [h₂]
    obtain ⟨w₃, h₃⟩ := State.sendDocuments_frame _ _
    exact ⟨_, w₃, h₃⟩

theorem closeFile_frame {path : Str} :
    ∃ docManager written, s.closeFile config path = { s with docManager, written } := by
  obtain ⟨written, h⟩ := State.sendDocuments_frame
    { s with docManager := (s.docManager.close config.documents path).2 }
    ((s.docManager.close config.documents path).1.map DocumentNotification.didClose).toList
  exact ⟨_, written, h⟩

theorem finishCleanup_lifecycle {i : Nat} {cleanup : Cleanup}
    (hfound : s.cleanups[i]? = some cleanup) :
    LifecycleStep s ({ s with cleanups := s.cleanups.eraseIdx i }.finishCleanup cleanup) := by
  obtain ⟨docManager, available, request, failure, hreset⟩ :=
    State.resetBy_frame { s with cleanups := s.cleanups.eraseIdx i } cleanup
  rcases State.finishCleanup_cases { s with cleanups := s.cleanups.eraseIdx i } cleanup with
    ⟨generation, resource, startup, lifecycle, hstopping, hnext, h⟩ | ⟨hother, h⟩
  · rw [hreset] at h
    refine .cleaned i cleanup hfound (fun _ _ _ _ => h ▸ hnext) (fun hother => ?_) (h ▸ rfl)
    exact absurd hstopping (hother generation resource startup)
  · rw [hreset] at h
    refine .cleaned i cleanup hfound (fun generation resource startup hstopping => ?_)
      (fun _ => h ▸ rfl) (h ▸ rfl)
    exact absurd hstopping (hother generation resource startup)

theorem step_lifecycle (hstep : step config s event = some s') : LifecycleStep s s' := by
  cases event with
  | ensureStarted =>
    rw [← Option.some.inj hstep]
    unfold State.ensureStarted
    split
    case h_1 generation hidle => exact start_lifecycle hidle rfl
    case h_2 => exact .of_eq rfl
  | lookedUp g result =>
    simp only [step] at hstep
    split at hstep
    · cases result with
      | found => exact Option.some.inj hstep ▸ spawn_lifecycle
      | missing | failed detail => exact Option.some.inj hstep ▸ .kept rfl rfl
    · exact absurd hstep nofun
  | spawned g failure =>
    simp only [step] at hstep
    split at hstep
    · cases failure with
      | none => exact Option.some.inj hstep ▸ initializeServer_lifecycle
      | some detail => exact Option.some.inj hstep ▸ .kept rfl rfl
    · exact absurd hstep nofun
  | initialized g =>
    simp only [step] at hstep
    split at hstep
    · split at hstep
      · exact Option.some.inj hstep ▸ publishRunning_lifecycle
      · exact Option.some.inj hstep ▸ .kept rfl rfl
      · exact absurd hstep nofun
    · exact absurd hstep nofun
  | failStartup g =>
    simp only [step] at hstep
    split at hstep
    · exact Option.some.inj hstep ▸ failStartup_lifecycle
    · exact absurd hstep nofun
  | cleaned i =>
    simp only [step] at hstep
    split at hstep
    case h_1 cleanup hfound => exact Option.some.inj hstep ▸ finishCleanup_lifecycle hfound
    case h_2 => exact absurd hstep nofun
  | message g message =>
    simp only [step] at hstep
    split at hstep
    · exact Option.some.inj hstep ▸ onLspMessage_lifecycle
    · exact absurd hstep nofun
  | stderr g chunk =>
    simp only [step] at hstep
    split at hstep
    · exact Option.some.inj hstep ▸ appendStderr_lifecycle
    · exact absurd hstep nofun
  | processExit g code signal =>
    simp only [step] at hstep
    split at hstep
    · exact Option.some.inj hstep ▸ onProcessExit_lifecycle
    · exact absurd hstep nofun
  | processError g detail =>
    simp only [step] at hstep
    split at hstep
    · exact Option.some.inj hstep ▸ failAndReset_lifecycle
    · exact absurd hstep nofun
  | destroyStdin g => exact Option.some.inj hstep ▸ .kept rfl rfl
  | shutdown => exact Option.some.inj hstep ▸ shutdown_lifecycle
  | lspRequest method =>
    rw [← Option.some.inj hstep]
    unfold State.lspRequest
    split
    case h_1 g resource hrunning =>
      obtain ⟨written, h, -⟩ := State.sendLspTo_frame _ g (.request s.nextLspId method) rfl
      rw [h]
      exact .kept rfl rfl
    case h_2 => exact .of_eq rfl
  | timeout id =>
    simp only [step] at hstep
    split at hstep
    case h_1 pending hpending =>
      obtain ⟨pendingLsp, settlements, h⟩ :=
        s.completePending_frame id pending.generation (.error pending.timeoutError)
      rw [← Option.some.inj hstep, h]
      exact .kept rfl rfl
    case h_2 => exact absurd hstep nofun
  | finishRequest id =>
    simp only [step] at hstep
    split at hstep
    · split at hstep
      · exact Option.some.inj hstep ▸ .kept rfl rfl
      · exact Option.some.inj hstep ▸ .kept rfl rfl
      · exact absurd hstep nofun
    · exact absurd hstep nofun
  | recordSemanticResult method itemCount => exact Option.some.inj hstep ▸ .kept rfl rfl
  | ensureFile c path resolved =>
    simp only [step] at hstep
    split at hstep
    · rw [← Option.some.inj hstep]
      unfold State.ensureFile
      simp only
      split
      case h_1 generation hidle =>
        obtain ⟨resource, startups, h⟩ := State.start_frame config _ generation
        rw [h]
        exact .started generation resource hidle rfl rfl
      all_goals exact .kept rfl rfl
    · exact absurd hstep nofun
  | openDocument c content resolved =>
    simp only [step] at hstep
    split at hstep
    · split at hstep
      · obtain ⟨docManager, written, h⟩ := openDocument_frame
        rw [h] at hstep
        exact Option.some.inj hstep ▸ .kept rfl rfl
      · exact absurd hstep nofun
    · exact absurd hstep nofun
  | failCaller c =>
    simp only [step] at hstep
    split at hstep
    · exact Option.some.inj hstep ▸ .kept rfl rfl
    · exact absurd hstep nofun
  | closeFile path =>
    obtain ⟨docManager, written, h⟩ := closeFile_frame
    rw [step, h] at hstep
    exact Option.some.inj hstep ▸ .kept rfl rfl

/-- What waits is the one cleanup that the lifecycle is stopping for. -/
def Cleaning (s : State) : Prop :=
  match s.lifecycle with
  | .stopping generation done _ _ =>
    ∃ cleanup, s.cleanups = [cleanup] ∧ cleanup.done = done ∧ generation = cleanup.generation + 1
  | _ => s.cleanups = []

theorem Cleaning.none_of_live (h : Cleaning s) {resource : Resource}
    (hlive : s.lifecycle = .starting g resource ∨ s.lifecycle = .running g resource) :
    s.cleanups = [] := by
  unfold Cleaning at h
  rcases hlive with hlive | hlive <;> rw [hlive] at h <;> exact h

/-- A cleanup that waits has the token of the lifecycle. -/
theorem Cleaning.own (h : Cleaning s) {i : Nat} {cleanup : Cleanup}
    (hfound : s.cleanups[i]? = some cleanup) :
    ∃ resource startup, s.lifecycle = .stopping (cleanup.generation + 1) cleanup.done resource startup ∧
      s.cleanups = [cleanup] ∧ i = 0 := by
  unfold Cleaning at h
  split at h
  case h_1 generation done resource startup hstopping =>
    obtain ⟨found, hcleanups, rfl, rfl⟩ := h
    rw [hcleanups] at hfound
    obtain ⟨hi, rfl⟩ := List.getElem?_eq_some_iff.mp hfound
    obtain rfl : i = 0 := by simpa using hi
    exact ⟨resource, startup, hstopping, hcleanups, rfl⟩
  case h_2 =>
    rw [h] at hfound
    exact absurd hfound nofun

theorem LifecycleStep.cleaning (h : Cleaning s) (hstep : LifecycleStep s s') : Cleaning s' := by
  cases hstep with
  | kept hlifecycle hcleanups =>
    unfold Cleaning
    rw [hlifecycle, hcleanups]
    exact h
  | started generation resource hbefore hafter hcleanups =>
    unfold Cleaning at h ⊢
    rw [hbefore] at h
    rw [hafter, hcleanups]
    exact h
  | starting g resource resource' hbefore hafter hcleanups =>
    have hnone := h.none_of_live (.inl hbefore)
    unfold Cleaning
    rw [hafter, hcleanups]
    exact hnone
  | running g resource resource' hbefore hafter hcleanups =>
    have hnone := h.none_of_live hbefore
    unfold Cleaning
    rw [hafter, hcleanups]
    exact hnone
  | stopped g resource startup kind hbefore hafter hcleanups =>
    rw [h.none_of_live hbefore] at hcleanups
    unfold Cleaning
    rw [hafter]
    exact ⟨_, hcleanups, rfl, rfl⟩
  | cleaned i cleanup hfound hown hother hcleanups =>
    obtain ⟨resource, startup, hstopping, hone, rfl⟩ := h.own hfound
    rw [hone] at hcleanups
    unfold Cleaning
    rcases hown _ _ _ hstopping with hidle | ⟨message, hunavailable⟩
    · rw [hidle]
      exact hcleanups
    · rw [hunavailable]
      exact hcleanups

theorem LifecycleStep.generation_le (h : Cleaning s) (hstep : LifecycleStep s s') :
    s.lifecycle.generation ≤ s'.lifecycle.generation := by
  cases hstep with
  | kept hlifecycle _ => rw [hlifecycle]
  | started generation resource hbefore hafter _ =>
    rw [hbefore, hafter]
    exact Nat.le_succ _
  | starting g resource resource' hbefore hafter _ =>
    rw [hbefore, hafter]
    exact Nat.le_refl _
  | running g resource resource' hbefore hafter _ =>
    rw [hafter]
    rcases hbefore with hbefore | hbefore <;> rw [hbefore] <;> exact Nat.le_refl _
  | stopped g resource startup kind hbefore hafter _ =>
    rw [hafter]
    rcases hbefore with hbefore | hbefore <;> rw [hbefore] <;> exact Nat.le_succ _
  | cleaned i cleanup hfound hown hother _ =>
    obtain ⟨resource, startup, hstopping, -, -⟩ := h.own hfound
    rcases hown _ _ _ hstopping with hidle | ⟨message, hunavailable⟩
    · rw [hstopping, hidle]
      exact Nat.le_refl _
    · rw [hstopping, hunavailable]
      exact Nat.le_refl _

theorem cleaning_initial : Cleaning State.initial := rfl

theorem run_cleaning {events : List Event} (hrun : run (step config) State.initial events = some s) :
    Cleaning s :=
  Transitions.always (fun _ _ _ h hstep => LifecycleStep.cleaning h (step_lifecycle hstep))
    cleaning_initial hrun

-- -----
-- The requests
-- -----

def State.generationOf (s : State) (id : Nat) : Option Generation :=
  (s.requests id).map (·.generation)

/-- What a failure of a generation, or of all, settles a request with. -/
def failedWith (error : LspBackendError) (generation : Option Generation) :
    Option Pending → List (Except LspBackendError LspMessage)
  | some pending =>
    if generation.all fun g => decide (pending.generation = g) then [.error error] else []
  | none => []

/-- A message completes a request with itself; all else fails requests. -/
inductive RequestStep (event : Event) (s s' : State) : Prop where
  | kept (next : s.nextLspId ≤ s'.nextLspId) (pending : s'.pendingLsp = s.pendingLsp)
      (settlements : s'.settlements = s.settlements) (requests : s'.generationOf = s.generationOf)
  | added (request : Request) (error : LspBackendError) (next : s'.nextLspId = s.nextLspId + 1)
      (pending : s'.pendingLsp = s.pendingLsp.set s.nextLspId ⟨request.generation, error⟩)
      (settlements : s'.settlements = s.settlements)
      (requests : s'.generationOf =
        Function.update s.generationOf s.nextLspId (some request.generation))
  | completed (id : Nat) (pending : Pending) (outcome : Except LspBackendError LspMessage)
      (found : s.pendingLsp.get id = some pending)
      (cause : ∀ answer, outcome = .ok answer → ∃ g, event = .message g answer)
      (next : s'.nextLspId = s.nextLspId)
      (deleted : s'.pendingLsp = s.pendingLsp.delete id)
      (settlements : s'.settlements =
        Function.update s.settlements id (s.settlements id ++ [outcome]))
      (requests : s'.generationOf = s.generationOf)
  | failed (error : LspBackendError) (generation : Option Generation)
      (next : s.nextLspId ≤ s'.nextLspId)
      (pending : ∀ id p, s'.pendingLsp.get id = some p ↔
        s.pendingLsp.get id = some p ∧ generation ≠ none ∧ generation ≠ some p.generation)
      (settlements : ∀ id, s'.settlements id =
        s.settlements id ++ failedWith error generation (s.pendingLsp.get id))
      (requests : s'.generationOf = s.generationOf)

theorem RequestStep.of_eq (h : s' = s) : RequestStep event s s' :=
  .kept (h ▸ Nat.le_refl _) (h ▸ rfl) (h ▸ rfl) (h ▸ rfl)

theorem failAllPending_settlements {error : LspBackendError} {generation : Option Generation}
    {id : Nat} : (s.failAllPending error generation).settlements id =
      s.settlements id ++ failedWith error generation (s.pendingLsp.get id) := by
  rw [State.failAllPending, State.failPendings_settlements]
  · congr 1
    by_cases hmem : id ∈ (s.pendingLsp.entries.filter fun entry =>
        generation.all fun g => decide (entry.2.generation = g)).map (·.1)
    · obtain ⟨pending, hget, hgeneration⟩ := mem_failing.mp hmem
      rw [if_pos hmem, hget, failedWith, if_pos]
      cases generation with
      | none => rfl
      | some g => simpa using hgeneration g rfl
    · rw [if_neg hmem]
      cases hget : s.pendingLsp.get id with
      | none => rfl
      | some pending =>
        rw [failedWith, if_neg]
        intro hall
        refine hmem (mem_failing.mpr ⟨pending, hget, fun g hg => ?_⟩)
        subst hg
        simpa using hall
  · exact s.pendingLsp.nodup.sublist (List.filter_sublist.map _)

/-- A failure of pending requests, in a state with the same ones. -/
theorem failAllPending_request {t : State} {error : LspBackendError}
    {generation : Option Generation} (hnext : s.nextLspId ≤ t.nextLspId)
    (hpending : t.pendingLsp = s.pendingLsp) (hsettlements : t.settlements = s.settlements)
    (hrequests : t.requests = s.requests) :
    RequestStep event s (t.failAllPending error generation) := by
  refine .failed error generation ?_ (fun id p => ?_) (fun id => ?_) ?_
  · obtain ⟨pendingLsp, settlements, h⟩ := t.failAllPending_frame error generation
    exact h ▸ hnext
  · rw [State.failAllPending_get, hpending]
  · rw [failAllPending_settlements, hpending, hsettlements]
  · obtain ⟨pendingLsp, settlements, h⟩ := t.failAllPending_frame error generation
    rw [h]
    unfold State.generationOf
    rw [hrequests]

theorem completePending_request {id : Nat} {outcome : Except LspBackendError LspMessage}
    (hcause : ∀ answer, outcome = .ok answer → ∃ g, event = .message g answer) :
    RequestStep event s (s.completePending id g outcome) := by
  unfold State.completePending
  split
  case h_1 => exact .of_eq rfl
  case h_2 pending hpending =>
    split
    · exact .completed id pending outcome hpending hcause rfl rfl rfl rfl
    · exact .of_eq rfl

theorem addPending_request {request : Request} {error : LspBackendError} :
    RequestStep event s (s.addPending request error) := by
  refine .added request error rfl rfl rfl (funext fun id => ?_)
  unfold State.generationOf State.addPending
  by_cases hid : id = s.nextLspId
  · subst hid
    simp
  · simp [hid]

/-- The step to a state with the same requests. -/
theorem RequestStep.frame {t : State} (h : RequestStep event s t) (hnext : s'.nextLspId = t.nextLspId)
    (hpending : s'.pendingLsp = t.pendingLsp) (hsettlements : s'.settlements = t.settlements)
    (hrequests : s'.requests = t.requests) : RequestStep event s s' := by
  have hgenerations : s'.generationOf = t.generationOf := by
    unfold State.generationOf
    rw [hrequests]
  cases h with
  | kept next pending settlements requests =>
    exact .kept (hnext ▸ next) (hpending.trans pending) (hsettlements.trans settlements)
      (hgenerations.trans requests)
  | added request error next pending settlements requests =>
    exact .added request error (hnext.trans next) (hpending.trans pending)
      (hsettlements.trans settlements) (hgenerations.trans requests)
  | completed id pending outcome found cause next deleted settlements requests =>
    exact .completed id pending outcome found cause (hnext.trans next) (hpending.trans deleted)
      (hsettlements.trans settlements) (hgenerations.trans requests)
  | failed error generation next pending settlements requests =>
    exact .failed error generation (hnext ▸ next) (hpending ▸ pending)
      (hsettlements ▸ settlements) (hgenerations.trans requests)

theorem spawn_request : RequestStep event s (s.spawn config g) := by
  rcases s.spawn_cases config g with ⟨_, _, startups, _, h⟩ | ⟨startups, h⟩
  · exact (RequestStep.of_eq rfl).frame (h ▸ rfl) (h ▸ rfl) (h ▸ rfl) (h ▸ rfl)
  · exact (RequestStep.of_eq rfl).frame (h ▸ rfl) (h ▸ rfl) (h ▸ rfl) (h ▸ rfl)

theorem initializeServer_request : RequestStep event s (s.initializeServer config g) := by
  rcases s.initializeServer_cases config g with ⟨_, _, _, _, _, _, h, _⟩ | ⟨_, h⟩
  · have hadded : RequestStep event s (s.addPending ⟨g, none, false⟩ (initializeTimedOut config)) :=
      addPending_request
    exact hadded.frame (h ▸ rfl) (h ▸ rfl) (h ▸ rfl) (h ▸ rfl)
  · exact (RequestStep.of_eq rfl).frame (h ▸ rfl) (h ▸ rfl) (h ▸ rfl) (h ▸ rfl)

theorem publishRunning_request : RequestStep event s (s.publishRunning config g) := by
  rcases s.publishRunning_cases config g with ⟨_, _, _, _, _, h, _⟩ | ⟨_, h⟩
  · exact (RequestStep.of_eq rfl).frame (h ▸ rfl) (h ▸ rfl) (h ▸ rfl) (h ▸ rfl)
  · exact (RequestStep.of_eq rfl).frame (h ▸ rfl) (h ▸ rfl) (h ▸ rfl) (h ▸ rfl)

theorem failStartup_request {error : LspBackendError} : RequestStep event s (s.failStartup g error) := by
  obtain ⟨t, h, ht⟩ := s.failStartup_cases g error
  have hfail : RequestStep event s (t.failAllPending error (some g)) := by
    rcases ht with ⟨rfl, -⟩ | ⟨resource, unavailable, -, rfl⟩
    · exact failAllPending_request (Nat.le_refl _) rfl rfl rfl
    · exact failAllPending_request (Nat.le_refl _) rfl rfl rfl
  exact hfail.frame (h ▸ rfl) (h ▸ rfl) (h ▸ rfl) (h ▸ rfl)

theorem failAndReset_request {error : LspBackendError} :
    RequestStep event s (s.failAndReset g error) := by
  obtain ⟨detail, hreport⟩ := reportReset_eq s error
  rcases s.failAndReset_cases g error with ⟨resource, -, h⟩ | ⟨resource, -, h⟩ | ⟨-, h⟩
  · rw [hreport] at h
    have hfail : RequestStep event s (State.failAllPending
        (State.resetCaches (State.stop { s with
          semanticAvailable := false
          startupFailureDetail := detail } g resource true .reset)) error (some g)) :=
      failAllPending_request (Nat.le_refl _) rfl rfl rfl
    exact hfail.frame (h ▸ rfl) (h ▸ rfl) (h ▸ rfl) (h ▸ rfl)
  · rw [hreport] at h
    exact h ▸ failAllPending_request (Nat.le_refl _) rfl rfl rfl
  · rw [hreport] at h
    exact (RequestStep.of_eq rfl).frame (h ▸ rfl) (h ▸ rfl) (h ▸ rfl) (h ▸ rfl)

theorem onProcessExit_request {code : Option Int} {signal : Option Str} :
    RequestStep event s (s.onProcessExit config g code signal) := by
  rcases s.onProcessExit_cases config g code signal with ⟨-, error, h⟩ | ⟨-, h⟩
  · exact h ▸ failAndReset_request
  · exact .of_eq h

theorem shutdown_request : RequestStep event s (s.shutdown config) := by
  rcases s.shutdown_cases config with ⟨g, resource, startup, _, _, _, -, hnext, h, -⟩ | h
  · exact h ▸ failAllPending_request hnext rfl rfl rfl
  · exact .of_eq h

theorem appendStderr_request {chunk : Str} : RequestStep event s (s.appendStderr g chunk) := by
  rcases s.appendStderr_cases g chunk with ⟨_, _, _, h⟩ | ⟨_, _, _, h⟩ | h
  · exact (RequestStep.of_eq rfl).frame (h ▸ rfl) (h ▸ rfl) (h ▸ rfl) (h ▸ rfl)
  · exact (RequestStep.of_eq rfl).frame (h ▸ rfl) (h ▸ rfl) (h ▸ rfl) (h ▸ rfl)
  · exact .of_eq h

theorem onLspMessage_request {message : LspMessage} :
    RequestStep (.message g message) s (s.onLspMessage config g message) := by
  rcases s.onLspMessage_cases config g message with h | ⟨id, outcome, -, -, -, h, hanswer⟩
  · exact .of_eq h
  · exact h ▸ completePending_request fun answer hok => ⟨g, hanswer answer hok ▸ rfl⟩

theorem finishCleanup_request {cleanup : Cleanup} {cleanups : List Cleanup} :
    RequestStep event s ({ s with cleanups }.finishCleanup cleanup) := by
  obtain ⟨docManager, available, request, failure, hreset⟩ :=
    State.resetBy_frame { s with cleanups } cleanup
  rcases State.finishCleanup_cases { s with cleanups } cleanup with ⟨_, _, _, _, _, _, h⟩ | ⟨_, h⟩
  · rw [hreset] at h
    exact (RequestStep.of_eq rfl).frame (h ▸ rfl) (h ▸ rfl) (h ▸ rfl) (h ▸ rfl)
  · rw [hreset] at h
    exact (RequestStep.of_eq rfl).frame (h ▸ rfl) (h ▸ rfl) (h ▸ rfl) (h ▸ rfl)

theorem start_request {t : State} {generation : Generation} (hnext : t.nextLspId = s.nextLspId)
    (hpending : t.pendingLsp = s.pendingLsp) (hsettlements : t.settlements = s.settlements)
    (hrequests : t.requests = s.requests) : RequestStep event s (t.start config generation) := by
  obtain ⟨resource, startups, h⟩ := t.start_frame config generation
  exact (RequestStep.of_eq rfl).frame (h ▸ hnext) (h ▸ hpending) (h ▸ hsettlements) (h ▸ hrequests)

theorem step_request (hstep : step config s event = some s') : RequestStep event s s' := by
  have hkept : RequestStep event s s := .of_eq rfl
  cases event with
  | ensureStarted =>
    rw [← Option.some.inj hstep]
    unfold State.ensureStarted
    split
    · exact start_request rfl rfl rfl rfl
    · exact hkept
  | lookedUp g result =>
    simp only [step] at hstep
    split at hstep
    · cases result with
      | found => exact Option.some.inj hstep ▸ spawn_request
      | missing | failed detail => exact Option.some.inj hstep ▸ hkept.frame rfl rfl rfl rfl
    · cases hstep
  | spawned g failure =>
    simp only [step] at hstep
    split at hstep
    · cases failure with
      | none => exact Option.some.inj hstep ▸ initializeServer_request
      | some detail => exact Option.some.inj hstep ▸ hkept.frame rfl rfl rfl rfl
    · cases hstep
  | initialized g =>
    simp only [step] at hstep
    split at hstep
    · split at hstep
      · exact Option.some.inj hstep ▸ publishRunning_request
      · exact Option.some.inj hstep ▸ hkept.frame rfl rfl rfl rfl
      · cases hstep
    · cases hstep
  | failStartup g =>
    simp only [step] at hstep
    split at hstep
    · exact Option.some.inj hstep ▸ failStartup_request
    · cases hstep
  | cleaned i =>
    simp only [step] at hstep
    split at hstep
    · exact Option.some.inj hstep ▸ finishCleanup_request
    · cases hstep
  | message g message =>
    simp only [step] at hstep
    split at hstep
    · exact Option.some.inj hstep ▸ onLspMessage_request
    · cases hstep
  | stderr g chunk =>
    simp only [step] at hstep
    split at hstep
    · exact Option.some.inj hstep ▸ appendStderr_request
    · cases hstep
  | processExit g code signal =>
    simp only [step] at hstep
    split at hstep
    · exact Option.some.inj hstep ▸ onProcessExit_request
    · cases hstep
  | processError g detail =>
    simp only [step] at hstep
    split at hstep
    · exact Option.some.inj hstep ▸ failAndReset_request
    · cases hstep
  | destroyStdin g => exact Option.some.inj hstep ▸ hkept.frame rfl rfl rfl rfl
  | shutdown => exact Option.some.inj hstep ▸ shutdown_request
  | lspRequest method =>
    rw [← Option.some.inj hstep]
    unfold State.lspRequest
    split
    case h_1 g resource hrunning =>
      obtain ⟨written, h, -⟩ := State.sendLspTo_frame (s.addPending ⟨g, some method, false⟩
        ⟨.request, config.name ++ lit " LSP request timed out: " ++ method⟩) g
        (.request s.nextLspId method) rfl
      rw [h]
      exact addPending_request.frame rfl rfl rfl rfl
    case h_2 => exact hkept
  | timeout id =>
    simp only [step] at hstep
    split at hstep
    · exact Option.some.inj hstep ▸ completePending_request (by simp)
    · cases hstep
  | finishRequest id =>
    simp only [step] at hstep
    split at hstep
    case h_1 g method hrequest =>
      have hgenerations : ∀ t : State, t.requests =
          Function.update s.requests id (some ⟨g, some method, true⟩) →
          t.generationOf = s.generationOf := by
        intro t ht
        funext other
        unfold State.generationOf
        rw [ht]
        by_cases hother : other = id
        · subst hother
          simp [hrequest]
        · simp [hother]
      split at hstep
      · exact Option.some.inj hstep ▸ .kept (Nat.le_refl _) rfl rfl (hgenerations _ rfl)
      · exact Option.some.inj hstep ▸ .kept (Nat.le_refl _) rfl rfl (hgenerations _ rfl)
      · cases hstep
    case h_2 => cases hstep
  | recordSemanticResult method itemCount =>
    exact Option.some.inj hstep ▸ hkept.frame rfl rfl rfl rfl
  | ensureFile c path resolved =>
    simp only [step] at hstep
    split at hstep
    · rw [← Option.some.inj hstep]
      unfold State.ensureFile
      simp only
      split
      case h_1 generation hidle =>
        obtain ⟨resource, startups, h⟩ := State.start_frame config _ generation
        rw [h]
        exact hkept.frame rfl rfl rfl rfl
      all_goals exact hkept.frame rfl rfl rfl rfl
    · cases hstep
  | openDocument c content resolved =>
    simp only [step] at hstep
    split at hstep
    · split at hstep
      · obtain ⟨docManager, written, h⟩ := openDocument_frame
        rw [h] at hstep
        exact Option.some.inj hstep ▸ hkept.frame rfl rfl rfl rfl
      · cases hstep
    · cases hstep
  | failCaller c =>
    simp only [step] at hstep
    split at hstep
    · exact Option.some.inj hstep ▸ hkept.frame rfl rfl rfl rfl
    · cases hstep
  | closeFile path =>
    obtain ⟨docManager, written, h⟩ := closeFile_frame
    rw [step, h] at hstep
    exact Option.some.inj hstep ▸ hkept.frame rfl rfl rfl rfl

/-- A request is pending with its generation, or settled once. -/
structure Tracked (s : State) : Prop where
  fresh : ∀ id, s.nextLspId ≤ id → s.generationOf id = none
  unasked : ∀ id, s.generationOf id = none → s.pendingLsp.get id = none ∧ s.settlements id = []
  asked : ∀ id g, s.generationOf id = some g →
    (∃ pending, s.pendingLsp.get id = some pending ∧ pending.generation = g ∧
      s.settlements id = []) ∨
    (s.pendingLsp.get id = none ∧ ∃ outcome, s.settlements id = [outcome])

theorem Tracked.pending (h : Tracked s) {id : Nat} {p : Pending}
    (hp : s.pendingLsp.get id = some p) :
    s.generationOf id = some p.generation ∧ s.settlements id = [] := by
  cases hg : s.generationOf id with
  | none => exact absurd (hp.symm.trans (h.unasked id hg).1) nofun
  | some g =>
    rcases h.asked id g hg with ⟨pending, hpending, rfl, hnone⟩ | ⟨hnone, -⟩
    · obtain rfl := Option.some.inj (hp.symm.trans hpending)
      exact ⟨rfl, hnone⟩
    · exact absurd (hp.symm.trans hnone) nofun

theorem tracked_initial : Tracked State.initial :=
  ⟨fun _ _ => rfl, fun _ _ => ⟨rfl, rfl⟩, fun _ _ h => absurd h nofun⟩

theorem RequestStep.tracked (h : Tracked s) (hstep : RequestStep event s s') : Tracked s' := by
  cases hstep with
  | kept next pending settlements requests =>
    refine ⟨fun id hid => ?_, fun id hid => ?_, fun id g hg => ?_⟩
    · exact requests ▸ h.fresh id (Nat.le_trans next hid)
    · rw [pending, settlements]
      exact h.unasked id (requests ▸ hid)
    · rw [pending, settlements]
      exact h.asked id g (requests ▸ hg)
  | added request error next pending settlements requests =>
    obtain ⟨-, hsettled⟩ := h.unasked s.nextLspId (h.fresh _ (Nat.le_refl _))
    refine ⟨fun id hid => ?_, fun id hid => ?_, fun id g hg => ?_⟩
    · rw [requests, Function.update_of_ne (by omega)]
      exact h.fresh id (by omega)
    · by_cases hnew : id = s.nextLspId
      · subst hnew
        rw [requests, Function.update_self] at hid
        exact absurd hid nofun
      · rw [requests, Function.update_of_ne hnew] at hid
        rw [pending, settlements, JsMap.get_set, if_neg hnew]
        exact h.unasked id hid
    · by_cases hnew : id = s.nextLspId
      · subst hnew
        rw [requests, Function.update_self] at hg
        rw [pending, settlements, JsMap.get_set, if_pos rfl]
        exact .inl ⟨_, rfl, Option.some.inj hg, hsettled⟩
      · rw [requests, Function.update_of_ne hnew] at hg
        rw [pending, settlements, JsMap.get_set, if_neg hnew]
        exact h.asked id g hg
  | completed id pending outcome found cause next deleted settlements requests =>
    obtain ⟨hgeneration, hnone⟩ := h.pending found
    refine ⟨fun other hother => ?_, fun other hother => ?_, fun other g hg => ?_⟩
    · exact requests ▸ h.fresh other (next ▸ hother)
    · have hne : other ≠ id := by
        rintro rfl
        rw [requests, hgeneration] at hother
        exact absurd hother nofun
      rw [deleted, settlements, JsMap.get_delete, if_neg hne, Function.update_of_ne hne]
      exact h.unasked other (requests ▸ hother)
    · by_cases hid : other = id
      · subst hid
        rw [deleted, settlements, JsMap.get_delete, if_pos rfl, Function.update_self, hnone]
        exact .inr ⟨rfl, outcome, rfl⟩
      · rw [deleted, settlements, JsMap.get_delete, if_neg hid, Function.update_of_ne hid]
        exact h.asked other g (requests ▸ hg)
  | failed error generation next pending settlements requests =>
    refine ⟨fun id hid => ?_, fun id hid => ?_, fun id g hg => ?_⟩
    · exact requests ▸ h.fresh id (Nat.le_trans next hid)
    · obtain ⟨hpending, hnone⟩ := h.unasked id (requests ▸ hid)
      rw [settlements, hpending, hnone]
      refine ⟨Option.eq_none_iff_forall_ne_some.mpr fun p hp => ?_, rfl⟩
      exact absurd (hpending.symm.trans ((pending id p).mp hp).1) nofun
    · rcases h.asked id g (requests ▸ hg) with ⟨p, hp, hgeneration, hnone⟩ | ⟨hp, outcome, hsettled⟩
      · rw [settlements, hp, hnone]
        by_cases hfails : generation.all (fun g => decide (p.generation = g)) = true
        · refine .inr ⟨Option.eq_none_iff_forall_ne_some.mpr fun q hq => ?_, .error error, ?_⟩
          · obtain ⟨hq, hsome, hne⟩ := (pending id q).mp hq
            obtain rfl := Option.some.inj (hp.symm.trans hq)
            obtain ⟨failing, rfl⟩ := Option.ne_none_iff_exists'.mp hsome
            simp at hfails
            exact hne (congrArg some hfails.symm)
          · simp [failedWith, hfails]
        · refine .inl ⟨p, (pending id p).mpr ⟨hp, ?_, ?_⟩, hgeneration, ?_⟩
          · rintro rfl
            exact hfails rfl
          · rintro rfl
            simp at hfails
          · simp [failedWith, hfails]
      · rw [settlements, hp, hsettled]
        refine .inr ⟨Option.eq_none_iff_forall_ne_some.mpr fun q hq => ?_, outcome, rfl⟩
        exact absurd (hp.symm.trans ((pending id q).mp hq).1) nofun

theorem run_tracked {events : List Event} (hrun : run (step config) State.initial events = some s) :
    Tracked s :=
  Transitions.always (fun _ _ _ h hstep => RequestStep.tracked h (step_request hstep))
    tracked_initial hrun

end PiEnv.DevTools.Backend
