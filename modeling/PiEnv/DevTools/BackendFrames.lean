import PiEnv.DevTools.Backend

/-!
# What the helpers of a backend change

The fields that sending, settling and failing requests leave as they were, and
what they make of the others.
-/

namespace PiEnv.DevTools.Backend

open Js

variable {s : State} {g : Generation} {id : Nat}

-- -----
-- Sending
-- -----

theorem State.sendLsp_frame (s : State) (message : Written) :
    ∃ written, s.sendLsp message = { s with written } := by
  unfold State.sendLsp
  split
  · exact ⟨_, rfl⟩
  · exact ⟨s.written, rfl⟩

theorem State.write_notified (s : State) (g : Generation) (message : Written)
    (h : message.notification? = none) : (s.write g message).notified = s.notified := by
  funext h'
  unfold State.notified State.write
  by_cases hg : h' = g
  · subst hg
    simp [h]
  · simp [hg]

/-- A message that is no document notification. -/
theorem State.sendLspTo_frame (s : State) (g : Generation) (message : Written)
    (h : message.notification? = none) :
    ∃ written, s.sendLspTo g message = { s with written } ∧
      (s.sendLspTo g message).notified = s.notified := by
  unfold State.sendLspTo State.sendLsp
  split
  · split
    · exact ⟨_, rfl, s.write_notified _ message h⟩
    · exact ⟨s.written, rfl, rfl⟩
  · exact ⟨s.written, rfl, rfl⟩

theorem State.sendDocuments_frame (s : State) (notifications : List DocumentNotification) :
    ∃ written, s.sendDocuments notifications = { s with written } := by
  induction notifications generalizing s with
  | nil => exact ⟨s.written, rfl⟩
  | cons n rest ih =>
    obtain ⟨first, hfirst⟩ := s.sendLsp_frame (.document n)
    obtain ⟨written, hrest⟩ := ih { s with written := first }
    refine ⟨written, ?_⟩
    show (s.sendLsp (.document n)).sendDocuments rest = _
    rw [hfirst, hrest]

-- -----
-- Settling
-- -----

theorem State.completePending_frame (s : State) (id : Nat) (g : Generation)
    (outcome : Except LspBackendError LspMessage) :
    ∃ pendingLsp settlements,
      s.completePending id g outcome = { s with pendingLsp, settlements } := by
  unfold State.completePending
  split
  · exact ⟨s.pendingLsp, s.settlements, rfl⟩
  · split
    · exact ⟨_, _, rfl⟩
    · exact ⟨s.pendingLsp, s.settlements, rfl⟩

theorem State.failPendings_frame (s : State) (error : LspBackendError) (ids : List Nat) :
    ∃ pendingLsp settlements, s.failPendings error ids = { s with pendingLsp, settlements } := by
  induction ids generalizing s with
  | nil => exact ⟨s.pendingLsp, s.settlements, rfl⟩
  | cons id rest ih =>
    obtain ⟨pendingLsp, settlements, h⟩ :=
      ih ({ s with pendingLsp := s.pendingLsp.delete id }.settle id (.error error))
    exact ⟨pendingLsp, settlements, h⟩

theorem State.failAllPending_frame (s : State) (error : LspBackendError)
    (generation : Option Generation) :
    ∃ pendingLsp settlements,
      s.failAllPending error generation = { s with pendingLsp, settlements } :=
  s.failPendings_frame error _

theorem State.failAllPending_notified {error : LspBackendError} {generation : Option Generation} :
    (s.failAllPending error generation).notified = s.notified := by
  obtain ⟨pendingLsp, settlements, h⟩ := s.failAllPending_frame error generation
  rw [h]
  rfl

theorem State.failPendings_get {error : LspBackendError} {ids : List Nat} :
    (s.failPendings error ids).pendingLsp.get id =
      if id ∈ ids then none else s.pendingLsp.get id := by
  induction ids generalizing s with
  | nil => rfl
  | cons first rest ih =>
    show (State.failPendings _ error rest).pendingLsp.get id = _
    rw [ih]
    show (if id ∈ rest then none else (s.pendingLsp.delete first).get id) = _
    rw [JsMap.get_delete]
    by_cases hrest : id ∈ rest <;> by_cases hfirst : id = first <;> simp [hrest, hfirst]

theorem State.failPendings_settlements {error : LspBackendError} {ids : List Nat}
    (hnodup : ids.Nodup) :
    (s.failPendings error ids).settlements id =
      s.settlements id ++ if id ∈ ids then [.error error] else [] := by
  induction ids generalizing s with
  | nil => simp [State.failPendings]
  | cons first rest ih =>
    obtain ⟨hnot, hrest⟩ := List.nodup_cons.mp hnodup
    show (State.failPendings _ error rest).settlements id = _
    rw [ih hrest]
    by_cases hfirst : id = first
    · subst hfirst
      simp [State.settle, hnot]
    · simp [State.settle, hfirst]

/-- The ids that `failAllPending` fails. -/
theorem mem_failing {generation : Option Generation} :
    id ∈ (s.pendingLsp.entries.filter fun entry =>
        generation.all fun g => decide (entry.2.generation = g)).map (·.1) ↔
      ∃ pending, s.pendingLsp.get id = some pending ∧ ∀ g, generation = some g →
        pending.generation = g := by
  rw [List.mem_map]
  constructor
  · rintro ⟨⟨key, pending⟩, hmem, rfl⟩
    obtain ⟨hentry, hgeneration⟩ := List.mem_filter.mp hmem
    refine ⟨pending, JsMap.get_of_mem hentry, fun g hg => ?_⟩
    subst hg
    simpa using hgeneration
  · rintro ⟨pending, hget, hgeneration⟩
    refine ⟨(id, pending), List.mem_filter.mpr ⟨JsMap.mem_of_get hget, ?_⟩, rfl⟩
    cases generation with
    | none => rfl
    | some g => simpa using hgeneration g rfl

theorem State.failAllPending_get {error : LspBackendError} {generation : Option Generation}
    {pending : Pending} :
    (s.failAllPending error generation).pendingLsp.get id = some pending ↔
      s.pendingLsp.get id = some pending ∧ generation ≠ none ∧
        generation ≠ some pending.generation := by
  rw [State.failAllPending, State.failPendings_get]
  split
  case isTrue h =>
    obtain ⟨found, hget, hgeneration⟩ := mem_failing.mp h
    refine ⟨by simp, ?_⟩
    rintro ⟨hp, hnone, hne⟩
    obtain ⟨g, rfl⟩ := Option.ne_none_iff_exists'.mp hnone
    obtain rfl := Option.some.inj (hget.symm.trans hp)
    exact absurd (congrArg some (hgeneration g rfl).symm) hne
  case isFalse h =>
    refine ⟨fun hp => ⟨hp, fun hnone => ?_, fun hg => ?_⟩, fun hp => hp.1⟩
    · exact h (mem_failing.mpr ⟨pending, hp, fun g hg => by cases hnone.symm.trans hg⟩)
    · refine h (mem_failing.mpr ⟨pending, hp, fun g hg' => ?_⟩)
      exact Option.some.inj (hg.symm.trans hg')

-- -----
-- Starting
-- -----

/-- A start goes on, or its failure is all that changes. -/
theorem State.spawn_cases (config : Config) (s : State) (g : Generation) :
    (∃ resource resource' startups, s.lifecycle = .starting g resource ∧
      s.spawn config g = { s with lifecycle := .starting g resource', startups }) ∨
      ∃ startups, s.spawn config g = { s with startups } := by
  unfold State.spawn State.whileStarting
  split
  case h_1 generation resource hstarting =>
    split
    case isTrue hg =>
      subst hg
      exact .inl ⟨resource, _, _, hstarting, rfl⟩
    case isFalse => exact .inr ⟨_, rfl⟩
  case h_2 => exact .inr ⟨_, rfl⟩

theorem State.start_frame (config : Config) (s : State) (generation : Generation) :
    ∃ resource startups, s.start config generation =
      { s.resetSemanticState with
        lifecycle := .starting (generation + 1) resource
        startups } := by
  unfold State.start
  split
  · exact ⟨_, _, rfl⟩
  · rcases State.spawn_cases config
        { s.resetSemanticState with lifecycle := .starting (generation + 1) emptyResource }
        (generation + 1) with ⟨_, resource, startups, _, h⟩ | ⟨startups, h⟩
    · exact ⟨resource, startups, h⟩
    · exact ⟨emptyResource, startups, h⟩

theorem State.initializeServer_cases (config : Config) (s : State) (g : Generation) :
    (∃ resource resource' written startups attached, s.lifecycle = .starting g resource ∧
      s.initializeServer config g =
        { s.addPending ⟨g, none, false⟩ (initializeTimedOut config) with
          lifecycle := .starting g resource'
          written
          startups
          attached } ∧
      (s.initializeServer config g).notified = s.notified) ∨
      ∃ startups, s.initializeServer config g = { s with startups } := by
  unfold State.initializeServer State.whileStarting
  split
  case h_1 generation resource hstarting =>
    split
    case isTrue hg =>
      subst hg
      obtain ⟨written, hwritten, hnotified⟩ := State.sendLspTo_frame (State.addPending
        { s with
          lifecycle := .starting generation { resource with process := true, listeners := true }
          attached := Function.update s.attached generation true } ⟨generation, none, false⟩
        (initializeTimedOut config)) generation (.initializeRequest s.nextLspId) rfl
      refine .inl ⟨resource, { resource with process := true, listeners := true }, written,
        Function.update s.startups generation (some (.initializing s.nextLspId)),
        Function.update s.attached generation true, hstarting, ?_, hnotified⟩
      simp only [hwritten]
      rfl
    case isFalse => exact .inr ⟨_, rfl⟩
  case h_2 => exact .inr ⟨_, rfl⟩

theorem State.publishRunning_cases (config : Config) (s : State) (g : Generation) :
    (∃ resource written ready startups, s.lifecycle = .starting g resource ∧
      s.publishRunning config g =
        { s with
          lifecycle := .running g resource
          startupFailureDetail := none
          written
          ready
          startups } ∧
      (s.publishRunning config g).notified = s.notified) ∨
      ∃ startups, s.publishRunning config g = { s with startups } := by
  unfold State.publishRunning State.whileStarting
  split
  case h_1 generation resource hstarting =>
    split
    case isTrue hg =>
      subst hg
      obtain ⟨written, hwritten, hnotified⟩ := s.sendLspTo_frame generation .initialized rfl
      refine .inl ⟨resource, written,
        Function.update s.ready generation ((s.ready generation).or (some (.ok ()))),
        Function.update s.startups generation (some .ended), hstarting, ?_, hnotified⟩
      simp only [hwritten]
      rfl
    case isFalse => exact .inr ⟨_, rfl⟩
  case h_2 => exact .inr ⟨_, rfl⟩

theorem State.appendStderr_cases (s : State) (g : Generation) (chunk : Str) :
    (∃ resource resource', s.lifecycle = .starting g resource ∧
      s.appendStderr g chunk = { s with lifecycle := .starting g resource' }) ∨
    (∃ resource resource', s.lifecycle = .running g resource ∧
      s.appendStderr g chunk = { s with lifecycle := .running g resource' }) ∨
      s.appendStderr g chunk = s := by
  cases hlifecycle : s.lifecycle with
  | starting generation resource =>
    by_cases hg : generation = g
    · subst hg
      exact .inl ⟨resource, _, rfl, by simp [State.appendStderr, hlifecycle]; rfl⟩
    · exact .inr (.inr (by simp [State.appendStderr, hlifecycle, hg]))
  | running generation resource =>
    by_cases hg : generation = g
    · subst hg
      exact .inr (.inl ⟨resource, _, rfl, by simp [State.appendStderr, hlifecycle]; rfl⟩)
    · exact .inr (.inr (by simp [State.appendStderr, hlifecycle, hg]))
  | _ => exact .inr (.inr (by simp [State.appendStderr, hlifecycle]))

-- -----
-- Failing
-- -----

/-- What a failed start reports, whatever generation is current. -/
def State.reportFailure (s : State) (error : LspBackendError) : State :=
  { s with
    semanticAvailable := false
    startupFailureDetail := some (compactStatusDetail error.message) }

/-- What `failAndResetEffect` reports before it looks at the generation. -/
def State.reportReset (s : State) (error : LspBackendError) : State :=
  match s.lifecycle with
  | .starting _ _ => s.reportFailure error
  | _ => { s with semanticAvailable := false }

theorem State.failStartup_cases (s : State) (g : Generation) (error : LspBackendError) :
    ∃ t : State,
      s.failStartup g error =
        ((t.failAllPending error (some g)).doneReady g (.error error)).setStartup g .ended ∧
      ((t = s.reportFailure error ∧ s.isStarting g = false) ∨
        ∃ resource unavailable, s.lifecycle = .starting g resource ∧
          t = ((s.reportFailure error).stop g resource true (.startup unavailable)).resetCaches) := by
  cases hlifecycle : s.lifecycle with
  | starting generation resource =>
    by_cases hg : generation = g
    · subst hg
      refine ⟨((s.reportFailure error).stop generation resource true (.startup
        (if error.kind = LspBackendErrorKind.unavailable then some error.message else none))).resetCaches,
        ?_, .inr ⟨resource, _, rfl, rfl⟩⟩
      unfold State.failStartup
      simp only [hlifecycle, if_true]
      rfl
    · refine ⟨s.reportFailure error, ?_, .inl ⟨rfl, by simp [State.isStarting, hlifecycle, hg]⟩⟩
      simp [State.failStartup, State.reportFailure, hlifecycle, hg]
  | _ =>
    refine ⟨s.reportFailure error, ?_, .inl ⟨rfl, by simp [State.isStarting, hlifecycle]⟩⟩
    simp [State.failStartup, State.reportFailure, hlifecycle]

theorem State.failAndReset_cases (s : State) (g : Generation) (error : LspBackendError) :
    (∃ resource, s.lifecycle = .starting g resource ∧
      s.failAndReset g error =
        ((((s.reportReset error).stop g resource true .reset).resetCaches).failAllPending error
          (some g)).doneReady g (.error error)) ∨
    (∃ resource, s.lifecycle = .running g resource ∧
      s.failAndReset g error =
        (((s.reportReset error).stop g resource false .reset).resetCaches).failAllPending error
          (some g)) ∨
    (s.isLive g = false ∧ s.failAndReset g error = s.reportReset error) := by
  cases hlifecycle : s.lifecycle with
  | starting generation resource =>
    by_cases hg : generation = g
    · subst hg
      refine .inl ⟨resource, rfl, ?_⟩
      simp [State.failAndReset, State.reportReset, State.reportFailure, hlifecycle]
    · refine .inr (.inr ⟨by simp [State.isLive, hlifecycle, hg], ?_⟩)
      simp [State.failAndReset, State.reportReset, State.reportFailure, hlifecycle, hg]
  | running generation resource =>
    by_cases hg : generation = g
    · subst hg
      refine .inr (.inl ⟨resource, rfl, ?_⟩)
      simp [State.failAndReset, State.reportReset, hlifecycle]
    · refine .inr (.inr ⟨by simp [State.isLive, hlifecycle, hg], ?_⟩)
      simp [State.failAndReset, State.reportReset, hlifecycle, hg]
  | _ =>
    refine .inr (.inr ⟨by simp [State.isLive, hlifecycle], ?_⟩)
    simp [State.failAndReset, State.reportReset, hlifecycle]

theorem State.onProcessExit_cases (config : Config) (s : State) (g : Generation) (code : Option Int)
    (signal : Option Str) :
    (s.isLive g = true ∧ ∃ error, s.onProcessExit config g code signal = s.failAndReset g error) ∨
      (s.isLive g = false ∧ s.onProcessExit config g code signal = s) := by
  cases hlifecycle : s.lifecycle with
  | starting generation resource | running generation resource =>
    by_cases hg : generation = g
    · exact .inl ⟨by simp [State.isLive, hlifecycle, hg],
        _, by unfold State.onProcessExit; simp only [hlifecycle, hg, if_true]; rfl⟩
    · exact .inr ⟨by simp [State.isLive, hlifecycle, hg], by simp [State.onProcessExit, hlifecycle, hg]⟩
  | _ => exact .inr ⟨by simp [State.isLive, hlifecycle], by simp [State.onProcessExit, hlifecycle]⟩

theorem State.onLspMessage_cases (config : Config) (s : State) (g : Generation)
    (message : LspMessage) :
    s.onLspMessage config g message = s ∨
      ∃ id outcome, s.isLive g = true ∧ message.isPublishDiagnostics = false ∧
        message.idKey = some id ∧ s.onLspMessage config g message = s.completePending id g outcome ∧
        ∀ answer, outcome = .ok answer → answer = message := by
  unfold State.onLspMessage
  split
  · exact .inl rfl
  case isFalse hlive =>
    split
    · exact .inl rfl
    case isFalse hpublish =>
      have hlive : s.isLive g = true := by simpa using hlive
      have hpublish : message.isPublishDiagnostics = false := by simpa using hpublish
      split
      · exact .inl rfl
      case h_2 id hid =>
        split
        · split
          · exact .inr ⟨id, _, hlive, hpublish, hid, rfl, nofun⟩
          · exact .inr ⟨id, _, hlive, hpublish, hid, rfl, fun _ h => (Except.ok.inj h).symm⟩
        · exact .inr ⟨id, _, hlive, hpublish, hid, rfl, fun _ h => (Except.ok.inj h).symm⟩

-- -----
-- Shutdown
-- -----

def shutdownError (config : Config) : LspBackendError :=
  ⟨.shutdown, config.name ++ lit " LSP shutdown"⟩

theorem State.shutdown_cases (config : Config) (s : State) :
    (∃ g resource startup nextLspId written ready,
      (s.lifecycle = .starting g resource ∨ s.lifecycle = .running g resource) ∧
      s.nextLspId ≤ nextLspId ∧
      s.shutdown config =
        ({ s.stop g resource startup .shutdown with
          nextLspId
          written
          ready } : State).failAllPending (shutdownError config) none ∧
      (s.shutdown config).notified = s.notified) ∨
      s.shutdown config = s := by
  cases hlifecycle : s.lifecycle with
  | starting g resource =>
    have hshutdown : s.shutdown config =
        ((s.stop g resource true .shutdown).doneReady g
          (.error (startupCancelled config))).failAllPending (shutdownError config) none := by
      unfold State.shutdown
      rw [hlifecycle]
      rfl
    exact .inl ⟨g, resource, true, s.nextLspId, s.written, _, .inl rfl, Nat.le_refl _, hshutdown,
      hshutdown ▸ State.failAllPending_notified⟩
  | running g resource =>
    by_cases hwrites : resource.process = true ∧ s.stdinDestroyed g = false
    · have hshutdown : s.shutdown config =
          ((({ s.stop g resource false .shutdown with nextLspId := s.nextLspId + 1 }.write g
            (.shutdown s.nextLspId)).write g .exit)).failAllPending (shutdownError config) none := by
        unfold State.shutdown
        rw [hlifecycle]
        simp only [hwrites, and_self, if_true]
        rfl
      refine .inl ⟨g, resource, false, s.nextLspId + 1, _, s.ready, .inr rfl, Nat.le_succ _,
        hshutdown, ?_⟩
      rw [hshutdown, State.failAllPending_notified]
      exact (State.write_notified _ g .exit rfl).trans (State.write_notified _ g (.shutdown _) rfl)
    · have hshutdown : s.shutdown config =
          (s.stop g resource false .shutdown).failAllPending (shutdownError config) none := by
        unfold State.shutdown
        rw [hlifecycle]
        simp only [hwrites, if_false]
        rfl
      exact .inl ⟨g, resource, false, s.nextLspId, s.written, s.ready, .inr rfl, Nat.le_refl _,
        hshutdown, hshutdown ▸ State.failAllPending_notified⟩
  | _ => exact .inr (by unfold State.shutdown; rw [hlifecycle])

-- -----
-- Cleanup
-- -----

/-- What a cleanup resets, whatever the lifecycle is. -/
def State.resetBy (s : State) (cleanup : Cleanup) : State :=
  if cleanup.kind = .shutdown then s.resetCaches.resetSemanticState else s

theorem State.resetBy_frame (s : State) (cleanup : Cleanup) :
    ∃ docManager semanticAvailable lastSemanticRequest semanticFailure,
      s.resetBy cleanup =
        { s with docManager, semanticAvailable, lastSemanticRequest, semanticFailure } := by
  unfold State.resetBy
  split
  · exact ⟨_, _, _, _, rfl⟩
  · exact ⟨s.docManager, s.semanticAvailable, s.lastSemanticRequest, s.semanticFailure, rfl⟩

/-- A cleanup moves on the lifecycle that has its token. -/
theorem State.finishCleanup_cases (s : State) (cleanup : Cleanup) :
    (∃ generation resource startup lifecycle,
      s.lifecycle = .stopping generation cleanup.done resource startup ∧
      (lifecycle = .idle (cleanup.generation + 1) ∨
        ∃ message, lifecycle = .unavailable (cleanup.generation + 1) message) ∧
      s.finishCleanup cleanup = { s.resetBy cleanup with lifecycle }) ∨
    ((∀ generation resource startup,
        s.lifecycle ≠ .stopping generation cleanup.done resource startup) ∧
      s.finishCleanup cleanup = s.resetBy cleanup) := by
  have hlifecycle : (s.resetBy cleanup).lifecycle = s.lifecycle := by
    unfold State.resetBy
    split <;> rfl
  have hreset : (if cleanup.kind = .shutdown then s.resetCaches.resetSemanticState else s) =
      s.resetBy cleanup := rfl
  unfold State.finishCleanup
  simp only [hreset, hlifecycle]
  split
  case h_1 generation done resource startup hstopping =>
    split
    case isTrue hdone =>
      subst hdone
      split
      · exact .inl ⟨generation, resource, startup, _, hstopping, .inr ⟨_, rfl⟩, rfl⟩
      · exact .inl ⟨generation, resource, startup, _, hstopping, .inl rfl, rfl⟩
    case isFalse hdone =>
      refine .inr ⟨fun generation' resource' startup' h => hdone ?_, rfl⟩
      rw [hstopping] at h
      exact (Lifecycle.stopping.inj h).2.1
  case h_2 hother => exact .inr ⟨fun generation resource startup h => hother _ _ _ _ h, rfl⟩

end PiEnv.DevTools.Backend
