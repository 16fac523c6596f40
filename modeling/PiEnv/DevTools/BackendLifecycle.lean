import PiEnv.DevTools.BackendRequests

/-!
# Starts and stops of a backend

What a step does to the starts: which one begins, which one settles what waits
for it. From it, for every run: a generation begins above all others, its
waiters are answered when it leaves `starting`, and no request outlives it.
-/

namespace PiEnv.DevTools.Backend

open Js
open Transitions (run)

variable {config : Config} {s s' : State} {event : Event} {g : Generation}

-- -----
-- The starts
-- -----

def Starting (s : State) (g : Generation) : Prop := ∃ resource, s.lifecycle = .starting g resource

theorem Starting.unique {g' : Generation} (h : Starting s g) (h' : Starting s g') : g = g' := by
  obtain ⟨resource, h⟩ := h
  obtain ⟨resource', h'⟩ := h'
  exact (Lifecycle.starting.inj (h.symm.trans h')).1

theorem Starting.congr (h : s'.lifecycle = s.lifecycle) : Starting s' g ↔ Starting s g := by
  unfold Starting
  rw [h]

theorem Starting.resource {r r' : Resource} (hs : s.lifecycle = .starting g r)
    (hs' : s'.lifecycle = .starting g r') (g' : Generation) : Starting s' g' ↔ Starting s g' := by
  unfold Starting
  rw [hs, hs']
  simp

theorem Starting.none (h : ∀ g resource, s.lifecycle ≠ .starting g resource) : ¬ Starting s g :=
  fun ⟨resource, hstarting⟩ => h g resource hstarting

inductive StartStep (s s' : State) : Prop where
  | quiet (starting : ∀ g, Starting s' g ↔ Starting s g) (ready : s'.ready = s.ready)
      (startups : s'.startups = s.startups)
  | progressed (g : Generation) (startup : Startup) (known : s.startups g ≠ none)
      (waits : startup ≠ .ended) (starting : ∀ g, Starting s' g ↔ Starting s g)
      (ready : s'.ready = s.ready)
      (startups : s'.startups = Function.update s.startups g (some startup))
  | begun (generation : Generation) (startup : Startup) (idle : s.lifecycle = .idle generation)
      (waits : startup ≠ .ended) (starting : Starting s' (generation + 1))
      (ready : s'.ready = s.ready)
      (startups : s'.startups = Function.update s.startups (generation + 1) (some startup))
  | left (g : Generation) (outcome : Except LspBackendError Unit) (starting : Starting s g)
      (gone : ∀ g, ¬ Starting s' g)
      (ready : s'.ready = Function.update s.ready g ((s.ready g).or (some outcome)))
      (startups : s'.startups = s.startups ∨
        s'.startups = Function.update s.startups g (some .ended))
  | late (g : Generation) (outcome : Except LspBackendError Unit) (known : s.startups g ≠ none)
      (ended : ¬ Starting s g) (starting : ∀ g, Starting s' g ↔ Starting s g)
      (ready : s'.ready = Function.update s.ready g ((s.ready g).or (some outcome)))
      (startups : s'.startups = Function.update s.startups g (some .ended))

theorem StartStep.of_frame (lifecycle : s'.lifecycle = s.lifecycle) (ready : s'.ready = s.ready)
    (startups : s'.startups = s.startups) : StartStep s s' :=
  .quiet (fun _ => Starting.congr lifecycle) ready startups

theorem StartStep.of_eq (h : s' = s) : StartStep s s' := .of_frame (h ▸ rfl) (h ▸ rfl) (h ▸ rfl)

theorem setStartup_start {startup : Startup} (known : s.startups g ≠ none)
    (waits : startup ≠ .ended) : StartStep s (s.setStartup g startup) :=
  .progressed g startup known waits (fun _ => .rfl) rfl rfl

theorem spawn_start (known : s.startups g ≠ none) : StartStep s (s.spawn config g) := by
  unfold State.spawn State.whileStarting
  split
  case h_1 generation resource hstarting =>
    split
    case isTrue hg =>
      subst hg
      exact .progressed generation .spawning known nofun (Starting.resource hstarting rfl) rfl rfl
    case isFalse => exact setStartup_start known nofun
  case h_2 => exact setStartup_start known nofun

theorem start_eq (config : Config) (s : State) (generation : Generation) :
    ∃ resource startup, startup ≠ .ended ∧ s.start config generation =
      { s.resetSemanticState with
        lifecycle := .starting (generation + 1) resource
        startups := Function.update s.startups (generation + 1) (some startup) } := by
  unfold State.start
  split
  · exact ⟨_, .lookup, nofun, rfl⟩
  · refine ⟨{ emptyResource with scope := true }, .spawning, nofun, ?_⟩
    simp only [State.spawn, State.whileStarting, if_true]
    rfl

theorem start_start {t : State} {generation : Generation} (hidle : s.lifecycle = .idle generation)
    (ready : t.ready = s.ready) (startups : t.startups = s.startups) :
    StartStep s (t.start config generation) := by
  obtain ⟨resource, startup, waits, h⟩ := start_eq config t generation
  exact .begun generation startup hidle waits ⟨resource, h ▸ rfl⟩ (h ▸ ready) (h ▸ startups ▸ rfl)

theorem initializeServer_start (known : s.startups g ≠ none) :
    StartStep s (s.initializeServer config g) := by
  unfold State.initializeServer State.whileStarting
  split
  case h_1 generation resource hstarting =>
    split
    case isTrue hg =>
      subst hg
      obtain ⟨written, hwritten, -⟩ := State.sendLspTo_frame (State.addPending
        { s with
          lifecycle := .starting generation { resource with process := true, listeners := true }
          attached := Function.update s.attached generation true } ⟨generation, none, false⟩
        (initializeTimedOut config)) generation (.initializeRequest s.nextLspId) rfl
      simp only [hwritten]
      exact .progressed generation (.initializing s.nextLspId) known nofun
        (Starting.resource hstarting rfl) rfl rfl
    case isFalse => exact setStartup_start known nofun
  case h_2 => exact setStartup_start known nofun

theorem publishRunning_start (known : s.startups g ≠ none) :
    StartStep s (s.publishRunning config g) := by
  unfold State.publishRunning State.whileStarting
  split
  case h_1 generation resource hstarting =>
    split
    case isTrue hg =>
      subst hg
      obtain ⟨written, hwritten, -⟩ := s.sendLspTo_frame generation .initialized rfl
      simp only [hwritten]
      exact .left generation (.ok ()) ⟨resource, hstarting⟩ (fun _ => Starting.none nofun) rfl
        (.inr rfl)
    case isFalse => exact setStartup_start known nofun
  case h_2 => exact setStartup_start known nofun

theorem failStartup_start {error : LspBackendError} (known : s.startups g ≠ none) :
    StartStep s (s.failStartup g error) := by
  obtain ⟨t, h, ht⟩ := s.failStartup_cases g error
  obtain ⟨pendingLsp, settlements, hfail⟩ := t.failAllPending_frame error (some g)
  rw [h, hfail]
  rcases ht with ⟨rfl, hover⟩ | ⟨resource, unavailable, hstarting, rfl⟩
  · refine .late g (.error error) known ?_ (fun _ => .rfl) rfl rfl
    rintro ⟨resource, hstarting⟩
    simp [State.isStarting, hstarting] at hover
  · exact .left g (.error error) ⟨resource, hstarting⟩ (fun _ => Starting.none (by intro _ _ h; cases h)) rfl (.inr rfl)

theorem reportReset_start {error : LspBackendError} : StartStep s (s.reportReset error) := by
  unfold State.reportReset
  split <;> exact .of_frame rfl rfl rfl

theorem failAndReset_start {error : LspBackendError} : StartStep s (s.failAndReset g error) := by
  have hreport : (s.reportReset error).ready = s.ready ∧
      (s.reportReset error).startups = s.startups := by
    unfold State.reportReset
    split <;> exact ⟨rfl, rfl⟩
  rcases s.failAndReset_cases g error with ⟨resource, hstarting, h⟩ | ⟨resource, hrunning, h⟩ |
    ⟨-, h⟩
  · obtain ⟨pendingLsp, settlements, hfail⟩ := State.failAllPending_frame
      ((s.reportReset error).stop g resource true .reset).resetCaches error (some g)
    rw [h, hfail]
    refine .left g (.error error) ⟨resource, hstarting⟩ (fun _ => Starting.none nofun) ?_
      (.inl hreport.2)
    show Function.update (s.reportReset error).ready g
      (((s.reportReset error).ready g).or (some (.error error))) = _
    rw [hreport.1]
  · obtain ⟨pendingLsp, settlements, hfail⟩ := State.failAllPending_frame
      ((s.reportReset error).stop g resource false .reset).resetCaches error (some g)
    rw [h, hfail]
    exact .quiet (fun _ => iff_of_false (Starting.none nofun) (Starting.none (by simp [hrunning])))
      hreport.1 hreport.2
  · rw [h]
    exact reportReset_start

theorem onProcessExit_start {code : Option Int} {signal : Option Str} :
    StartStep s (s.onProcessExit config g code signal) := by
  rcases s.onProcessExit_cases config g code signal with ⟨-, error, h⟩ | ⟨-, h⟩
  · exact h ▸ failAndReset_start
  · exact .of_eq h

theorem shutdown_start : StartStep s (s.shutdown config) := by
  cases hlifecycle : s.lifecycle with
  | starting g resource =>
    have hshutdown : s.shutdown config =
        ((s.stop g resource true .shutdown).doneReady g
          (.error (startupCancelled config))).failAllPending (shutdownError config) none := by
      unfold State.shutdown
      rw [hlifecycle]
      rfl
    obtain ⟨pendingLsp, settlements, hfail⟩ := State.failAllPending_frame
      ((s.stop g resource true .shutdown).doneReady g (.error (startupCancelled config)))
      (shutdownError config) none
    rw [hshutdown, hfail]
    exact .left g (.error (startupCancelled config)) ⟨resource, hlifecycle⟩
      (fun _ => Starting.none nofun) rfl (.inl rfl)
  | running g resource =>
    have hshutdown : ∃ nextLspId written, s.shutdown config =
        ({ s.stop g resource false .shutdown with nextLspId, written } : State).failAllPending
          (shutdownError config) none := by
      unfold State.shutdown
      rw [hlifecycle]
      simp only
      split
      · exact ⟨s.nextLspId + 1, _, rfl⟩
      · exact ⟨s.nextLspId, s.written, rfl⟩
    obtain ⟨nextLspId, written, hshutdown⟩ := hshutdown
    obtain ⟨pendingLsp, settlements, hfail⟩ := State.failAllPending_frame
      { s.stop g resource false .shutdown with nextLspId, written } (shutdownError config) none
    rw [hshutdown, hfail]
    exact .quiet (fun _ => iff_of_false (Starting.none nofun) (Starting.none (by simp [hlifecycle])))
      rfl rfl
  | _ => exact .of_eq (by unfold State.shutdown; rw [hlifecycle])

theorem finishCleanup_start {cleanup : Cleanup} {cleanups : List Cleanup} :
    StartStep s ({ s with cleanups }.finishCleanup cleanup) := by
  obtain ⟨docManager, available, last, failure, hreset⟩ :=
    State.resetBy_frame { s with cleanups } cleanup
  rcases State.finishCleanup_cases { s with cleanups } cleanup with
    ⟨generation, resource, startup, lifecycle, hstopping, hnext, h⟩ | ⟨-, h⟩
  · rw [h, hreset]
    refine .quiet (fun g => iff_of_false (Starting.none ?_) (Starting.none ?_)) rfl rfl
    · rcases hnext with rfl | ⟨message, rfl⟩ <;> exact nofun
    · intro g resource' h
      exact absurd (h.symm.trans hstopping) nofun
  · rw [h, hreset]
    exact .of_frame rfl rfl rfl

theorem appendStderr_start {chunk : Str} : StartStep s (s.appendStderr g chunk) := by
  rcases s.appendStderr_cases g chunk with ⟨resource, resource', hstarting, h⟩ |
    ⟨resource, resource', hrunning, h⟩ | h
  · rw [h]
    exact .quiet (Starting.resource hstarting rfl) rfl rfl
  · rw [h]
    exact .quiet (fun _ => iff_of_false (Starting.none nofun) (Starting.none (by simp [hrunning])))
      rfl rfl
  · exact .of_eq h

theorem onLspMessage_start {message : LspMessage} :
    StartStep s (s.onLspMessage config g message) := by
  rcases s.onLspMessage_cases config g message with h | ⟨id, outcome, -, -, -, h, -⟩
  · exact .of_eq h
  · obtain ⟨pendingLsp, settlements, hframe⟩ := s.completePending_frame id g outcome
    rw [h, hframe]
    exact .of_frame rfl rfl rfl

theorem step_start (hstep : step config s event = some s') : StartStep s s' := by
  cases event with
  | ensureStarted =>
    rw [← Option.some.inj hstep]
    unfold State.ensureStarted
    split
    case h_1 generation hidle => exact start_start hidle rfl rfl
    case h_2 => exact .of_eq rfl
  | lookedUp g result =>
    simp only [step] at hstep
    split at hstep
    case h_1 hlookup =>
      have known : s.startups g ≠ none := by simp [hlookup]
      cases result with
      | found => exact Option.some.inj hstep ▸ spawn_start known
      | missing | failed detail => exact Option.some.inj hstep ▸ setStartup_start known (by simp)
    case h_2 => cases hstep
  | spawned g failure =>
    simp only [step] at hstep
    split at hstep
    case h_1 hspawning =>
      have known : s.startups g ≠ none := by simp [hspawning]
      cases failure with
      | none => exact Option.some.inj hstep ▸ initializeServer_start known
      | some detail => exact Option.some.inj hstep ▸ setStartup_start known (by simp)
    case h_2 => cases hstep
  | initialized g =>
    simp only [step] at hstep
    split at hstep
    case h_1 id hinitializing =>
      have known : s.startups g ≠ none := by simp [hinitializing]
      split at hstep
      · exact Option.some.inj hstep ▸ publishRunning_start known
      · exact Option.some.inj hstep ▸ setStartup_start known (by simp)
      · cases hstep
    case h_2 => cases hstep
  | failStartup g =>
    simp only [step] at hstep
    split at hstep
    case h_1 error hfailing =>
      exact Option.some.inj hstep ▸ failStartup_start (by simp [hfailing])
    case h_2 => cases hstep
  | cleaned i =>
    simp only [step] at hstep
    split at hstep
    · exact Option.some.inj hstep ▸ finishCleanup_start
    · cases hstep
  | message g message =>
    simp only [step] at hstep
    split at hstep
    · exact Option.some.inj hstep ▸ onLspMessage_start
    · cases hstep
  | stderr g chunk =>
    simp only [step] at hstep
    split at hstep
    · exact Option.some.inj hstep ▸ appendStderr_start
    · cases hstep
  | processExit g code signal =>
    simp only [step] at hstep
    split at hstep
    · exact Option.some.inj hstep ▸ onProcessExit_start
    · cases hstep
  | processError g detail =>
    simp only [step] at hstep
    split at hstep
    · exact Option.some.inj hstep ▸ failAndReset_start
    · cases hstep
  | destroyStdin g => exact Option.some.inj hstep ▸ .of_frame rfl rfl rfl
  | shutdown => exact Option.some.inj hstep ▸ shutdown_start
  | lspRequest method =>
    rw [← Option.some.inj hstep]
    unfold State.lspRequest
    split
    case h_1 g resource hrunning =>
      obtain ⟨written, h, -⟩ := State.sendLspTo_frame _ g (.request s.nextLspId method) rfl
      rw [h]
      exact .of_frame rfl rfl rfl
    case h_2 => exact .of_eq rfl
  | timeout id =>
    simp only [step] at hstep
    split at hstep
    case h_1 pending hpending =>
      obtain ⟨pendingLsp, settlements, h⟩ :=
        s.completePending_frame id pending.generation (.error pending.timeoutError)
      rw [← Option.some.inj hstep, h]
      exact .of_frame rfl rfl rfl
    case h_2 => cases hstep
  | finishRequest id =>
    simp only [step] at hstep
    split at hstep
    · split at hstep
      · exact Option.some.inj hstep ▸ .of_frame rfl rfl rfl
      · exact Option.some.inj hstep ▸ .of_frame rfl rfl rfl
      · cases hstep
    · cases hstep
  | recordSemanticResult method itemCount => exact Option.some.inj hstep ▸ .of_frame rfl rfl rfl
  | ensureFile c path resolved =>
    simp only [step] at hstep
    split at hstep
    · rw [← Option.some.inj hstep]
      unfold State.ensureFile
      simp only
      split
      case h_1 generation hidle =>
        obtain ⟨resource, startup, waits, h⟩ := start_eq config _ generation
        rw [h]
        exact .begun generation startup hidle waits ⟨resource, rfl⟩ rfl rfl
      all_goals exact .of_frame rfl rfl rfl
    · cases hstep
  | openDocument c content resolved =>
    simp only [step] at hstep
    split at hstep
    · split at hstep
      · obtain ⟨docManager, written, h⟩ := openDocument_frame
        rw [h] at hstep
        exact Option.some.inj hstep ▸ .of_frame rfl rfl rfl
      · cases hstep
    · cases hstep
  | failCaller c =>
    simp only [step] at hstep
    split at hstep
    · exact Option.some.inj hstep ▸ .of_frame rfl rfl rfl
    · cases hstep
  | closeFile path =>
    obtain ⟨docManager, written, h⟩ := closeFile_frame
    rw [step, h] at hstep
    exact Option.some.inj hstep ▸ .of_frame rfl rfl rfl

-- -----
-- The requests of a generation
-- -----

def Live (s : State) (g : Generation) : Prop :=
  ∃ resource, s.lifecycle = .starting g resource ∨ s.lifecycle = .running g resource

/-- A request waits only while its generation is there. -/
def LivePending (s : State) : Prop :=
  ∀ id pending, s.pendingLsp.get id = some pending → Live s pending.generation

theorem Live.unique {g' : Generation} (h : Live s g) (h' : Live s g') : g = g' := by
  obtain ⟨resource, h | h⟩ := h <;> obtain ⟨resource', h' | h'⟩ := h' <;> rw [h] at h' <;> cases h' <;>
    rfl

theorem LivePending.kept (h : LivePending s)
    (pending : ∀ id p, s'.pendingLsp.get id = some p → s.pendingLsp.get id = some p)
    (live : ∀ g, Live s g → Live s' g) : LivePending s' :=
  fun id p hp => live _ (h id p (pending id p hp))

theorem LivePending.frame (h : LivePending s) (lifecycle : s'.lifecycle = s.lifecycle)
    (pending : s'.pendingLsp = s.pendingLsp) : LivePending s' := by
  unfold LivePending Live at h ⊢
  rw [lifecycle, pending]
  exact h

/-- Only one generation was there, and all that waited for it is gone. -/
theorem LivePending.stopped (h : LivePending s) (live : Live s g)
    (pending : ∀ id p, s'.pendingLsp.get id = some p →
      s.pendingLsp.get id = some p ∧ p.generation ≠ g) : LivePending s' := fun id p hp =>
  absurd ((h id p (pending id p hp).1).unique live) (pending id p hp).2

theorem LivePending.added {request : Request} {error : LspBackendError} (h : LivePending s)
    (live : ∀ g, Live s g → Live s' g) (request_live : Live s' request.generation)
    (pending : s'.pendingLsp = (s.addPending request error).pendingLsp) : LivePending s' := by
  intro id p hp
  rw [pending, State.addPending, JsMap.get_set] at hp
  split at hp
  · obtain rfl := Option.some.inj hp
    exact request_live
  · exact live _ (h id p hp)

theorem failAllPending_stopped {t : State} {error : LspBackendError} {generation : Option Generation}
    (h : LivePending s) (live : Live s g) (pending : t.pendingLsp = s.pendingLsp)
    (hg : generation = none ∨ generation = some g)
    (hs' : s'.pendingLsp = (t.failAllPending error generation).pendingLsp) : LivePending s' := by
  refine h.stopped live fun id p hp => ?_
  rw [hs'] at hp
  obtain ⟨hp, hnone, hne⟩ := State.failAllPending_get.mp hp
  rw [pending] at hp
  refine ⟨hp, fun hgeneration => ?_⟩
  rcases hg with rfl | rfl
  · exact hnone rfl
  · exact hne (congrArg some hgeneration.symm)

theorem failAllPending_waits {t : State} {error : LspBackendError} {generation : Option Generation}
    {id : Nat} {p : Pending} (pending : t.pendingLsp = s.pendingLsp)
    (hp : (t.failAllPending error generation).pendingLsp.get id = some p) :
    s.pendingLsp.get id = some p := pending ▸ (State.failAllPending_get.mp hp).1

theorem spawn_live (h : LivePending s) : LivePending (s.spawn config g) := by
  rcases s.spawn_cases config g with ⟨resource, resource', startups, hstarting, heq⟩ | ⟨startups, heq⟩
  · rw [heq]
    refine h.kept (fun _ _ hp => hp) fun g' hlive => ?_
    obtain rfl := hlive.unique ⟨resource, .inl hstarting⟩
    exact ⟨resource', .inl rfl⟩
  · rw [heq]
    exact h.frame rfl rfl

theorem start_live {t : State} {generation : Generation} (h : LivePending s)
    (hidle : s.lifecycle = .idle generation) (pending : t.pendingLsp = s.pendingLsp) :
    LivePending (t.start config generation) := by
  obtain ⟨resource, startup, -, heq⟩ := start_eq config t generation
  rw [heq]
  refine h.kept (fun _ _ hp => pending ▸ hp) fun g ⟨resource', hlive⟩ => ?_
  rcases hlive with hlive | hlive <;> exact absurd (hlive.symm.trans hidle) nofun

theorem initializeServer_live (h : LivePending s) : LivePending (s.initializeServer config g) := by
  rcases s.initializeServer_cases config g with
    ⟨resource, resource', written, startups, attached, hstarting, heq, -⟩ | ⟨startups, heq⟩
  · rw [heq]
    refine h.added (fun g' hlive => ?_) ⟨resource', .inl rfl⟩ rfl
    obtain rfl := hlive.unique ⟨resource, .inl hstarting⟩
    exact ⟨resource', .inl rfl⟩
  · rw [heq]
    exact h.frame rfl rfl

theorem publishRunning_live (h : LivePending s) : LivePending (s.publishRunning config g) := by
  rcases s.publishRunning_cases config g with
    ⟨resource, written, ready, startups, hstarting, heq, -⟩ | ⟨startups, heq⟩
  · rw [heq]
    refine h.kept (fun _ _ hp => hp) fun g' hlive => ?_
    obtain rfl := hlive.unique ⟨resource, .inl hstarting⟩
    exact ⟨resource, .inr rfl⟩
  · rw [heq]
    exact h.frame rfl rfl

theorem failStartup_live {error : LspBackendError} (h : LivePending s) :
    LivePending (s.failStartup g error) := by
  obtain ⟨t, heq, ht⟩ := s.failStartup_cases g error
  rw [heq]
  rcases ht with ⟨rfl, -⟩ | ⟨resource, unavailable, hstarting, rfl⟩
  · obtain ⟨pendingLsp, settlements, hframe⟩ :=
      (s.reportFailure error).failAllPending_frame error (some g)
    refine h.kept (fun id p hp => failAllPending_waits (t := s.reportFailure error) rfl hp) fun g' => ?_
    rw [hframe]
    exact id
  · exact failAllPending_stopped h ⟨resource, .inl hstarting⟩ (by rfl) (.inr rfl) rfl

theorem reportReset_frame (s : State) (error : LspBackendError) :
    ∃ semanticAvailable startupFailureDetail,
      s.reportReset error = { s with semanticAvailable, startupFailureDetail } := by
  unfold State.reportReset
  split
  · exact ⟨_, _, rfl⟩
  · exact ⟨_, s.startupFailureDetail, rfl⟩

theorem failAndReset_live {error : LspBackendError} (h : LivePending s) :
    LivePending (s.failAndReset g error) := by
  obtain ⟨available, detail, hreport⟩ := reportReset_frame s error
  rcases s.failAndReset_cases g error with ⟨resource, hstarting, heq⟩ | ⟨resource, hrunning, heq⟩ |
    ⟨-, heq⟩
  · rw [heq, hreport]
    exact failAllPending_stopped h ⟨resource, .inl hstarting⟩ (by rfl) (.inr rfl) rfl
  · rw [heq, hreport]
    exact failAllPending_stopped h ⟨resource, .inr hrunning⟩ (by rfl) (.inr rfl) rfl
  · rw [heq, hreport]
    exact h.frame rfl rfl

theorem onProcessExit_live {code : Option Int} {signal : Option Str} (h : LivePending s) :
    LivePending (s.onProcessExit config g code signal) := by
  rcases s.onProcessExit_cases config g code signal with ⟨-, error, heq⟩ | ⟨-, heq⟩
  · exact heq ▸ failAndReset_live h
  · rw [heq]
    exact h

theorem shutdown_live (h : LivePending s) : LivePending (s.shutdown config) := by
  rcases s.shutdown_cases config with
    ⟨g, resource, startup, nextLspId, written, ready, hlive, -, heq, -⟩ | heq
  · rw [heq]
    exact failAllPending_stopped h ⟨resource, hlive⟩ (by rfl) (.inl rfl) rfl
  · rw [heq]
    exact h

theorem completePending_live {id : Nat} {outcome : Except LspBackendError LspMessage}
    (h : LivePending s) : LivePending (s.completePending id g outcome) := by
  unfold State.completePending
  split
  · exact h
  · split
    · refine h.kept (fun id' p hp => ?_) fun _ hlive => hlive
      have hdelete : (s.pendingLsp.delete id).get id' = some p := hp
      rw [JsMap.get_delete] at hdelete
      split at hdelete
      · cases hdelete
      · exact hdelete
    · exact h

theorem onLspMessage_live {message : LspMessage} (h : LivePending s) :
    LivePending (s.onLspMessage config g message) := by
  rcases s.onLspMessage_cases config g message with heq | ⟨id, outcome, -, -, -, heq, -⟩
  · rw [heq]
    exact h
  · exact heq ▸ completePending_live h

theorem appendStderr_live {chunk : Str} (h : LivePending s) :
    LivePending (s.appendStderr g chunk) := by
  rcases s.appendStderr_cases g chunk with ⟨resource, resource', hstarting, heq⟩ |
    ⟨resource, resource', hrunning, heq⟩ | heq
  · rw [heq]
    refine h.kept (fun _ _ hp => hp) fun g' hlive => ?_
    obtain rfl := hlive.unique ⟨resource, .inl hstarting⟩
    exact ⟨resource', .inl rfl⟩
  · rw [heq]
    refine h.kept (fun _ _ hp => hp) fun g' hlive => ?_
    obtain rfl := hlive.unique ⟨resource, .inr hrunning⟩
    exact ⟨resource', .inr rfl⟩
  · rw [heq]
    exact h

theorem finishCleanup_live {cleanup : Cleanup} {cleanups : List Cleanup} (h : LivePending s) :
    LivePending ({ s with cleanups }.finishCleanup cleanup) := by
  obtain ⟨docManager, available, last, failure, hreset⟩ :=
    State.resetBy_frame { s with cleanups } cleanup
  rcases State.finishCleanup_cases { s with cleanups } cleanup with
    ⟨generation, resource, startup, lifecycle, hstopping, hnext, heq⟩ | ⟨-, heq⟩
  · rw [heq, hreset]
    refine h.kept (fun _ _ hp => hp) fun g ⟨resource', hlive⟩ => ?_
    rcases hlive with hlive | hlive <;> exact absurd (hlive.symm.trans hstopping) nofun
  · rw [heq, hreset]
    exact h.frame rfl rfl

theorem lspRequest_live {method : Str} (h : LivePending s) :
    LivePending (s.lspRequest config method) := by
  unfold State.lspRequest
  split
  case h_1 g resource hrunning =>
    obtain ⟨written, heq, -⟩ := State.sendLspTo_frame (s.addPending ⟨g, some method, false⟩
      ⟨.request, config.name ++ lit " LSP request timed out: " ++ method⟩) g
      (.request s.nextLspId method) rfl
    rw [heq]
    refine h.added (fun _ hlive => hlive) ?_ (by rfl)
    exact ⟨resource, .inr hrunning⟩
  case h_2 => exact h

theorem step_live (h : LivePending s) (hstep : step config s event = some s') : LivePending s' := by
  cases event with
  | ensureStarted =>
    rw [← Option.some.inj hstep]
    unfold State.ensureStarted
    split
    case h_1 generation hidle => exact start_live h hidle rfl
    case h_2 => exact h
  | lookedUp g result =>
    simp only [step] at hstep
    split at hstep
    · cases result with
      | found => exact Option.some.inj hstep ▸ spawn_live h
      | missing | failed detail => exact Option.some.inj hstep ▸ h.frame rfl rfl
    · cases hstep
  | spawned g failure =>
    simp only [step] at hstep
    split at hstep
    · cases failure with
      | none => exact Option.some.inj hstep ▸ initializeServer_live h
      | some detail => exact Option.some.inj hstep ▸ h.frame rfl rfl
    · cases hstep
  | initialized g =>
    simp only [step] at hstep
    split at hstep
    · split at hstep
      · exact Option.some.inj hstep ▸ publishRunning_live h
      · exact Option.some.inj hstep ▸ h.frame rfl rfl
      · cases hstep
    · cases hstep
  | failStartup g =>
    simp only [step] at hstep
    split at hstep
    · exact Option.some.inj hstep ▸ failStartup_live h
    · cases hstep
  | cleaned i =>
    simp only [step] at hstep
    split at hstep
    · exact Option.some.inj hstep ▸ finishCleanup_live h
    · cases hstep
  | message g message =>
    simp only [step] at hstep
    split at hstep
    · exact Option.some.inj hstep ▸ onLspMessage_live h
    · cases hstep
  | stderr g chunk =>
    simp only [step] at hstep
    split at hstep
    · exact Option.some.inj hstep ▸ appendStderr_live h
    · cases hstep
  | processExit g code signal =>
    simp only [step] at hstep
    split at hstep
    · exact Option.some.inj hstep ▸ onProcessExit_live h
    · cases hstep
  | processError g detail =>
    simp only [step] at hstep
    split at hstep
    · exact Option.some.inj hstep ▸ failAndReset_live h
    · cases hstep
  | destroyStdin g => exact Option.some.inj hstep ▸ h.frame rfl rfl
  | shutdown => exact Option.some.inj hstep ▸ shutdown_live h
  | lspRequest method => exact Option.some.inj hstep ▸ lspRequest_live h
  | timeout id =>
    simp only [step] at hstep
    split at hstep
    · exact Option.some.inj hstep ▸ completePending_live h
    · cases hstep
  | finishRequest id =>
    simp only [step] at hstep
    split at hstep
    · split at hstep
      · exact Option.some.inj hstep ▸ h.frame rfl rfl
      · exact Option.some.inj hstep ▸ h.frame rfl rfl
      · cases hstep
    · cases hstep
  | recordSemanticResult method itemCount => exact Option.some.inj hstep ▸ h.frame rfl rfl
  | ensureFile c path resolved =>
    simp only [step] at hstep
    split at hstep
    · rw [← Option.some.inj hstep]
      unfold State.ensureFile
      simp only
      split
      case h_1 generation hidle =>
        obtain ⟨projectRoot, docManager⟩ := s.docManager.getProjectRoot
          (Posix.resolve config.documents.cwd path) resolved
        exact (start_live (t := { s with docManager, initialWorkspaceRoot := some projectRoot }) h
          hidle rfl).frame rfl rfl
      all_goals exact h.frame rfl rfl
    · cases hstep
  | openDocument c content resolved =>
    simp only [step] at hstep
    split at hstep
    · split at hstep
      · obtain ⟨docManager, written, heq⟩ := openDocument_frame
        rw [heq] at hstep
        exact Option.some.inj hstep ▸ h.frame rfl rfl
      · cases hstep
    · cases hstep
  | failCaller c =>
    simp only [step] at hstep
    split at hstep
    · exact Option.some.inj hstep ▸ h.frame rfl rfl
    · cases hstep
  | closeFile path =>
    obtain ⟨docManager, written, heq⟩ := closeFile_frame
    rw [step, heq] at hstep
    exact Option.some.inj hstep ▸ h.frame rfl rfl

-- -----
-- Stopping
-- -----

/-- The `done` that a step resolves: of the call that goes on behind its cleanup. -/
def resolves (s : State) : Event → Option Nat
  | .cleaned i => (s.cleanups[i]?).map (·.done)
  | _ => none

/-- What is kept while the lifecycle is stopping. -/
structure StopKept (s s' : State) : Prop where
  lifecycle : s'.lifecycle = s.lifecycle
  cleanups : s'.cleanups = s.cleanups

section
variable {generation done : Nat} {resource : Resource} {startup : Bool}

theorem LifecycleStep.stopKept (hstep : LifecycleStep s s')
    (hstopping : s.lifecycle = .stopping generation done resource startup)
    (hcleanups : s'.cleanups = s.cleanups) : StopKept s s' := by
  cases hstep with
  | kept hlifecycle _ => exact ⟨hlifecycle, hcleanups⟩
  | started _ _ hbefore => exact absurd (hstopping.symm.trans hbefore) nofun
  | starting _ _ _ hbefore => exact absurd (hstopping.symm.trans hbefore) nofun
  | running _ _ _ hbefore =>
    rcases hbefore with hbefore | hbefore <;> exact absurd (hstopping.symm.trans hbefore) nofun
  | stopped _ _ _ _ hbefore =>
    rcases hbefore with hbefore | hbefore <;> exact absurd (hstopping.symm.trans hbefore) nofun
  | cleaned i cleanup hfound _ _ herased =>
    have hlength := congrArg List.length (herased.symm.trans hcleanups)
    have hi := (List.getElem?_eq_some_iff.mp hfound).1
    rw [List.length_eraseIdx_of_lt hi] at hlength
    omega

end

theorem cleaned_cases {i : Nat} (h : Cleaning s) (hstep : step config s (.cleaned i) = some s') :
    ∃ cleanup resource startup, i = 0 ∧ s.cleanups = [cleanup] ∧
      s.lifecycle = .stopping (cleanup.generation + 1) cleanup.done resource startup ∧
      s'.cleanups = [] ∧ (s'.lifecycle = .idle (cleanup.generation + 1) ∨
        ∃ message, s'.lifecycle = .unavailable (cleanup.generation + 1) message) := by
  simp only [step] at hstep
  split at hstep
  case h_1 cleanup hfound =>
    obtain ⟨resource, startup, hstopping, hone, rfl⟩ := h.own hfound
    refine ⟨cleanup, resource, startup, rfl, hone, hstopping, ?_⟩
    rw [← Option.some.inj hstep]
    obtain ⟨docManager, available, last, failure, hreset⟩ :=
      State.resetBy_frame { s with cleanups := s.cleanups.eraseIdx 0 } cleanup
    rcases State.finishCleanup_cases { s with cleanups := s.cleanups.eraseIdx 0 } cleanup with
      ⟨_, _, _, lifecycle, _, hnext, heq⟩ | ⟨hother, -⟩
    · rw [heq, hreset]
      exact ⟨by simp [hone], hnext⟩
    · exact absurd hstopping (hother _ _ _)
  case h_2 => cases hstep

section
variable {generation done : Nat} {resource : Resource} {startup : Bool}

theorem whileStarting_stopping {act : Resource → State}
    (hstopping : s.lifecycle = .stopping generation done resource startup) :
    (s.whileStarting config g act).cleanups = s.cleanups := by
  unfold State.whileStarting
  rw [hstopping]
  rfl

theorem failStartup_stopping {error : LspBackendError}
    (hstopping : s.lifecycle = .stopping generation done resource startup) :
    (s.failStartup g error).cleanups = s.cleanups := by
  unfold State.failStartup
  simp only [hstopping]
  obtain ⟨pendingLsp, settlements, hframe⟩ := State.failAllPending_frame
    { s with
      lifecycle := .stopping generation done resource startup
      semanticAvailable := false
      startupFailureDetail := some (compactStatusDetail error.message) } error (some g)
  rw [hframe]
  rfl

theorem failAndReset_stopping {error : LspBackendError}
    (hstopping : s.lifecycle = .stopping generation done resource startup) :
    (s.failAndReset g error).cleanups = s.cleanups := by
  unfold State.failAndReset
  simp only [hstopping]

/-- While the lifecycle is stopping, only a cleanup that ends takes it away. -/
theorem step_stopping (hstep : step config s event = some s') (hevent : ∀ i, event ≠ .cleaned i)
    (hstopping : s.lifecycle = .stopping generation done resource startup) : StopKept s s' := by
  refine (step_lifecycle hstep).stopKept hstopping ?_
  cases event with
  | cleaned i => exact absurd rfl (hevent i)
  | ensureStarted =>
    rw [← Option.some.inj hstep]
    unfold State.ensureStarted
    rw [hstopping]
  | lookedUp g result =>
    simp only [step] at hstep
    split at hstep
    · cases result with
      | found => exact Option.some.inj hstep ▸ whileStarting_stopping hstopping
      | missing | failed detail => exact Option.some.inj hstep ▸ rfl
    · cases hstep
  | spawned g failure =>
    simp only [step] at hstep
    split at hstep
    · cases failure with
      | none => exact Option.some.inj hstep ▸ whileStarting_stopping hstopping
      | some detail => exact Option.some.inj hstep ▸ rfl
    · cases hstep
  | initialized g =>
    simp only [step] at hstep
    split at hstep
    · split at hstep
      · exact Option.some.inj hstep ▸ whileStarting_stopping hstopping
      · exact Option.some.inj hstep ▸ rfl
      · cases hstep
    · cases hstep
  | failStartup g =>
    simp only [step] at hstep
    split at hstep
    · exact Option.some.inj hstep ▸ failStartup_stopping hstopping
    · cases hstep
  | message g message =>
    simp only [step] at hstep
    split at hstep
    · rw [← Option.some.inj hstep]
      rcases s.onLspMessage_cases config g message with heq | ⟨id, outcome, -, -, -, heq, -⟩
      · rw [heq]
      · obtain ⟨pendingLsp, settlements, hframe⟩ := s.completePending_frame id g outcome
        rw [heq, hframe]
    · cases hstep
  | stderr g chunk =>
    simp only [step] at hstep
    split at hstep
    · rw [← Option.some.inj hstep]
      unfold State.appendStderr
      simp only [hstopping]
    · cases hstep
  | processExit g code signal =>
    simp only [step] at hstep
    split at hstep
    · rw [← Option.some.inj hstep]
      unfold State.onProcessExit
      rw [hstopping]
    · cases hstep
  | processError g detail =>
    simp only [step] at hstep
    split at hstep
    · exact Option.some.inj hstep ▸ failAndReset_stopping hstopping
    · cases hstep
  | destroyStdin g => exact Option.some.inj hstep ▸ rfl
  | shutdown =>
    rw [← Option.some.inj hstep]
    unfold State.shutdown
    rw [hstopping]
  | lspRequest method =>
    rw [← Option.some.inj hstep]
    unfold State.lspRequest
    rw [hstopping]
  | timeout id =>
    simp only [step] at hstep
    split at hstep
    case h_1 pending hpending =>
      obtain ⟨pendingLsp, settlements, hframe⟩ :=
        s.completePending_frame id pending.generation (.error pending.timeoutError)
      rw [← Option.some.inj hstep, hframe]
    case h_2 => cases hstep
  | finishRequest id =>
    simp only [step] at hstep
    split at hstep
    · split at hstep
      · exact Option.some.inj hstep ▸ rfl
      · exact Option.some.inj hstep ▸ rfl
      · cases hstep
    · cases hstep
  | recordSemanticResult method itemCount => exact Option.some.inj hstep ▸ rfl
  | ensureFile c path resolved =>
    simp only [step] at hstep
    split at hstep
    · rw [← Option.some.inj hstep]
      unfold State.ensureFile
      simp only [hstopping]
    · cases hstep
  | openDocument c content resolved =>
    simp only [step] at hstep
    split at hstep
    · split at hstep
      · obtain ⟨docManager, written, heq⟩ := openDocument_frame
        rw [heq] at hstep
        exact Option.some.inj hstep ▸ rfl
      · cases hstep
    · cases hstep
  | failCaller c =>
    simp only [step] at hstep
    split at hstep
    · exact Option.some.inj hstep ▸ rfl
    · cases hstep
  | closeFile path =>
    obtain ⟨docManager, written, heq⟩ := closeFile_frame
    rw [step, heq] at hstep
    exact Option.some.inj hstep ▸ rfl

end

-- -----
-- Every run
-- -----

/-- What is known of the starts in every state. -/
structure Started (s : State) : Prop where
  begun : ∀ g, s.startups g ≠ none → g ≤ s.lifecycle.generation
  unknown : ∀ g, s.startups g = none → s.ready g = none
  waits : ∀ g, Starting s g →
    s.ready g = none ∧ ∃ startup, s.startups g = some startup ∧ startup ≠ .ended
  settled : ∀ g, s.startups g ≠ none → ¬ Starting s g → s.ready g ≠ none

theorem started_initial : Started State.initial :=
  ⟨fun _ h => absurd rfl h, fun _ _ => rfl, fun _ ⟨_, h⟩ => absurd h nofun, fun _ h => absurd rfl h⟩

theorem Starting.generation (h : Starting s g) : s.lifecycle.generation = g := by
  obtain ⟨resource, h⟩ := h
  rw [h]
  rfl

theorem StartStep.started (h : Started s)
    (hle : s.lifecycle.generation ≤ s'.lifecycle.generation) (hstep : StartStep s s') :
    Started s' := by
  cases hstep with
  | quiet starting ready startups =>
    refine ⟨fun g hg => ?_, fun g hg => ?_, fun g hg => ?_, fun g hg hnot => ?_⟩
    · exact Nat.le_trans (h.begun g (startups ▸ hg)) hle
    · exact ready ▸ h.unknown g (startups ▸ hg)
    · rw [ready, startups]
      exact h.waits g ((starting g).mp hg)
    · exact ready ▸ h.settled g (startups ▸ hg) fun hs => hnot ((starting g).mpr hs)
  | progressed g startup known waits starting ready startups =>
    have hknown : ∀ g', s'.startups g' ≠ none → s.startups g' ≠ none := by
      intro g' hg'
      by_cases hg : g' = g
      · exact hg ▸ known
      · rwa [startups, Function.update_of_ne hg] at hg'
    refine ⟨fun g' hg' => ?_, fun g' hg' => ?_, fun g' hg' => ?_, fun g' hg' hnot => ?_⟩
    · exact Nat.le_trans (h.begun g' (hknown g' hg')) hle
    · rw [startups] at hg'
      by_cases hg : g' = g
      · subst hg
        rw [Function.update_self] at hg'
        cases hg'
      · rw [Function.update_of_ne hg] at hg'
        exact ready ▸ h.unknown g' hg'
    · obtain ⟨hready, startup', hstartup', hwaits'⟩ := h.waits g' ((starting g').mp hg')
      refine ⟨ready ▸ hready, ?_⟩
      rw [startups]
      by_cases hg : g' = g
      · subst hg
        exact ⟨startup, Function.update_self .., waits⟩
      · exact ⟨startup', by rwa [Function.update_of_ne hg], hwaits'⟩
    · exact ready ▸ h.settled g' (hknown g' hg') fun hs => hnot ((starting g').mpr hs)
  | begun generation startup idle waits starting ready startups =>
    have hnever : s.startups (generation + 1) = none := by
      by_contra hsome
      have := h.begun _ hsome
      rw [idle] at this
      exact absurd this (Nat.not_succ_le_self _)
    have hnone : ∀ g, ¬ Starting s g := fun g ⟨_, hs⟩ => absurd (hs.symm.trans idle) nofun
    refine ⟨fun g hg => ?_, fun g hg => ?_, fun g hg => ?_, fun g hg hnot => ?_⟩
    · rw [startups] at hg
      by_cases hnew : g = generation + 1
      · rw [starting.generation, hnew]
      · rw [Function.update_of_ne hnew] at hg
        exact Nat.le_trans (h.begun g hg) hle
    · rw [startups] at hg
      by_cases hnew : g = generation + 1
      · subst hnew
        rw [Function.update_self] at hg
        cases hg
      · rw [Function.update_of_ne hnew] at hg
        exact ready ▸ h.unknown g hg
    · obtain rfl := hg.unique starting
      exact ⟨ready ▸ h.unknown _ hnever, startup, startups ▸ Function.update_self .., waits⟩
    · have hnew : g ≠ generation + 1 := fun hnew => hnot (hnew ▸ starting)
      rw [startups, Function.update_of_ne hnew] at hg
      exact ready ▸ h.settled g hg (hnone g)
  | left g outcome starting gone ready startups =>
    obtain ⟨-, startup, hstartup, -⟩ := h.waits g starting
    have hknown : ∀ g', s'.startups g' ≠ none ↔ s.startups g' ≠ none := by
      intro g'
      rcases startups with startups | startups
      · rw [startups]
      · rw [startups]
        by_cases hg : g' = g
        · subst hg
          simp [hstartup]
        · rw [Function.update_of_ne hg]
    refine ⟨fun g' hg' => ?_, fun g' hg' => ?_, fun g' hg' => absurd hg' (gone g'),
      fun g' hg' _ => ?_⟩
    · exact Nat.le_trans (h.begun g' ((hknown g').mp hg')) hle
    · have hunknown : s.startups g' = none := by
        by_contra hsome
        exact (hknown g').mpr hsome hg'
      have hg : g' ≠ g := by
        rintro rfl
        exact absurd (hstartup.symm.trans hunknown) nofun
      rw [ready, Function.update_of_ne hg]
      exact h.unknown g' hunknown
    · rw [ready]
      by_cases hg : g' = g
      · subst hg
        rw [Function.update_self]
        cases s.ready g' <;> exact nofun
      · rw [Function.update_of_ne hg]
        exact h.settled g' ((hknown g').mp hg') fun hs => hg (hs.unique starting)
  | late g outcome known ended starting ready startups =>
    have hknown : ∀ g', s'.startups g' ≠ none → s.startups g' ≠ none := by
      intro g' hg'
      by_cases hg : g' = g
      · exact hg ▸ known
      · rwa [startups, Function.update_of_ne hg] at hg'
    have hkept : ∀ g', s.ready g' ≠ none → s'.ready g' = s.ready g' := by
      intro g' hg'
      rw [ready]
      by_cases hg : g' = g
      · subst hg
        rw [Function.update_self]
        cases hready : s.ready g' with
        | none => exact absurd hready hg'
        | some outcome => rfl
      · rw [Function.update_of_ne hg]
    refine ⟨fun g' hg' => ?_, fun g' hg' => ?_, fun g' hg' => ?_, fun g' hg' hnot => ?_⟩
    · exact Nat.le_trans (h.begun g' (hknown g' hg')) hle
    · rw [startups] at hg'
      by_cases hg : g' = g
      · subst hg
        rw [Function.update_self] at hg'
        cases hg'
      · rw [Function.update_of_ne hg] at hg'
        rw [ready, Function.update_of_ne hg]
        exact h.unknown g' hg'
    · have hs := (starting g').mp hg'
      have hg : g' ≠ g := fun hg => ended (hg ▸ hs)
      rw [ready, startups, Function.update_of_ne hg, Function.update_of_ne hg]
      exact h.waits g' hs
    · have hsettled := h.settled g' (hknown g' hg') fun hs => hnot ((starting g').mpr hs)
      rw [hkept g' hsettled]
      exact hsettled

/-- What every reachable state of a backend has. -/
structure Sound (s : State) : Prop where
  started : Started s
  cleaning : Cleaning s
  tracked : Tracked s
  live : LivePending s

theorem sound_initial : Sound State.initial :=
  ⟨started_initial, cleaning_initial, tracked_initial, fun _ _ h => absurd h nofun⟩

theorem step_sound (h : Sound s) (hstep : step config s event = some s') : Sound s' where
  started := (step_start hstep).started h.started ((step_lifecycle hstep).generation_le h.cleaning)
  cleaning := (step_lifecycle hstep).cleaning h.cleaning
  tracked := (step_request hstep).tracked h.tracked
  live := step_live h.live hstep

theorem run_sound {events : List Event} (hrun : run (step config) State.initial events = some s) :
    Sound s :=
  Transitions.always (fun _ _ _ h hstep => step_sound h hstep) sound_initial hrun

-- -----
-- Every step of every run
-- -----

/-- What a step does to the starts, to a stop and to the requests. -/
structure LifecycleLaws (s : State) (event : Event) (s' : State) : Prop where
  /-- A start begins a generation above all that were begun. -/
  begins : ∀ g, ¬ Starting s g → Starting s' g → ∀ g', s.startups g' ≠ none → g' < g
  /-- While a start waits, its `ready` is not settled and its program goes on. -/
  waits : ∀ g, Starting s g →
    s.ready g = none ∧ ∃ startup, s.startups g = some startup ∧ startup ≠ .ended
  /-- `ready` is settled in the step that leaves `starting`, and in no other. -/
  settles : ∀ g, s.ready g = none ∧ s'.ready g ≠ none ↔ Starting s g ∧ ¬ Starting s' g
  /-- Nothing settles it a second time. -/
  once : ∀ g outcome, s.ready g = some outcome → s'.ready g = some outcome
  /-- A stop is entered by one call, whose cleanup is the only one that waits. -/
  enters : ∀ generation done resource startup,
    s'.lifecycle = .stopping generation done resource startup → s'.lifecycle ≠ s.lifecycle →
      s.cleanups = [] ∧ ∃ g kind, s'.cleanups = [⟨g, done, kind⟩] ∧ generation = g + 1
  /-- It stays, with its call, until the call goes on; then its `done` is resolved. -/
  stops : ∀ generation done resource startup,
    s.lifecycle = .stopping generation done resource startup →
      resolves s event = none ∧ StopKept s s' ∨
      resolves s event = some done ∧ (∃ cleanup, s.cleanups = [cleanup] ∧ cleanup.done = done) ∧
        (s'.lifecycle = .idle generation ∨ ∃ message, s'.lifecycle = .unavailable generation message)
  /-- A request whose generation has been stopped is settled, once. -/
  requests : ∀ id g, s'.generationOf id = some g → ¬ Live s' g →
    ∃ outcome, s'.settlements id = [outcome]

theorem StartStep.begins (h : Started s) (hstep : StartStep s s') (hnot : ¬ Starting s g)
    (hnew : Starting s' g) {g' : Generation} (hg' : s.startups g' ≠ none) : g' < g := by
  cases hstep with
  | quiet starting => exact absurd ((starting g).mp hnew) hnot
  | progressed _ _ _ _ starting => exact absurd ((starting g).mp hnew) hnot
  | begun generation startup idle waits starting ready startups =>
    obtain rfl := hnew.unique starting
    have := h.begun g' hg'
    rw [idle] at this
    exact Nat.lt_succ_of_le this
  | left _ _ _ gone => exact absurd hnew (gone g)
  | late _ _ _ _ starting => exact absurd ((starting g).mp hnew) hnot

theorem StartStep.settles (h : Started s) (hstep : StartStep s s') :
    (s.ready g = none ∧ s'.ready g ≠ none) ↔ (Starting s g ∧ ¬ Starting s' g) := by
  cases hstep with
  | quiet starting ready =>
    rw [ready, starting g]
    simp
  | progressed _ _ _ _ starting ready =>
    rw [ready, starting g]
    simp
  | begun generation startup idle waits starting ready startups =>
    rw [ready]
    refine iff_of_false (fun hboth => hboth.2 hboth.1) fun ⟨⟨_, hs⟩, _⟩ => ?_
    exact absurd (hs.symm.trans idle) nofun
  | left g' outcome starting gone ready startups =>
    rw [ready]
    by_cases hg : g = g'
    · subst hg
      rw [Function.update_self, (h.waits g starting).1]
      exact iff_of_true ⟨rfl, nofun⟩ ⟨starting, gone g⟩
    · rw [Function.update_of_ne hg]
      exact iff_of_false (fun hboth => hboth.2 hboth.1) fun hboth => hg (hboth.1.unique starting)
  | late g' outcome known ended starting ready startups =>
    have hsettled := h.settled g' known ended
    rw [starting g, ready]
    refine iff_of_false (fun hboth => ?_) (fun hboth => hboth.2 hboth.1)
    by_cases hg : g = g'
    · exact hsettled (hg ▸ hboth.1)
    · rw [Function.update_of_ne hg] at hboth
      exact hboth.2 hboth.1

theorem StartStep.once (hstep : StartStep s s') {outcome : Except LspBackendError Unit}
    (h : s.ready g = some outcome) : s'.ready g = some outcome := by
  have hdone : ∀ g' (outcome' : Except LspBackendError Unit),
      Function.update s.ready g' ((s.ready g').or (some outcome')) g = some outcome := by
    intro g' outcome'
    by_cases hg : g = g'
    · subst hg
      rw [Function.update_self, h]
      rfl
    · rwa [Function.update_of_ne hg]
  cases hstep with
  | quiet starting ready => rwa [ready]
  | progressed _ _ _ _ _ ready => rwa [ready]
  | begun _ _ _ _ _ ready => rwa [ready]
  | left g' outcome' _ _ ready =>
    rw [ready]
    exact hdone g' outcome'
  | late g' outcome' _ _ _ ready =>
    rw [ready]
    exact hdone g' outcome'

section
variable {generation done : Nat} {resource : Resource} {startup : Bool}

theorem LifecycleStep.enters (h : Cleaning s) (hstep : LifecycleStep s s')
    (hafter : s'.lifecycle = .stopping generation done resource startup)
    (hchanged : s'.lifecycle ≠ s.lifecycle) :
    s.cleanups = [] ∧ ∃ g kind, s'.cleanups = [⟨g, done, kind⟩] ∧ generation = g + 1 := by
  cases hstep with
  | kept hlifecycle _ => exact absurd hlifecycle hchanged
  | started _ _ _ hstarted => exact absurd (hafter.symm.trans hstarted) nofun
  | starting _ _ _ _ hstarting => exact absurd (hafter.symm.trans hstarting) nofun
  | running _ _ _ _ hrunning => exact absurd (hafter.symm.trans hrunning) nofun
  | stopped g resource startup kind hbefore hstopping hcleanups =>
    have hnone := h.none_of_live hbefore
    rw [hstopping] at hafter
    cases hafter
    exact ⟨hnone, g, kind, by rw [hcleanups, hnone]; rfl, rfl⟩
  | cleaned i cleanup hfound hnext hother =>
    obtain ⟨resource', startup', hstopping, -⟩ := h.own hfound
    rcases hnext _ resource' startup' hstopping with hidle | ⟨message, hunavailable⟩
    · exact absurd (hafter.symm.trans hidle) nofun
    · exact absurd (hafter.symm.trans hunavailable) nofun

theorem step_stops (h : Cleaning s) (hstep : step config s event = some s')
    (hstopping : s.lifecycle = .stopping generation done resource startup) :
    resolves s event = none ∧ StopKept s s' ∨
      resolves s event = some done ∧ (∃ cleanup, s.cleanups = [cleanup] ∧ cleanup.done = done) ∧
        (s'.lifecycle = .idle generation ∨
          ∃ message, s'.lifecycle = .unavailable generation message) := by
  by_cases hevent : ∃ i, event = .cleaned i
  · obtain ⟨i, rfl⟩ := hevent
    obtain ⟨cleanup, resource', startup', rfl, hone, hlifecycle, -, hnext⟩ := cleaned_cases h hstep
    rw [hstopping] at hlifecycle
    cases hlifecycle
    refine .inr ⟨?_, ⟨cleanup, hone, rfl⟩, hnext⟩
    show (s.cleanups[0]?).map (·.done) = _
    rw [hone]
    rfl
  · have hother : ∀ i, event ≠ .cleaned i := fun i hi => hevent ⟨i, hi⟩
    refine .inl ⟨?_, step_stopping hstep hother hstopping⟩
    cases event with
    | cleaned i => exact absurd rfl (hother i)
    | _ => rfl

end

theorem Sound.settled (h : Sound s) {id : Nat} (hg : s.generationOf id = some g)
    (hstopped : ¬ Live s g) : ∃ outcome, s.settlements id = [outcome] := by
  rcases h.tracked.asked id g hg with ⟨pending, hpending, rfl, -⟩ | ⟨-, hsettled⟩
  · exact absurd (h.live id pending hpending) hstopped
  · exact hsettled

theorem lifecycle_laws {events : List Event}
    (hrun : run (step config) State.initial events = some s)
    (hstep : step config s event = some s') : LifecycleLaws s event s' := by
  have hsound : Sound s := run_sound hrun
  have hstart : StartStep s s' := step_start hstep
  exact {
    begins := fun g hnot hnew g' hg' => hstart.begins hsound.started hnot hnew hg'
    waits := hsound.started.waits
    settles := fun g => hstart.settles hsound.started
    once := fun g outcome => hstart.once
    enters := fun _ _ _ _ hafter hchanged =>
      (step_lifecycle hstep).enters hsound.cleaning hafter hchanged
    stops := fun _ _ _ _ hstopping => step_stops hsound.cleaning hstep hstopping
    requests := fun id g => (step_sound hsound hstep).settled }

/-- The first server is shut down while it starts. -/
theorem lifecycle_laws_shutdown :
    ∃ s s', run (step typescript) State.initial startedOnce = some s ∧
      step typescript s .shutdown = some s' ∧ LifecycleLaws s .shutdown s' := by
  obtain ⟨s, hrun⟩ : ∃ s, run (step typescript) State.initial startedOnce = some s :=
    Option.isSome_iff_exists.mp (by decide +kernel)
  exact ⟨s, _, hrun, rfl, lifecycle_laws hrun rfl⟩

end PiEnv.DevTools.Backend
