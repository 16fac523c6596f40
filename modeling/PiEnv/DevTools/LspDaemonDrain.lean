import PiEnv.DevTools.LspDaemon

/-!
# What a shutdown waits for and releases

Backends are shut down when every admitted task has settled, and no other is
admitted; a shutdown that has ended attempted the release of all the daemon owned.
-/

namespace PiEnv.DevTools.LspDaemon

open Js
open Transitions (run AllMeet)

-- -----
-- The invariant
-- -----

/-- Whether every task has settled. -/
def Finalizer.drained : Finalizer → Bool
  | .acquisition | .draining => false
  | _ => true

/-- Whether the loop over the connections has ended. -/
def Finalizer.disconnected : Finalizer → Bool
  | .unlinking _ | .disposing | .closing | .settled => true
  | _ => false

/-- The paths whose release is still to come. -/
def Finalizer.paths : Finalizer → List Path
  | .unlinking paths => paths
  | _ => []

def OwnedResources.owns (owned : OwnedResources) : Path → Bool
  | .socket => owned.socketPath
  | .pid => owned.pidPath

theorem OwnedResources.mem_paths {owned : OwnedResources} {path : Path}
    (h : owned.owns path = true) : path ∈ owned.paths := by
  cases path with
  | socket => simp [OwnedResources.paths, show owned.socketPath = true from h]
  | pid => simp [OwnedResources.paths, show owned.pidPath = true from h]

namespace State

variable {s s' : State} {c : ConnId} {backends : Nat}

/-- What an accepted connection may still be, and may be no more. -/
def Kept (s : State) (c : ConnId) : Prop :=
  c ∈ s.connections.map (·.1) ∨ c ∈ s.closed ∨ .destroy c ∈ s.attempts

structure Inv (s : State) : Prop where
  phase : s.phase = .stopping ↔ s.stopping ≠ none
  acquired : ∀ f, s.stopping = some f → f ≠ .acquisition →
    s.acquisition ≠ some .scheduled ∧ s.acquisition ≠ some .listening
  drained : ∀ f, s.stopping = some f → f.drained = true → s.tasks = []
  shut : ∀ i, .shutdownBackend i ∈ s.attempts → ∃ f, s.stopping = some f ∧ f.drained = true
  kept : ∀ c ∈ s.accepted, s.Kept c
  visited : ∀ visited, s.stopping = some (.destroying visited) →
    ∀ c ∈ visited, .destroy c ∈ s.attempts
  disconnected : ∀ f, s.stopping = some f → f.disconnected = true → s.connections = []
  listener : ∀ f, s.stopping = some f → f.disconnected = true → s.listening = true →
    .closeListener ∈ s.attempts
  paths : ∀ f, s.stopping = some f → f.disconnected = true → ∀ path, s.owned.owns path = true →
    path ∈ f.paths ∨ .unlink path ∈ s.attempts

theorem initial_inv : Inv initial where
  phase := by simp [initial]
  acquired := nofun
  drained := nofun
  shut := nofun
  kept := nofun
  visited := nofun
  disconnected := nofun
  listener := nofun
  paths := nofun

theorem Inv.running (h : Inv s) (hphase : s.phase ≠ .stopping) : s.stopping = none := by
  by_contra hne
  exact hphase (h.phase.mpr hne)

/-- A start of the release. -/
theorem Inv.shutdown (h : Inv s) : Inv s.shutdown := by
  unfold State.shutdown
  split
  case h_1 => exact h
  case h_2 hnone =>
    have hshut : ∀ i, Attempt.shutdownBackend i ∉ s.attempts := by
      intro i hmem
      obtain ⟨f, hf, -⟩ := h.shut i hmem
      exact absurd (hnone.symm.trans hf) nofun
    exact {
      phase := by simp
      acquired := fun f hf hne => absurd (Option.some.inj hf).symm hne
      drained := fun f hf hdrained => by cases hf; cases hdrained
      shut := fun i hmem => absurd hmem (hshut i)
      kept := h.kept
      visited := nofun
      disconnected := fun f hf hdone => by cases hf; cases hdone
      listener := fun f hf hdone => by cases hf; cases hdone
      paths := fun f hf hdone => by cases hf; cases hdone }

/-- Before a shutdown there is little to keep. -/
theorem Inv.of_running (hphase : s.phase ≠ .stopping) (hnone : s.stopping = none)
    (hshut : ∀ i, .shutdownBackend i ∉ s.attempts) (hkept : ∀ c ∈ s.accepted, s.Kept c) :
    Inv s where
  phase := ⟨fun hstopping => absurd hstopping hphase, fun hne => absurd hnone hne⟩
  acquired := fun _ hf => absurd (hnone.symm.trans hf) nofun
  drained := fun _ hf => absurd (hnone.symm.trans hf) nofun
  shut := fun i hmem => absurd hmem (hshut i)
  kept := hkept
  visited := fun _ hf => absurd (hnone.symm.trans hf) nofun
  disconnected := fun _ hf => absurd (hnone.symm.trans hf) nofun
  listener := fun _ hf => absurd (hnone.symm.trans hf) nofun
  paths := fun _ hf => absurd (hnone.symm.trans hf) nofun

/-- What the release does not read. -/
theorem Inv.aside (h : Inv s) {startup : Option Startup} {listenerClosed : Bool}
    {bufs : ConnId → Str} {destroyed ended : List ConnId} {admitted : List (ConnId × DaemonRequest)}
    {idleTimer : Bool} {errors : Nat} {starts : List StartAnswer} {responses : List (ConnId × Json)} :
    Inv { s with
      startup, listenerClosed, bufs, destroyed, ended, admitted, idleTimer, errors, starts
      responses } :=
  ⟨h.phase, h.acquired, h.drained, h.shut, h.kept, h.visited, h.disconnected, h.listener, h.paths⟩

theorem Inv.notShut (h : Inv s) (hnone : s.stopping = none) (i : Nat) :
    .shutdownBackend i ∉ s.attempts := by
  intro hmem
  obtain ⟨f, hf, -⟩ := h.shut i hmem
  exact absurd (hnone.symm.trans hf) nofun

theorem Inv.running_phase (h : Inv s) (hnone : s.stopping = none) : s.phase ≠ .stopping :=
  fun hphase => h.phase.mp hphase hnone

-- -----
-- Startup
-- -----

theorem Inv.start (h : Inv s) : Inv s.start := by
  unfold State.start
  split
  case h_1 => exact h.aside
  case h_2 hnone _ =>
    exact .of_running (h.running_phase hnone) hnone (h.notShut hnone) h.kept
  case h_3 hnone _ =>
    exact .of_running (h.running_phase hnone) hnone (h.notShut hnone) h.kept

/-- What is acquired late is acquired before the release. -/
theorem Inv.acquiring (h : Inv s)
    (hpending : ∀ f, s'.stopping = some f → f = .acquisition)
    (hphase : s'.phase = s.phase) (hstopping : s'.stopping = s.stopping)
    (hattempts : s'.attempts = s.attempts) (hkept : ∀ c ∈ s'.accepted, s'.Kept c) : Inv s' where
  phase := by rw [hphase, hstopping]; exact h.phase
  acquired := fun f hf hne => absurd (hpending f hf) hne
  drained := fun f hf hdrained => by rw [hpending f hf] at hdrained; cases hdrained
  shut := fun i hmem => by
    rw [hstopping]
    exact h.shut i (hattempts ▸ hmem)
  kept := hkept
  visited := fun visited hf => absurd (hpending _ hf) nofun
  disconnected := fun f hf hdone => by rw [hpending f hf] at hdone; cases hdone
  listener := fun f hf hdone => by rw [hpending f hf] at hdone; cases hdone
  paths := fun f hf hdone => by rw [hpending f hf] at hdone; cases hdone

theorem Inv.pending (h : Inv s)
    (hacquiring : s.acquisition = some .scheduled ∨ s.acquisition = some .listening) :
    ∀ f, s.stopping = some f → f = .acquisition := by
  intro f hf
  by_contra hne
  obtain ⟨hscheduled, hlistening⟩ := h.acquired f hf hne
  exact hacquiring.elim hscheduled hlistening

theorem Inv.acquire (h : Inv s) (hscheduled : s.acquisition = some .scheduled)
    (writes listens : Bool) : Inv (s.acquire writes listens) := by
  have hpending := h.pending (.inl hscheduled)
  unfold State.acquire
  split
  · exact h.acquiring hpending rfl rfl rfl h.kept
  · split
    · exact h.acquiring hpending rfl rfl rfl h.kept
    · exact h.acquiring hpending rfl rfl rfl h.kept

theorem Inv.settleStartup (h : Inv s) : Inv s.settleStartup := by
  unfold State.settleStartup
  split
  case isTrue hgo =>
    have hrunning : Inv { s with phase := .accepting, startup := some .resolved } :=
      .of_running nofun hgo.2 (h.notShut hgo.2) h.kept
    unfold State.resetIdleTimer
    split
    · exact .of_running nofun hgo.2 (h.notShut hgo.2) h.kept
    · exact hrunning
  case isFalse =>
    have hsame : Inv { s with startup := some .failing } := h.aside
    exact hsame.shutdown

-- -----
-- Connections and requests
-- -----

theorem Inv.handleConnection (h : Inv s) (c : ConnId) : Inv (s.handleConnection c) := by
  unfold State.handleConnection
  split
  case isTrue => exact h.aside
  case isFalse hphase =>
    have haccepting : s.phase = .accepting := by simpa using hphase
    have hnone := h.running (by rw [haccepting]; nofun)
    refine .of_running (h.running_phase hnone) hnone (h.notShut hnone) fun c' hmem => ?_
    rcases List.mem_append.mp hmem with hmem | hmem
    · refine (h.kept c' hmem).imp_left fun hconnected => ?_
      rw [List.map_append]
      exact List.mem_append_left _ hconnected
    · refine .inl ?_
      rw [List.map_append]
      exact List.mem_append_right _ (by simpa using hmem)

theorem Inv.closeConnection (h : Inv s) (c : ConnId) :
    Inv { s with connections := s.connections.filter (·.1 ≠ c), closed := s.closed ++ [c] } where
  phase := h.phase
  acquired := h.acquired
  drained := h.drained
  shut := h.shut
  kept := fun c' hmem => by
    rcases h.kept c' hmem with hconnected | hclosed | hdestroyed
    · by_cases hc : c' = c
      · exact .inr (.inl (List.mem_append_right _ (List.mem_singleton.mpr hc)))
      · obtain ⟨connection, hconnection, rfl⟩ := List.mem_map.mp hconnected
        exact .inl (List.mem_map.mpr
          ⟨connection, List.mem_filter.mpr ⟨hconnection, by simpa using hc⟩, rfl⟩)
    · exact .inr (.inl (List.mem_append_left _ hclosed))
    · exact .inr (.inr hdestroyed)
  visited := h.visited
  disconnected := fun f hf hdone => by
    show s.connections.filter _ = []
    rw [h.disconnected f hf hdone, List.filter_nil]
  listener := h.listener
  paths := h.paths

theorem Inv.writeResponse (h : Inv s) (c : ConnId) (response : Json) :
    Inv (s.writeResponse c response) := by
  unfold State.writeResponse
  split
  · exact h
  · exact h.aside

theorem Inv.endAfterDrain (h : Inv s) (c : ConnId) : Inv (s.endAfterDrain c) where
  phase := h.phase
  acquired := h.acquired
  drained := h.drained
  shut := h.shut
  kept := fun c' hmem => by
    refine (h.kept c' hmem).imp_left fun hconnected => ?_
    obtain ⟨connection, hconnection, rfl⟩ := List.mem_map.mp hconnected
    refine List.mem_map.mpr ⟨_, List.mem_map_of_mem hconnection, ?_⟩
    split
    case isTrue hc => exact hc.symm
    case isFalse => rfl
  visited := h.visited
  disconnected := fun f hf hdone => by
    show s.connections.map _ = []
    rw [h.disconnected f hf hdone, List.map_nil]
  listener := h.listener
  paths := h.paths

theorem Inv.resetIdleTimer (h : Inv s) : Inv s.resetIdleTimer := by
  unfold State.resetIdleTimer
  split
  · exact h.aside
  · exact h

theorem Inv.admitRequest (h : Inv s) (hnone : s.stopping = none) (request : DaemonRequest) :
    Inv (s.admitRequest c request) :=
  .of_running (h.running_phase hnone) hnone (h.notShut hnone) h.kept

theorem resetIdleTimer_stopping : s.resetIdleTimer.stopping = s.stopping := by
  unfold State.resetIdleTimer
  split <;> rfl

theorem Inv.handleRequest (h : Inv s) (c : ConnId) (line : Str) : Inv (s.handleRequest c line) := by
  unfold State.handleRequest
  split
  case h_1 => exact h.writeResponse _ _
  case h_2 request _ =>
    split
    case isTrue => exact h.writeResponse _ _
    case isFalse hphase =>
      have haccepting : s.phase = .accepting := by simpa using hphase
      have hnone := h.running (by rw [haccepting]; nofun)
      have hadmitted : Inv (s.resetIdleTimer.admitRequest c request) :=
        h.resetIdleTimer.admitRequest (resetIdleTimer_stopping.trans hnone) request
      dsimp only
      split
      · exact (hadmitted.endAfterDrain c).shutdown
      · exact hadmitted

theorem Inv.handleLines (h : Inv s) (c : ConnId) (lines : List Str) :
    Inv (s.handleLines c lines) := by
  induction lines generalizing s with
  | nil => exact h
  | cons line lines ih =>
    unfold State.handleLines
    split
    · exact ih h
    · exact ih (h.handleRequest c line)

theorem Inv.handleData (h : Inv s) (c : ConnId) (chunk : Str) : Inv (s.handleData c chunk) := by
  unfold State.handleData
  dsimp only
  split
  · exact h.aside
  · exact Inv.handleLines h.aside _ _

theorem Inv.settleTask (h : Inv s) (t : TaskId) (response : Option Json) :
    Inv (s.settleTask t response) := by
  have hleft : Inv { s with tasks := s.tasks.filter (· ≠ t) } := ⟨h.phase, h.acquired,
    fun f hf hdrained => by
      show s.tasks.filter _ = []
      rw [h.drained f hf hdrained, List.filter_nil],
    h.shut, h.kept, h.visited, h.disconnected, h.listener, h.paths⟩
  unfold State.settleTask
  dsimp only
  split
  · exact hleft.writeResponse _ _
  · exact hleft

-- -----
-- Release
-- -----

section
variable {f f' : Finalizer} {attempts : List Attempt} {errors : Nat} {ended destroyed : List ConnId}

/-- A step of the release before the connections are gone. -/
theorem Inv.advance (h : Inv s) (hf : s.stopping = some f) (hacquired : f ≠ .acquisition)
    (htasks : s.tasks = []) (hdrained : f'.drained = true) (hconnected : f'.disconnected = false)
    (hattempts : s.attempts ⊆ attempts)
    (hvisited : ∀ visited, f' = .destroying visited → ∀ c ∈ visited, .destroy c ∈ attempts) :
    Inv { s with stopping := some f', attempts, errors, ended, destroyed } where
  phase := ⟨nofun, fun _ => h.phase.mpr (by rw [hf]; nofun)⟩
  acquired := fun _ _ _ => h.acquired f hf hacquired
  drained := fun _ _ _ => htasks
  shut := fun _ _ => ⟨f', rfl, hdrained⟩
  kept := fun c hmem => (h.kept c hmem).imp_right (.imp_right fun hdestroy => hattempts hdestroy)
  visited := fun visited hnext => hvisited visited (Option.some.inj hnext)
  disconnected := fun g hg hdone => by
    obtain rfl := Option.some.inj hg
    exact absurd (hconnected.symm.trans hdone) nofun
  listener := fun g hg hdone => by
    obtain rfl := Option.some.inj hg
    exact absurd (hconnected.symm.trans hdone) nofun
  paths := fun g hg hdone => by
    obtain rfl := Option.some.inj hg
    exact absurd (hconnected.symm.trans hdone) nofun

/-- A step of the release after that. -/
theorem Inv.conclude {startup : Option Startup} (h : Inv s) (hf : s.stopping = some f)
    (hdone : f.disconnected = true) (hdone' : f'.disconnected = true)
    (hattempts : s.attempts ⊆ attempts)
    (hpaths : ∀ path ∈ f.paths, path ∈ f'.paths ∨ .unlink path ∈ attempts) :
    Inv { s with stopping := some f', attempts, errors, startup } := by
  have hdrained : ∀ g : Finalizer, g.disconnected = true → g.drained = true ∧ g ≠ .acquisition := by
    intro g hg
    cases g with
    | unlinking | disposing | closing | settled => exact ⟨rfl, nofun⟩
    | acquisition | draining | ending | backends | destroying => cases hg
  exact {
    phase := ⟨nofun, fun _ => h.phase.mpr (by rw [hf]; nofun)⟩
    acquired := fun _ _ _ => h.acquired f hf (hdrained f hdone).2
    drained := fun _ _ _ => h.drained f hf (hdrained f hdone).1
    shut := fun _ _ => ⟨f', rfl, (hdrained f' hdone').1⟩
    kept := fun c hmem => (h.kept c hmem).imp_right (.imp_right fun hdestroy => hattempts hdestroy)
    visited := fun visited hnext => by
      obtain rfl := Option.some.inj hnext
      cases hdone'
    disconnected := fun _ _ _ => h.disconnected f hf hdone
    listener := fun _ _ _ hlistening => hattempts (h.listener f hf hdone hlistening)
    paths := fun g hg _ path howns => by
      obtain rfl := Option.some.inj hg
      rcases h.paths f hf hdone path howns with hleft | hunlinked
      · exact hpaths path hleft
      · exact .inr (hattempts hunlinked) }

end

theorem nextConnection_none {visited : List ConnId} (h : s.nextConnection visited = none) :
    ∀ c ∈ s.connections.map (·.1), c ∈ visited := by
  intro c hmem
  obtain ⟨connection, hconnection, rfl⟩ := List.mem_map.mp hmem
  simpa using List.find?_eq_none.mp h connection hconnection

theorem Inv.closeListener {visited : List ConnId} (h : Inv s)
    (hf : s.stopping = some (.destroying visited)) (hnext : s.nextConnection visited = none) :
    Inv s.closeListener := by
  have hdestroyed : ∀ c ∈ s.accepted, c ∈ s.closed ∨ .destroy c ∈ s.attempts := by
    intro c hmem
    rcases h.kept c hmem with hconnected | hrest
    · exact .inr (h.visited visited hf c (nextConnection_none hnext c hconnected))
    · exact hrest
  have hinv : ∀ attempts, s.attempts ⊆ attempts →
      (s.listening = true → .closeListener ∈ attempts) →
      Inv { s with connections := [], attempts, stopping := some (.unlinking s.owned.paths) } :=
    fun attempts hattempts hlistener => {
      phase := ⟨nofun, fun _ => h.phase.mpr (by rw [hf]; nofun)⟩
      acquired := fun _ _ _ => h.acquired _ hf nofun
      drained := fun _ _ _ => h.drained _ hf rfl
      shut := fun _ _ => ⟨_, rfl, rfl⟩
      kept := fun c hmem => .inr ((hdestroyed c hmem).imp_right fun hdestroy => hattempts hdestroy)
      visited := nofun
      disconnected := fun _ _ _ => rfl
      listener := fun _ _ _ => hlistener
      paths := fun g hg _ path howns => by
        obtain rfl := Option.some.inj hg
        exact .inl (OwnedResources.mem_paths howns) }
  unfold State.closeListener
  dsimp only
  split
  case isTrue =>
    exact hinv _ (List.subset_append_left _ _) fun _ =>
      List.mem_append_right _ (List.mem_singleton.mpr rfl)
  case isFalse hclosed =>
    exact hinv _ (List.Subset.refl _) fun hlistening => absurd hlistening hclosed

theorem Inv.finalize {fails : Bool} (h : Inv s) (hstep : s.finalize backends fails = some s') :
    Inv s' := by
  unfold State.finalize at hstep
  split at hstep
  case h_1 => cases hstep
  case h_2 => cases hstep
  case h_3 => cases hstep
  case h_4 hf =>
    split at hstep
    case isTrue => cases hstep
    case isFalse hacquired =>
      obtain rfl := Option.some.inj hstep
      have hshut : ∀ i, .shutdownBackend i ∉ s.attempts := by
        intro i hmem
        obtain ⟨f, hf', hdrained⟩ := h.shut i hmem
        obtain rfl := Option.some.inj (hf.symm.trans hf')
        cases hdrained
      exact {
        phase := ⟨nofun, fun _ => h.phase.mpr (by rw [hf]; nofun)⟩
        acquired := fun _ _ _ => not_or.mp hacquired
        drained := fun g hg hdrained => by obtain rfl := Option.some.inj hg; cases hdrained
        shut := fun i hmem => absurd hmem (hshut i)
        kept := h.kept
        visited := nofun
        disconnected := fun g hg hdone => by obtain rfl := Option.some.inj hg; cases hdone
        listener := fun g hg hdone => by obtain rfl := Option.some.inj hg; cases hdone
        paths := fun g hg hdone => by obtain rfl := Option.some.inj hg; cases hdone }
  case h_5 hf =>
    split at hstep
    case isTrue htasks =>
      obtain rfl := Option.some.inj hstep
      exact h.advance hf nofun htasks rfl rfl (List.Subset.refl _) nofun
    case isFalse => cases hstep
  case h_6 visited hf =>
    have htasks := h.drained _ hf rfl
    split at hstep
    case h_1 =>
      obtain rfl := Option.some.inj hstep
      exact h.advance hf nofun htasks rfl rfl (List.subset_append_left _ _) nofun
    case h_2 =>
      obtain rfl := Option.some.inj hstep
      exact h.advance hf nofun htasks rfl rfl (List.Subset.refl _) nofun
    case h_3 =>
      obtain rfl := Option.some.inj hstep
      exact h.advance hf nofun htasks rfl rfl (List.subset_append_left _ _) nofun
  case h_7 remaining hf =>
    split at hstep
    case isTrue =>
      obtain rfl := Option.some.inj hstep
      refine h.advance hf nofun (h.drained _ hf rfl) rfl rfl (List.Subset.refl _) ?_
      intro visited hvisited c hmem
      cases hvisited
      cases hmem
    case isFalse => cases hstep
  case h_8 visited hf =>
    split at hstep
    case h_1 c _ _ =>
      obtain rfl := Option.some.inj hstep
      refine h.advance hf nofun (h.drained _ hf rfl) rfl rfl (List.subset_append_left _ _) ?_
      intro visited' hvisited c' hmem
      cases hvisited
      rcases List.mem_cons.mp hmem with rfl | hmem
      · exact List.mem_append_right _ (List.mem_singleton.mpr rfl)
      · exact List.mem_append_left _ (h.visited visited hf c' hmem)
    case h_2 hnext =>
      obtain rfl := Option.some.inj hstep
      exact h.closeListener hf hnext
  case h_9 path paths hf =>
    obtain rfl := Option.some.inj hstep
    refine h.conclude hf rfl rfl (List.subset_append_left _ _) fun path' hmem => ?_
    rcases List.mem_cons.mp hmem with rfl | hmem
    · exact .inr (List.mem_append_right _ (List.mem_singleton.mpr rfl))
    · exact .inl hmem
  case h_10 hf =>
    obtain rfl := Option.some.inj hstep
    exact h.conclude hf rfl rfl (List.subset_append_left _ _) nofun
  case h_11 hf =>
    split at hstep
    case isTrue => cases hstep
    case isFalse =>
      obtain rfl := Option.some.inj hstep
      exact h.conclude hf rfl rfl (List.Subset.refl _) nofun

theorem step_inv {event : Event} (h : Inv s) (hstep : step backends s event = some s') : Inv s' := by
  cases event with
  | start =>
    obtain rfl := Option.some.inj hstep
    exact h.start
  | acquire writes listens =>
    simp only [step, Option.ite_none_right_eq_some] at hstep
    obtain ⟨hscheduled, hnext⟩ := hstep
    obtain rfl := Option.some.inj hnext
    exact h.acquire hscheduled writes listens
  | onListening =>
    simp only [step, Option.ite_none_right_eq_some] at hstep
    obtain ⟨hlistening, hnext⟩ := hstep
    obtain rfl := Option.some.inj hnext
    exact h.acquiring (h.pending (.inr hlistening)) rfl rfl rfl h.kept
  | failListening =>
    simp only [step, Option.ite_none_right_eq_some] at hstep
    obtain ⟨hlistening, hnext⟩ := hstep
    obtain rfl := Option.some.inj hnext
    exact h.acquiring (h.pending (.inr hlistening)) rfl rfl rfl h.kept
  | settleStartup =>
    simp only [step, Option.ite_none_right_eq_some] at hstep
    obtain rfl := Option.some.inj hstep.2
    exact h.settleStartup
  | failListener =>
    simp only [step, Option.ite_none_right_eq_some] at hstep
    obtain rfl := Option.some.inj hstep.2
    exact h.shutdown
  | connection c =>
    simp only [step, Option.ite_none_right_eq_some] at hstep
    obtain rfl := Option.some.inj hstep.2
    exact h.handleConnection c
  | closeConnection c =>
    simp only [step, Option.ite_none_right_eq_some] at hstep
    obtain rfl := Option.some.inj hstep.2
    exact h.closeConnection c
  | destroyConnection c =>
    obtain rfl := Option.some.inj hstep
    exact h.aside
  | data c chunk =>
    simp only [step, Option.ite_none_right_eq_some] at hstep
    obtain rfl := Option.some.inj hstep.2
    exact h.handleData c chunk
  | settleTask t response =>
    simp only [step, Option.ite_none_right_eq_some] at hstep
    obtain rfl := Option.some.inj hstep.2
    exact h.settleTask t response
  | idle =>
    simp only [step, Option.ite_none_right_eq_some] at hstep
    obtain rfl := Option.some.inj hstep.2
    exact h.shutdown
  | shutdown =>
    obtain rfl := Option.some.inj hstep
    exact h.shutdown
  | finalize fails => exact h.finalize hstep
  | settleBackend i fails =>
    simp only [step] at hstep
    split at hstep
    case h_1 remaining hf =>
      simp only [Option.ite_none_right_eq_some] at hstep
      obtain rfl := Option.some.inj hstep.2
      exact h.advance hf nofun (h.drained _ hf rfl) rfl rfl (List.Subset.refl _) nofun
    case h_2 => cases hstep
  | disposeTelemetry fails =>
    simp only [step] at hstep
    split at hstep
    case h_1 hf =>
      obtain rfl := Option.some.inj hstep
      exact h.conclude hf rfl rfl (List.Subset.refl _) nofun
    case h_2 => cases hstep
  | closedListener fails =>
    simp only [step, Option.ite_none_right_eq_some] at hstep
    obtain rfl := Option.some.inj hstep.2
    exact h.aside

-- -----
-- Admission
-- -----

/-- Nothing is admitted, and the daemon goes on stopping. -/
def Refuses (s s' : State) : Prop := s'.admitted = s.admitted ∧ s'.phase = .stopping

theorem Refuses.trans {s'' : State} (h : s.Refuses s') (h' : s'.Refuses s'') : s.Refuses s'' :=
  ⟨h'.1.trans h.1, h'.2⟩

section
variable (hphase : s.phase = .stopping)
include hphase

theorem writeResponse_refuses (c : ConnId) (response : Json) :
    s.Refuses (s.writeResponse c response) := by
  unfold State.writeResponse
  split
  · exact ⟨rfl, hphase⟩
  · exact ⟨rfl, hphase⟩

theorem handleRequest_refuses (c : ConnId) (line : Str) : s.Refuses (s.handleRequest c line) := by
  unfold State.handleRequest
  split
  · exact writeResponse_refuses hphase _ _
  · rw [if_pos (by rw [hphase]; decide)]
    exact writeResponse_refuses hphase _ _

theorem handleLines_refuses (c : ConnId) (lines : List Str) : s.Refuses (s.handleLines c lines) := by
  induction lines generalizing s with
  | nil => exact ⟨rfl, hphase⟩
  | cons line lines ih =>
    unfold State.handleLines
    split
    · exact ih hphase
    · obtain ⟨hadmitted, hstill⟩ := handleRequest_refuses hphase c line
      obtain ⟨hrest, hlast⟩ := ih hstill
      exact ⟨hrest.trans hadmitted, hlast⟩

theorem handleData_refuses (c : ConnId) (chunk : Str) : s.Refuses (s.handleData c chunk) := by
  unfold State.handleData
  dsimp only
  split
  · exact ⟨rfl, hphase⟩
  · refine Refuses.trans ?_ (handleLines_refuses ?_ c _)
    · exact ⟨rfl, hphase⟩
    · exact hphase

theorem settleTask_refuses (t : TaskId) (response : Option Json) :
    s.Refuses (s.settleTask t response) := by
  unfold State.settleTask
  dsimp only
  split
  · refine Refuses.trans ?_ (writeResponse_refuses ?_ _ _)
    · exact ⟨rfl, hphase⟩
    · exact hphase
  · exact ⟨rfl, hphase⟩

theorem shutdown_refuses : s.Refuses s.shutdown := by
  unfold State.shutdown
  split
  · exact ⟨rfl, hphase⟩
  · exact ⟨rfl, rfl⟩

theorem closeListener_refuses : s.Refuses s.closeListener := by
  unfold State.closeListener
  dsimp only
  split
  · exact ⟨rfl, hphase⟩
  · exact ⟨rfl, hphase⟩

theorem finalize_refuses {fails : Bool} (hstep : s.finalize backends fails = some s') :
    s.Refuses s' := by
  have hsame : ∀ {next : State}, some next = some s' → next.admitted = s.admitted →
      next.phase = s.phase → s.Refuses s' := by
    rintro next ⟨⟩ hadmitted hnext
    exact ⟨hadmitted, hnext.trans hphase⟩
  unfold State.finalize at hstep
  split at hstep
  case h_1 => cases hstep
  case h_2 => cases hstep
  case h_3 => cases hstep
  case h_4 =>
    split at hstep
    · cases hstep
    · exact hsame hstep rfl rfl
  case h_5 =>
    split at hstep
    · exact hsame hstep rfl rfl
    · cases hstep
  case h_6 =>
    split at hstep
    · exact hsame hstep rfl rfl
    · exact hsame hstep rfl rfl
    · exact hsame hstep rfl rfl
  case h_7 =>
    split at hstep
    · exact hsame hstep rfl rfl
    · cases hstep
  case h_8 =>
    split at hstep
    · exact hsame hstep rfl rfl
    · obtain rfl := Option.some.inj hstep
      exact closeListener_refuses hphase
  case h_9 => exact hsame hstep rfl rfl
  case h_10 => exact hsame hstep rfl rfl
  case h_11 =>
    split at hstep
    · cases hstep
    · exact hsame hstep rfl rfl

end

theorem Inv.acquire_refuses (h : Inv s) (hphase : s.phase = .stopping) (writes listens : Bool) :
    s.Refuses (s.acquire writes listens) := by
  obtain ⟨f, hf⟩ := Option.ne_none_iff_exists'.mp (h.phase.mp hphase)
  rw [State.acquire, hf]
  exact ⟨rfl, hphase⟩

theorem Inv.settleStartup_refuses (h : Inv s) (hphase : s.phase = .stopping) :
    s.Refuses s.settleStartup := by
  rw [State.settleStartup, if_neg fun hgo => h.phase.mp hphase hgo.2]
  refine Refuses.trans ?_ (shutdown_refuses ?_)
  · exact ⟨rfl, hphase⟩
  · exact hphase

theorem Inv.step_refuses {event : Event} (h : Inv s) (hphase : s.phase = .stopping)
    (hstep : step backends s event = some s') : s.Refuses s' := by
  cases event with
  | start =>
    obtain rfl := Option.some.inj hstep
    unfold State.start
    split <;> exact ⟨rfl, hphase⟩
  | acquire writes listens =>
    simp only [step, Option.ite_none_right_eq_some] at hstep
    obtain rfl := Option.some.inj hstep.2
    exact h.acquire_refuses hphase writes listens
  | onListening =>
    simp only [step, Option.ite_none_right_eq_some] at hstep
    obtain rfl := Option.some.inj hstep.2
    exact ⟨rfl, hphase⟩
  | failListening =>
    simp only [step, Option.ite_none_right_eq_some] at hstep
    obtain rfl := Option.some.inj hstep.2
    exact ⟨rfl, hphase⟩
  | settleStartup =>
    simp only [step, Option.ite_none_right_eq_some] at hstep
    obtain rfl := Option.some.inj hstep.2
    exact h.settleStartup_refuses hphase
  | failListener =>
    simp only [step, Option.ite_none_right_eq_some] at hstep
    obtain rfl := Option.some.inj hstep.2
    exact shutdown_refuses hphase
  | connection c =>
    simp only [step, Option.ite_none_right_eq_some] at hstep
    obtain rfl := Option.some.inj hstep.2
    unfold State.handleConnection
    split <;> exact ⟨rfl, hphase⟩
  | closeConnection c =>
    simp only [step, Option.ite_none_right_eq_some] at hstep
    obtain rfl := Option.some.inj hstep.2
    exact ⟨rfl, hphase⟩
  | destroyConnection c =>
    obtain rfl := Option.some.inj hstep
    exact ⟨rfl, hphase⟩
  | data c chunk =>
    simp only [step, Option.ite_none_right_eq_some] at hstep
    obtain rfl := Option.some.inj hstep.2
    exact handleData_refuses hphase c chunk
  | settleTask t response =>
    simp only [step, Option.ite_none_right_eq_some] at hstep
    obtain rfl := Option.some.inj hstep.2
    exact settleTask_refuses hphase t response
  | idle =>
    simp only [step, Option.ite_none_right_eq_some] at hstep
    obtain rfl := Option.some.inj hstep.2
    exact shutdown_refuses hphase
  | shutdown =>
    obtain rfl := Option.some.inj hstep
    exact shutdown_refuses hphase
  | finalize fails => exact finalize_refuses hphase hstep
  | settleBackend i fails =>
    simp only [step] at hstep
    split at hstep
    case h_1 =>
      simp only [Option.ite_none_right_eq_some] at hstep
      obtain rfl := Option.some.inj hstep.2
      exact ⟨rfl, hphase⟩
    case h_2 => cases hstep
  | disposeTelemetry fails =>
    simp only [step] at hstep
    split at hstep
    case h_1 =>
      obtain rfl := Option.some.inj hstep
      exact ⟨rfl, hphase⟩
    case h_2 => cases hstep
  | closedListener fails =>
    simp only [step, Option.ite_none_right_eq_some] at hstep
    obtain rfl := Option.some.inj hstep.2
    exact ⟨rfl, hphase⟩

-- -----
-- Runs
-- -----

structure DrainSafe (backends : Nat) (s : State) : Prop where
  drained : ∀ i, .shutdownBackend i ∈ s.attempts → s.tasks = []
  admission : s.phase = .stopping → ∀ event s', step backends s event = some s' →
    s'.admitted = s.admitted ∧ s'.phase = .stopping
  start : s.phase = .stopping → s.start = { s with starts := s.starts ++ [.rejected] }
  /-- Whatever of this failed. -/
  released : s.stopping = some .settled →
    (∀ path, s.owned.owns path = true → .unlink path ∈ s.attempts) ∧
    (s.listening = true → .closeListener ∈ s.attempts) ∧
    ∀ c ∈ s.accepted, c ∈ s.closed ∨ .destroy c ∈ s.attempts

theorem Inv.drainSafe (h : Inv s) : DrainSafe backends s where
  drained := fun i hmem => by
    obtain ⟨f, hf, hdrained⟩ := h.shut i hmem
    exact h.drained f hf hdrained
  admission := fun hphase _ _ hstep => h.step_refuses hphase hstep
  start := fun hphase => by
    obtain ⟨f, hf⟩ := Option.ne_none_iff_exists'.mp (h.phase.mp hphase)
    rw [State.start, hf]
  released := fun hsettled => by
    refine ⟨fun path howns => ?_, h.listener _ hsettled rfl, fun c hmem => ?_⟩
    · exact (h.paths _ hsettled rfl path howns).resolve_left nofun
    · refine (h.kept c hmem).resolve_left fun hconnected => ?_
      rw [h.disconnected _ hsettled rfl] at hconnected
      cases hconnected

theorem daemon_drainSafe {events : List Event} (hrun : run (step backends) initial events = some s) :
    DrainSafe backends s :=
  (Transitions.always (fun _ _ _ h hstep => step_inv h hstep) initial_inv hrun).drainSafe

/-- A request that is admitted before a shutdown, one that is not, and releases
that fail. -/
def requestedShutdown : List Event :=
  [.start, .acquire true true, .onListening, .settleStartup, .connection 4, .connection 5,
    .data 4 (lit "\x7b\"id\":1,\"action\":\"status\"\x7d\n\x7b\"id\":2,"),
    .data 4 (lit "\"action\":\"shutdown\"\x7d\n\x7b\"id\":3,\"action\":\"status\"\x7d\n"),
    .finalize false, .settleTask 0 none, .settleTask 1 none, .start, .finalize false,
    .finalize true, .closeConnection 5, .finalize false, .settleBackend 0 true, .finalize false,
    .finalize true, .finalize false, .finalize true, .finalize true, .finalize false,
    .closedListener true, .disposeTelemetry true, .finalize false]

theorem requestedShutdown_drainSafe :
    ∃ s, run (step 1) initial requestedShutdown = some s ∧ s.stopping = some .settled ∧
      s.errors = 7 ∧ DrainSafe 1 s := by
  have hrun : (run (step 1) initial requestedShutdown).map (fun s => (s.stopping, s.errors)) =
      some (some .settled, 7) := by decide +kernel
  obtain ⟨s, hs, hsettled⟩ := Option.map_eq_some_iff.mp hrun
  obtain ⟨hstopping, herrors⟩ := Prod.mk.inj hsettled
  exact ⟨s, hs, hstopping, herrors, daemon_drainSafe hs⟩

/-- The listener of a startup that fails to listen is owned, and not closed. -/
def failedListening : List Event :=
  [.start, .acquire true true, .failListening, .settleStartup, .finalize false, .finalize false,
    .finalize false, .finalize false, .finalize false, .finalize false, .finalize false,
    .disposeTelemetry false, .finalize false]

theorem failedListening_notClosed :
    ¬ ∀ (backends : Nat) (events : List Event) (s : State),
      run (step backends) initial events = some s → s.stopping = some .settled →
        s.owned.listener = true → .closeListener ∈ s.attempts := by
  intro h
  have hrun : (run (step 0) initial failedListening).map
      (fun s => (s.stopping, s.owned.listener, decide (.closeListener ∈ s.attempts))) =
        some (some .settled, true, false) := by decide +kernel
  obtain ⟨s, hs, hsettled⟩ := Option.map_eq_some_iff.mp hrun
  simp only [Prod.mk.injEq, decide_eq_false_iff_not] at hsettled
  exact hsettled.2.2 (h 0 failedListening s hs hsettled.1 hsettled.2.1)

end State

end PiEnv.DevTools.LspDaemon
