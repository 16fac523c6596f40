import PiEnv.Subagent.Control

/-!
# What the supervisor of subagent runs keeps

Between two calls the counters and the set of writers are those of the active
runs, nothing that could start waits, every acquire is settled once or still
waits, and what the history says of a shutdown is in order.
-/

namespace PiEnv.Subagent.Control

open Js

-- -----
-- What is promised
-- -----

def Observation.settles (i : Nat) : Observation → Bool
  | .rejected j _ => j = i
  | .granted j => j = i
  | _ => false

/-- How often an acquire was resolved or rejected. -/
def settlements (i : Nat) (history : List Observation) : Nat := history.countP (·.settles i)

def waiting (i : Nat) (pending : List PendingAdmission) : Nat := pending.countP (·.acquire = i)

/-- No lease is granted after a shutdown began, and every lease that was granted
has been released when one completes. -/
def Lawful : List Observation → Prop
  | [] => True
  | o :: earlier =>
    (match o with
      | .granted _ => .shutdownBegan ∉ earlier
      | .shutdownCompleted _ => ∀ n, .granted n ∈ earlier → .released n ∈ earlier
      | _ => True) ∧ Lawful earlier

def Writes (active : JsMap Str ActiveRun) (workspace runId : Str) : Prop :=
  ∃ run, active.get runId = some run ∧ run.request.writes workspace

structure Admits (config : Config) (s : State) : Prop where
  active : s.active.size ≤ config.maxConcurrentRuns
  queued : s.active.size + s.pending.length ≤ config.maxConcurrentRuns + config.maxPendingRuns
  oneWriter : ∀ workspace runId runId',
    Writes s.active workspace runId → Writes s.active workspace runId' → runId = runId'
  writers : ∀ workspace,
    workspace ∈ s.activeWorkspaceWriters ↔ ∃ runId, Writes s.active workspace runId
  drained : ∀ p ∈ s.pending, s.canStart config p = false
  settled : ∀ i, settlements i s.history + waiting i s.pending = if i < s.acquires then 1 else 0
  lawful : Lawful s.history
  shutdown : .shutdownBegan ∈ s.history → s.closed = true ∧ s.pending = []

-- -----
-- Invariant
-- -----

/-- What holds also while the queue is drained. -/
structure Core (config : Config) (s : State) : Prop where
  active : s.active.size ≤ config.maxConcurrentRuns
  queued : s.active.size + s.pending.length ≤ config.maxConcurrentRuns + config.maxPendingRuns
  oneWriter : ∀ workspace runId runId',
    Writes s.active workspace runId → Writes s.active workspace runId' → runId = runId'
  writers : ∀ workspace,
    workspace ∈ s.activeWorkspaceWriters ↔ ∃ runId, Writes s.active workspace runId
  settled : ∀ i, settlements i s.history + waiting i s.pending = if i < s.acquires then 1 else 0
  lawful : Lawful s.history
  shutdown : .shutdownBegan ∈ s.history → s.closed = true
  closed : s.closed = true → s.pending = []
  granted : ∀ n, .granted n ∈ s.history → .released n ∈ s.history ∨
    ∃ runId run, s.active.get runId = some run ∧ run.lease = n
  released : ∀ n, .released n ∈ s.history → .granted n ∈ s.history
  runs : ∀ runId run, s.active.get runId = some run →
    s.leases.get run.lease = some runId ∧ .granted run.lease ∈ s.history ∧
      .released run.lease ∉ s.history
  awaited : ∀ leases, s.awaited = some leases → s.closed = true ∧
    ∀ runId run, s.active.get runId = some run → run.lease ∈ leases

structure Inv (config : Config) (s : State) : Prop extends Core config s where
  drained : ∀ p ∈ s.pending, s.canStart config p = false

variable {config : Config} {s s' : State}

theorem get_initial (runId : Str) : initial.active.get runId = none := JsMap.get_empty

theorem not_writes_initial (workspace runId : Str) : ¬ Writes initial.active workspace runId := by
  rintro ⟨run, hrun, -⟩
  cases (get_initial runId).symm.trans hrun

theorem initial_inv : Inv config initial where
  active := Nat.zero_le _
  queued := Nat.zero_le _
  oneWriter workspace runId _ h := absurd h (not_writes_initial workspace runId)
  writers workspace := ⟨nofun, fun ⟨runId, h⟩ => absurd h (not_writes_initial workspace runId)⟩
  settled _ := rfl
  lawful := trivial
  shutdown := nofun
  closed _ := rfl
  granted := nofun
  released := nofun
  runs runId _ h := by cases (get_initial runId).symm.trans h
  awaited := nofun
  drained := nofun

theorem Inv.admits (hs : Inv config s) : Admits config s where
  active := hs.active
  queued := hs.queued
  oneWriter := hs.oneWriter
  writers := hs.writers
  drained := hs.drained
  settled := hs.settled
  lawful := hs.lawful
  shutdown hbegan := ⟨hs.shutdown hbegan, hs.closed (hs.shutdown hbegan)⟩

theorem settlements_pos {i : Nat} {o : Observation} {history : List Observation} (h : o ∈ history)
    (ho : o.settles i = true) : 0 < settlements i history := List.countP_pos_iff.mpr ⟨o, h, ho⟩

/-- Whoever waits has been neither granted nor rejected. -/
theorem Core.unsettled (hs : Core config s) {p : PendingAdmission} (hp : p ∈ s.pending) :
    p.acquire < s.acquires ∧ .granted p.acquire ∉ s.history := by
  have hwaiting : 0 < waiting p.acquire s.pending := List.countP_pos_iff.mpr ⟨p, hp, by simp⟩
  have hsettled := hs.settled p.acquire
  have hlt : p.acquire < s.acquires := by
    by_contra hge
    rw [if_neg hge] at hsettled
    omega
  rw [if_pos hlt] at hsettled
  refine ⟨hlt, fun hgranted => ?_⟩
  have hpos := settlements_pos (i := p.acquire) hgranted (by simp [Observation.settles])
  omega

/-- Two active runs with one lease are one run. -/
theorem Core.lease_unique (hs : Core config s) {runId runId' : Str} {run run' : ActiveRun}
    (h : s.active.get runId = some run) (h' : s.active.get runId' = some run')
    (hlease : run.lease = run'.lease) : runId = runId' := by
  have hget := (hs.runs runId run h).1
  have hget' := (hs.runs runId' run' h').1
  rw [hlease] at hget
  exact Option.some.inj (hget.symm.trans hget')

-- -----
-- Rejections
-- -----

/-- An acquire leaves the queue, or comes, and is rejected. -/
theorem Core.reject (hs : Core config s) (acquires : Nat) {i : Nat} {reason : Reason}
    {pending : List PendingAdmission} (hlength : pending.length ≤ s.pending.length)
    (hclosed : s.pending = [] → pending = [])
    (hsettled : ∀ j, settlements j s.history + (if i = j then 1 else 0) + waiting j pending =
      if j < acquires then 1 else 0) :
    Core config ({ s with pending, acquires }.observe (.rejected i reason)) where
  active := hs.active
  queued := (Nat.add_le_add_left hlength _).trans hs.queued
  oneWriter := hs.oneWriter
  writers := hs.writers
  settled j := by
    refine Eq.trans ?_ (hsettled j)
    simp only [State.observe, settlements, List.countP_cons, Observation.settles, decide_eq_true_eq]
  lawful := ⟨trivial, hs.lawful⟩
  shutdown hbegan := hs.shutdown (by simpa [State.observe] using hbegan)
  closed h := hclosed (hs.closed h)
  granted n hn := by
    rcases hs.granted n (by simpa [State.observe] using hn) with h | h
    · exact .inl (List.mem_cons_of_mem _ h)
    · exact .inr h
  released n hn := List.mem_cons_of_mem _ (hs.released n (by simpa [State.observe] using hn))
  runs runId run hrun := by
    obtain ⟨hlease, hgranted, hreleased⟩ := hs.runs runId run hrun
    exact ⟨hlease, List.mem_cons_of_mem _ hgranted, by simpa [State.observe] using hreleased⟩
  awaited := hs.awaited

-- -----
-- Grants
-- -----

theorem writes_set {active : JsMap Str ActiveRun} {runId : Str} (run : ActiveRun)
    (workspace other : Str) (hnew : active.get runId = none) :
    Writes (active.set runId run) workspace other ↔
      (other = runId ∧ run.request.writes workspace) ∨ Writes active workspace other := by
  unfold Writes
  rw [JsMap.get_set]
  by_cases hother : other = runId
  · subst hother
    simp [hnew]
  · simp [hother]

/-- A request that may start is started under an id that no active run has. -/
theorem Core.start (hs : Core config s) {p : PendingAdmission} {rest : List PendingAdmission}
    (hperm : s.pending.Perm (p :: rest)) (hsize : s.active.size < config.maxConcurrentRuns)
    (hcan : s.canStart config p = true) (hnew : s.active.get p.runId = none) :
    Core config ({ s with pending := rest }.start p) := by
  have hp : p ∈ s.pending := hperm.symm.subset List.mem_cons_self
  obtain ⟨hlt, hungranted⟩ := hs.unsettled hp
  have hopen : s.closed = false := by
    by_contra hclosed
    rw [hs.closed (Bool.not_eq_false _ ▸ hclosed)] at hp
    cases hp
  have hwriters : p.request.workspaceAccess = .write →
      p.request.cwd ∉ s.activeWorkspaceWriters := by
    intro hwrite
    simpa [State.canStart, hwrite, Nat.not_le.mpr hsize] using hcan
  have hunreleased : .released p.acquire ∉ s.history := fun h => hungranted (hs.released _ h)
  have hwrites (workspace other : Str) :=
    writes_set ⟨p.acquire, p.request, zeroUsage, false⟩ workspace other hnew
  refine ⟨?_, ?_, ?_, ?_, ?_, ?_, ?_, ?_, ?_, ?_, ?_, ?_⟩
  · rw [State.start, State.observe, JsMap.size_set_new hnew]
    exact hsize
  · have hqueued := hs.queued
    rw [hperm.length_eq, List.length_cons] at hqueued
    simp only [State.start, State.observe, JsMap.size_set_new hnew]
    omega
  · intro workspace runId runId' h h'
    rcases (hwrites _ _).mp h with ⟨rfl, hw⟩ | hold
    · rcases (hwrites _ _).mp h' with ⟨rfl, -⟩ | hold'
      · rfl
      · exact absurd ((hs.writers workspace).mpr ⟨_, hold'⟩) (hw.2 ▸ hwriters hw.1)
    · rcases (hwrites _ _).mp h' with ⟨rfl, hw⟩ | hold'
      · exact absurd ((hs.writers workspace).mpr ⟨_, hold⟩) (hw.2 ▸ hwriters hw.1)
      · exact hs.oneWriter workspace runId runId' hold hold'
  · intro workspace
    have hex : (∃ runId, Writes (State.start { s with pending := rest } p).active workspace runId) ↔
        p.request.writes workspace ∨ ∃ runId, Writes s.active workspace runId := by
      constructor
      · rintro ⟨runId, h⟩
        rcases (hwrites _ _).mp h with ⟨-, hw⟩ | hold
        · exact .inl hw
        · exact .inr ⟨runId, hold⟩
      · rintro (hw | ⟨runId, h⟩)
        · exact ⟨p.runId, (hwrites _ _).mpr (.inl ⟨rfl, hw⟩)⟩
        · exact ⟨runId, (hwrites _ _).mpr (.inr h)⟩
    rw [hex, ← hs.writers workspace]
    simp only [State.start, State.observe, Request.writes]
    split
    · rename_i hwrite
      rw [List.mem_insert_iff]
      simp [hwrite, eq_comm]
    · rename_i hread
      simp [hread]
  · intro i
    have hsettled := hs.settled i
    have hcount : waiting i s.pending = waiting i (p :: rest) := hperm.countP_eq _
    rw [hcount] at hsettled
    refine Eq.trans ?_ hsettled
    simp only [State.start, State.observe, settlements, waiting, List.countP_cons,
      Observation.settles, decide_eq_true_eq]
    omega
  · refine ⟨fun hbegan => ?_, hs.lawful⟩
    rw [hs.shutdown hbegan] at hopen
    cases hopen
  · intro hbegan
    exact hs.shutdown (by simpa [State.start, State.observe] using hbegan)
  · intro hclosed
    exact absurd hopen (by simpa [State.start, State.observe] using hclosed)
  · intro n hn
    simp only [State.start, State.observe, List.mem_cons, reduceCtorEq, false_or,
      Observation.granted.injEq] at hn ⊢
    rcases hn with rfl | hn
    · exact .inr ⟨p.runId, _, by rw [JsMap.get_set, if_pos rfl], rfl⟩
    · rcases hs.granted n hn with h | ⟨runId, run, hrun, hlease⟩
      · exact .inl h
      · refine .inr ⟨runId, run, ?_, hlease⟩
        rw [JsMap.get_set, if_neg, hrun]
        rintro rfl
        rw [hnew] at hrun
        cases hrun
  · intro n hn
    exact List.mem_cons_of_mem _ (hs.released n (by simpa [State.start, State.observe] using hn))
  · intro runId run hrun
    simp only [State.start, State.observe, JsMap.get_set, List.mem_cons, reduceCtorEq, false_or,
      Observation.granted.injEq] at hrun ⊢
    split at hrun
    · rename_i hrunId
      obtain rfl := Option.some.inj hrun
      exact ⟨by rw [if_pos rfl, hrunId], .inl rfl, hunreleased⟩
    · obtain ⟨hlease, hgranted, hreleased⟩ := hs.runs runId run hrun
      refine ⟨?_, .inr hgranted, hreleased⟩
      rw [if_neg, hlease]
      rintro heq
      exact hungranted (heq ▸ hgranted)
  · intro leases hawaited
    rw [(hs.awaited leases hawaited).1] at hopen
    cases hopen

-- -----
-- Draining
-- -----

/-- What a turn of the loop does with the first request that may start. -/
theorem drainOnce_cases (h : s.drainOnce config = some s') :
    ∃ p rest, s.active.size < config.maxConcurrentRuns ∧ s.canStart config p = true ∧
      s.pending.Perm (p :: rest) ∧
      (s' = { s with pending := rest }.observe (.rejected p.acquire .aborted) ∨
        s' = { s with pending := rest }.start p) := by
  unfold State.drainOnce at h
  split at h
  case isFalse => cases h
  rename_i hsize
  split at h
  case h_1 => cases h
  rename_i p hfind
  obtain ⟨hcan, before, after, hpending, hbefore⟩ := List.find?_eq_some_iff_append.mp hfind
  have herase : s.pending.eraseP (s.canStart config) = before ++ after := by
    rw [hpending, List.eraseP_append_right _ (by simpa using hbefore),
      List.eraseP_cons_of_pos hcan]
  rw [herase] at h
  refine ⟨p, before ++ after, hsize, hcan, ?_, ?_⟩
  · rw [hpending]
    exact List.perm_middle
  · split at h
    · exact .inl (Option.some.inj h).symm
    · exact .inr (Option.some.inj h).symm

/-- A request that waits is rejected. -/
theorem Core.reject_pending (hs : Core config s) {p : PendingAdmission} {reason : Reason}
    {rest : List PendingAdmission} (hperm : s.pending.Perm (p :: rest)) :
    Core config ({ s with pending := rest }.observe (.rejected p.acquire reason)) := by
  refine hs.reject s.acquires ?_ ?_ ?_
  · rw [hperm.length_eq]
    exact Nat.le_succ _
  · intro hnil
    rw [hnil] at hperm
    cases hperm.length_eq
  · intro i
    have hcount : waiting i s.pending = waiting i (p :: rest) := hperm.countP_eq _
    rw [← hs.settled i, hcount]
    simp only [waiting, List.countP_cons, decide_eq_true_eq]
    omega

theorem drainOnce_collided (h : s.drainOnce config = some s') (hc : s'.collided = false) :
    s.collided = false := by
  obtain ⟨p, rest, -, -, -, rfl | rfl⟩ := drainOnce_cases h
  · exact hc
  · exact (Bool.or_eq_false_iff.mp hc).1

theorem drainOnce_core (hs : Core config s) (h : s.drainOnce config = some s')
    (hc : s'.collided = false) : Core config s' := by
  obtain ⟨p, rest, hsize, hcan, hperm, rfl | rfl⟩ := drainOnce_cases h
  · exact hs.reject_pending hperm
  · have hnew : s.active.get p.runId = none := by
      simpa [State.start, State.observe, JsMap.has] using (Bool.or_eq_false_iff.mp hc).2
    exact hs.start hperm hsize hcan hnew

theorem drainOnce_pending (h : s.drainOnce config = some s') :
    s'.pending.length + 1 = s.pending.length := by
  obtain ⟨p, rest, -, -, hperm, rfl | rfl⟩ := drainOnce_cases h <;>
    rw [hperm.length_eq] <;> rfl

theorem drainLoop_collided (fuel : Nat) (hc : (s.drainLoop config fuel).collided = false) :
    s.collided = false := by
  induction fuel generalizing s with
  | zero => exact hc
  | succ fuel ih =>
    rw [State.drainLoop] at hc
    split at hc
    · exact hc
    · rename_i s' honce
      exact drainOnce_collided honce (ih hc)

theorem drainLoop_core (hs : Core config s) (fuel : Nat)
    (hc : (s.drainLoop config fuel).collided = false) : Core config (s.drainLoop config fuel) := by
  induction fuel generalizing s with
  | zero => exact hs
  | succ fuel ih =>
    rw [State.drainLoop] at hc ⊢
    split at hc
    · exact hs
    · rename_i s' honce
      exact ih (drainOnce_core hs honce (drainLoop_collided fuel hc)) hc

/-- The loop ends by itself: each turn takes one request from the queue. -/
theorem drainLoop_done (fuel : Nat) (h : s.pending.length ≤ fuel) :
    (s.drainLoop config fuel).drainOnce config = none := by
  induction fuel generalizing s with
  | zero =>
    have hnil : s.pending = [] := List.length_eq_zero_iff.mp (Nat.le_zero.mp h)
    simp [State.drainLoop, State.drainOnce, hnil]
  | succ fuel ih =>
    rw [State.drainLoop]
    split
    · assumption
    · rename_i s' honce
      have hpending := drainOnce_pending honce
      exact ih (by omega)

theorem drained_of_done (h : s.drainOnce config = none) :
    ∀ p ∈ s.pending, s.canStart config p = false := by
  intro p hp
  unfold State.drainOnce at h
  split at h
  · split at h
    · rename_i hfind
      simpa using List.find?_eq_none.mp hfind p hp
    · split at h <;> cases h
  · rename_i hfull
    rw [State.canStart, if_pos (Nat.not_lt.mp hfull)]

theorem drain_collided (hc : (s.drain config).collided = false) : s.collided = false := by
  unfold State.drain at hc
  split at hc
  · exact hc
  · exact drainLoop_collided _ hc

theorem drain_inv (hs : Core config s) (hc : (s.drain config).collided = false) :
    Inv config (s.drain config) := by
  unfold State.drain at hc ⊢
  split at hc
  · rename_i hclosed
    rw [if_pos hclosed]
    refine ⟨hs, fun p hp => ?_⟩
    rw [hs.closed hclosed] at hp
    cases hp
  · rename_i hopen
    rw [if_neg hopen]
    exact ⟨drainLoop_core hs _ hc, drained_of_done (drainLoop_done _ (le_refl _))⟩

-- -----
-- The operations
-- -----

theorem acquire_collided {disk : Disk} {request : Request} {uuid : Str}
    (hc : (s.acquire config disk request uuid).collided = false) : s.collided = false := by
  unfold State.acquire at hc
  simp only at hc
  split at hc
  · exact hc
  · have hbefore := drain_collided hc
    exact hbefore

/-- An acquire that comes is pending. -/
theorem Core.arrive (hs : Core config s) {runId : Str} {request : Request}
    (hopen : s.closed = false)
    (hroom : s.active.size + s.pending.length < config.maxPendingRuns + config.maxConcurrentRuns) :
    Core config { s with
      acquires := s.acquires + 1
      pending := s.pending ++ [⟨s.acquires, runId, request⟩] } where
  active := hs.active
  queued := by
    rw [List.length_append]
    simp only [List.length_singleton]
    omega
  oneWriter := hs.oneWriter
  writers := hs.writers
  settled i := by
    have hsettled := hs.settled i
    simp only [waiting, List.countP_append, List.countP_singleton, decide_eq_true_eq] at hsettled ⊢
    by_cases hi : s.acquires = i
    · subst hi
      rw [if_neg (Nat.lt_irrefl _)] at hsettled
      rw [if_pos rfl, if_pos (Nat.lt_succ_self _)]
      omega
    · rw [if_neg hi]
      have hiff : i < s.acquires + 1 ↔ i < s.acquires := by omega
      simp only [hiff]
      omega
  lawful := hs.lawful
  shutdown := hs.shutdown
  closed hclosed := by
    rw [hopen] at hclosed
    cases hclosed
  granted := hs.granted
  released := hs.released
  runs := hs.runs
  awaited := hs.awaited

theorem rejection_none {request : Request} (h : s.rejection config request = none) :
    s.closed = false ∧
      s.active.size + s.pending.length < config.maxPendingRuns + config.maxConcurrentRuns := by
  unfold State.rejection at h
  split at h
  · cases h
  rename_i hopen
  split at h
  · cases h
  split at h
  · cases h
  rename_i hroom
  exact ⟨Bool.not_eq_true _ ▸ hopen, Nat.not_le.mp hroom⟩

theorem acquire_inv (hs : Inv config s) {disk : Disk} {request : Request} {uuid : Str}
    (hc : (s.acquire config disk request uuid).collided = false) :
    Inv config (s.acquire config disk request uuid) := by
  unfold State.acquire at hc ⊢
  simp only at hc ⊢
  split
  · rename_i reason hreason
    refine ⟨hs.reject (s.acquires + 1) (le_refl _) id (fun i => ?_), hs.drained⟩
    have hsettled := hs.settled i
    by_cases hi : s.acquires = i
    · subst hi
      rw [if_neg (Nat.lt_irrefl _)] at hsettled
      rw [if_pos rfl, if_pos (Nat.lt_succ_self _)]
      omega
    · have hiff : i < s.acquires + 1 ↔ i < s.acquires := by omega
      simp only [if_neg hi, hiff]
      omega
  · rename_i hnone
    rw [hnone] at hc
    obtain ⟨hopen, hroom⟩ := rejection_none hnone
    exact drain_inv (hs.arrive hopen hroom) hc

theorem waiting_filter (i j : Nat) (pending : List PendingAdmission) :
    waiting j (pending.filter (·.acquire ≠ i)) = if i = j then 0 else waiting j pending := by
  unfold waiting
  rw [List.countP_filter]
  by_cases hij : i = j
  · subst hij
    rw [if_pos rfl, List.countP_eq_zero]
    simp
  · rw [if_neg hij]
    refine List.countP_congr fun p _ => ?_
    simp only [decide_eq_true_eq, Bool.and_eq_true, and_iff_left_iff_imp]
    rintro rfl
    exact Ne.symm hij

theorem onAbort_inv (hs : Inv config s) {i : Nat} (hlistening : s.listening i = true) :
    Inv config (s.onAbort i) := by
  obtain ⟨p, hp, hlistens⟩ := List.any_eq_true.mp hlistening
  have hi : p.acquire = i := by simpa using (Bool.and_eq_true_iff.mp hlistens).1
  refine ⟨hs.reject s.acquires (List.length_filter_le _ _) ?_ ?_, ?_⟩
  · intro hnil
    rw [hnil]
    rfl
  · intro j
    have hsettled := hs.settled j
    rw [waiting_filter]
    by_cases hij : i = j
    · subst hij
      have hpos : 0 < waiting i s.pending := List.countP_pos_iff.mpr ⟨p, hp, by simpa using hi⟩
      have hlt : i < s.acquires := hi ▸ (hs.unsettled hp).1
      rw [if_pos hlt] at hsettled
      rw [if_pos rfl, if_pos rfl, if_pos hlt]
      omega
    · rw [if_neg hij, if_neg hij]
      exact hsettled
  · intro q hq
    exact hs.drained q (List.mem_filter.mp hq).1

/-- Maps of the same runs, which may differ in usage and in who has aborted. -/
structure SameRuns (before after : JsMap Str ActiveRun) : Prop where
  size : after.size = before.size
  runs : ∀ runId, (after.get runId).map (fun run => (run.lease, run.request)) =
    (before.get runId).map fun run => (run.lease, run.request)

theorem SameRuns.back {before after : JsMap Str ActiveRun} (h : SameRuns before after) {runId : Str}
    {run : ActiveRun} (hrun : after.get runId = some run) :
    ∃ old, before.get runId = some old ∧ old.lease = run.lease ∧ old.request = run.request := by
  have hruns := h.runs runId
  rw [hrun] at hruns
  obtain ⟨old, hold, heq⟩ := Option.map_eq_some_iff.mp hruns.symm
  exact ⟨old, hold, (Prod.mk.inj heq).1, (Prod.mk.inj heq).2⟩

theorem SameRuns.symm {before after : JsMap Str ActiveRun} (h : SameRuns before after) :
    SameRuns after before := ⟨h.size.symm, fun runId => (h.runs runId).symm⟩

theorem SameRuns.writes {before after : JsMap Str ActiveRun} (h : SameRuns before after)
    (workspace runId : Str) : Writes after workspace runId ↔ Writes before workspace runId := by
  constructor
  · rintro ⟨run, hrun, hwrites⟩
    obtain ⟨old, hold, -, hrequest⟩ := h.back hrun
    exact ⟨old, hold, hrequest ▸ hwrites⟩
  · rintro ⟨run, hrun, hwrites⟩
    obtain ⟨new, hnew, -, hrequest⟩ := h.symm.back hrun
    exact ⟨new, hnew, hrequest ▸ hwrites⟩

theorem sameRuns_set {active : JsMap Str ActiveRun} {runId : Str} {run new : ActiveRun}
    (hrun : active.get runId = some run) (hlease : new.lease = run.lease)
    (hrequest : new.request = run.request) : SameRuns active (active.set runId new) := by
  refine ⟨JsMap.size_set (by simp [hrun]), fun other => ?_⟩
  rw [JsMap.get_set]
  split
  · rename_i hother
    rw [hother, hrun, Option.map_some, Option.map_some, hlease, hrequest]
  · rfl

theorem Core.touch (hs : Core config s) {active : JsMap Str ActiveRun} {totalUsage : UsageStats}
    {usageByRun : JsMap Str UsageStats} (h : SameRuns s.active active) :
    Core config { s with active, totalUsage, usageByRun } where
  active := h.size.trans_le hs.active
  queued := by
    rw [h.size]
    exact hs.queued
  oneWriter workspace runId runId' hw hw' :=
    hs.oneWriter workspace runId runId' ((h.writes _ _).mp hw) ((h.writes _ _).mp hw')
  writers workspace := (hs.writers workspace).trans (exists_congr fun _ => (h.writes _ _).symm)
  settled := hs.settled
  lawful := hs.lawful
  shutdown := hs.shutdown
  closed := hs.closed
  granted n hn := by
    rcases hs.granted n hn with hreleased | ⟨runId, run, hrun, hlease⟩
    · exact .inl hreleased
    · obtain ⟨new, hnew, hsame, -⟩ := h.symm.back hrun
      exact .inr ⟨runId, new, hnew, hsame.trans hlease⟩
  released := hs.released
  runs runId run hrun := by
    obtain ⟨old, hold, hlease, -⟩ := h.back hrun
    exact hlease ▸ hs.runs runId old hold
  awaited leases hleases := by
    obtain ⟨hclosed, hawaited⟩ := hs.awaited leases hleases
    refine ⟨hclosed, fun runId run hrun => ?_⟩
    obtain ⟨old, hold, hlease, -⟩ := h.back hrun
    exact hlease ▸ hawaited runId old hold

theorem canStart_sameRuns {active : JsMap Str ActiveRun} {totalUsage : UsageStats}
    {usageByRun : JsMap Str UsageStats} (h : SameRuns s.active active) (p : PendingAdmission) :
    State.canStart config { s with active, totalUsage, usageByRun } p = s.canStart config p := by
  simp only [State.canStart, h.size]

theorem Inv.touch (hs : Inv config s) {active : JsMap Str ActiveRun} {totalUsage : UsageStats}
    {usageByRun : JsMap Str UsageStats} (h : SameRuns s.active active) :
    Inv config { s with active, totalUsage, usageByRun } :=
  ⟨hs.toCore.touch h, fun p hp => (canStart_sameRuns h p).trans (hs.drained p hp)⟩

theorem updateUsage_inv (hs : Inv config s) (runId : Str) (usage : UsageStats) :
    Inv config (s.updateUsage runId usage) := by
  unfold State.updateUsage
  split
  · exact hs
  · rename_i run hrun
    exact hs.touch (sameRuns_set hrun rfl rfl)

theorem deadline_inv (hs : Inv config s) (runId : Str) : Inv config (s.deadline runId) := by
  unfold State.deadline
  split
  · exact hs
  · rename_i run hrun
    exact hs.touch (sameRuns_set hrun rfl rfl)

-- -----
-- Releases
-- -----

theorem writes_delete {active : JsMap Str ActiveRun} {runId other workspace : Str} :
    Writes (active.delete runId) workspace other ↔ other ≠ runId ∧ Writes active workspace other := by
  unfold Writes
  rw [JsMap.get_delete]
  by_cases hother : other = runId <;> simp [hother]

/-- An active run is taken out and finished. -/
theorem Core.finish (hs : Core config s) {runId : Str} {run : ActiveRun}
    (hrun : s.active.get runId = some run) :
    Core config
      ({ s with
        active := s.active.delete runId
        activeWorkspaceWriters :=
          if run.request.workspaceAccess = WorkspaceAccess.write then
            s.activeWorkspaceWriters.filter (· ≠ run.request.cwd)
          else s.activeWorkspaceWriters }.observe (.released run.lease)) := by
  have hsize := JsMap.size_delete hrun
  refine ⟨?_, ?_, ?_, ?_, ?_, ?_, ?_, hs.closed, ?_, ?_, ?_, ?_⟩
  · have hactive := hs.active
    simp only [State.observe]
    omega
  · have hqueued := hs.queued
    simp only [State.observe]
    omega
  · intro workspace other other' h h'
    exact hs.oneWriter workspace other other' (writes_delete.mp h).2 (writes_delete.mp h').2
  · intro workspace
    have hex : (∃ other, Writes (s.active.delete runId) workspace other) ↔
        (∃ other, Writes s.active workspace other) ∧ ¬ run.request.writes workspace := by
      constructor
      · rintro ⟨other, h⟩
        obtain ⟨hne, hother⟩ := writes_delete.mp h
        refine ⟨⟨other, hother⟩, fun hwrites => hne ?_⟩
        exact hs.oneWriter workspace other runId hother ⟨run, hrun, hwrites⟩
      · rintro ⟨⟨other, h⟩, hnot⟩
        refine ⟨other, writes_delete.mpr ⟨?_, h⟩⟩
        rintro rfl
        obtain ⟨run', hrun', hwrites⟩ := h
        obtain rfl := Option.some.inj (hrun.symm.trans hrun')
        exact hnot hwrites
    refine Iff.trans ?_ hex.symm
    rw [← hs.writers workspace]
    simp only [State.observe, Request.writes]
    split
    · rename_i hwrite
      simp only [List.mem_filter, decide_eq_true_eq, hwrite, true_and]
      exact and_congr_right fun _ => not_congr eq_comm
    · rename_i hread
      simp [hread]
  · intro i
    refine Eq.trans ?_ (hs.settled i)
    simp [State.observe, settlements, Observation.settles]
  · exact ⟨trivial, hs.lawful⟩
  · intro hbegan
    exact hs.shutdown (by simpa [State.observe] using hbegan)
  · intro n hn
    rcases hs.granted n (by simpa [State.observe] using hn) with hreleased | ⟨other, run', hother, hlease⟩
    · exact .inl (List.mem_cons_of_mem _ hreleased)
    · by_cases heq : other = runId
      · subst heq
        obtain rfl := Option.some.inj (hrun.symm.trans hother)
        rw [hlease]
        exact .inl List.mem_cons_self
      · refine .inr ⟨other, run', ?_, hlease⟩
        simp only [State.observe, JsMap.get_delete, if_neg heq]
        exact hother
  · intro n hn
    rcases List.mem_cons.mp hn with heq | hold
    · obtain rfl := Observation.released.inj heq
      exact List.mem_cons_of_mem _ (hs.runs runId run hrun).2.1
    · exact List.mem_cons_of_mem _ (hs.released n hold)
  · intro other run' hother
    simp only [State.observe, JsMap.get_delete] at hother
    split at hother
    · cases hother
    rename_i hne
    obtain ⟨hlease, hgranted, hreleased⟩ := hs.runs other run' hother
    refine ⟨hlease, List.mem_cons_of_mem _ hgranted, fun hmem => ?_⟩
    rcases List.mem_cons.mp hmem with heq | hold
    · exact hne (hs.lease_unique hother hrun (Observation.released.inj heq))
    · exact hreleased hold
  · intro leases hleases
    obtain ⟨hclosed, hawaited⟩ := hs.awaited leases hleases
    refine ⟨hclosed, fun other run' hother => ?_⟩
    simp only [State.observe, JsMap.get_delete] at hother
    split at hother
    · cases hother
    · exact hawaited other run' hother

theorem release_inv (hs : Inv config s) (runId : Str) (usage : Option UsageStats)
    (hc : (s.release config runId usage).collided = false) :
    Inv config (s.release config runId usage) := by
  unfold State.release at hc ⊢
  split
  · exact hs
  rename_i run hrun
  rw [hrun] at hc
  simp only at hc ⊢
  cases usage with
  | none => exact drain_inv (hs.finish hrun) hc
  | some usage =>
    have hupdated : (s.updateUsage runId usage).active.get runId = some { run with usage } := by
      simp [State.updateUsage, hrun, JsMap.get_set]
    have hfinish := (updateUsage_inv hs runId usage).finish hupdated
    exact drain_inv hfinish hc

theorem updateUsage_collided (runId : Str) (usage : UsageStats) :
    (s.updateUsage runId usage).collided = s.collided := by
  unfold State.updateUsage
  split <;> rfl

theorem release_collided {runId : Str} {usage : Option UsageStats}
    (hc : (s.release config runId usage).collided = false) : s.collided = false := by
  unfold State.release at hc
  split at hc
  · exact hc
  · have hbefore := drain_collided hc
    cases usage with
    | none => exact hbefore
    | some usage => exact (updateUsage_collided runId usage).symm.trans hbefore

-- -----
-- Shutdown
-- -----

theorem sameRuns_mapValues (active : JsMap Str ActiveRun) :
    SameRuns active (active.mapValues fun run => { run with aborted := true }) := by
  refine ⟨JsMap.size_mapValues, fun runId => ?_⟩
  rw [JsMap.get_mapValues, Option.map_map]
  rfl

/-- The rejections of all that wait, the last first. -/
def dismissals (pending : List PendingAdmission) : List Observation :=
  pending.reverse.map fun p => .rejected p.acquire .closed

theorem mem_dismissals {o : Observation} {pending : List PendingAdmission}
    {history : List Observation} (ho : ∀ i reason, o ≠ .rejected i reason) :
    o ∈ dismissals pending ++ history ↔ o ∈ history := by
  refine ⟨fun h => ?_, List.mem_append_right _⟩
  rcases List.mem_append.mp h with hnew | hold
  · obtain ⟨p, -, rfl⟩ := List.mem_map.mp hnew
    exact absurd rfl (ho _ _)
  · exact hold

theorem lawful_dismissals {pending : List PendingAdmission} {history : List Observation}
    (h : Lawful history) : Lawful (dismissals pending ++ history) := by
  unfold dismissals
  induction pending.reverse with
  | nil => exact h
  | cons p rest ih => exact ⟨trivial, ih⟩

theorem settlements_dismissals (i : Nat) (pending : List PendingAdmission)
    (history : List Observation) :
    settlements i (dismissals pending ++ history) = settlements i history + waiting i pending := by
  have hmap : (dismissals pending).countP (·.settles i) = waiting i pending := by
    rw [dismissals, List.countP_map, List.countP_reverse]
    rfl
  rw [settlements, List.countP_append, hmap]
  exact Nat.add_comm _ _

theorem shutdown_inv (hs : Inv config s) : Inv config s.shutdown := by
  unfold State.shutdown
  split
  · exact hs
  rename_i hopen
  have hsame := sameRuns_mapValues s.active
  have hmem {o : Observation} (ho : ∀ i reason, o ≠ .rejected i reason) (ho' : o ≠ .shutdownBegan) :
      o ∈ dismissals s.pending ++ .shutdownBegan :: s.history ↔ o ∈ s.history := by
    rw [mem_dismissals ho, List.mem_cons, or_iff_right ho']
  have hgranted (n : Nat) := hmem (o := .granted n) nofun nofun
  have hreleased (n : Nat) := hmem (o := .released n) nofun nofun
  refine ⟨⟨?_, ?_, ?_, ?_, ?_, ?_, fun _ => rfl, fun _ => rfl, ?_, ?_, ?_, ?_⟩, nofun⟩
  · exact hsame.size.trans_le hs.active
  · exact hsame.size.trans_le ((Nat.le_add_right _ _).trans hs.queued)
  · intro workspace runId runId' h h'
    exact hs.oneWriter workspace runId runId' ((hsame.writes _ _).mp h) ((hsame.writes _ _).mp h')
  · intro workspace
    exact (hs.writers workspace).trans (exists_congr fun _ => (hsame.writes _ _).symm)
  · intro i
    have hcount := settlements_dismissals i s.pending (.shutdownBegan :: s.history)
    have hbegan : settlements i (.shutdownBegan :: s.history) = settlements i s.history := rfl
    refine Eq.trans ?_ (hs.settled i)
    exact hcount.trans (hbegan ▸ rfl)
  · exact lawful_dismissals ⟨trivial, hs.lawful⟩
  · intro n hn
    rcases hs.granted n ((hgranted n).mp hn) with hdone | ⟨runId, run, hrun, hlease⟩
    · exact .inl ((hreleased n).mpr hdone)
    · obtain ⟨new, hnew, hsameLease, -⟩ := hsame.symm.back hrun
      exact .inr ⟨runId, new, hnew, hsameLease.trans hlease⟩
  · intro n hn
    exact (hgranted n).mpr (hs.released n ((hreleased n).mp hn))
  · intro runId run hrun
    obtain ⟨old, hold, hlease, -⟩ := hsame.back hrun
    obtain ⟨hget, hwas, hnot⟩ := hs.runs runId old hold
    rw [← hlease]
    exact ⟨hget, (hgranted _).mpr hwas, fun h => hnot ((hreleased _).mp h)⟩
  · rintro _ ⟨⟩
    refine ⟨rfl, fun runId run hrun => ?_⟩
    obtain ⟨old, hold, hlease, -⟩ := hsame.back hrun
    rw [← hlease]
    exact List.mem_map_of_mem (List.mem_map_of_mem (JsMap.mem_of_get hold))

/-- When everything that a shutdown waits for is over, every lease has been released. -/
theorem all_released (hs : Core config s) (hfinished : s.finished = true) (n : Nat)
    (hn : .granted n ∈ s.history) : .released n ∈ s.history := by
  obtain ⟨leases, hleases, hall⟩ := (Option.any_eq_true _ _).mp hfinished
  rcases hs.granted n hn with hreleased | ⟨runId, run, hrun, -⟩
  · exact hreleased
  · have hmem := (hs.awaited leases hleases).2 runId run hrun
    have hreleased : .released run.lease ∈ s.history := by
      simpa using List.all_eq_true.mp hall run.lease hmem
    exact absurd hreleased (hs.runs runId run hrun).2.2

theorem shutdownCompleted_inv (hs : Inv config s) (hfinished : s.finished = true) (failed : Bool) :
    Inv config (s.observe (.shutdownCompleted failed)) := by
  have hmem {o : Observation} (ho : o ≠ .shutdownCompleted failed) :
      o ∈ .shutdownCompleted failed :: s.history ↔ o ∈ s.history := by
    rw [List.mem_cons, or_iff_right ho]
  have hgranted (n : Nat) := hmem (o := .granted n) nofun
  have hreleased (n : Nat) := hmem (o := .released n) nofun
  refine ⟨⟨hs.active, hs.queued, hs.oneWriter, hs.writers, hs.settled, ?_, ?_, hs.closed, ?_, ?_, ?_,
    hs.awaited⟩, hs.drained⟩
  · exact ⟨all_released hs.toCore hfinished, hs.lawful⟩
  · intro hbegan
    exact hs.shutdown (by simpa [State.observe] using hbegan)
  · intro n hn
    rw [State.observe, hreleased]
    exact hs.granted n ((hgranted n).mp hn)
  · intro n hn
    exact (hgranted n).mpr (hs.released n ((hreleased n).mp hn))
  · intro runId run hrun
    obtain ⟨hlease, hwas, hnot⟩ := hs.runs runId run hrun
    exact ⟨hlease, (hgranted _).mpr hwas, fun h => hnot ((hreleased _).mp h)⟩

-- -----
-- Steps and runs
-- -----

theorem step_collided {event : Event} (hstep : step config s event = some s')
    (hc : s'.collided = false) : s.collided = false := by
  cases event with
  | acquire disk request uuid =>
    obtain rfl := Option.some.inj hstep
    exact acquire_collided hc
  | signalled signal =>
    obtain rfl := Option.some.inj hstep
    exact hc
  | onAbort i =>
    obtain ⟨-, heq⟩ := Option.ite_none_right_eq_some.mp hstep
    obtain rfl := Option.some.inj heq
    exact hc
  | updateUsage lease usage =>
    obtain ⟨runId, -, rfl⟩ := Option.map_eq_some_iff.mp hstep
    exact (updateUsage_collided runId usage).symm.trans hc
  | release lease usage =>
    obtain ⟨runId, -, rfl⟩ := Option.map_eq_some_iff.mp hstep
    exact release_collided hc
  | deadline runId =>
    obtain rfl := Option.some.inj hstep
    unfold State.deadline at hc
    split at hc <;> exact hc
  | shutdown =>
    obtain rfl := Option.some.inj hstep
    unfold State.shutdown at hc
    split at hc <;> exact hc
  | shutdownCompleted failed =>
    obtain ⟨-, heq⟩ := Option.ite_none_right_eq_some.mp hstep
    obtain rfl := Option.some.inj heq
    exact hc

theorem step_inv (hs : Inv config s) {event : Event} (hstep : step config s event = some s')
    (hc : s'.collided = false) : Inv config s' := by
  cases event with
  | acquire disk request uuid =>
    obtain rfl := Option.some.inj hstep
    exact acquire_inv hs hc
  | signalled signal =>
    obtain rfl := Option.some.inj hstep
    exact ⟨⟨hs.active, hs.queued, hs.oneWriter, hs.writers, hs.settled, hs.lawful, hs.shutdown,
      hs.closed, hs.granted, hs.released, hs.runs, hs.awaited⟩, hs.drained⟩
  | onAbort i =>
    obtain ⟨hlistening, heq⟩ := Option.ite_none_right_eq_some.mp hstep
    obtain rfl := Option.some.inj heq
    exact onAbort_inv hs hlistening
  | updateUsage lease usage =>
    obtain ⟨runId, -, rfl⟩ := Option.map_eq_some_iff.mp hstep
    exact updateUsage_inv hs runId usage
  | release lease usage =>
    obtain ⟨runId, -, rfl⟩ := Option.map_eq_some_iff.mp hstep
    exact release_inv hs runId usage hc
  | deadline runId =>
    obtain rfl := Option.some.inj hstep
    exact deadline_inv hs runId
  | shutdown =>
    obtain rfl := Option.some.inj hstep
    exact shutdown_inv hs
  | shutdownCompleted failed =>
    obtain ⟨hfinished, heq⟩ := Option.ite_none_right_eq_some.mp hstep
    obtain rfl := Option.some.inj heq
    exact shutdownCompleted_inv hs (Bool.and_eq_true_iff.mp hfinished).1 failed

-- -----
-- Closing
-- -----

theorem updateUsage_closed (runId : Str) (usage : UsageStats) :
    (s.updateUsage runId usage).closed = s.closed := by
  unfold State.updateUsage
  split <;> rfl

theorem drainLoop_closed (fuel : Nat) : (s.drainLoop config fuel).closed = s.closed := by
  induction fuel generalizing s with
  | zero => rfl
  | succ fuel ih =>
    rw [State.drainLoop]
    split
    · rfl
    · rename_i s' honce
      rw [ih]
      obtain ⟨p, rest, -, -, -, rfl | rfl⟩ := drainOnce_cases honce <;> rfl

theorem drain_closed : (s.drain config).closed = s.closed := by
  unfold State.drain
  split
  · rfl
  · exact drainLoop_closed _

theorem release_closed (runId : Str) (usage : Option UsageStats) :
    (s.release config runId usage).closed = s.closed := by
  unfold State.release
  split
  · rfl
  · cases usage with
    | none => exact drain_closed
    | some usage => exact drain_closed.trans (updateUsage_closed runId usage)

/-- Nothing but a shutdown closes a supervisor. -/
theorem step_closed {event : Event} (hevent : event ≠ .shutdown)
    (hstep : step config s event = some s') : s'.closed = s.closed := by
  cases event with
  | acquire disk request uuid =>
    obtain rfl := Option.some.inj hstep
    unfold State.acquire
    simp only
    split
    · rfl
    · exact drain_closed
  | signalled signal =>
    obtain rfl := Option.some.inj hstep
    rfl
  | onAbort i =>
    obtain ⟨-, heq⟩ := Option.ite_none_right_eq_some.mp hstep
    obtain rfl := Option.some.inj heq
    rfl
  | updateUsage lease usage =>
    obtain ⟨runId, -, rfl⟩ := Option.map_eq_some_iff.mp hstep
    exact updateUsage_closed runId usage
  | release lease usage =>
    obtain ⟨runId, -, rfl⟩ := Option.map_eq_some_iff.mp hstep
    exact release_closed runId usage
  | deadline runId =>
    obtain rfl := Option.some.inj hstep
    unfold State.deadline
    split <;> rfl
  | shutdown => exact absurd rfl hevent
  | shutdownCompleted failed =>
    obtain ⟨-, heq⟩ := Option.ite_none_right_eq_some.mp hstep
    obtain rfl := Option.some.inj heq
    rfl

theorem rejection_open (h : s.closed = false) (request : Request) :
    s.rejection config request ≠ some .closed := by
  unfold State.rejection
  rw [if_neg (by simp [h])]
  split
  · nofun
  · split <;> nofun

-- -----
-- Runs
-- -----

/-- A workspace that is its own canonical key. -/
def plain : Disk := ⟨fun _ => none, fun _ => true⟩

def write (cwd : Str) (signal : Option Nat) : Event :=
  .acquire plain ⟨none, cwd, .write, signal⟩ cwd

/-- A reader overtakes a writer that waits; another is aborted, and a shutdown waits
for the writer that was let in. -/
def overtaking : List Event :=
  [write (lit "/a") none, .acquire plain ⟨none, lit "/a", .write, none⟩ (lit "second"),
    .acquire plain ⟨none, lit "/a", .read, none⟩ (lit "reader"), write (lit "/b") (some 7),
    .signalled 7, .onAbort 3, .updateUsage 0 ⟨1, 1, 0, 0, 0, 1⟩, .release 0 none, .deadline (lit "second"),
    .shutdown, .release 1 none, .release 2 none, .shutdownCompleted false]

end PiEnv.Subagent.Control
