import PiEnv.Subagent.Jobs

/-!
# The states of subagent jobs

Every write of a job goes on from the state it is in: a job that is terminal is
finished and done, one that is not is neither, and only a job that was cancelled
before its launch is terminal while its run is in flight.
-/

namespace PiEnv.Subagent.Jobs

open Js

-- -----
-- What is promised
-- -----

def Moves : SubagentJobStatus → SubagentJobStatus → Prop
  | .queued, next => next = .running ∨ terminal next = true
  | .running, next => next = .cancelling ∨ terminal next = true
  | .cancelling, next => terminal next = true
  | _, _ => False

/-- The statuses of a job follow one another as they may, it is finished and its
`done` completed, once, where the last of them is terminal. -/
structure SubagentJob.Proper (job : SubagentJob) : Prop where
  moves : job.statuses.IsChain fun later earlier => Moves earlier later
  status : job.statuses.head? = some job.status
  finished : job.finishedAt.isSome = terminal job.status
  done : job.completions = if terminal job.status then 1 else 0

def State.isTerminal (s : State) (j : Nat) : Bool := s.jobs[j]?.any (terminal ·.status)

structure Kept (s : State) : Prop where
  proper : ∀ (j : Nat) (job : SubagentJob), s.jobs[j]? = some job → job.Proper
  recorded : ∀ j, s.ledgerRecords.count j ≤ 1
  settled : ∀ settle ∈ s.settles, settle.resolved = true →
    ∀ j ∈ settle.known, s.isTerminal j = true

-- -----
-- Invariant
-- -----

structure SubagentJob.Sound (job : SubagentJob) : Prop extends job.Proper where
  inFlight : job.inFlight = true → terminal job.status = true → job.status = .cancelled

structure Inv (s : State) : Prop where
  sound : ∀ (j : Nat) (job : SubagentJob), s.jobs[j]? = some job → job.Sound
  recorded : ∀ j, s.ledgerRecords.count j ≤ if s.isTerminal j then 1 else 0
  awaited : ∀ settle ∈ s.settles, ∀ j ∈ settle.known, j ∈ settle.awaited ∨ s.isTerminal j = true
  settled : ∀ settle ∈ s.settles, settle.resolved = true →
    ∀ j ∈ settle.known, s.isTerminal j = true

/-- What every operation keeps: a terminal job stays terminal, and only terminal
jobs are no longer retained. -/
structure Keeps (s s' : State) : Prop where
  terminal : ∀ j, s.isTerminal j = true → s'.isTerminal j = true
  retained : ∀ j ∈ s.retained, j ∈ s'.retained ∨ s'.isTerminal j = true

variable {config : Config} {s s' : State} {j : Nat} {job : SubagentJob}

theorem initial_inv : Inv initial where
  sound j job hj := by
    rw [initial, List.getElem?_nil] at hj
    cases hj
  recorded j := Nat.zero_le _
  awaited settle hmem := absurd hmem List.not_mem_nil
  settled settle hmem := absurd hmem List.not_mem_nil

theorem Inv.kept (hs : Inv s) : Kept s where
  proper j job hj := (hs.sound j job hj).toProper
  recorded j := (hs.recorded j).trans (by split <;> decide)
  settled := hs.settled

theorem Keeps.refl (s : State) : Keeps s s := ⟨fun _ h => h, fun _ h => .inl h⟩

theorem Keeps.trans {s'' : State} (h : Keeps s s') (h' : Keeps s' s'') : Keeps s s'' := by
  refine ⟨fun j hj => h'.terminal j (h.terminal j hj), fun j hj => ?_⟩
  rcases h.retained j hj with hmem | hterminal
  · exact h'.retained j hmem
  · exact .inr (h'.terminal j hterminal)

/-- Nobody waits in vain for what becomes of another job. -/
theorem Inv.of_keeps (hs : Inv s) (hkeeps : Keeps s s') (hsettles : s'.settles = s.settles)
    (hsound : ∀ (j : Nat) (job : SubagentJob), s'.jobs[j]? = some job → job.Sound)
    (hrecorded : ∀ j, s'.ledgerRecords.count j ≤ if s'.isTerminal j then 1 else 0) : Inv s' where
  sound := hsound
  recorded := hrecorded
  awaited settle hmem j hj := by
    rcases hs.awaited settle (hsettles ▸ hmem) j hj with h | h
    · exact .inl h
    · exact .inr (hkeeps.terminal j h)
  settled settle hmem hresolved j hj :=
    hkeeps.terminal j (hs.settled settle (hsettles ▸ hmem) hresolved j hj)

theorem isTerminal_of (hj : s.jobs[j]? = some job) : s.isTerminal j = terminal job.status := by
  rw [State.isTerminal, hj]
  rfl

theorem put_getElem? (hj : s.jobs[j]? = some job) (new : SubagentJob) (i : Nat) :
    (s.jobs.set j new)[i]? = if i = j then some new else s.jobs[i]? := by
  split
  · rename_i hij
    rw [hij, List.getElem?_set_self (List.getElem?_eq_some_iff.mp hj).1]
  · rename_i hij
    rw [List.getElem?_set_ne (Ne.symm hij)]

/-- One job is written, and with it at most its record in the ledger. -/
theorem Inv.write (hs : Inv s) (hj : s.jobs[j]? = some job) {new : SubagentJob}
    (hjobs : s'.jobs = s.jobs.set j new) (hretained : s'.retained = s.retained)
    (hsettles : s'.settles = s.settles) (hsound : new.Sound)
    (hterminal : terminal job.status = true → terminal new.status = true)
    (hrecords : s'.ledgerRecords = s.ledgerRecords ∨
      s'.ledgerRecords = j :: s.ledgerRecords ∧ terminal job.status = false ∧
        terminal new.status = true) : Inv s' ∧ Keeps s s' := by
  have hget (i : Nat) : s'.jobs[i]? = if i = j then some new else s.jobs[i]? := by
    rw [hjobs, put_getElem? hj]
  have hother {i : Nat} (hij : i ≠ j) : s'.isTerminal i = s.isTerminal i := by
    rw [State.isTerminal, State.isTerminal, hget, if_neg hij]
  have hself : s'.isTerminal j = terminal new.status := isTerminal_of (by rw [hget, if_pos rfl])
  have hkeeps : Keeps s s' := by
    refine ⟨fun i hi => ?_, fun i hi => .inl (hretained ▸ hi)⟩
    by_cases hij : i = j
    · subst hij
      rw [hself]
      exact hterminal ((isTerminal_of hj).symm.trans hi)
    · rw [hother hij]
      exact hi
  refine ⟨hs.of_keeps hkeeps hsettles ?_ ?_, hkeeps⟩
  · intro i other hi
    rw [hget] at hi
    split at hi
    · obtain rfl := Option.some.inj hi
      exact hsound
    · exact hs.sound i other hi
  · intro i
    have hbefore := hs.recorded i
    by_cases hij : i = j
    · subst hij
      rw [isTerminal_of hj] at hbefore
      rw [hself]
      rcases hrecords with heq | ⟨heq, hopen, hnew⟩
      · rw [heq]
        refine hbefore.trans ?_
        by_cases hold : terminal job.status = true
        · rw [if_pos hold, if_pos (hterminal hold)]
        · rw [if_neg hold]
          exact Nat.zero_le _
      · rw [hopen] at hbefore
        rw [heq, List.count_cons_self, if_pos hnew]
        exact Nat.succ_le_succ hbefore
    · rw [hother hij]
      rcases hrecords with heq | ⟨heq, -, -⟩
      · rw [heq]
        exact hbefore
      · rw [heq, List.count_cons_of_ne (Ne.symm hij)]
        exact hbefore

-- -----
-- The operations
-- -----

theorem pruneTerminalJobs_inv (hs : Inv s) :
    Inv (s.pruneTerminalJobs config) ∧ Keeps s (s.pruneTerminalJobs config) := by
  have hkeeps : Keeps s (s.pruneTerminalJobs config) := by
    refine ⟨fun _ h => h, fun i hi => ?_⟩
    by_contra hnot
    obtain ⟨hpruned, hopen⟩ := not_or.mp hnot
    refine hpruned (List.mem_filter.mpr ⟨hi, ?_⟩)
    simp only [decide_eq_true_eq]
    intro hmem
    have hsorted := List.mem_of_mem_take hmem
    rw [List.mem_insertionSort, List.mem_filter] at hsorted
    exact hopen hsorted.2
  exact ⟨hs.of_keeps hkeeps rfl hs.sound hs.recorded, hkeeps⟩

theorem pruned (h : Inv s' ∧ Keeps s s') :
    Inv (s'.pruneTerminalJobs config) ∧ Keeps s (s'.pruneTerminalJobs config) :=
  ⟨(pruneTerminalJobs_inv h.1).1, h.2.trans (pruneTerminalJobs_inv h.1).2⟩

/-- The next status of a job that has not ended. -/
theorem SubagentJob.Proper.chain (h : job.Proper) {status : SubagentJobStatus}
    (hmoves : Moves job.status status) :
    (status :: job.statuses).IsChain fun later earlier => Moves earlier later := by
  have hmoves' := h.moves
  have hhead := h.status
  cases hstatuses : job.statuses with
  | nil =>
    rw [hstatuses] at hhead
    cases hhead
  | cons last rest =>
    rw [hstatuses] at hhead hmoves'
    obtain rfl := Option.some.inj hhead
    exact List.isChain_cons_cons.mpr ⟨hmoves, hmoves'⟩

theorem moves_terminal {status next : SubagentJobStatus} (h : terminal status = false)
    (hnext : terminal next = true) : Moves status next := by
  cases status with
  | queued => exact .inr hnext
  | running => exact .inr hnext
  | cancelling => exact hnext
  | _ => cases h

/-- A job as the callers of `finish` leave it. -/
structure Finishing (old job : SubagentJob) : Prop where
  opened : terminal old.status = false
  moves : job.statuses.IsChain fun later earlier => Moves earlier later
  status : job.statuses.head? = some job.status
  terminal : terminal job.status = true
  finished : job.finishedAt.isSome = true
  completions : job.completions = 0
  inFlight : job.inFlight = true → job.status = .cancelled

theorem finish_inv (hs : Inv s) {old : SubagentJob} (hj : s.jobs[j]? = some old)
    (h : Finishing old job) :
    Inv (s.finish config j job) ∧ Keeps s (s.finish config j job) := by
  have hsound : SubagentJob.Sound { job with listensTo := none, completions := job.completions + 1 } := by
    refine ⟨⟨h.moves, h.status, h.finished.trans h.terminal.symm, ?_⟩, fun hin _ => h.inFlight hin⟩
    rw [if_pos h.terminal, h.completions]
  unfold State.finish
  simp only
  split
  · exact pruned (hs.write hj rfl rfl rfl hsound (fun _ => h.terminal)
      (.inr ⟨rfl, h.opened, h.terminal⟩))
  · exact pruned (hs.write hj rfl rfl rfl hsound (fun _ => h.terminal) (.inl rfl))

theorem cancel_inv (hs : Inv s) (j now : Nat) :
    Inv (s.cancel config j now) ∧ Keeps s (s.cancel config j now) := by
  have hidle : Inv s ∧ Keeps s s := ⟨hs, .refl s⟩
  unfold State.cancel
  split
  case isFalse => exact hidle
  split
  case h_1 => exact hidle
  rename_i job hj
  have hsound := hs.sound j job hj
  split
  case h_1 hqueued =>
    have hopen : terminal job.status = false := by rw [hqueued]; rfl
    refine finish_inv hs hj ⟨hopen, ?_, rfl, rfl, rfl, ?_, fun _ => rfl⟩
    · exact hsound.toProper.chain (moves_terminal hopen rfl)
    · have hdone := hsound.done
      rw [hopen] at hdone
      exact hdone
  case h_2 hrunning =>
    have hmoves : Moves job.status .cancelling := by
      rw [hrunning]
      exact .inl rfl
    have hopen : terminal job.status = false := by rw [hrunning]; rfl
    have hfinished := hsound.finished
    have hdone := hsound.done
    rw [hopen] at hfinished hdone
    exact hs.write hj rfl rfl rfl
      ⟨⟨hsound.toProper.chain hmoves, rfl, hfinished, hdone⟩, nofun⟩
      (fun h => by rw [hopen] at h; cases h) (.inl rfl)
  case h_3 => exact hidle

theorem fork_inv (hs : Inv s) (j : Nat) : Inv (s.fork j) ∧ Keeps s (s.fork j) := by
  unfold State.fork
  split
  · exact ⟨hs, .refl s⟩
  rename_i job hj
  split
  · rename_i hqueued
    have hsound := hs.sound j job hj
    have hopen : terminal job.status = false := by rw [hqueued]; rfl
    refine hs.write hj rfl rfl rfl ⟨⟨hsound.moves, hsound.status, hsound.finished, hsound.done⟩, ?_⟩ id
      (.inl rfl)
    intro _ h
    replace h : terminal job.status = true := h
    rw [hopen] at h
    cases h
  · exact ⟨hs, .refl s⟩

theorem Inv.then {s'' : State} (h : Inv s' ∧ Keeps s s') (h' : Inv s' → Inv s'' ∧ Keeps s' s'') :
    Inv s'' ∧ Keeps s s'' :=
  ⟨(h' h.1).1, h.2.trans (h' h.1).2⟩

/-- A job that is new comes behind the others. -/
theorem add_inv (hs : Inv s) (hsound : job.Sound) : Inv (s.add job) ∧ Keeps s (s.add job) := by
  have hold (i : Nat) (h : s.isTerminal i = true) : (s.add job).isTerminal i = true := by
    obtain ⟨old, hi, hterminal⟩ := (Option.any_eq_true _ _).mp h
    refine (Option.any_eq_true _ _).mpr ⟨old, ?_, hterminal⟩
    exact (List.getElem?_append_left (List.getElem?_eq_some_iff.mp hi).1).trans hi
  have hkeeps : Keeps s (s.add job) := ⟨hold, fun i hi => .inl (List.mem_append_left _ hi)⟩
  refine ⟨hs.of_keeps hkeeps rfl ?_ ?_, hkeeps⟩
  · intro i other hi
    replace hi : (s.jobs ++ [job])[i]? = some other := hi
    rw [List.getElem?_append] at hi
    split at hi
    · exact hs.sound i other hi
    · obtain rfl := List.mem_singleton.mp (List.mem_of_getElem? hi)
      exact hsound
  · intro i
    refine (hs.recorded i).trans ?_
    by_cases h : s.isTerminal i = true
    · rw [if_pos h, if_pos (hold i h)]
    · rw [if_neg h]
      exact Nat.zero_le _

theorem newJob_sound (config : Config) (params : SubagentParams) (ctxCwd : Str) (now : Nat) (rejected : Bool) :
    (State.newJob config params ctxCwd now rejected).Sound := by
  cases rejected <;> exact ⟨⟨.singleton _, rfl, rfl, rfl⟩, nofun⟩

theorem listen_inv (hs : Inv s) (j signal now : Nat) :
    Inv (s.listen config j signal now) ∧ Keeps s (s.listen config j signal now) := by
  unfold State.listen
  split
  · exact ⟨hs, .refl s⟩
  rename_i job hj
  have hsound := hs.sound j job hj
  have hlistens : Inv (s.put j { job with listensTo := some signal }) ∧
      Keeps s (s.put j { job with listensTo := some signal }) :=
    hs.write hj rfl rfl rfl
      ⟨⟨hsound.moves, hsound.status, hsound.finished, hsound.done⟩, hsound.inFlight⟩ id (.inl rfl)
  simp only
  split
  · exact Inv.then hlistens fun hnext => cancel_inv hnext j now
  · exact hlistens

theorem start_inv (hs : Inv s) (params : SubagentParams) (ctxCwd : Str) (signal : Option Nat)
    (now : Nat) : Inv (s.start config params ctxCwd signal now) ∧
      Keeps s (s.start config params ctxCwd signal now) := by
  have hadded := add_inv hs (newJob_sound config params ctxCwd now s.shutdownStarted)
  unfold State.start
  simp only
  split
  · exact pruned hadded
  split
  · exact Inv.then hadded fun hnext => fork_inv hnext _
  · rename_i signal
    exact Inv.then (Inv.then hadded fun hnext => listen_inv hnext _ signal now)
      fun hnext => fork_inv hnext _

theorem cancelAll_inv (config : Config) (js : List Nat) (now : Nat) (hs : Inv s) :
    Inv (js.foldl (fun s j => s.cancel config j now) s) ∧
      Keeps s (js.foldl (fun s j => s.cancel config j now) s) := by
  induction js generalizing s with
  | nil => exact ⟨hs, .refl s⟩
  | cons j rest ih => exact Inv.then (cancel_inv hs j now) fun hnext => ih hnext

theorem settle_inv (hs : Inv s) (now : Nat) : Inv (s.settle config now) := by
  obtain ⟨hnext, hkeeps⟩ := cancelAll_inv config s.retained now hs
  unfold State.settle
  simp only
  refine ⟨hnext.sound, hnext.recorded, ?_, ?_⟩
  · intro settle hmem j hj
    rcases List.mem_append.mp hmem with hold | hnew
    · exact hnext.awaited settle hold j hj
    · obtain rfl := List.mem_singleton.mp hnew
      exact hkeeps.retained j hj
  · intro settle hmem hresolved
    rcases List.mem_append.mp hmem with hold | hnew
    · exact hnext.settled settle hold hresolved
    · obtain rfl := List.mem_singleton.mp hnew
      cases hresolved

theorem shutdown_inv (hs : Inv s) (now : Nat) : Inv (s.shutdown config now) := by
  unfold State.shutdown
  split
  · exact hs
  · exact settle_inv (s := { s with
      shutdownStarted := true, shutdownPromise := some s.settles.length })
      ⟨hs.sound, hs.recorded, hs.awaited, hs.settled⟩ now

-- -----
-- Runs of jobs
-- -----

theorem onAdmitted_inv (hs : Inv s) (hj : s.jobs[j]? = some job) :
    Inv (s.onAdmitted j job) ∧ Keeps s (s.onAdmitted j job) := by
  have hsound := hs.sound j job hj
  unfold State.onAdmitted
  split
  · exact ⟨hs, .refl s⟩
  · rename_i hqueued
    replace hqueued : job.status = .queued := not_not.mp hqueued
    have hopen : terminal job.status = false := by rw [hqueued]; rfl
    have hmoves : Moves job.status .running := by
      rw [hqueued]
      exact .inl rfl
    have hfinished := hsound.finished
    have hdone := hsound.done
    rw [hopen] at hfinished hdone
    exact hs.write hj rfl rfl rfl
      ⟨⟨hsound.toProper.chain hmoves, rfl, hfinished, hdone⟩, nofun⟩
      (fun h => by rw [hopen] at h; cases h) (.inl rfl)

theorem onUsage_inv (hs : Inv s) (hj : s.jobs[j]? = some job) (details : SubagentDetails) :
    Inv (s.onUsage config j job details) ∧ Keeps s (s.onUsage config j job details) := by
  have hsound := hs.sound j job hj
  exact hs.write hj rfl rfl rfl
    ⟨⟨hsound.moves, hsound.status, hsound.finished, hsound.done⟩, hsound.inFlight⟩ id (.inl rfl)

/-- A job as its handler leaves it: untouched where it was cancelled before its
launch, and terminal without being finished where it had not ended. -/
structure Handled (old job : SubagentJob) : Prop where
  cancelled : old.status = .cancelled → job = old
  moves : old.status ≠ .cancelled →
    ∃ status, terminal status = true ∧ job.status = status ∧ job.statuses = status :: old.statuses
  finishedAt : job.finishedAt = old.finishedAt
  completions : job.completions = old.completions

theorem terminal_successStatus (job : SubagentJob) (details : SubagentDetails) :
    terminal (successStatus job details) = true := by
  unfold successStatus
  split
  · rfl
  split
  · rfl
  split <;> rfl

theorem terminal_failureStatus (job : SubagentJob) (failure : RunFailure) :
    terminal (failureStatus job failure) = true := by
  unfold failureStatus
  split <;> split <;> rfl

theorem onSuccess_handled (job : SubagentJob) (result : RunResult) :
    Handled job (onSuccess config job result) := by
  unfold onSuccess
  split
  · rename_i hcancelled
    exact ⟨fun _ => rfl, fun h => absurd hcancelled h, rfl, rfl⟩
  · rename_i hopen
    exact ⟨fun h => absurd h hopen, fun _ => ⟨_, terminal_successStatus job _, rfl, rfl⟩, rfl, rfl⟩

theorem onFailure_handled (job : SubagentJob) (failure : RunFailure) :
    Handled job (onFailure job failure) := by
  unfold onFailure
  split
  · rename_i hcancelled
    exact ⟨fun _ => rfl, fun h => absurd hcancelled h, rfl, rfl⟩
  · rename_i hopen
    exact ⟨fun h => absurd h hopen, fun _ => ⟨_, terminal_failureStatus job failure, rfl, rfl⟩, rfl,
      rfl⟩

/-- The release of a run that was in flight, after its handler. -/
theorem release_inv (hs : Inv s) {old : SubagentJob} (hj : s.jobs[j]? = some old)
    (hflight : old.inFlight = true) (h : Handled old job) (now : Nat) :
    Inv (s.release config j { job with inFlight := false } now) ∧
      Keeps s (s.release config j { job with inFlight := false } now) := by
  have hsound := hs.sound j old hj
  unfold State.release
  by_cases hcancelled : old.status = .cancelled
  · obtain rfl := h.cancelled hcancelled
    have hterminal : terminal job.status = true := by rw [hcancelled]; rfl
    have hfinished := hsound.finished.trans hterminal
    rw [if_pos (by simp [hterminal, hfinished])]
    exact hs.write hj rfl rfl rfl
      ⟨⟨hsound.moves, hsound.status, hsound.finished, hsound.done⟩, nofun⟩ id (.inl rfl)
  · have hopen : terminal old.status = false := by
      by_contra hterminal
      exact hcancelled (hsound.inFlight hflight (Bool.not_eq_false _ ▸ hterminal))
    obtain ⟨status, hterminal, hstatus, hstatuses⟩ := h.moves hcancelled
    have hunfinished : job.finishedAt.isSome = false := by
      rw [h.finishedAt, hsound.finished, hopen]
    have hdone := hsound.done
    rw [hopen] at hdone
    rw [if_neg (by simp [hunfinished])]
    have hended : ¬ (job.status = .running ∨ job.status = .cancelling) := by
      rw [hstatus]
      rintro (rfl | rfl) <;> cases hterminal
    simp only [if_neg hended]
    refine finish_inv hs hj ⟨hopen, ?_, ?_, ?_, rfl, ?_, nofun⟩
    · rw [hstatuses]
      exact hsound.toProper.chain (moves_terminal hopen hterminal)
    · rw [hstatuses, hstatus]
      rfl
    · exact hstatus ▸ hterminal
    · exact h.completions.trans hdone

-- -----
-- Steps and runs
-- -----

theorem during_inv {callback : SubagentJob → State}
    (hstep : s.during j callback = some s')
    (h : ∀ job, s.jobs[j]? = some job → job.inFlight = true → Inv (callback job)) : Inv s' := by
  obtain ⟨job, hj, hif⟩ := Option.bind_eq_some_iff.mp hstep
  obtain ⟨hflight, heq⟩ := Option.ite_none_right_eq_some.mp hif
  obtain rfl := Option.some.inj heq
  exact h job hj hflight

theorem isDone_terminal (hs : Inv s) (h : s.isDone j = true) : s.isTerminal j = true := by
  obtain ⟨job, hj, hdone⟩ := (Option.any_eq_true _ _).mp h
  rw [isTerminal_of hj]
  by_contra hopen
  have hcompletions := (hs.sound j job hj).done
  rw [if_neg hopen] at hcompletions
  rw [hcompletions] at hdone
  cases hdone

theorem settleResolved_inv (hs : Inv s) {k : Nat} {settle : Settle}
    (hk : s.settles[k]? = some settle) (hall : settle.awaited.all s.isDone = true) :
    Inv { s with settles := s.settles.set k { settle with resolved := true } } := by
  have hmem := List.mem_of_getElem? hk
  have hknown (j : Nat) (hj : j ∈ settle.known) : s.isTerminal j = true := by
    rcases hs.awaited settle hmem j hj with hawaited | hterminal
    · exact isDone_terminal hs (List.all_eq_true.mp hall j hawaited)
    · exact hterminal
  refine ⟨hs.sound, hs.recorded, ?_, ?_⟩
  · intro other hother j hj
    rcases List.mem_or_eq_of_mem_set hother with hold | rfl
    · exact hs.awaited other hold j hj
    · exact hs.awaited settle hmem j hj
  · intro other hother hresolved j hj
    rcases List.mem_or_eq_of_mem_set hother with hold | rfl
    · exact hs.settled other hold hresolved j hj
    · exact hknown j hj

theorem step_inv (hs : Inv s) {event : Event} (hstep : step config s event = some s') : Inv s' := by
  cases event with
  | start params ctxCwd signal now =>
    obtain rfl := Option.some.inj hstep
    exact (start_inv hs params ctxCwd signal now).1
  | signalled signal =>
    obtain rfl := Option.some.inj hstep
    exact ⟨hs.sound, hs.recorded, hs.awaited, hs.settled⟩
  | onAbort j now =>
    obtain ⟨-, heq⟩ := Option.ite_none_right_eq_some.mp hstep
    obtain rfl := Option.some.inj heq
    exact (cancel_inv hs j now).1
  | admitted j => exact during_inv hstep fun job hj _ => (onAdmitted_inv hs hj).1
  | usage j details => exact during_inv hstep fun job hj _ => (onUsage_inv hs hj details).1
  | succeeded j result now =>
    exact during_inv hstep fun job hj hflight =>
      (release_inv hs hj hflight (onSuccess_handled job result) now).1
  | failed j failure now =>
    exact during_inv hstep fun job hj hflight =>
      (release_inv hs hj hflight (onFailure_handled job failure) now).1
  | cancel j now =>
    obtain rfl := Option.some.inj hstep
    exact (cancel_inv hs j now).1
  | settle now =>
    obtain rfl := Option.some.inj hstep
    exact settle_inv hs now
  | shutdown now =>
    obtain rfl := Option.some.inj hstep
    exact shutdown_inv hs now
  | settleResolved k =>
    obtain ⟨settle, hk, hif⟩ := Option.bind_eq_some_iff.mp hstep
    obtain ⟨hready, heq⟩ := Option.ite_none_right_eq_some.mp hif
    obtain rfl := Option.some.inj heq
    exact settleResolved_inv hs hk (Bool.and_eq_true_iff.mp hready).2
  | waitReturned j interrupted =>
    obtain ⟨-, heq⟩ := Option.ite_none_right_eq_some.mp hstep
    obtain rfl := Option.some.inj heq
    exact hs

/-- In every run the jobs are kept as it is promised. -/
theorem jobs_kept {events : List Event}
    (hrun : Transitions.run (step config) initial events = some s) : Kept s :=
  (Transitions.always (fun _ _ _ hs hstep => step_inv hs hstep) initial_inv hrun).kept

def unbounded : Config := ⟨fun text => (text, false), id, 10⟩

def someDetails : SubagentDetails := ⟨some (lit "task"), some zeroUsage, none, none, [], none, false⟩

/-- A job is cancelled while its admission is in flight, another while it runs, and
one more before a shutdown that waits for the second. -/
def cancelledJobs : List Event :=
  [.start ⟨none, lit "task", none⟩ (lit "/") none 1, .start ⟨none, lit "task", none⟩ (lit "/") none 2,
    .start ⟨none, lit "task", none⟩ (lit "/") (some 5) 3, .cancel 0 4, .admitted 0, .admitted 1,
    .usage 1 someDetails, .signalled 5, .onAbort 2 5, .shutdown 6,
    .failed 0 (.admission (lit "aborted")) 7, .succeeded 1 ⟨[], someDetails⟩ 8, .settleResolved 0]

theorem cancelledJobs_kept :
    ∃ s, Transitions.run (step unbounded) initial cancelledJobs = some s ∧
      s.jobs.map (·.statuses.length) = [2, 4, 2] ∧ s.ledgerRecords = [1] ∧ Kept s := by
  have hmap : (Transitions.run (step unbounded) initial cancelledJobs).map
      (fun s => (s.jobs.map (·.statuses.length), s.ledgerRecords)) =
      some ([2, 4, 2], [1]) := by decide +kernel
  obtain ⟨s, hrun, hs⟩ := Option.map_eq_some_iff.mp hmap
  obtain ⟨hjobs, hledger⟩ := Prod.mk.inj hs
  exact ⟨s, hrun, hjobs, hledger, jobs_kept hrun⟩

end PiEnv.Subagent.Jobs
