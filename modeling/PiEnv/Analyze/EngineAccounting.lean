import PiEnv.Analyze.Engine

/-!
# What a result accounts for

What the analyzers found is kept up to the limit and counted beyond it, and
nothing expensive is asked for behind a reading that stopped the run.
-/

namespace PiEnv.Analyze.Engine

open Js Effects

-- -----
-- Findings and truncations
-- -----

abbrev EngineHistory := History Op Op.Res

/-- The analyzers that ran and did not fail, with what they found. -/
def runs : EngineHistory → List (AnalyzerName × List Finding)
  | [] => []
  | ⟨.runAnalyzer name, run⟩ :: h =>
    runs h ++ match run.outcome with
      | .ok findings => [(name, findings)]
      | .error _ => []
  | _ :: h => runs h

def produced (runs : List (AnalyzerName × List Finding)) : List Finding := runs.flatMap (·.2)

/-- What is dropped of each run behind so many findings. -/
def truncations : Nat → List (AnalyzerName × List Finding) → List (AnalyzerName × Nat)
  | _, [] => []
  | before, (name, findings) :: rest =>
    let dropped := findings.length - (MAX_TOTAL_FINDINGS - before)
    (if 0 < dropped then [(name, dropped)] else []) ++ truncations (before + findings.length) rest

/-- The truncations that failures state. -/
def truncationsOf (failures : List AnalyzerFailure) : List (AnalyzerName × Nat) :=
  failures.filterMap fun failure =>
    match failure.analyzer, failure.cause with
    | .analyzer name, .truncated dropped => some (name, dropped)
    | _, _ => none

section
variable {a b : List (AnalyzerName × List Finding)} {before : Nat} {name : AnalyzerName}

theorem produced_append : produced (a ++ b) = produced a ++ produced b := List.flatMap_append

theorem truncations_append :
    truncations before (a ++ b) =
      truncations before a ++ truncations (before + (produced a).length) b := by
  induction a generalizing before with
  | nil => rfl
  | cons run a ih =>
    obtain ⟨name, findings⟩ := run
    have hlength : (produced ((name, findings) :: a)).length =
        findings.length + (produced a).length := by simp [produced]
    rw [List.cons_append, truncations, truncations, ih, hlength, Nat.add_assoc, List.append_assoc]

theorem sum_truncations :
    ((truncations before a).map (·.2)).sum = (produced a).length - (MAX_TOTAL_FINDINGS - before) := by
  induction a generalizing before with
  | nil => simp [truncations, produced]
  | cons run a ih =>
    obtain ⟨name, findings⟩ := run
    have hlength : (produced ((name, findings) :: a)).length =
        findings.length + (produced a).length := by simp [produced]
    have hone : ((if 0 < findings.length - (MAX_TOTAL_FINDINGS - before) then
        [(name, findings.length - (MAX_TOTAL_FINDINGS - before))] else []).map (·.2)).sum =
          findings.length - (MAX_TOTAL_FINDINGS - before) := by
      split
      · simp
      · simp only [List.map_nil, List.sum_nil]
        omega
    rw [truncations, List.map_append, List.sum_append, hone, ih, hlength]
    omega

/-- A truncation is there for a run just when not all of it fits. -/
theorem mem_truncations : (∃ dropped, (name, dropped) ∈ truncations before a) ↔
    ∃ earlier findings later, a = earlier ++ (name, findings) :: later ∧
      MAX_TOTAL_FINDINGS - (before + (produced earlier).length) < findings.length := by
  constructor
  · rintro ⟨dropped, hmem⟩
    induction a generalizing before with
    | nil => cases hmem
    | cons run a ih =>
      obtain ⟨name', findings⟩ := run
      rcases List.mem_append.mp hmem with hmem | hmem
      · split at hmem
        case isTrue hdropped =>
          obtain ⟨rfl, -⟩ := Prod.mk.inj (List.mem_singleton.mp hmem)
          refine ⟨[], findings, a, rfl, ?_⟩
          simp only [produced, List.flatMap_nil, List.length_nil]
          omega
        case isFalse => cases hmem
      · obtain ⟨earlier, findings', later, rfl, hlong⟩ := ih hmem
        refine ⟨(name', findings) :: earlier, findings', later, rfl, ?_⟩
        simp only [produced, List.flatMap_cons, List.length_append] at hlong ⊢
        omega
  · rintro ⟨earlier, findings, later, rfl, hlong⟩
    refine ⟨findings.length - (MAX_TOTAL_FINDINGS - (before + (produced earlier).length)), ?_⟩
    rw [truncations_append]
    refine List.mem_append_right _ (List.mem_append_left _ ?_)
    rw [if_pos (by omega)]
    exact List.mem_singleton.mpr rfl

end

theorem truncationsOf_append (failures more : List AnalyzerFailure) :
    truncationsOf (failures ++ more) = truncationsOf failures ++ truncationsOf more :=
  List.filterMap_append

-- -----
-- Readings that stop the run
-- -----

/-- Whether an answer stops the run: a reading above the budget before or after an
analyzer, or one that the gate of a bundle took. -/
def stops (budget : Nat) : (o : Op) × o.Res → Bool
  | ⟨.memory (.before _), value⟩ => isMemoryBudgetExceeded value budget
  | ⟨.memory (.after _), value⟩ => isMemoryBudgetExceeded value budget
  | ⟨.runAnalyzer .bundle, run⟩ => run.samples.any (isMemoryBudgetExceeded · budget)
  | _ => false

def Stopped (budget : Nat) (h : EngineHistory) : Prop := ∃ answer ∈ h, stops budget answer = true

/-- What is expensive. -/
def isWork : Op → Bool
  | .loadProject _ | .runAnalyzer _ | .runBenchmark _ => true
  | _ => false

def WorkAllowed (budget : Nat) (h : EngineHistory) (o : Op) : Prop :=
  isWork o = true → ¬ Stopped budget h

variable {budget : Nat} {h : EngineHistory} {state state' : AnalysisState} {options : AnalyzeOptions}

theorem allowed_rest {o : Op} (ho : isWork o = false) : WorkAllowed budget h o :=
  fun hwork => absurd (ho.symm.trans hwork) nofun

/-- What a state says about the answers so far. -/
structure Tracks (budget : Nat) (h : EngineHistory) (state : AnalysisState) : Prop where
  stopped : Stopped budget h → state.stopped = true
  findings : state.findings = (produced (runs h)).take MAX_TOTAL_FINDINGS
  truncated : truncationsOf state.failures = truncations 0 (runs h)

namespace Tracks

theorem allowed {o : Op} (ht : Tracks budget h state) (hgo : ¬ state.stopped = true) :
    WorkAllowed budget h o := fun _ hstopped => hgo (ht.stopped hstopped)

/-- Other fields, and other failures. -/
theorem same (ht : Tracks budget h state) (hfindings : state'.findings = state.findings)
    (htruncated : truncationsOf state'.failures = truncationsOf state.failures)
    (hstopped : state.stopped = true → state'.stopped = true) : Tracks budget h state' :=
  ⟨fun hs => hstopped (ht.stopped hs), hfindings.trans ht.findings, htruncated.trans ht.truncated⟩

/-- An answer that neither stops the run nor finds anything. -/
theorem skip (answer : (o : Op) × o.Res) (ht : Tracks budget h state)
    (hruns : runs (answer :: h) = runs h) (hstops : stops budget answer = false) :
    Tracks budget (answer :: h) state := by
  refine ⟨fun ⟨other, hmem, hother⟩ => ?_, hruns ▸ ht.findings, hruns ▸ ht.truncated⟩
  rcases List.mem_cons.mp hmem with rfl | hmem
  · exact absurd (hstops.symm.trans hother) nofun
  · exact ht.stopped ⟨other, hmem, hother⟩

theorem snapshot (enabled : Bool) (name : Str) (value : MemorySnapshot)
    (ht : Tracks budget h state) : Tracks budget h (state.snapshot enabled name value) := by
  unfold AnalysisState.snapshot
  split
  · exact ⟨ht.stopped, ht.findings, ht.truncated⟩
  · exact ht

theorem timing (enabled : Bool) (name : Str) (started ended : Rat) (ht : Tracks budget h state) :
    Tracks budget h (state.timing enabled name started ended) := by
  unfold AnalysisState.timing
  split
  · exact ⟨ht.stopped, ht.findings, ht.truncated⟩
  · exact ht

theorem accumulateTiming (enabled : Bool) (name : Str) (duration : Rat)
    (ht : Tracks budget h state) :
    Tracks budget h (state.accumulateTiming enabled name duration) := by
  unfold AnalysisState.accumulateTiming
  split
  · exact ⟨ht.stopped, ht.findings, ht.truncated⟩
  · exact ht

theorem fail (analyzer : Subject) (cause : Cause) (ht : Tracks budget h state)
    (hcause : ∀ dropped, cause ≠ .truncated dropped) :
    Tracks budget h (state.addFailure analyzer cause) := by
  refine ht.same rfl ?_ id
  show truncationsOf (state.failures ++ [⟨analyzer, cause⟩]) = _
  rw [truncationsOf_append]
  cases cause with
  | truncated dropped => exact absurd rfl (hcause dropped)
  | insufficientMemory | memoryBudget | afterAnalyzer | reported =>
    cases analyzer <;> exact List.append_nil _

theorem stop (ht : Tracks budget h state) : Tracks budget h { state with stopped := true } :=
  ht.same rfl rfl fun _ => rfl

/-- An answer that finds nothing, and stops the run only if the state is stopped. -/
theorem read {answer : (o : Op) × o.Res} (ht : Tracks budget h state)
    (hruns : runs (answer :: h) = runs h)
    (hstops : stops budget answer = true → state.stopped = true) :
    Tracks budget (answer :: h) state := by
  refine ⟨fun ⟨other, hmem, hother⟩ => ?_, hruns ▸ ht.findings, hruns ▸ ht.truncated⟩
  rcases List.mem_cons.mp hmem with rfl | hmem
  · exact hstops hother
  · exact ht.stopped ⟨other, hmem, hother⟩

end Tracks

-- -----
-- Stages
-- -----

theorem Tracks.memoryGuard (enabled : Bool) (name : AnalyzerName) (ht : Tracks budget h state)
    (value : MemorySnapshot) :
    Tracks budget (⟨.memory (.before name), value⟩ :: h)
      (memoryGuard state enabled budget name value) := by
  have hstops : stops budget ⟨.memory (.before name), value⟩ = isMemoryBudgetExceeded value budget :=
    rfl
  unfold Engine.memoryGuard
  dsimp only
  split
  case isTrue hsampled =>
    refine (ht.snapshot _ _ _).read rfl fun hexceeded => ?_
    rw [hstops] at hexceeded
    simpa [hexceeded] using hsampled
  case isFalse =>
    have hfailed : Tracks budget h ((state.snapshot enabled (lit "before:" ++ name.text) value).addFailure
        (.analyzer name) (.memoryBudget value.rssBytes budget)) := (ht.snapshot _ _ _).fail _ _ nofun
    exact hfailed.stop.read rfl fun _ => rfl

/-- What an analyzer found is taken up behind what the others found. -/
theorem Tracks.addFindings {answer : (o : Op) × o.Res} {name : AnalyzerName}
    {findings : List Finding} (ht : Tracks budget h state)
    (hruns : runs (answer :: h) = runs h ++ [(name, findings)])
    (hstops : stops budget answer = true → state.stopped = true) :
    Tracks budget (answer :: h) (state.addFindings name findings) := by
  have hlength : state.findings.length = min MAX_TOTAL_FINDINGS (produced (runs h)).length := by
    rw [ht.findings, List.length_take]
  have hroom : MAX_TOTAL_FINDINGS - state.findings.length =
      MAX_TOTAL_FINDINGS - (produced (runs h)).length := by omega
  have hproduced : produced (runs (answer :: h)) = produced (runs h) ++ findings := by
    rw [hruns, produced_append]
    simp [produced]
  have htruncations : truncations 0 (runs (answer :: h)) = truncations 0 (runs h) ++
      if 0 < findings.length - (MAX_TOTAL_FINDINGS - (produced (runs h)).length) then
        [(name, findings.length - (MAX_TOTAL_FINDINGS - (produced (runs h)).length))] else [] := by
    rw [hruns, truncations_append, Nat.zero_add, truncations, truncations, List.append_nil]
  have hkept : (state.findings ++ findings.take (MAX_TOTAL_FINDINGS - state.findings.length)) =
      (produced (runs (answer :: h))).take MAX_TOTAL_FINDINGS := by
    rw [hproduced, List.take_append, ht.findings.symm, hroom]
  have hdropped : findings.length -
      (findings.take (MAX_TOTAL_FINDINGS - state.findings.length)).length =
        findings.length - (MAX_TOTAL_FINDINGS - (produced (runs h)).length) := by
    rw [List.length_take, hroom]
    omega
  have hstopped : Stopped budget (answer :: h) → state.stopped = true := by
    rintro ⟨other, hmem, hother⟩
    rcases List.mem_cons.mp hmem with rfl | hmem
    · exact hstops hother
    · exact ht.stopped ⟨other, hmem, hother⟩
  unfold AnalysisState.addFindings
  dsimp only
  split
  case isTrue hshort =>
    refine ⟨hstopped, hkept, ?_⟩
    rw [htruncations, if_pos (by omega), ← hdropped]
    show truncationsOf (state.failures ++ [_]) = _
    rw [truncationsOf_append, ht.truncated]
    rfl
  case isFalse hall =>
    refine ⟨hstopped, hkept, ?_⟩
    rw [htruncations, if_neg (by omega), List.append_nil]
    exact ht.truncated

theorem Tracks.snapshots {samples : List MemorySnapshot} {enabled : Bool} {name : Str}
    (ht : Tracks budget h state) : Tracks budget h
      (samples.foldl (fun state sample => state.snapshot enabled name sample) state) := by
  induction samples generalizing state with
  | nil => exact ht
  | cons sample samples ih => exact ih (ht.snapshot _ _ _)

theorem Tracks.applyGate (options : AnalyzeOptions) (name : AnalyzerName)
    (samples : List MemorySnapshot) (ht : Tracks budget h state) :
    Tracks budget h (applyGate options budget name samples state) ∧
      (samples.any (isMemoryBudgetExceeded · budget) = true →
        (applyGate options budget name samples state).stopped = true) := by
  unfold Engine.applyGate
  dsimp only
  split
  case h_1 exceeded hfind => exact ⟨(ht.snapshots.fail _ _ (by nofun)).stop, fun _ => rfl⟩
  case h_2 hfind =>
    refine ⟨ht.snapshots, fun hany => ?_⟩
    obtain ⟨sample, hmem, hexceeded⟩ := List.any_eq_true.mp hany
    exact absurd hexceeded (List.find?_eq_none.mp hfind sample hmem)

/-- A run of an analyzer, with the readings of its gate. -/
theorem Tracks.run (options : AnalyzeOptions) (name : AnalyzerName) (ht : Tracks budget h state)
    (run : AnalyzerRun) :
    Tracks budget (⟨.runAnalyzer name, run⟩ :: h)
      (applyOutcome name
        (Engine.applyGate options budget name (if name = .bundle then run.samples else []) state)
        run.outcome) := by
  obtain ⟨hgate, hexceeded⟩ :=
    ht.applyGate options name (if name = .bundle then run.samples else [])
  have hstops : stops budget ⟨.runAnalyzer name, run⟩ = true →
      (Engine.applyGate options budget name (if name = .bundle then run.samples else [])
        state).stopped = true := by
    intro hstop
    cases name with
    | bundle => exact hexceeded hstop
    | duplicates | testDuplicates | types | asyncRisk | eslint | dependencies | knip => cases hstop
  unfold applyOutcome
  split
  case h_1 findings houtcome =>
    refine hgate.addFindings ?_ hstops
    rw [runs, houtcome]
  case h_2 analyzer message houtcome =>
    refine Tracks.read (hgate.fail _ _ nofun) ?_ hstops
    rw [runs, houtcome, List.append_nil]

theorem runAnalyzerStage_tracks {name : AnalyzerName} (ht : Tracks budget h state) :
    Guarded (WorkAllowed budget) (runAnalyzerStage options budget name state)
      (fun state h => Tracks budget h state) h := by
  unfold runAnalyzerStage
  refine Guarded.ask (allowed_rest rfl) fun value => ?_
  have hguard := ht.memoryGuard options.profile name value
  dsimp only
  split
  case isTrue => exact hguard
  case isFalse hgo =>
    refine Guarded.ask (allowed_rest rfl) fun started => ?_
    have hstarted := hguard.skip ⟨.now, started⟩ rfl rfl
    refine Guarded.ask (hstarted.allowed hgo) fun run => ?_
    have hrun := hstarted.run options name run
    refine Guarded.ask (allowed_rest rfl) fun ended => ?_
    have hended := (hrun.skip ⟨.now, ended⟩ rfl rfl).timing options.profile name.text started ended
    refine Guarded.ask (allowed_rest rfl) fun after => ?_
    have hafter := hended.snapshot options.profile (lit "after:" ++ name.text) after
    split
    case isTrue =>
      have hfailed := hafter.fail (.analyzer name) .afterAnalyzer nofun
      exact hfailed.stop.read rfl fun _ => rfl
    case isFalse hwithin =>
      exact hafter.read rfl fun hexceeded => absurd hexceeded hwithin

theorem runStage_tracks {descriptors : List AnalyzerDescriptor} (ht : Tracks budget h state) :
    Guarded (WorkAllowed budget) (runStage options budget descriptors state)
      (fun state h => Tracks budget h state) h := by
  induction descriptors generalizing state h with
  | nil => exact ht
  | cons descriptor rest ih =>
    unfold runStage
    split
    case isTrue => exact ht
    case isFalse =>
      exact (runAnalyzerStage_tracks ht).seq fun state' h' _ ht' => ih ht'

theorem loadProject_tracks {first : AnalyzerName} {capability : Str}
    {selection : Option SyntaxSourceSelection} (ht : Tracks budget h state) :
    Yields (WorkAllowed budget) (loadProject options budget first capability selection state)
      (fun state h => Tracks budget h state) h := by
  unfold loadProject
  refine Yields.ask (allowed_rest rfl) fun value => ?_
  have hguard := ht.memoryGuard options.profile first value
  dsimp only
  split
  case isTrue => exact Yields.ret hguard
  case isFalse hgo =>
    refine Yields.ask (allowed_rest rfl) fun started => ?_
    have hstarted := hguard.skip ⟨.now, started⟩ rfl rfl
    refine Yields.ask (hstarted.allowed hgo) fun project => ?_
    have hloaded := hstarted.skip ⟨.loadProject selection, project⟩ rfl rfl
    cases project with
    | error message => exact Yields.throws
    | ok =>
      refine Yields.ask (allowed_rest rfl) fun ended => ?_
      have hended := (hloaded.skip ⟨.now, ended⟩ rfl rfl).timing options.profile
        (lit "program:" ++ capability) started ended
      have htotal := hended.accumulateTiming options.profile (lit "program") (ended - started)
      refine Yields.ask (allowed_rest rfl) fun projectMemory => Yields.ret ?_
      exact ((htotal.skip ⟨.memory .afterProgram, projectMemory⟩ rfl rfl).snapshot _ _ _).snapshot _ _ _

theorem runCapability_tracks {capability : Str} {selection : Option SyntaxSourceSelection}
    {descriptors : List AnalyzerDescriptor} (ht : Tracks budget h state) :
    Yields (WorkAllowed budget)
      (runCapability options budget capability selection descriptors state)
      (fun state h => Tracks budget h state) h := by
  unfold runCapability
  split
  case h_1 => exact Yields.ret ht
  case h_2 =>
    refine (loadProject_tracks ht).bind fun state' h' _ ht' => ?_
    split
    case isTrue => exact Yields.ret ht'
    case isFalse => exact Yields.lift (runStage_tracks ht')

theorem runCapabilityStages_tracks {descriptors : List AnalyzerDescriptor}
    (ht : Tracks budget h state) :
    Yields (WorkAllowed budget) (runCapabilityStages options budget descriptors state)
      (fun state h => Tracks budget h state) h := by
  unfold runCapabilityStages
  refine (runCapability_tracks ht).bind fun afterSyntax h' _ hsyntax => ?_
  dsimp only
  split
  case isTrue => exact Yields.lift (runStage_tracks hsyntax)
  case isFalse =>
    exact (runCapability_tracks hsyntax).bind fun afterTypes h'' _ htypes =>
      Yields.lift (runStage_tracks htypes)

/-- Benchmarks read no memory and find nothing. -/
theorem runBenchmarks_tracks {configs : List BenchmarkConfig} (ht : Tracks budget h state)
    (hgo : ¬ Stopped budget h) :
    Guarded (WorkAllowed budget) (runBenchmarks configs state)
      (fun state h => Tracks budget h state) h := by
  induction configs generalizing state h with
  | nil => exact ht
  | cons config rest ih =>
    unfold runBenchmarks
    refine Guarded.ask (fun _ => hgo) fun outcome => ?_
    have houtcome := ht.skip ⟨.runBenchmark config, outcome⟩ rfl rfl
    have hgo' : ¬ Stopped budget (⟨.runBenchmark config, outcome⟩ :: h) := by
      rintro ⟨other, hmem, hother⟩
      rcases List.mem_cons.mp hmem with rfl | hmem
      · cases hother
      · exact hgo ⟨other, hmem, hother⟩
    cases outcome with
    | ok result => exact ih (houtcome.same rfl rfl id) hgo'
    | error failed =>
      refine ih (Tracks.fail _ _ (houtcome.same ?_ ?_ ?_) nofun) hgo'
      · rfl
      · rfl
      · exact id

theorem preflight_tracks (descriptors : List AnalyzerDescriptor) (ht : Tracks budget h state) :
    Tracks budget h (preflight budget state descriptors).2 := by
  induction descriptors generalizing state with
  | nil => exact ht
  | cons descriptor rest ih =>
    unfold preflight
    dsimp only
    split
    case isTrue => exact ih ht
    case isFalse => exact ih (ht.fail _ _ nofun)

theorem initialState_tracks (hquiet : ∀ answer ∈ h, stops budget answer = false)
    (hruns : runs h = []) : Tracks budget h initialState where
  stopped := fun ⟨answer, hmem, hanswer⟩ =>
    absurd ((hquiet answer hmem).symm.trans hanswer) nofun
  findings := by rw [hruns]; rfl
  truncated := by rw [hruns]; rfl

-- -----
-- Results
-- -----

variable {localeCompare : Str → Str → Ordering} {findingId : Finding → Str}

/-- What a result says about the analyzers that ran and what they found. -/
structure Accounted (findingId : Finding → Str) (found : List (AnalyzerName × List Finding))
    (result : AnalysisResult) : Prop where
  capped : result.findings.length ≤ MAX_TOTAL_FINDINGS
  balanced : result.findings.length + ((truncationsOf result.analyzerFailures).map (·.2)).sum =
    (produced found).length
  kept : result.findings.Perm
    (((produced found).take MAX_TOTAL_FINDINGS).map fun item => { item with id := findingId item })
  /-- Some of what a run found is behind the limit. -/
  truncated : ∀ name, (∃ dropped, (name, dropped) ∈ truncationsOf result.analyzerFailures) ↔
    ∃ earlier findings later, found = earlier ++ (name, findings) :: later ∧
      MAX_TOTAL_FINDINGS - (produced earlier).length < findings.length
  summary : result.summary = {
    info := countSeverity .info result.findings
    warning := countSeverity .warning result.findings
    error := countSeverity .error result.findings
    failures := result.analyzerFailures.length }

theorem Tracks.accounted (ht : Tracks budget h state) :
    Accounted findingId (runs h) (finalizeResult localeCompare findingId state options) := by
  have hperm : (finalizeResult localeCompare findingId state options).findings.Perm
      (state.findings.map fun item => { item with id := findingId item }) :=
    List.perm_insertionSort ..
  have hlength : (finalizeResult localeCompare findingId state options).findings.length =
      min MAX_TOTAL_FINDINGS (produced (runs h)).length := by
    rw [hperm.length_eq, List.length_map, ht.findings, List.length_take]
  have htruncated : truncationsOf (finalizeResult localeCompare findingId state
      options).analyzerFailures = truncations 0 (runs h) := ht.truncated
  refine ⟨by omega, ?_, ht.findings ▸ hperm, fun name => ?_, rfl⟩
  · rw [hlength, htruncated, sum_truncations]
    omega
  · rw [htruncated, mem_truncations]
    simp only [Nat.zero_add]

theorem complete_accounted {started : Rat} (ht : Tracks budget h state) :
    Guarded (WorkAllowed budget) (complete localeCompare findingId options started state)
      (fun result h => Accounted findingId (runs h) result) h := by
  unfold complete
  refine Guarded.ask (allowed_rest rfl) fun ended => ?_
  refine Guarded.ask (allowed_rest rfl) fun value => ?_
  have hended := (ht.skip ⟨.now, ended⟩ rfl rfl).timing options.profile (lit "totalMs") started ended
  have hcomplete := (hended.skip ⟨.memory .complete, value⟩ rfl rfl).snapshot options.profile
    (lit "complete") value
  exact hcomplete.accounted

/-- The budget in MiB of options that are valid. -/
def budgetOf (options : AnalyzeOptions) : Nat :=
  ((options.maxMemoryMb.getD (.finite DEFAULT_MEMORY_MB)).integer?.getD 0).toNat

theorem validateOptions_budget (hvalid : validateOptions options = .ok budget) :
    budget = budgetOf options := by
  unfold validateOptions at hvalid
  dsimp only at hvalid
  split at hvalid
  · cases hvalid
  split at hvalid
  · cases hvalid
  split at hvalid
  · cases hvalid
  split at hvalid
  · cases hvalid
  · exact (Except.ok.inj hvalid).symm

theorem analyzeEffect_yields : Yields (WorkAllowed (budgetOf options))
    (analyzeEffect localeCompare findingId options)
    (fun result h => Accounted findingId (runs h) result) [] := by
  unfold analyzeEffect
  refine Yields.ask (allowed_rest rfl) fun started => ?_
  split
  case h_1 => exact Yields.throws
  case h_2 budget hvalid =>
    obtain rfl := validateOptions_budget hvalid
    have hinitial : Tracks (budgetOf options) [⟨.now, started⟩] initialState :=
      initialState_tracks (by simp [stops]) rfl
    have hpreflight :=
      preflight_tracks (resolveAnalyzerDescriptors (selectedChecks options)) hinitial
    dsimp only
    split
    case isTrue => exact Yields.lift (complete_accounted hpreflight)
    case isFalse =>
      refine Yields.ask (allowed_rest rfl) fun scopeStarted => ?_
      have hstarted := hpreflight.skip ⟨.now, scopeStarted⟩ rfl rfl
      refine Yields.ask (allowed_rest rfl) fun scope => ?_
      have hscope := hstarted.skip ⟨.resolveScope, scope⟩ rfl rfl
      cases scope with
      | error message => exact Yields.throws
      | ok =>
        refine Yields.ask (allowed_rest rfl) fun scopeEnded => ?_
        have hended := (hscope.skip ⟨.now, scopeEnded⟩ rfl rfl).timing options.profile
          (lit "scope") scopeStarted scopeEnded
        refine Yields.ask (allowed_rest rfl) fun scopeMemory => ?_
        have hmemory := (hended.skip ⟨.memory .afterScope, scopeMemory⟩ rfl rfl).snapshot
          options.profile (lit "after:scope") scopeMemory
        refine (runCapabilityStages_tracks hmemory).bind fun state h' _ hstages => ?_
        split
        case isTrue => exact Yields.lift (complete_accounted hstages)
        case isFalse hgo =>
          refine Yields.bindLift (runBenchmarks_tracks hstages fun hs => hgo (hstages.stopped hs))
            fun state' h'' _ hbenchmarks => ?_
          exact Yields.lift (complete_accounted hbenchmarks)

/-- The result accounts for what was found, and nothing expensive was asked for
behind a reading that stopped the run. -/
theorem analyze_accounted {result : AnalysisResult} {h' : EngineHistory}
    (hrun : Runs recording [] (analyzeEffect localeCompare findingId options).run (.ok result) h') :
    Accounted findingId (runs h') result ∧
      ∀ o earlier, Issued [] h' earlier o → isWork o = true →
        ¬ Stopped (budgetOf options) earlier :=
  ⟨analyzeEffect_yields.post hrun, fun _ _ ho hwork => analyzeEffect_yields.issued hrun ho hwork⟩

def someFinding : Finding :=
  ⟨[], .duplicates, lit "duplicate", .warning, [], ⟨[], 1, 1, none, none⟩, none, none⟩

def twoChecks : AnalyzeOptions :=
  ⟨some [.duplicates, .eslint], true, none, true, [⟨lit "true", []⟩], none, none, none⟩

/-- One finding too many, and too much memory in use after it. -/
def manyFindings (_ : EngineHistory) : (o : Op) → o.Res
  | .now => 0
  | .memory (.after _) => ⟨2 ^ 40, 0, 0⟩
  | .memory _ => ⟨0, 0, 0⟩
  | .resolveScope => .ok ()
  | .loadProject _ => .ok ()
  | .runAnalyzer _ => ⟨[], .ok (List.replicate 2001 someFinding)⟩
  | .runBenchmark config => .ok ⟨config.command, [], none, none⟩

theorem analyze_accounted_manyFindings :
    ∃ result h', Runs recording [] (analyzeEffect (fun _ _ => .eq) (fun _ => []) twoChecks).run
        (.ok result) h' ∧
      truncationsOf result.analyzerFailures = [(.duplicates, 1)] ∧
      Accounted (fun _ => []) (runs h') result ∧
      ∀ o earlier, Issued [] h' earlier o → isWork o = true →
        ¬ Stopped (budgetOf twoChecks) earlier := by
  let program := (analyzeEffect (fun _ _ => .eq) (fun _ => []) twoChecks).run
  have hruns := Prog.answered_runs manyFindings program []
  have hresult : ((program.answered manyFindings []).1.toOption.map
      fun result => truncationsOf result.analyzerFailures) = some [(.duplicates, 1)] := by
    decide +kernel
  obtain ⟨result, hok, htruncated⟩ := Option.map_eq_some_iff.mp hresult
  cases houtcome : (program.answered manyFindings []).1 with
  | error error => simp [houtcome, Except.toOption] at hok
  | ok result' =>
    rw [houtcome] at hok hruns
    obtain rfl := Option.some.inj hok
    exact ⟨_, _, hruns, htruncated, analyze_accounted hruns⟩

end PiEnv.Analyze.Engine
