import Mathlib.Data.List.Sort
import PiEnv.Lib.History
import PiEnv.Lib.JsMap
import PiEnv.Lib.JsonText

/-!
# The analysis workflow

Checks in the order of their capabilities and then benchmarks, with a budget for
memory that is read on the way. What analyzers find, how long things take and how
much memory is in use are answers from outside. The readings that a bundle
takes while it runs come with its outcome.
-/

namespace PiEnv.Analyze.Engine

open Js Effects

-- -----
-- Data
-- -----

inductive Severity where
  | info | warning | error
  deriving DecidableEq, Repr

inductive AnalyzerName where
  | duplicates | testDuplicates | types | asyncRisk | eslint | dependencies | knip | bundle
  deriving DecidableEq, Repr

def AnalyzerName.text : AnalyzerName → Str
  | .duplicates => lit "duplicates"
  | .testDuplicates => lit "test-duplicates"
  | .types => lit "types"
  | .asyncRisk => lit "async-risk"
  | .eslint => lit "eslint"
  | .dependencies => lit "dependencies"
  | .knip => lit "knip"
  | .bundle => lit "bundle"

structure Location where
  path : Str
  line : Rat
  column : Rat
  endLine : Option Rat
  endColumn : Option Rat
  deriving DecidableEq, Repr

structure Finding where
  id : Str
  analyzer : AnalyzerName
  kind : Str
  severity : Severity
  message : Str
  location : Location
  related : Option (List Location)
  data : Option Json

/-- What a failure is about: an analyzer, or what is named instead of one. -/
inductive Subject where
  | analyzer (name : AnalyzerName)
  | benchmark
  deriving DecidableEq, Repr

/-- Why a failure was recorded. -/
inductive Cause where
  | insufficientMemory (budget minimum : Nat)
  | memoryBudget (rssBytes : Rat) (budget : Nat)
  | afterAnalyzer
  | truncated (dropped : Nat)
  /-- What an analyzer or a benchmark failed with. -/
  | reported (message : Str)
  deriving DecidableEq, Repr

structure AnalyzerFailure where
  analyzer : Subject
  cause : Cause
  deriving DecidableEq, Repr

structure BenchmarkConfig where
  command : Str
  args : List Str
  deriving DecidableEq, Repr

structure BenchmarkResult where
  command : Str
  runs : List Rat
  meanMs : Option Rat
  failure : Option Str
  deriving DecidableEq, Repr

structure MemorySnapshot where
  rssBytes : Rat
  heapUsedBytes : Rat
  externalBytes : Rat
  deriving DecidableEq, Repr

structure AnalysisProfile where
  timings : JsMap Str Rat
  memory : JsMap Str MemorySnapshot
  peak : MemorySnapshot

structure Summary where
  info : Nat
  warning : Nat
  error : Nat
  failures : Nat
  deriving DecidableEq, Repr

structure AnalysisResult where
  summary : Summary
  findings : List Finding
  analyzerFailures : List AnalyzerFailure
  benchmarks : List BenchmarkResult
  profile : Option AnalysisProfile

structure SyntaxSourceBudget where
  maxFiles : Number
  maxFileBytes : Number
  maxTotalBytes : Number

structure AnalyzeOptions where
  checks : Option (List AnalyzerName)
  bundle : Bool
  typeSimilarityThreshold : Option Number
  profile : Bool
  benchmarks : List BenchmarkConfig
  maxMemoryMb : Option Number
  sourceBudget : Option SyntaxSourceBudget
  externalTimeoutMs : Option Number

inductive AnalyzeError where
  | configuration (message : Str)
  | scope (message : Str)
  | program (message : Str)
  deriving DecidableEq, Repr

def DEFAULT_MEMORY_MB : Nat := 2048
def BYTES_PER_MIB : Nat := 1024 * 1024
def MAX_TOTAL_FINDINGS : Nat := 2000

def Cause.message : Cause → Str
  | .insufficientMemory budget minimum =>
    lit "Insufficient memory budget: maxMemoryMb " ++ natText budget ++
      lit " MiB is below this analyzer's " ++ natText minimum ++ lit " MiB minimum"
  | .memoryBudget rssBytes budget =>
    lit "Memory budget exceeded: RSS " ++ Number.text (.finite rssBytes) ++ lit " bytes > " ++
      natText budget ++ lit " MiB guard; remaining expensive stages skipped"
  | .afterAnalyzer =>
    lit "Memory budget exceeded after analyzer; remaining expensive stages skipped"
  | .truncated dropped =>
    lit "Global finding limit reached; dropped " ++ natText dropped ++
      lit " additional finding(s) after keeping " ++ natText MAX_TOTAL_FINDINGS ++
      lit " total deterministically"
  | .reported message => message
where
  natText (n : Nat) : Str := Number.text (.finite n)

-- -----
-- The registry
-- -----

inductive SyntaxSourceSelection where
  | production | tests | productionAndTests
  deriving DecidableEq, Repr

inductive Capability where
  | syntactic (sourceSelection : SyntaxSourceSelection)
  | type
  | external
  deriving DecidableEq, Repr

structure AnalyzerDescriptor where
  name : AnalyzerName
  defaultEnabled : Bool
  minimumTotalMemoryMb : Nat
  capability : Capability
  deriving DecidableEq, Repr

def ANALYZERS : AnalyzerName → AnalyzerDescriptor
  | .duplicates => ⟨.duplicates, true, 512, .syntactic .production⟩
  | .testDuplicates => ⟨.testDuplicates, false, 512, .syntactic .tests⟩
  | .types => ⟨.types, true, 1024, .type⟩
  | .asyncRisk => ⟨.asyncRisk, true, 512, .syntactic .production⟩
  | .eslint => ⟨.eslint, true, 1536, .external⟩
  | .dependencies => ⟨.dependencies, true, 768, .external⟩
  | .knip => ⟨.knip, true, 768, .external⟩
  | .bundle => ⟨.bundle, false, 768, .external⟩

def ANALYZER_ORDER : List AnalyzerName :=
  [.duplicates, .testDuplicates, .types, .asyncRisk, .eslint, .dependencies, .knip, .bundle]

def defaultAnalyzerNames : List AnalyzerName :=
  ANALYZER_ORDER.filter fun name => (ANALYZERS name).defaultEnabled

def resolveAnalyzerDescriptors (names : List AnalyzerName) : List AnalyzerDescriptor :=
  names.map ANALYZERS

-- -----
-- What is asked
-- -----

/-- Where memory is read. -/
inductive Reading where
  | afterScope
  | before (name : AnalyzerName)
  | afterProgram
  | after (name : AnalyzerName)
  | complete
  deriving DecidableEq, Repr

structure AnalyzerRun where
  /-- The readings of the gate of a bundle. -/
  samples : List MemorySnapshot
  outcome : Except (AnalyzerName × Str) (List Finding)

inductive Op where
  | now
  | memory (reading : Reading)
  | resolveScope
  /-- `createSyntaxProjectEffect`, or `createTypeProjectEffect` without a selection. -/
  | loadProject (selection : Option SyntaxSourceSelection)
  | runAnalyzer (name : AnalyzerName)
  | runBenchmark (config : BenchmarkConfig)
  deriving DecidableEq, Repr

abbrev Op.Res : Op → Type
  | .now => Rat
  | .memory _ => MemorySnapshot
  | .resolveScope => Except Str Unit
  | .loadProject _ => Except Str Unit
  | .runAnalyzer _ => AnalyzerRun
  | .runBenchmark _ => Except (Str × List Rat) BenchmarkResult

abbrev Workflow := Prog Op Op.Res

def ask (o : Op) : Workflow o.Res := call o

-- -----
-- State
-- -----

structure AnalysisState where
  findings : List Finding
  failures : List AnalyzerFailure
  benchmarks : List BenchmarkResult
  profile : AnalysisProfile
  stopped : Bool

def initialState : AnalysisState :=
  ⟨[], [], [], ⟨JsMap.empty, JsMap.empty, ⟨0, 0, 0⟩⟩, false⟩

namespace AnalysisState

def addFailure (state : AnalysisState) (analyzer : Subject) (cause : Cause) : AnalysisState :=
  { state with failures := state.failures ++ [⟨analyzer, cause⟩] }

def snapshot (state : AnalysisState) (enabled : Bool) (name : Str) (value : MemorySnapshot) :
    AnalysisState :=
  if enabled then
    { state with
      profile := { state.profile with
        memory := state.profile.memory.set name value
        peak := {
          rssBytes := max state.profile.peak.rssBytes value.rssBytes
          heapUsedBytes := max state.profile.peak.heapUsedBytes value.heapUsedBytes
          externalBytes := max state.profile.peak.externalBytes value.externalBytes } } }
  else state

def timing (state : AnalysisState) (enabled : Bool) (name : Str) (started ended : Rat) :
    AnalysisState :=
  if enabled then
    { state with
      profile := { state.profile with timings := state.profile.timings.set name (ended - started) } }
  else state

def accumulateTiming (state : AnalysisState) (enabled : Bool) (name : Str) (duration : Rat) :
    AnalysisState :=
  if enabled then
    { state with
      profile := { state.profile with
        timings := state.profile.timings.set name
          ((state.profile.timings.get name).getD 0 + duration) } }
  else state

def addFindings (state : AnalysisState) (analyzer : AnalyzerName) (findings : List Finding) :
    AnalysisState :=
  let kept := findings.take (MAX_TOTAL_FINDINGS - state.findings.length)
  let next := { state with findings := state.findings ++ kept }
  if kept.length < findings.length then
    next.addFailure (.analyzer analyzer) (.truncated (findings.length - kept.length))
  else next

end AnalysisState

def isMemoryBudgetExceeded (value : MemorySnapshot) (budget : Nat) : Bool :=
  value.rssBytes > budget * BYTES_PER_MIB

def memoryGuard (state : AnalysisState) (enabled : Bool) (budget : Nat) (name : AnalyzerName)
    (value : MemorySnapshot) : AnalysisState :=
  let sampled := state.snapshot enabled (lit "before:" ++ name.text) value
  if !isMemoryBudgetExceeded value budget || sampled.stopped then sampled
  else
    { sampled.addFailure (.analyzer name) (.memoryBudget value.rssBytes budget) with
      stopped := true }

-- -----
-- Setup
-- -----

def positiveInteger (value : Number) : Bool :=
  match value.integer? with
  | some n => 0 < n
  | none => false

def validSourceBudget (budget : SyntaxSourceBudget) : Bool :=
  positiveInteger budget.maxFiles && positiveInteger budget.maxFileBytes &&
    positiveInteger budget.maxTotalBytes

def validThreshold : Number → Bool
  | .finite threshold => 0 ≤ threshold && threshold ≤ 1
  | _ => false

/-- The budget in MiB. -/
def validateOptions (options : AnalyzeOptions) : Except AnalyzeError Nat :=
  if !options.typeSimilarityThreshold.all validThreshold then
    .error (.configuration (lit "Type similarity threshold must be between 0 and 1"))
  else
    let budget := options.maxMemoryMb.getD (.finite DEFAULT_MEMORY_MB)
    if !positiveInteger budget then
      .error (.configuration (lit "maxMemoryMb must be a positive integer"))
    else if !options.sourceBudget.all validSourceBudget then
      .error (.configuration (lit "sourceBudget limits must be positive integers"))
    else if !options.externalTimeoutMs.all positiveInteger then
      .error (.configuration (lit "externalTimeoutMs must be an integer >= 1"))
    else .ok (budget.integer?.getD 0).toNat

def selectedChecks (options : AnalyzeOptions) : List AnalyzerName :=
  let selected := options.checks.getD defaultAnalyzerNames
  if options.bundle && !selected.contains .bundle then selected ++ [.bundle] else selected

/-- Analyzers whose minimum is above the budget are failures before anything runs. -/
def preflight (budget : Nat) (state : AnalysisState) :
    List AnalyzerDescriptor → List AnalyzerDescriptor × AnalysisState
  | [] => ([], state)
  | descriptor :: rest =>
    let minimum := descriptor.minimumTotalMemoryMb
    if minimum ≤ budget then
      let (descriptors, state) := preflight budget state rest
      (descriptor :: descriptors, state)
    else
      preflight budget
        (state.addFailure (.analyzer descriptor.name) (.insufficientMemory budget minimum)) rest

-- -----
-- Stages
-- -----

section
variable (options : AnalyzeOptions) (budget : Nat)

/-- The project of a capability, unless the guard of its first analyzer stops the run. -/
def loadProject (first : AnalyzerName) (capability : Str)
    (selection : Option SyntaxSourceSelection) (state : AnalysisState) :
    ExceptT AnalyzeError Workflow AnalysisState := do
  let value ← ask (.memory (.before first))
  let state := memoryGuard state options.profile budget first value
  if state.stopped then return state
  else
    let started ← ask .now
    let project ← ask (.loadProject selection)
    match project with
    | .error message => throw (.program message)
    | .ok () =>
      let ended ← ask .now
      let state := state.timing options.profile (lit "program:" ++ capability) started ended
      let state := state.accumulateTiming options.profile (lit "program") (ended - started)
      let projectMemory ← ask (.memory .afterProgram)
      let state := state.snapshot options.profile (lit "after:program:" ++ capability) projectMemory
      return state.snapshot options.profile (lit "after:program") projectMemory

/-- What the gate of a bundle has sampled, and whether that stops the run. -/
def applyGate (name : AnalyzerName) (samples : List MemorySnapshot) (state : AnalysisState) :
    AnalysisState :=
  let state := samples.foldl
    (fun state sample => state.snapshot options.profile (lit "before:" ++ name.text) sample) state
  match samples.find? (isMemoryBudgetExceeded · budget) with
  | some exceeded =>
    { state.addFailure (.analyzer name) (.memoryBudget exceeded.rssBytes budget) with
      stopped := true }
  | none => state

def applyOutcome (name : AnalyzerName) (state : AnalysisState) :
    Except (AnalyzerName × Str) (List Finding) → AnalysisState
  | .ok findings => state.addFindings name findings
  | .error (analyzer, message) => state.addFailure (.analyzer analyzer) (.reported message)

def runAnalyzerStage (name : AnalyzerName) (state : AnalysisState) : Workflow AnalysisState := do
  let value ← ask (.memory (.before name))
  let state := memoryGuard state options.profile budget name value
  if state.stopped then return state
  else
    let started ← ask .now
    let run ← ask (.runAnalyzer name)
    let samples := if name = .bundle then run.samples else []
    let state := applyGate options budget name samples state
    let state := applyOutcome name state run.outcome
    let ended ← ask .now
    let state := state.timing options.profile name.text started ended
    let after ← ask (.memory (.after name))
    let state := state.snapshot options.profile (lit "after:" ++ name.text) after
    if isMemoryBudgetExceeded after budget then
      return { state.addFailure (.analyzer name) .afterAnalyzer with stopped := true }
    else return state

/-- `runSyntaxStage`, `runTypeStage` and `runExternalStage`. -/
def runStage : List AnalyzerDescriptor → AnalysisState → Workflow AnalysisState
  | [], state => return state
  | descriptor :: rest, state =>
    if state.stopped then return state
    else do
      let state ← runAnalyzerStage options budget descriptor.name state
      runStage rest state

def syntaxSourceSelection (descriptors : List AnalyzerDescriptor) : SyntaxSourceSelection :=
  let tests := descriptors.any (·.capability = .syntactic .tests)
  let production := descriptors.any (·.capability = .syntactic .production)
  if tests && production then .productionAndTests else if tests then .tests else .production

/-- A capability that needs a project. -/
def runCapability (capability : Str) (selection : Option SyntaxSourceSelection)
    (descriptors : List AnalyzerDescriptor) (state : AnalysisState) :
    ExceptT AnalyzeError Workflow AnalysisState :=
  match descriptors with
  | [] => return state
  | first :: _ => do
    let state ← loadProject options budget first.name capability selection state
    if state.stopped then return state
    else runStage options budget descriptors state

def runSyntaxCapability (descriptors : List AnalyzerDescriptor) (state : AnalysisState) :
    ExceptT AnalyzeError Workflow AnalysisState :=
  runCapability options budget (lit "scoped-syntax") (some (syntaxSourceSelection descriptors))
    descriptors state

def runTypeCapability (descriptors : List AnalyzerDescriptor) (state : AnalysisState) :
    ExceptT AnalyzeError Workflow AnalysisState :=
  runCapability options budget (lit "types") none descriptors state

def isSyntax (descriptor : AnalyzerDescriptor) : Bool :=
  match descriptor.capability with
  | .syntactic _ => true
  | _ => false

def runCapabilityStages (descriptors : List AnalyzerDescriptor) (state : AnalysisState) :
    ExceptT AnalyzeError Workflow AnalysisState := do
  let afterSyntax ← runSyntaxCapability options budget (descriptors.filter isSyntax) state
  let afterTypes ←
    if afterSyntax.stopped then pure afterSyntax
    else runTypeCapability options budget (descriptors.filter (·.capability = .type)) afterSyntax
  runStage options budget (descriptors.filter (·.capability = .external)) afterTypes

/-- `[command, ...args].join(" ")` -/
def commandText (config : BenchmarkConfig) : Str :=
  config.args.foldl (fun text arg => text ++ [32] ++ arg) config.command

def runBenchmarks : List BenchmarkConfig → AnalysisState → Workflow AnalysisState
  | [], state => return state
  | config :: rest, state => do
    let outcome ← ask (.runBenchmark config)
    match outcome with
    | .ok result => runBenchmarks rest { state with benchmarks := state.benchmarks ++ [result] }
    | .error (message, runs) =>
      let result : BenchmarkResult := ⟨commandText config, runs, none, some message⟩
      runBenchmarks rest
        ({ state with benchmarks := state.benchmarks ++ [result] }.addFailure .benchmark
          (.reported message))

end

-- -----
-- Results
-- -----

section
variable (localeCompare : Str → Str → Ordering) (findingId : Finding → Str)

/-- The order of a path, a line and an id. -/
def notBehind (left right : Finding) : Bool :=
  ((localeCompare left.location.path right.location.path).then
    ((compare left.location.line right.location.line).then
      (localeCompare left.id right.id))) != .gt

def countSeverity (severity : Severity) (findings : List Finding) : Nat :=
  findings.countP (·.severity = severity)

def finalizeResult (state : AnalysisState) (options : AnalyzeOptions) : AnalysisResult :=
  let findings := (state.findings.map fun item => { item with id := findingId item }).insertionSort
    fun left right => notBehind localeCompare left right = true
  { summary := {
      info := countSeverity .info findings
      warning := countSeverity .warning findings
      error := countSeverity .error findings
      failures := state.failures.length }
    findings
    analyzerFailures := state.failures
    benchmarks := state.benchmarks
    profile := if options.profile then some state.profile else none }

def complete (options : AnalyzeOptions) (started : Rat) (state : AnalysisState) :
    Workflow AnalysisResult := do
  let ended ← ask .now
  let state := state.timing options.profile (lit "totalMs") started ended
  let value ← ask (.memory .complete)
  let state := state.snapshot options.profile (lit "complete") value
  return finalizeResult localeCompare findingId state options

def analyzeEffect (options : AnalyzeOptions) : ExceptT AnalyzeError Workflow AnalysisResult := do
  let started ← ask .now
  match validateOptions options with
  | .error error => throw error
  | .ok budget =>
    let selected := resolveAnalyzerDescriptors (selectedChecks options)
    let (descriptors, state) := preflight budget initialState selected
    if selected.length > 0 && descriptors.length = 0 then
      complete localeCompare findingId options started state
    else
      let scopeStarted ← ask .now
      let scope ← ask .resolveScope
      match scope with
      | .error message => throw (.scope message)
      | .ok () =>
        let scopeEnded ← ask .now
        let state := state.timing options.profile (lit "scope") scopeStarted scopeEnded
        let scopeMemory ← ask (.memory .afterScope)
        let state := state.snapshot options.profile (lit "after:scope") scopeMemory
        let state ← runCapabilityStages options budget descriptors state
        let state ← if state.stopped then pure state else runBenchmarks options.benchmarks state
        complete localeCompare findingId options started state

end

end PiEnv.Analyze.Engine
