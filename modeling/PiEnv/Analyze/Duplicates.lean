import PiEnv.Analyze.Scopes

/-!
# Duplicate functions

Bodies are collected under a fingerprint of their canonical form, up to a number
of candidates. Afterwards the groups with a location in scope are reported, up to a
number of findings. A body is the nodes of its syntax tree in the order of the walk.
The digest is an argument.
-/

namespace PiEnv.Analyze.Duplicates

open Js
open Engine (AnalyzerName Location Finding)

-- -----
-- Canonical forms
-- -----

/-- What the canonical form reads of a node. -/
structure SyntaxNode where
  kind : Nat
  isIdentifier : Bool
  isLiteral : Bool
  childCount : Nat
  text : Str

structure DuplicateCanonicalCaps where
  nodesPerFunction : Nat
  bytesPerFunction : Nat
  minimumNodeCount : Nat
  minimumTokenCount : Nat

def DUPLICATE_CANONICAL_CAPS : DuplicateCanonicalCaps where
  nodesPerFunction := 10000
  bytesPerFunction := 256 * 1024
  minimumNodeCount := 40
  minimumTokenCount := 40

structure Canonicalizing where
  parts : List Str := []
  nodeCount : Nat := 0
  tokenCount : Nat := 0
  bytes : Nat := 0
  truncated : Bool := false

structure CanonicalizationResult where
  canonical : Str
  truncated : Bool
  nodeCount : Nat
  tokenCount : Nat

def Canonicalizing.push (caps : DuplicateCanonicalCaps) (state : Canonicalizing) (value : Str) :
    Canonicalizing :=
  if state.truncated then state
  else
    let bytes := state.bytes + (value.length + 1)
    if caps.bytesPerFunction < bytes then { state with bytes, truncated := true }
    else { state with bytes, parts := state.parts ++ [value], tokenCount := state.tokenCount + 1 }

def token (child : SyntaxNode) : Option Str :=
  if child.isIdentifier then some (lit "#id")
  else if child.isLiteral then some (lit "#literal")
  else if child.childCount = 0 then some child.text
  else none

def Canonicalizing.walk (caps : DuplicateCanonicalCaps) :
    List SyntaxNode → Canonicalizing → Canonicalizing
  | [], state => state
  | child :: rest, state =>
    let entered := { state with nodeCount := state.nodeCount + 1 }
    if caps.nodesPerFunction < entered.nodeCount then { entered with truncated := true }
    else
      let kinded := entered.push caps (decimal child.kind)
      let pushed := (token child).elim kinded (kinded.push caps)
      if pushed.truncated then pushed else walk caps rest pushed

def canonicalizeWithCap (caps : DuplicateCanonicalCaps) (body : List SyntaxNode) :
    CanonicalizationResult :=
  let state := Canonicalizing.walk caps body {}
  ⟨join (lit "|") state.parts, state.truncated, state.nodeCount, state.tokenCount⟩

-- -----
-- Collection
-- -----

structure Candidate where
  body : List SyntaxNode
  location : Location

structure DuplicateGroup where
  sample : List SyntaxNode
  locations : List Location

structure DuplicateCollection where
  groups : JsMap Str (List DuplicateGroup)
  candidates : Nat
  truncated : Bool

/-- Of no interest as a duplicate. -/
def passedOver (result : CanonicalizationResult) : Bool :=
  result.truncated || result.canonical.length < 80 ||
    result.nodeCount < DUPLICATE_CANONICAL_CAPS.minimumNodeCount ||
    result.tokenCount < DUPLICATE_CANONICAL_CAPS.minimumTokenCount

def isMatching (canonical : Str) (group : DuplicateGroup) : Bool :=
  (canonicalizeWithCap DUPLICATE_CANONICAL_CAPS group.sample).canonical == canonical

/-- The location goes to the first group with this canonical form, else to a new one. -/
def addLocation (canonical : Str) (candidate : Candidate) :
    List DuplicateGroup → List DuplicateGroup
  | [] => [⟨candidate.body, [candidate.location]⟩]
  | group :: rest =>
    if isMatching canonical group then
      { group with locations := group.locations ++ [candidate.location] } :: rest
    else group :: addLocation canonical candidate rest

section
variable (sha256 : Str → Str)

def collectCandidate (candidate : Candidate) (state : DuplicateCollection) :
    DuplicateCollection :=
  let result := canonicalizeWithCap DUPLICATE_CANONICAL_CAPS candidate.body
  if passedOver result then state
  else
    let hash := sha256 result.canonical
    let groups := (state.groups.get hash).getD []
    { state with groups := state.groups.set hash (addLocation result.canonical candidate groups) }

def collectDuplicateFile : List Candidate → DuplicateCollection → DuplicateCollection
  | [], state => state
  | candidate :: rest, state =>
    if ANALYZER_CAPS.duplicateCandidates ≤ state.candidates then { state with truncated := true }
    else
      collectDuplicateFile rest
        (collectCandidate sha256 candidate { state with candidates := state.candidates + 1 })

def collectDuplicates : List (List Candidate) → DuplicateCollection → DuplicateCollection
  | [], state => state
  | file :: rest, state =>
    let collected := collectDuplicateFile sha256 file state
    if collected.truncated then collected else collectDuplicates rest collected

end

def DuplicateCollection.empty : DuplicateCollection := ⟨JsMap.empty, 0, false⟩

-- -----
-- Findings
-- -----

section
variable (localeCompare : Str → Str → Ordering) (scope : Scope) (analyzer : AnalyzerName)
  (message : Str)

def sortLocations (locations : List Location) : List Location :=
  locations.mergeSort fun left right => (compareLocations localeCompare left right).isLE

/-- The first location in scope is the primary one; which one it is goes by its
place, as equal locations are different objects. -/
def duplicateFinding (group : DuplicateGroup) : Option Finding :=
  let locations := sortLocations localeCompare group.locations
  match locations.findIdx? (changed scope) with
  | none => none
  | some index =>
    if locations.length < 2 then none
    else
      locations[index]?.map fun primary =>
        { id := []
          analyzer := analyzer
          kind := lit "duplicate"
          severity := .warning
          message := message
          location := primary
          related := some ((locations.eraseIdx index).take 25)
          data := none }

/-- The inner loop: what is reported, and whether a limit was reached. -/
def reportGroups : List DuplicateGroup → List Finding × Bool → List Finding × Bool
  | [], state => state
  | group :: rest, (output, truncated) =>
    match duplicateFinding localeCompare scope analyzer message group with
    | none => reportGroups rest (output, truncated)
    | some finding =>
      if ANALYZER_CAPS.duplicateFindings ≤ output.length then (output, true)
      else reportGroups rest (output ++ [finding], truncated)

def reportBuckets : List (List DuplicateGroup) → List Finding × Bool → List Finding × Bool
  | [], state => state
  | groups :: rest, state =>
    let reported := reportGroups localeCompare scope analyzer message groups state
    if reported.2 then reported else reportBuckets rest reported

def duplicateFindings (collected : DuplicateCollection) : List Finding :=
  let (output, truncated) := reportBuckets localeCompare scope analyzer message
    collected.groups.values ([], collected.truncated)
  if truncated then
    let kept := if ANALYZER_CAPS.duplicateFindings ≤ output.length then output.dropLast else output
    kept ++ [truncationFinding analyzer]
  else output

def duplicateAnalysis (sha256 : Str → Str) (files : List (List Candidate)) : List Finding :=
  duplicateFindings localeCompare scope analyzer message
    (collectDuplicates sha256 files .empty)

end

-- -----
-- What there is to report
-- -----

/-- At least two locations, at least one in scope. -/
def Reportable (scope : Scope) (group : DuplicateGroup) : Prop :=
  2 ≤ group.locations.length ∧ ∃ location ∈ group.locations, changed scope location = true

instance (scope : Scope) (group : DuplicateGroup) : Decidable (Reportable scope group) :=
  inferInstanceAs (Decidable (_ ∧ _))

/-- The collection was stopped, and something reportable lies in a later bucket
though the first one leaves room for it. -/
def CutShort (scope : Scope) (collected : DuplicateCollection) : Prop :=
  collected.truncated = true ∧ ∃ first later, collected.groups.values = first :: later ∧
    first.countP (fun group => decide (Reportable scope group)) <
      ANALYZER_CAPS.duplicateFindings - 1 ∧
    ∃ group ∈ later.flatten, Reportable scope group

section
variable {localeCompare : Str → Str → Ordering} {scope : Scope} {analyzer : AnalyzerName}
  {message : Str}

theorem duplicateFinding_isSome (group : DuplicateGroup) :
    (duplicateFinding localeCompare scope analyzer message group).isSome = true ↔
      Reportable scope group := by
  have hperm : (sortLocations localeCompare group.locations).Perm group.locations :=
    List.mergeSort_perm _ _
  have hlength := hperm.length_eq
  simp only [duplicateFinding, Reportable, ← hlength]
  cases hfound : (sortLocations localeCompare group.locations).findIdx? (changed scope) with
  | none =>
    have hnone := List.findIdx?_eq_none_iff.mp hfound
    simp only [Option.isSome_none, Bool.false_eq_true, false_iff, not_and, not_exists]
    rintro - location hmem
    simp [hnone location (hperm.mem_iff.mpr hmem)]
  | some index =>
    obtain ⟨hindex, hchanged, -⟩ := List.findIdx?_eq_some_iff_getElem.mp hfound
    by_cases hshort : (sortLocations localeCompare group.locations).length < 2
    · simp [hshort]
    · have hscope : ∃ location ∈ group.locations, changed scope location = true :=
        ⟨_, hperm.mem_iff.mp (List.getElem_mem hindex), hchanged⟩
      simp [hshort, hindex, hscope]
      omega

variable (localeCompare scope analyzer message)

/-- The findings of all groups that are reportable, in the order of the buckets. -/
def reportable (groups : List DuplicateGroup) : List Finding :=
  groups.filterMap (duplicateFinding localeCompare scope analyzer message)

/-- A report that is complete up to its cap. -/
def completeFindings (collected : DuplicateCollection) : List Finding :=
  let reported := reportable localeCompare scope analyzer message collected.groups.values.flatten
  if collected.truncated ∨ ANALYZER_CAPS.duplicateFindings < reported.length then
    reported.take (ANALYZER_CAPS.duplicateFindings - 1) ++ [truncationFinding analyzer]
  else reported

variable {localeCompare scope analyzer message}

theorem length_reportable (groups : List DuplicateGroup) :
    (reportable localeCompare scope analyzer message groups).length =
      groups.countP fun group => decide (Reportable scope group) := by
  rw [reportable, List.length_filterMap_eq_countP]
  refine List.countP_congr fun group _ => ?_
  rw [duplicateFinding_isSome, decide_eq_true_iff]

theorem reportable_eq_nil {groups : List DuplicateGroup} :
    reportable localeCompare scope analyzer message groups = [] ↔
      ∀ group ∈ groups, ¬ Reportable scope group := by
  rw [reportable, List.filterMap_eq_nil_iff]
  refine forall₂_congr fun group _ => ?_
  rw [← duplicateFinding_isSome, Option.not_isSome_iff_eq_none]

variable (localeCompare scope analyzer message)

theorem reportGroups_eq (groups : List DuplicateGroup) {output : List Finding} (truncated : Bool)
    (h : output.length ≤ ANALYZER_CAPS.duplicateFindings) :
    reportGroups localeCompare scope analyzer message groups (output, truncated) =
      let all := output ++ reportable localeCompare scope analyzer message groups
      (all.take ANALYZER_CAPS.duplicateFindings,
        truncated || decide (ANALYZER_CAPS.duplicateFindings < all.length)) := by
  induction groups generalizing output with
  | nil => simp [reportGroups, reportable, List.take_of_length_le h, h]
  | cons group rest ih =>
    rw [reportGroups]
    cases hfinding : duplicateFinding localeCompare scope analyzer message group with
    | none =>
      have hrest : reportable localeCompare scope analyzer message (group :: rest) =
          reportable localeCompare scope analyzer message rest :=
        List.filterMap_cons_none hfinding
      simp only [ih h, hrest]
    | some finding =>
      have hrest : reportable localeCompare scope analyzer message (group :: rest) =
          finding :: reportable localeCompare scope analyzer message rest :=
        List.filterMap_cons_some hfinding
      by_cases hfull : ANALYZER_CAPS.duplicateFindings ≤ output.length
      · have hlength := Nat.le_antisymm h hfull
        simp [hrest, ← hlength]
      · have hmore : (output ++ [finding]).length ≤ ANALYZER_CAPS.duplicateFindings := by
          rw [List.length_append]
          exact Nat.lt_of_not_le hfull
        simp only [if_neg hfull, ih hmore, hrest, List.append_assoc, List.cons_append,
          List.nil_append]

theorem reportBuckets_eq (buckets : List (List DuplicateGroup)) {output : List Finding}
    (h : output.length ≤ ANALYZER_CAPS.duplicateFindings) :
    reportBuckets localeCompare scope analyzer message buckets (output, false) =
      let all := output ++ reportable localeCompare scope analyzer message buckets.flatten
      (all.take ANALYZER_CAPS.duplicateFindings,
        decide (ANALYZER_CAPS.duplicateFindings < all.length)) := by
  induction buckets generalizing output with
  | nil => simp [reportBuckets, reportable, List.take_of_length_le h, h]
  | cons groups rest ih =>
    have hall : reportable localeCompare scope analyzer message (groups :: rest).flatten =
        reportable localeCompare scope analyzer message groups ++
          reportable localeCompare scope analyzer message rest.flatten := by
      simp [reportable]
    simp only [reportBuckets, reportGroups_eq localeCompare scope analyzer message groups false h, Bool.false_or, hall,
      ← List.append_assoc]
    by_cases hfull : ANALYZER_CAPS.duplicateFindings <
        (output ++ reportable localeCompare scope analyzer message groups).length
    · have hmore := Nat.lt_of_lt_of_le hfull (List.length_append ▸ Nat.le_add_right _
        (reportable localeCompare scope analyzer message rest.flatten).length)
      simp only [hfull, decide_true, if_true, hmore]
      rw [List.take_append_of_le_length (Nat.le_of_lt hfull)]
    · simp only [hfull, decide_false, Bool.false_eq_true, if_false]
      rw [List.take_of_length_le (Nat.le_of_not_lt hfull), ih (Nat.le_of_not_lt hfull)]

variable {localeCompare scope analyzer message}

theorem take_eq_take_append {α : Type} {xs ys : List α} {n : Nat} :
    xs.take n = (xs ++ ys).take n ↔ n ≤ xs.length ∨ ys = [] := by
  rw [List.take_append, List.self_eq_append_right, List.take_eq_nil_iff, Nat.sub_eq_zero_iff_le]

theorem duplicateFindings_of_going {collected : DuplicateCollection}
    (h : collected.truncated = false) :
    duplicateFindings localeCompare scope analyzer message collected =
      completeFindings localeCompare scope analyzer message collected := by
  have hreport := reportBuckets_eq localeCompare scope analyzer message collected.groups.values
    (List.length_nil.symm ▸ Nat.zero_le _)
  simp only [duplicateFindings, completeFindings, h, hreport, List.nil_append, kept_eq,
    Bool.false_eq_true, false_or, decide_eq_true_eq]
  by_cases hover : ANALYZER_CAPS.duplicateFindings <
      (reportable localeCompare scope analyzer message collected.groups.values.flatten).length
  · simp only [hover, if_true]
  · simp only [hover, if_false]
    exact List.take_of_length_le (Nat.le_of_not_lt hover)

theorem duplicateFindings_of_stopped {collected : DuplicateCollection}
    (h : collected.truncated = true) :
    duplicateFindings localeCompare scope analyzer message collected =
      (reportable localeCompare scope analyzer message
        (collected.groups.values.headD [])).take (ANALYZER_CAPS.duplicateFindings - 1) ++
        [truncationFinding analyzer] := by
  cases hvalues : collected.groups.values with
  | nil => simp [duplicateFindings, h, hvalues, reportBuckets, reportable, ANALYZER_CAPS.duplicateFindings]
  | cons first later =>
    have hreport := reportGroups_eq localeCompare scope analyzer message first true
      (List.length_nil.symm ▸ Nat.zero_le _)
    simp only [duplicateFindings, h, hvalues, reportBuckets, hreport, Bool.true_or, if_true,
      List.nil_append, kept_eq, List.headD_cons]

theorem reportable_buckets (first : List DuplicateGroup) (later : List (List DuplicateGroup)) :
    reportable localeCompare scope analyzer message (first :: later).flatten =
      reportable localeCompare scope analyzer message first ++
        reportable localeCompare scope analyzer message later.flatten := by
  simp [reportable]

theorem incomplete_of_cutShort {collected : DuplicateCollection} (h : CutShort scope collected) :
    duplicateFindings localeCompare scope analyzer message collected ≠
      completeFindings localeCompare scope analyzer message collected := by
  obtain ⟨htruncated, first, later, hvalues, hroom, group, hmem, hgroup⟩ := h
  rw [duplicateFindings_of_stopped htruncated]
  simp only [completeFindings, htruncated, true_or, if_true, hvalues, List.headD_cons,
    reportable_buckets]
  intro heq
  rw [List.append_left_inj, take_eq_take_append, length_reportable, reportable_eq_nil] at heq
  cases heq with
  | inl hfull => exact Nat.not_lt.mpr hfull hroom
  | inr hnone => exact hnone group hmem hgroup

theorem complete_of_not_cutShort {collected : DuplicateCollection}
    (h : ¬ CutShort scope collected) :
    duplicateFindings localeCompare scope analyzer message collected =
      completeFindings localeCompare scope analyzer message collected := by
  cases htruncated : collected.truncated with
  | false => exact duplicateFindings_of_going htruncated
  | true =>
    rw [duplicateFindings_of_stopped htruncated]
    simp only [completeFindings, htruncated, true_or, if_true, List.append_left_inj]
    cases hvalues : collected.groups.values with
    | nil => rfl
    | cons first later =>
      rw [List.headD_cons, reportable_buckets, take_eq_take_append, length_reportable,
        reportable_eq_nil]
      refine or_iff_not_imp_left.mpr fun hroom group hmem hgroup => h ?_
      exact ⟨htruncated, first, later, hvalues, Nat.lt_of_not_le hroom, group, hmem, hgroup⟩

/-- A report is complete up to its cap unless the collection cut it short. -/
theorem report_complete (localeCompare : Str → Str → Ordering) (scope : Scope)
    (analyzer : AnalyzerName) (message : Str) (collected : DuplicateCollection) :
    duplicateFindings localeCompare scope analyzer message collected =
        completeFindings localeCompare scope analyzer message collected ↔
      ¬ CutShort scope collected :=
  ⟨fun heq hcut => incomplete_of_cutShort hcut heq, complete_of_not_cutShort⟩

end

-- -----
-- A collection that stops
-- -----

/-- Forty identifiers. -/
def namesOnly (kind : Nat) : List SyntaxNode := List.replicate 40 ⟨kind, true, false, 0, lit "x"⟩

def candidateAt (body : List SyntaxNode) (line : Rat) : Candidate :=
  ⟨body, ⟨lit "a.ts", line, 1, some line, some 2⟩⟩

/-- Two functions, each of them twice. -/
def twoPairs : List Candidate :=
  [candidateAt (namesOnly 80) 1, candidateAt (namesOnly 80) 2, candidateAt (namesOnly 81) 3,
    candidateAt (namesOnly 81) 4]

def emptyFunction : Candidate := candidateAt [] 5

@[simp] theorem candidates_collectCandidate (sha256 : Str → Str) (candidate : Candidate)
    (state : DuplicateCollection) :
    (collectCandidate sha256 candidate state).candidates = state.candidates := by
  simp only [collectCandidate]
  split <;> rfl

/-- Below the cap a file is collected candidate by candidate. -/
theorem collect_append (sha256 : Str → Str) (xs ys : List Candidate) {state : DuplicateCollection}
    (h : state.candidates + xs.length ≤ ANALYZER_CAPS.duplicateCandidates) :
    collectDuplicateFile sha256 (xs ++ ys) state =
      collectDuplicateFile sha256 ys (collectDuplicateFile sha256 xs state) ∧
    (collectDuplicateFile sha256 xs state).candidates = state.candidates + xs.length := by
  induction xs generalizing state with
  | nil => exact ⟨rfl, rfl⟩
  | cons candidate rest ih =>
    have hroom : ¬ ANALYZER_CAPS.duplicateCandidates ≤ state.candidates := by
      rw [List.length_cons] at h
      omega
    rw [List.length_cons, Nat.add_comm rest.length, ← Nat.add_assoc] at h ⊢
    have hnext := @ih (collectCandidate sha256 candidate
      { state with candidates := state.candidates + 1 })
    rw [candidates_collectCandidate] at hnext
    simpa only [List.cons_append, collectDuplicateFile, if_neg hroom] using hnext h

theorem collect_emptyFunctions (sha256 : Str → Str) (n : Nat) {state : DuplicateCollection}
    (hcount : state.candidates ≤ ANALYZER_CAPS.duplicateCandidates)
    (h : ANALYZER_CAPS.duplicateCandidates < state.candidates + n) :
    collectDuplicateFile sha256 (List.replicate n emptyFunction) state =
      { state with candidates := ANALYZER_CAPS.duplicateCandidates, truncated := true } := by
  induction n generalizing state with
  | zero => exact absurd h (Nat.not_lt.mpr hcount)
  | succ n ih =>
    have hpassed : passedOver
        (canonicalizeWithCap DUPLICATE_CANONICAL_CAPS emptyFunction.body) = true := rfl
    rw [List.replicate_succ, collectDuplicateFile]
    by_cases hfull : ANALYZER_CAPS.duplicateCandidates ≤ state.candidates
    · rw [if_pos hfull, Nat.le_antisymm hfull hcount]
    · simp only [if_neg hfull, collectCandidate, hpassed, if_true]
      exact ih (Nat.lt_of_not_le hfull) (by simpa only [Nat.add_assoc, Nat.add_comm 1 n] using h)

/-- The two pairs, and more functions than there may be candidates. -/
def manyFunctions : List Candidate := twoPairs ++ List.replicate 9997 emptyFunction

theorem collect_twoPairs : (collectDuplicateFile id twoPairs .empty).groups.values.map
    (·.countP fun group => decide (Reportable .everything group)) = [1, 1] := by
  decide +kernel

theorem collect_manyFunctions : collectDuplicates id [manyFunctions] .empty =
    { collectDuplicateFile id twoPairs .empty with
      candidates := ANALYZER_CAPS.duplicateCandidates, truncated := true } := by
  obtain ⟨hcollect, hcount⟩ := collect_append id twoPairs (List.replicate 9997 emptyFunction)
    (show DuplicateCollection.empty.candidates + twoPairs.length ≤ _ by decide)
  have hfour : (collectDuplicateFile id twoPairs .empty).candidates = 4 := hcount
  rw [collectDuplicates, manyFunctions, hcollect, collect_emptyFunctions id 9997
    (by rw [hfour]; decide) (by rw [hfour]; decide)]
  rfl

theorem pair_left_out :
    duplicateAnalysis (fun _ _ => .eq) .everything .duplicates
        (lit "Structurally duplicate function") id [manyFunctions] ≠
      completeFindings (fun _ _ => .eq) .everything .duplicates
        (lit "Structurally duplicate function")
        (collectDuplicates id [manyFunctions] .empty) := by
  refine incomplete_of_cutShort ?_
  rw [collect_manyFunctions]
  generalize hcollected : collectDuplicateFile id twoPairs .empty = collected
  have hcounts := collect_twoPairs
  rw [hcollected] at hcounts
  obtain ⟨first, later, hvalues, hfirst, hlater⟩ := List.map_eq_cons_iff.mp hcounts
  obtain ⟨second, rest, rfl, hsecond, -⟩ := List.map_eq_cons_iff.mp hlater
  obtain ⟨group, hmem, hgroup⟩ := List.countP_pos_iff.mp (hsecond ▸ Nat.one_pos)
  refine ⟨rfl, first, _, hvalues, by rw [hfirst]; decide, group, ?_, of_decide_eq_true hgroup⟩
  exact List.mem_flatten.mpr ⟨second, List.mem_cons_self, hmem⟩

end PiEnv.Analyze.Duplicates
