import PiEnv.Analyze.Engine

/-!
# Scopes of an analysis

Which part of a workspace a finding has to touch, and what the analyzers that
compare declarations share: the order of locations and the notice that a limit
was reached. How paths compare by locale is an argument.
-/

namespace PiEnv.Analyze

open Js
open Engine (AnalyzerName Location Finding)

-- -----
-- Scopes
-- -----

/-- Lines from `start` to `stop`. -/
structure Hunk where
  start : Nat
  stop : Nat
  deriving DecidableEq, Repr

inductive ScopeMode where
  | all | paths | diff
  deriving DecidableEq, Repr

structure Scope where
  mode : ScopeMode
  files : List Str
  hunks : JsMap Str (List Hunk)

def intersectsHunks (start stop : Rat) : Option (List Hunk) → Bool
  | none => true
  | some hunks => hunks.any fun hunk => start ≤ hunk.stop && hunk.start ≤ stop

def changed (scope : Scope) (value : Location) : Bool :=
  scope.mode == .all ||
    scope.files.contains value.path &&
      intersectsHunks value.line (value.endLine.getD value.line) (scope.hunks.get value.path)

/-- A scope that every location is in. -/
def Scope.everything : Scope := ⟨.all, [], JsMap.empty⟩

@[simp] theorem changed_everything (value : Location) : changed .everything value = true := rfl

-- -----
-- Findings about several declarations
-- -----

def compareLocations (localeCompare : Str → Str → Ordering) (left right : Location) : Ordering :=
  (localeCompare left.path right.path).then
    ((compare left.line right.line).then (compare left.column right.column))

namespace ANALYZER_CAPS

def duplicateCandidates : Nat := 10000
def duplicateFindings : Nat := 100
def typeCandidates : Nat := 5000
def typeBucketComparisons : Nat := 2000
def typeFindings : Nat := 50

end ANALYZER_CAPS

def isDuplicateAnalyzer (analyzer : AnalyzerName) : Bool :=
  analyzer == .duplicates || analyzer == .testDuplicates

def truncationFinding (analyzer : AnalyzerName) : Finding where
  id := []
  analyzer := analyzer
  kind := if isDuplicateAnalyzer analyzer then lit "duplicate" else lit "type-similarity"
  severity := .info
  message :=
    if isDuplicateAnalyzer analyzer then
      lit "Duplicate analysis truncated at bounded candidate/finding limits"
    else lit "Type similarity analysis truncated at bounded candidate/comparison/finding limits"
  location := ⟨lit ".", 1, 1, none, none⟩
  related := none
  data := some (.obj [(lit "truncated", .bool true)])

/-- One place of a full report is given up for the notice. -/
theorem kept_eq (all : List Finding) {cap : Nat} :
    (if cap ≤ (all.take cap).length then (all.take cap).dropLast else all.take cap) =
      all.take (cap - 1) := by
  by_cases hfull : cap ≤ all.length
  · have hlength : (all.take cap).length = cap := List.length_take_of_le hfull
    rw [if_pos (Nat.le_of_eq hlength.symm), List.dropLast_eq_take, hlength, List.take_take,
      Nat.min_eq_left (Nat.sub_le _ _)]
  · have hshort : all.length ≤ cap - 1 := Nat.le_sub_one_of_lt (Nat.lt_of_not_le hfull)
    have htake : all.take cap = all := List.take_of_length_le (Nat.le_of_not_le hfull)
    rw [htake, if_neg hfull, List.take_of_length_le hshort]

end PiEnv.Analyze
