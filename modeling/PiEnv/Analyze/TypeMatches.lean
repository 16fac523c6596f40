import PiEnv.Analyze.Scopes
import PiEnv.Lib.Double
import PiEnv.Lib.Grouping
import PiEnv.Lib.JsonNumber

/-!
# Similar types

Type declarations are collected with their shapes, indexed, and compared with those
of a similar size. What the compiler says of a declaration is data. An object is its
value together with a number of its own, so equality is that of objects. Places count
lines and columns exactly.
-/

namespace PiEnv.Analyze.TypeMatches

open Js
open Engine (AnalyzerName Location Finding)

-- -----
-- Shapes
-- -----

structure TypeShape where
  properties : List Str
  signatures : List Str
  components : List Str
  propertyCount : Nat
  signatureCount : Nat
  bucket : Str
  deriving DecidableEq, Repr

/-- What the checker says of a declared type: whether its flags, its signatures or its
being an intersection let it have a shape, and the shapes of its members. -/
structure DeclaredType where
  isStructural : Bool
  properties : List Str
  signatures : List Str

def band (count : Nat) : Str :=
  if count ≤ 1 then lit "0-1" else if count ≤ 3 then lit "2-3"
  else if count ≤ 6 then lit "4-6" else lit "7+"

def typeShape (type : DeclaredType) : Option TypeShape :=
  if !type.isStructural then none
  else if type.properties.length = 0 ∧ type.signatures.length = 0 then none
  else some
    { properties := type.properties
      signatures := type.signatures
      components := type.properties.map (lit "p:" ++ ·) ++ type.signatures.map (lit "s:" ++ ·)
      propertyCount := type.properties.length
      signatureCount := type.signatures.length
      bucket := band type.properties.length ++ lit ":" ++ band type.signatures.length }

/-- How many values of a set another set has. -/
def shared (a b : List Str) : Nat := (a.dedup.filter fun value => b.contains value).length

def similarity (left right : TypeShape) : Rat :=
  let union := (left.components ++ right.components).dedup.length
  if union = 0 then 0 else rounded (shared left.components right.components / union)

def comparableBuckets (left right : TypeShape) : Bool :=
  left.bucket == right.bucket ||
    ((left.propertyCount : Int) - right.propertyCount).natAbs ≤ 1 &&
      ((left.signatureCount : Int) - right.signatureCount).natAbs ≤ 1

-- -----
-- Collection
-- -----

/-- Where a declaration is. -/
structure Place where
  path : Str
  line : Nat
  column : Nat
  endLine : Nat
  endColumn : Nat
  deriving DecidableEq, Repr

def Place.location (place : Place) : Location :=
  ⟨place.path, place.line, place.column, some place.endLine, some place.endColumn⟩

structure TypeCandidate where
  object : Nat
  shape : TypeShape
  loc : Place
  name : Str
  /-- `extends` -/
  parent : Option Str
  typeReference : Option Str
  deriving DecidableEq, Repr

inductive StatementKind where
  /-- An interface with the text of the first expression it extends. -/
  | interfaceDeclaration (parent : Option Str)
  /-- A type alias with its text where it is a reference to a type. -/
  | typeAliasDeclaration (typeReference : Option Str)
  | other

structure Statement where
  kind : StatementKind
  type : DeclaredType
  loc : Place
  name : Str

structure TypeCollection where
  candidates : List TypeCandidate
  truncated : Bool

/-- The object that a statement becomes. -/
def candidate (statement : Statement) (object : Nat) : Option TypeCandidate :=
  match statement.kind with
  | .interfaceDeclaration parent => (typeShape statement.type).map fun shape =>
    ⟨object, shape, statement.loc, statement.name, parent, none⟩
  | .typeAliasDeclaration typeReference => (typeShape statement.type).map fun shape =>
    ⟨object, shape, statement.loc, statement.name, none, typeReference⟩
  | .other => none

def isDeclaration (statement : Statement) : Bool :=
  match statement.kind with
  | .other => false
  | _ => true

def collectStatement (state : TypeCollection) (statement : Statement) : TypeCollection :=
  if !isDeclaration statement then state
  else if ANALYZER_CAPS.typeCandidates ≤ state.candidates.length then
    { state with truncated := true }
  else
    { state with
      candidates :=
        state.candidates ++ (candidate statement state.candidates.length).toList }

def collectTypeFile (state : TypeCollection) (file : List Statement) : TypeCollection :=
  file.foldl collectStatement state

def collectTypes (files : List (List Statement)) : TypeCollection :=
  files.foldl collectTypeFile ⟨[], false⟩

-- -----
-- Index
-- -----

structure TypeCandidateIndex where
  bands : JsMap Str (List TypeCandidate)
  counts : JsMap Str (List TypeCandidate)

def countKey (propertyCount signatureCount : Nat) : Str :=
  decimal propertyCount ++ lit ":" ++ decimal signatureCount

def indexTypeCandidates (candidates : List TypeCandidate) : TypeCandidateIndex where
  bands := candidates.foldl (fun bands candidate =>
    bands.push candidate.shape.bucket candidate) JsMap.empty
  counts := candidates.foldl (fun counts candidate =>
    counts.push (countKey candidate.shape.propertyCount candidate.shape.signatureCount) candidate)
    JsMap.empty

/-- The counts at most one away. -/
def nearby (count : Nat) : List Nat :=
  ([-1, 0, 1] : List Int).filterMap fun delta =>
    if (count : Int) + delta < 0 then none else some ((count : Int) + delta).toNat

def comparableTypeCandidates (seed : TypeCandidate) (index : TypeCandidateIndex) :
    List TypeCandidate :=
  (nearby seed.shape.propertyCount).foldl (fun peers propertyCount =>
    (nearby seed.shape.signatureCount).foldl (fun peers signatureCount =>
      addAll peers (index.counts.group (countKey propertyCount signatureCount))) peers)
    (addAll [] (index.bands.group seed.shape.bucket))

-- -----
-- Matches
-- -----

def placeText (place : Place) : Str :=
  place.path ++ lit ":" ++ decimal place.line ++ lit ":" ++ decimal place.column

/-- `[a, b].sort().join("|")` -/
def joinSorted (a b : Str) : Str :=
  if b < a then b ++ lit "|" ++ a else a ++ lit "|" ++ b

def typePairKey (left right : TypeCandidate) : Str :=
  joinSorted (placeText left.loc) (placeText right.loc)

def typeSimilarityFinding (seed peer : TypeCandidate) (score : Rat) : Finding where
  id := []
  analyzer := .types
  kind := lit "type-similarity"
  severity := .warning
  message := (if score = 1 then lit "Exact" else lit "Near") ++
    lit " structural type duplicate: " ++ seed.name ++ lit " / " ++ peer.name
  location := seed.loc.location
  related := some [peer.loc.location]
  data := some (.obj [(lit "similarity", .num (.finite score)),
    (lit "propertyCount", .num (.finite seed.shape.propertyCount)),
    (lit "signatureCount", .num (.finite seed.shape.signatureCount))])

def isTypeMatchCandidate (seed peer : TypeCandidate) : Bool :=
  if seed = peer ∨ seed.name = peer.name then false
  else if seed.parent = some peer.name then false
  else if peer.parent = some seed.name then false
  else if seed.typeReference = some peer.name then false
  else if peer.typeReference = some seed.name then false
  else comparableBuckets seed.shape peer.shape

/-- The keys with that of the pair, unless it is there. -/
def recordTypePair (seed peer : TypeCandidate) (seen : List Str) : Option (List Str) :=
  if typePairKey seed peer ∈ seen then none else some (seen ++ [typePairKey seed peer])

structure Matches where
  output : List Finding
  seen : List Str

structure TypeMatchingState extends Matches where
  truncated : Bool

section
variable (threshold : Rat)

/-- The loop over the peers of a seed, and whether it stopped at a limit. -/
def emitPeers (seed : TypeCandidate) : List TypeCandidate → Nat → Matches → Matches × Bool
  | [], _, matched => (matched, false)
  | peer :: rest, comparisons, matched =>
    if !isTypeMatchCandidate seed peer then emitPeers seed rest comparisons matched
    else if ANALYZER_CAPS.typeBucketComparisons ≤ comparisons then (matched, true)
    else
      let score := similarity seed.shape peer.shape
      if score < threshold then emitPeers seed rest (comparisons + 1) matched
      else
        match recordTypePair seed peer matched.seen with
        | none => emitPeers seed rest (comparisons + 1) matched
        | some seen =>
          let output := matched.output ++ [typeSimilarityFinding seed peer score]
          if ANALYZER_CAPS.typeFindings ≤ output.length then (⟨output, seen⟩, true)
          else emitPeers seed rest (comparisons + 1) ⟨output, seen⟩

def emitTypeMatches (seed : TypeCandidate) (index : TypeCandidateIndex) (matched : Matches) :
    Matches × Bool :=
  emitPeers threshold seed (comparableTypeCandidates seed index) 0 matched

def emitSeeds (index : TypeCandidateIndex) :
    List TypeCandidate → TypeMatchingState → TypeMatchingState
  | [], state => state
  | seed :: rest, state =>
    let (matched, stopped) := emitTypeMatches threshold seed index state.toMatches
    if stopped then { matched with truncated := true }
    else emitSeeds index rest { matched with truncated := state.truncated }

def finishTypeMatches (localeCompare : Str → Str → Ordering) (state : TypeMatchingState) :
    List Finding :=
  let output :=
    if state.truncated then
      (if ANALYZER_CAPS.typeFindings ≤ state.output.length then state.output.dropLast
        else state.output) ++ [truncationFinding .types]
    else state.output
  output.mergeSort fun left right =>
    (compareLocations localeCompare left.location right.location).isLE

def similarTypes (localeCompare : Str → Str → Ordering) (files : List (List Statement))
    (scope : Scope) : List Finding :=
  let collected := collectTypes files
  finishTypeMatches localeCompare
    (emitSeeds threshold (indexTypeCandidates collected.candidates)
      (collected.candidates.filter fun candidate => changed scope candidate.loc.location)
      { output := [], seen := [], truncated := collected.truncated })

end

-- -----
-- The index holds what the filter holds
-- -----

theorem decimal_injective {m n : Nat} (h : decimal m = decimal n) : m = n := by
  rw [← digitsValue_decimal m, h, digitsValue_decimal]

theorem colon_not_mem_decimal (n : Nat) : (58 : UInt16) ∉ decimal n :=
  fun h => absurd (isDigit_decimal h) (by decide)

theorem countKey_injective {p s p' s' : Nat} (h : countKey p s = countKey p' s') :
    p = p' ∧ s = s' := by
  simp only [countKey, show lit ":" = [58] from rfl, List.append_assoc, List.singleton_append] at h
  obtain ⟨hp, -, hs⟩ := (List.append_cons_inj_of_notMem (colon_not_mem_decimal p)
    (colon_not_mem_decimal s)).mp h
  exact ⟨decimal_injective hp, decimal_injective hs⟩

theorem mem_nearby {m n : Nat} : m ∈ nearby n ↔ ((n : Int) - m).natAbs ≤ 1 := by
  simp only [nearby, List.mem_filterMap, List.mem_cons, List.not_mem_nil, or_false]
  constructor
  · rintro ⟨delta, rfl | rfl | rfl, h⟩ <;> split at h <;> grind
  · intro h
    refine ⟨(m : Int) - n, by omega, ?_⟩
    rw [if_neg (by omega)]
    congr 1
    omega

/-- The peers as one set built from two lists. -/
theorem comparableTypeCandidates_eq (seed : TypeCandidate) (index : TypeCandidateIndex) :
    comparableTypeCandidates seed index =
      addAll (addAll [] (index.bands.group seed.shape.bucket))
        ((nearby seed.shape.propertyCount).flatMap fun propertyCount =>
          (nearby seed.shape.signatureCount).flatMap fun signatureCount =>
            index.counts.group (countKey propertyCount signatureCount)) := by
  simp only [comparableTypeCandidates, addAll, List.foldl_flatMap]

theorem mem_comparable {seed peer : TypeCandidate} {candidates : List TypeCandidate} :
    peer ∈ comparableTypeCandidates seed (indexTypeCandidates candidates) ↔
      peer ∈ candidates ∧ comparableBuckets seed.shape peer.shape = true := by
  simp only [comparableTypeCandidates_eq, mem_addAll, indexTypeCandidates,
    JsMap.group_foldl_push, JsMap.group_empty, List.nil_append, List.not_mem_nil, false_or,
    List.mem_filter, List.mem_flatMap, mem_nearby, decide_eq_true_eq, comparableBuckets,
    Bool.or_eq_true, Bool.and_eq_true, beq_iff_eq]
  constructor
  · rintro (⟨hmem, hbucket⟩ | ⟨p, hp, s, hs, hmem, hkey⟩)
    · exact ⟨hmem, .inl hbucket.symm⟩
    · obtain ⟨rfl, rfl⟩ := countKey_injective hkey
      exact ⟨hmem, .inr ⟨hp, hs⟩⟩
  · rintro ⟨hmem, hbucket | ⟨hp, hs⟩⟩
    · exact .inl ⟨hmem, hbucket.symm⟩
    · exact .inr ⟨_, hp, _, hs, hmem, rfl⟩

theorem nodup_comparable (seed : TypeCandidate) (index : TypeCandidateIndex) :
    (comparableTypeCandidates seed index).Nodup := by
  rw [comparableTypeCandidates_eq]
  exact nodup_addAll _ (nodup_addAll _ List.nodup_nil)

end PiEnv.Analyze.TypeMatches
