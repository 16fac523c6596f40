import Mathlib.Data.List.ProdSigma
import Mathlib.Data.Sym.Sym2
import PiEnv.Analyze.TypeMatches

/-!
# Which similar types are reported

The pairs of similar types with a member in scope are described without the index
and without limits. A report within the limits holds exactly these, as long as no two
of them have the same key.
-/

namespace PiEnv.Analyze.TypeMatches

open Js
open Engine (Location Finding)

-- -----
-- Pairs
-- -----

def inScope (scope : Scope) (candidate : TypeCandidate) : Bool :=
  changed scope candidate.loc.location

/-- Different declarations of a similar size that are similar enough. -/
def similar (threshold : Rat) (seed peer : TypeCandidate) : Bool :=
  isTypeMatchCandidate seed peer && !decide (similarity seed.shape peer.shape < threshold)

/-- Pairs without order, with a member in scope. -/
def similarPairs (threshold : Rat) (scope : Scope) (candidates : List TypeCandidate) :
    Finset (Sym2 TypeCandidate) :=
  ((candidates ×ˢ candidates).filter fun pair =>
    similar threshold pair.1 pair.2 && (inScope scope pair.1 || inScope scope pair.2)).map
    (fun pair => s(pair.1, pair.2)) |>.toFinset

def pairKey (pair : TypeCandidate × TypeCandidate) : Str := typePairKey pair.1 pair.2

def pairFinding (pair : TypeCandidate × TypeCandidate) : Finding :=
  typeSimilarityFinding pair.1 pair.2 (similarity pair.1.shape pair.2.shape)

theorem joinSorted_comm (a b : Str) : joinSorted a b = joinSorted b a := by
  unfold joinSorted
  by_cases hba : b < a
  · rw [if_pos hba, if_neg (List.lt_asymm hba)]
  · by_cases hab : a < b
    · rw [if_neg hba, if_pos hab]
    · have heq : a = b := List.le_antisymm (List.not_lt.mp hba) (List.not_lt.mp hab)
      rw [heq]

theorem typePairKey_comm (left right : TypeCandidate) :
    typePairKey left right = typePairKey right left :=
  joinSorted_comm _ _

theorem shared_eq (a b : List Str) : shared a b = (a.toFinset ∩ b.toFinset).card := by
  unfold shared
  rw [← List.toFinset_card_of_nodup (a.nodup_dedup.filter _)]
  congr 1
  ext value
  simp

theorem similarity_comm (left right : TypeShape) :
    similarity left right = similarity right left := by
  have hperm : (left.components ++ right.components).Perm (right.components ++ left.components) :=
    List.perm_append_comm
  have hshared : shared left.components right.components =
      shared right.components left.components := by
    rw [shared_eq, shared_eq, Finset.inter_comm]
  unfold similarity
  simp only [hperm.dedup.length_eq, hshared]

theorem comparableBuckets_comm (left right : TypeShape) :
    comparableBuckets left right = comparableBuckets right left := by
  have habs (m n : Nat) : ((m : Int) - n).natAbs = ((n : Int) - m).natAbs := by omega
  unfold comparableBuckets
  rw [habs left.propertyCount, habs left.signatureCount, Bool.beq_comm]

theorem isTypeMatchCandidate_iff {seed peer : TypeCandidate} :
    isTypeMatchCandidate seed peer = true ↔
      seed ≠ peer ∧ seed.name ≠ peer.name ∧
      (seed.parent ≠ some peer.name ∧ peer.parent ≠ some seed.name) ∧
      (seed.typeReference ≠ some peer.name ∧ peer.typeReference ≠ some seed.name) ∧
      comparableBuckets seed.shape peer.shape = true := by
  unfold isTypeMatchCandidate
  grind

theorem isTypeMatchCandidate_comm (seed peer : TypeCandidate) :
    isTypeMatchCandidate seed peer = isTypeMatchCandidate peer seed := by
  rw [Bool.eq_iff_iff, isTypeMatchCandidate_iff, isTypeMatchCandidate_iff,
    comparableBuckets_comm seed.shape, ne_comm (a := seed), ne_comm (a := seed.name),
    and_comm (a := seed.parent ≠ _), and_comm (a := seed.typeReference ≠ _)]

theorem similar_comm (threshold : Rat) (seed peer : TypeCandidate) :
    similar threshold seed peer = similar threshold peer seed := by
  unfold similar
  rw [isTypeMatchCandidate_comm, similarity_comm]

theorem mem_similarPairs {threshold : Rat} {scope : Scope} {candidates : List TypeCandidate}
    {a b : TypeCandidate} :
    s(a, b) ∈ similarPairs threshold scope candidates ↔
      a ∈ candidates ∧ b ∈ candidates ∧ similar threshold a b = true ∧
        (inScope scope a = true ∨ inScope scope b = true) := by
  simp only [similarPairs, List.mem_toFinset, List.mem_map, List.mem_filter, Prod.exists,
    List.mem_product, Bool.and_eq_true, Bool.or_eq_true, Sym2.eq_iff]
  constructor
  · rintro ⟨x, y, ⟨⟨hx, hy⟩, hsimilar, hscope⟩, ⟨rfl, rfl⟩ | ⟨rfl, rfl⟩⟩
    · exact ⟨hx, hy, hsimilar, hscope⟩
    · exact ⟨hy, hx, similar_comm threshold _ _ ▸ hsimilar, hscope.symm⟩
  · rintro ⟨ha, hb, hsimilar, hscope⟩
    exact ⟨a, b, ⟨⟨ha, hb⟩, hsimilar, hscope⟩, .inl ⟨rfl, rfl⟩⟩

-- -----
-- Loops
-- -----

section
variable (threshold : Rat)

/-- The similar peers of a seed in the order of the loop. -/
def matchesOf (index : TypeCandidateIndex) (seed : TypeCandidate) :
    List (TypeCandidate × TypeCandidate) :=
  ((comparableTypeCandidates seed index).filter (similar threshold seed)).map (seed, ·)

/-- What a loop has found up to the cap, and whether it stopped at the cap. -/
structure Emits (start : Matches) (pairs : List (TypeCandidate × TypeCandidate))
    (emitted : Matches × Bool) : Prop where
  output : emitted.1.output =
    (start.output ++ (firsts pairKey start.seen pairs).map pairFinding).take
      ANALYZER_CAPS.typeFindings
  stopped : emitted.2 = decide (ANALYZER_CAPS.typeFindings ≤
    (start.output ++ (firsts pairKey start.seen pairs).map pairFinding).length)
  seen : emitted.2 = false →
    emitted.1.seen = start.seen ++ (firsts pairKey start.seen pairs).map pairKey

variable {threshold}

theorem emits_nothing {start : Matches} (h : start.output.length < ANALYZER_CAPS.typeFindings) :
    Emits start [] (start, false) where
  output := by simp [firsts, List.take_of_length_le (Nat.le_of_lt h)]
  stopped := by simp [firsts, h]
  seen := by simp [firsts]

/-- The loop over peers: a finding for each first key among the similar ones. -/
theorem emitPeers_emits (seed : TypeCandidate) (peers : List TypeCandidate) {comparisons : Nat}
    {start : Matches}
    (hcount : comparisons + peers.countP (isTypeMatchCandidate seed) ≤
      ANALYZER_CAPS.typeBucketComparisons)
    (hlength : start.output.length < ANALYZER_CAPS.typeFindings) :
    Emits start ((peers.filter (similar threshold seed)).map (seed, ·))
      (emitPeers threshold seed peers comparisons start) := by
  induction peers generalizing comparisons start with
  | nil => exact emits_nothing hlength
  | cons peer rest ih =>
    rw [emitPeers]
    by_cases hmatch : isTypeMatchCandidate seed peer = true
    · rw [List.countP_cons_of_pos hmatch] at hcount
      have hroom : ¬ ANALYZER_CAPS.typeBucketComparisons ≤ comparisons := by omega
      have hrest : comparisons + 1 + rest.countP (isTypeMatchCandidate seed) ≤
          ANALYZER_CAPS.typeBucketComparisons := by omega
      simp only [hmatch, Bool.not_true, Bool.false_eq_true, if_false, if_neg hroom]
      by_cases hscore : similarity seed.shape peer.shape < threshold
      · have hsimilar : ¬ similar threshold seed peer = true := by simp [similar, hscore]
        rw [if_pos hscore, List.filter_cons_of_neg hsimilar]
        exact ih hrest hlength
      · have hsimilar : similar threshold seed peer = true := by simp [similar, hmatch, hscore]
        rw [if_neg hscore, List.filter_cons_of_pos hsimilar, List.map_cons]
        by_cases hseen : typePairKey seed peer ∈ start.seen
        · have hskip : firsts pairKey start.seen
              ((seed, peer) :: (rest.filter (similar threshold seed)).map (seed, ·)) =
              firsts pairKey start.seen ((rest.filter (similar threshold seed)).map (seed, ·)) :=
            if_pos hseen
          have hemits := ih hrest hlength
          simp only [recordTypePair, if_pos hseen]
          exact ⟨hskip ▸ hemits.output, hskip ▸ hemits.stopped, hskip ▸ hemits.seen⟩
        · have hfirst : firsts pairKey start.seen
              ((seed, peer) :: (rest.filter (similar threshold seed)).map (seed, ·)) =
              (seed, peer) :: firsts pairKey (start.seen ++ [typePairKey seed peer])
                ((rest.filter (similar threshold seed)).map (seed, ·)) :=
            if_neg hseen
          simp only [recordTypePair, if_neg hseen]
          by_cases hcap : ANALYZER_CAPS.typeFindings ≤
              (start.output ++ [typeSimilarityFinding seed peer
                (similarity seed.shape peer.shape)]).length
          · have hfull : (start.output ++ [pairFinding (seed, peer)]).length =
                ANALYZER_CAPS.typeFindings :=
              Nat.le_antisymm (by rw [List.length_append]; exact hlength) hcap
            rw [if_pos hcap]
            refine ⟨?_, ?_, fun hstopped => by cases hstopped⟩
            · rw [hfirst, List.map_cons, List.append_cons start.output (pairFinding (seed, peer)),
                List.take_append_of_le_length
                (Nat.le_of_eq hfull.symm), List.take_of_length_le (Nat.le_of_eq hfull)]
              rfl
            · rw [hfirst, List.map_cons, List.append_cons start.output (pairFinding (seed, peer)),
                List.length_append, hfull]
              simp
          · have hemits := @ih (comparisons + 1) ⟨_, start.seen ++ [typePairKey seed peer]⟩ hrest
              (Nat.lt_of_not_le hcap)
            rw [if_neg hcap]
            constructor
            · rw [hfirst, List.map_cons, List.append_cons start.output (pairFinding (seed, peer))]
              exact hemits.output
            · rw [hfirst, List.map_cons, List.append_cons start.output (pairFinding (seed, peer))]
              exact hemits.stopped
            · rw [hfirst, List.map_cons, List.append_cons start.seen (pairKey (seed, peer))]
              exact hemits.seen
    · have hsimilar : ¬ similar threshold seed peer = true := by simp [similar, hmatch]
      rw [List.countP_cons_of_neg hmatch] at hcount
      rw [if_pos (by simpa using hmatch), List.filter_cons_of_neg hsimilar]
      exact ih hcount hlength

/-- The loop over seeds, each within the comparisons it may make. -/
theorem emitSeeds_emits {index : TypeCandidateIndex} (seeds : List TypeCandidate)
    {start : TypeMatchingState}
    (hcount : ∀ seed ∈ seeds, (comparableTypeCandidates seed index).countP
      (isTypeMatchCandidate seed) ≤ ANALYZER_CAPS.typeBucketComparisons)
    (hlength : start.output.length < ANALYZER_CAPS.typeFindings) :
    let all := start.output ++
      (firsts pairKey start.seen (seeds.flatMap (matchesOf threshold index))).map pairFinding
    (emitSeeds threshold index seeds start).output = all.take ANALYZER_CAPS.typeFindings ∧
    (emitSeeds threshold index seeds start).truncated =
      (start.truncated || decide (ANALYZER_CAPS.typeFindings ≤ all.length)) := by
  induction seeds generalizing start with
  | nil => simp [emitSeeds, firsts, List.take_of_length_le (Nat.le_of_lt hlength), hlength]
  | cons seed rest ih =>
    have hemits : Emits start.toMatches (matchesOf threshold index seed)
        (emitTypeMatches threshold seed index start.toMatches) :=
      emitPeers_emits seed _ (by simpa using hcount seed List.mem_cons_self) hlength
    simp only [emitSeeds, List.flatMap_cons, firsts_append, List.map_append,
      ← List.append_assoc]
    cases hstopped : (emitTypeMatches threshold seed index start.toMatches).2 with
    | true =>
      have hfull := of_decide_eq_true (hemits.stopped ▸ hstopped)
      rw [if_pos rfl]
      refine ⟨?_, ?_⟩
      · rw [List.take_append_of_le_length hfull]
        exact hemits.output
      · rw [List.length_append, decide_eq_true (Nat.le_add_right_of_le hfull), Bool.or_true]
    | false =>
      have hroom := Nat.lt_of_not_le (of_decide_eq_false (hemits.stopped ▸ hstopped))
      have houtput := hemits.output
      rw [List.take_of_length_le (Nat.le_of_lt hroom)] at houtput
      have hrest := @ih { (emitTypeMatches threshold seed index start.toMatches).1 with
          truncated := start.truncated }
        (fun other hother => hcount other (List.mem_cons_of_mem _ hother)) (houtput ▸ hroom)
      simp only [houtput, hemits.seen hstopped] at hrest
      simpa using hrest

end

-- -----
-- Collected declarations
-- -----

/-- The declared types that have a shape, however many. -/
def declaredTypes (statements : List Statement) : List TypeCandidate :=
  statements.foldl (fun candidates statement =>
    candidates ++ (candidate statement candidates.length).toList) []

/-- A declaration follows as many declared types as there may be. -/
def Overfull (statements : List Statement) : Prop :=
  ∃ before statement after, statements = before ++ statement :: after ∧
    isDeclaration statement = true ∧ ANALYZER_CAPS.typeCandidates ≤ (declaredTypes before).length

theorem declaredTypes_snoc (statements : List Statement) (statement : Statement) :
    declaredTypes (statements ++ [statement]) = declaredTypes statements ++
      (candidate statement (declaredTypes statements).length).toList := by
  simp [declaredTypes]

theorem object_candidate {statement : Statement} {object : Nat} {found : TypeCandidate}
    (h : candidate statement object = some found) : found.object = object := by
  cases hkind : statement.kind <;> simp only [candidate, hkind, Option.map_eq_some_iff] at h
  case other => cases h
  all_goals
    obtain ⟨shape, -, rfl⟩ := h
    rfl

/-- Objects are numbered in the order of their declarations. -/
theorem objects_declaredTypes (statements : List Statement) :
    (declaredTypes statements).map (·.object) = List.range (declaredTypes statements).length := by
  induction statements using List.reverseRecOn with
  | nil => rfl
  | append_singleton statements statement ih =>
    rw [declaredTypes_snoc]
    cases hfound : candidate statement (declaredTypes statements).length with
    | none => simpa using ih
    | some found => simp [ih, object_candidate hfound, List.range_succ]

theorem nodup_declaredTypes (statements : List Statement) : (declaredTypes statements).Nodup :=
  List.Nodup.of_map (·.object) (objects_declaredTypes statements ▸ List.nodup_range)

theorem overfull_snoc (statements : List Statement) (statement : Statement) :
    Overfull (statements ++ [statement]) ↔ Overfull statements ∨
      isDeclaration statement = true ∧
        ANALYZER_CAPS.typeCandidates ≤ (declaredTypes statements).length := by
  constructor
  · rintro ⟨before, found, after, heq, hfound⟩
    cases after using List.reverseRecOn with
    | nil =>
      obtain ⟨rfl, rfl⟩ := List.append_inj' heq rfl |>.imp_right List.singleton_inj.mp
      exact .inr hfound
    | append_singleton after last =>
      rw [← List.cons_append, ← List.append_assoc] at heq
      obtain ⟨hinit, -⟩ := List.append_inj' heq rfl
      exact .inl ⟨before, found, after, hinit, hfound⟩
  · rintro (⟨before, found, after, rfl, hfound⟩ | hfound)
    · exact ⟨before, found, after ++ [statement], by simp, hfound⟩
    · exact ⟨statements, statement, [], rfl, hfound⟩

/-- The collection holds the declared types, unless it is stopped. -/
theorem collectTypeFile_spec (statements : List Statement) :
    ((collectTypeFile ⟨[], false⟩ statements).truncated = true ↔ Overfull statements) ∧
    (¬ Overfull statements →
      (collectTypeFile ⟨[], false⟩ statements).candidates = declaredTypes statements) := by
  induction statements using List.reverseRecOn with
  | nil => simp [collectTypeFile, Overfull, declaredTypes]
  | append_singleton statements statement ih =>
    obtain ⟨htruncated, hcandidates⟩ := ih
    have hstep : collectTypeFile ⟨[], false⟩ (statements ++ [statement]) =
        collectStatement (collectTypeFile ⟨[], false⟩ statements) statement := by
      simp [collectTypeFile]
    rw [hstep, overfull_snoc, declaredTypes_snoc]
    generalize collectTypeFile ⟨[], false⟩ statements = state at htruncated hcandidates
    by_cases hdeclaration : isDeclaration statement = true
    · by_cases hover : Overfull statements
      · have hstopped := htruncated.mpr hover
        simp only [collectStatement, hdeclaration]
        split_ifs <;> simp_all
      · simp only [collectStatement, hdeclaration, hcandidates hover]
        split_ifs <;> simp_all
    · have hnone : candidate statement (declaredTypes statements).length = none := by
        cases hkind : statement.kind <;> simp_all [isDeclaration, candidate]
      simp_all [collectStatement]

theorem collectTypes_eq (files : List (List Statement)) :
    collectTypes files = collectTypeFile ⟨[], false⟩ files.flatten := by
  rw [collectTypes, collectTypeFile, List.foldl_flatten]
  rfl

-- -----
-- Found pairs
-- -----

def unordered (pair : TypeCandidate × TypeCandidate) : Sym2 TypeCandidate := s(pair.1, pair.2)

/-- The key of a pair does not depend on its order. -/
def keyOf : Sym2 TypeCandidate → Str := Sym2.lift ⟨typePairKey, typePairKey_comm⟩

/-- Different pairs have different keys. -/
def KeysApart (pairs : Finset (Sym2 TypeCandidate)) : Prop :=
  ∀ pair ∈ pairs, ∀ other ∈ pairs, keyOf pair = keyOf other → pair = other

/-- No declaration in scope has more to compare with than it may. -/
def WithinComparisons (scope : Scope) (candidates : List TypeCandidate) : Prop :=
  ∀ seed ∈ candidates, inScope scope seed = true →
    candidates.countP (isTypeMatchCandidate seed) ≤ ANALYZER_CAPS.typeBucketComparisons

section
variable (threshold : Rat) (scope : Scope) (candidates : List TypeCandidate)

/-- The pairs in the order of the loops, the first under each key. -/
def foundPairs : List (TypeCandidate × TypeCandidate) :=
  firsts pairKey [] ((candidates.filter (inScope scope)).flatMap
    (matchesOf threshold (indexTypeCandidates candidates)))

variable {threshold scope candidates}

theorem similar_comparable {seed peer : TypeCandidate} (h : similar threshold seed peer = true) :
    comparableBuckets seed.shape peer.shape = true := by
  simp only [similar, Bool.and_eq_true] at h
  exact (isTypeMatchCandidate_iff.mp h.1).2.2.2.2

theorem mem_matches {pair : TypeCandidate × TypeCandidate} :
    pair ∈ (candidates.filter (inScope scope)).flatMap
        (matchesOf threshold (indexTypeCandidates candidates)) ↔
      pair.1 ∈ candidates ∧ inScope scope pair.1 = true ∧ pair.2 ∈ candidates ∧
        similar threshold pair.1 pair.2 = true := by
  obtain ⟨seed, peer⟩ := pair
  simp only [List.mem_flatMap, List.mem_filter, matchesOf, List.mem_map, mem_comparable,
    Prod.mk.injEq]
  constructor
  · rintro ⟨found, ⟨hseed, hscope⟩, other, ⟨⟨hpeer, -⟩, hsimilar⟩, rfl, rfl⟩
    exact ⟨hseed, hscope, hpeer, hsimilar⟩
  · rintro ⟨hseed, hscope, hpeer, hsimilar⟩
    exact ⟨seed, ⟨hseed, hscope⟩, peer, ⟨⟨hpeer, similar_comparable hsimilar⟩, hsimilar⟩,
      rfl, rfl⟩

theorem mem_similarPairs_iff {pair : Sym2 TypeCandidate} :
    pair ∈ similarPairs threshold scope candidates ↔
      ∃ found ∈ (candidates.filter (inScope scope)).flatMap
        (matchesOf threshold (indexTypeCandidates candidates)), unordered found = pair := by
  induction pair with
  | _ a b =>
    simp only [mem_similarPairs, mem_matches, unordered, Prod.exists, Sym2.eq_iff]
    constructor
    · rintro ⟨ha, hb, hsimilar, hscope | hscope⟩
      · exact ⟨a, b, ⟨ha, hscope, hb, hsimilar⟩, .inl ⟨rfl, rfl⟩⟩
      · exact ⟨b, a, ⟨hb, hscope, ha, similar_comm threshold a b ▸ hsimilar⟩, .inr ⟨rfl, rfl⟩⟩
    · rintro ⟨x, y, ⟨hx, hscope, hy, hsimilar⟩, ⟨rfl, rfl⟩ | ⟨rfl, rfl⟩⟩
      · exact ⟨hx, hy, hsimilar, .inl hscope⟩
      · exact ⟨hy, hx, similar_comm threshold x y ▸ hsimilar, .inr hscope⟩

theorem unordered_found_subset :
    ((foundPairs threshold scope candidates).map unordered).toFinset ⊆
      similarPairs threshold scope candidates := by
  intro pair hpair
  obtain ⟨found, hfound, rfl⟩ := List.mem_map.mp (List.mem_toFinset.mp hpair)
  exact mem_similarPairs_iff.mpr ⟨found, (firsts_sublist _ _).subset hfound, rfl⟩

theorem keys_found :
    (foundPairs threshold scope candidates).map pairKey =
      ((foundPairs threshold scope candidates).map unordered).map keyOf := by
  rw [List.map_map]
  rfl

theorem nodup_unordered_found :
    ((foundPairs threshold scope candidates).map unordered).Nodup :=
  List.Nodup.of_map keyOf (keys_found ▸ nodup_firsts _ _)

theorem length_found : (foundPairs threshold scope candidates).length =
    ((similarPairs threshold scope candidates).image keyOf).card := by
  have hkeys : ((foundPairs threshold scope candidates).map pairKey).toFinset =
      (similarPairs threshold scope candidates).image keyOf := by
    ext key
    simp only [List.mem_toFinset, List.mem_map, Finset.mem_image]
    constructor
    · rintro ⟨found, hfound, rfl⟩
      refine ⟨unordered found, unordered_found_subset ?_, rfl⟩
      exact List.mem_toFinset.mpr (List.mem_map_of_mem hfound)
    · rintro ⟨pair, hpair, rfl⟩
      obtain ⟨found, hfound, rfl⟩ := mem_similarPairs_iff.mp hpair
      have hkeys : pairKey found ∈ ([] : List Str) ∨
          ∃ first ∈ foundPairs threshold scope candidates, pairKey first = pairKey found :=
        key_firsts hfound
      rcases hkeys with hseen | ⟨first, hfirst, hkey⟩
      · cases hseen
      · exact ⟨first, hfirst, hkey⟩
  have hnodup : ((foundPairs threshold scope candidates).map pairKey).Nodup := nodup_firsts _ _
  rw [← hkeys, List.toFinset_card_of_nodup hnodup, List.length_map]

theorem keysApart_iff : KeysApart (similarPairs threshold scope candidates) ↔
    (foundPairs threshold scope candidates).length =
      (similarPairs threshold scope candidates).card := by
  rw [length_found, Finset.card_image_iff]
  exact ⟨fun h pair hpair other hother => h pair hpair other hother,
    fun h pair hpair other hother => h hpair hother⟩

theorem countP_comparable (hnodup : candidates.Nodup) (seed : TypeCandidate) :
    (comparableTypeCandidates seed (indexTypeCandidates candidates)).countP
      (isTypeMatchCandidate seed) = candidates.countP (isTypeMatchCandidate seed) := by
  rw [List.countP_eq_length_filter, List.countP_eq_length_filter]
  refine ((List.perm_ext_iff_of_nodup ((nodup_comparable _ _).filter _)
    (hnodup.filter _)).mpr fun peer => ?_).length_eq
  simp only [List.mem_filter, mem_comparable]
  exact ⟨fun ⟨⟨hmem, _⟩, hmatch⟩ => ⟨hmem, hmatch⟩, fun ⟨hmem, hmatch⟩ =>
    ⟨⟨hmem, (isTypeMatchCandidate_iff.mp hmatch).2.2.2.2⟩, hmatch⟩⟩

-- -----
-- Reports
-- -----

/-- The findings are those of the pairs, one for each. -/
def ReportsExactly (scope : Scope) (output : List Finding) (pairs : Finset (Sym2 TypeCandidate)) :
    Prop :=
  ∃ reported : List (TypeCandidate × TypeCandidate), output.Perm (reported.map pairFinding) ∧
    (∀ pair ∈ reported, inScope scope pair.1 = true) ∧
    (reported.map unordered).Nodup ∧ (reported.map unordered).toFinset = pairs

/-- Each pair has a finding of its own among the findings. -/
def ReportsAll (output : List Finding) (pairs : Finset (Sym2 TypeCandidate)) : Prop :=
  ∃ reported : List (TypeCandidate × TypeCandidate),
    (reported.map pairFinding).Subperm output ∧
    (reported.map unordered).Nodup ∧ (reported.map unordered).toFinset = pairs

theorem length_reported {reported : List (TypeCandidate × TypeCandidate)}
    {pairs : Finset (Sym2 TypeCandidate)} (hnodup : (reported.map unordered).Nodup)
    (hpairs : (reported.map unordered).toFinset = pairs) : reported.length = pairs.card := by
  rw [← hpairs, List.toFinset_card_of_nodup hnodup, List.length_map]

theorem unordered_found_eq (h : KeysApart (similarPairs threshold scope candidates)) :
    ((foundPairs threshold scope candidates).map unordered).toFinset =
      similarPairs threshold scope candidates := by
  refine Finset.eq_of_subset_of_card_le unordered_found_subset ?_
  rw [List.toFinset_card_of_nodup nodup_unordered_found, List.length_map, keysApart_iff.mp h]

theorem inScope_found {pair : TypeCandidate × TypeCandidate}
    (h : pair ∈ foundPairs threshold scope candidates) : inScope scope pair.1 = true :=
  (mem_matches.mp ((firsts_sublist _ _).subset h)).2.1

theorem reportsExactly_iff {output : List Finding}
    (h : output.Perm ((foundPairs threshold scope candidates).map pairFinding)) :
    ReportsExactly scope output (similarPairs threshold scope candidates) ↔
      KeysApart (similarPairs threshold scope candidates) := by
  constructor
  · rintro ⟨reported, hperm, -, hnodup, hpairs⟩
    rw [keysApart_iff, ← length_reported hnodup hpairs]
    simpa using (h.symm.trans hperm).length_eq
  · intro hapart
    exact ⟨_, h, fun pair => inScope_found, nodup_unordered_found, unordered_found_eq hapart⟩

theorem notice_ne_finding (pair : TypeCandidate × TypeCandidate) :
    truncationFinding .types ≠ pairFinding pair := by
  intro h
  have hseverity := congrArg Finding.severity h
  cases hseverity

theorem notice_not_mem (pairs : List (TypeCandidate × TypeCandidate)) :
    truncationFinding .types ∉ pairs.map pairFinding := by
  intro hmem
  obtain ⟨pair, -, hpair⟩ := List.mem_map.mp hmem
  exact notice_ne_finding pair hpair.symm

end

section
variable {localeCompare : Str → Str → Ordering} {threshold : Rat} {files : List (List Statement)}
  {scope : Scope}

theorem finish_perm (state : TypeMatchingState) : (finishTypeMatches localeCompare state).Perm
    (if state.truncated then
      (if ANALYZER_CAPS.typeFindings ≤ state.output.length then state.output.dropLast
        else state.output) ++ [truncationFinding .types]
    else state.output) :=
  List.mergeSort_perm _ _

theorem emitSeeds_truncated {index : TypeCandidateIndex} (seeds : List TypeCandidate)
    {state : TypeMatchingState} (h : state.truncated = true) :
    (emitSeeds threshold index seeds state).truncated = true := by
  induction seeds generalizing state with
  | nil => exact h
  | cons seed rest ih =>
    simp only [emitSeeds]
    split
    · rfl
    · exact ih h

theorem notice_of_overfull (h : Overfull files.flatten) :
    truncationFinding .types ∈ similarTypes threshold localeCompare files scope := by
  have hcollected : (collectTypes files).truncated = true :=
    collectTypes_eq files ▸ (collectTypeFile_spec files.flatten).1.mpr h
  refine (finish_perm _).mem_iff.mpr ?_
  rw [if_pos (emitSeeds_truncated _ hcollected)]
  exact List.mem_append_right _ (List.mem_singleton_self _)

/-- What is reported when neither the collection nor a comparison is stopped. -/
theorem similarTypes_perm (hfull : ¬ Overfull files.flatten)
    (hwithin : WithinComparisons scope (declaredTypes files.flatten)) :
    (similarTypes threshold localeCompare files scope).Perm
      (let found := (foundPairs threshold scope (declaredTypes files.flatten)).map pairFinding
      if ANALYZER_CAPS.typeFindings ≤ found.length then
        found.take (ANALYZER_CAPS.typeFindings - 1) ++ [truncationFinding .types]
      else found) := by
  obtain ⟨htruncated, hcandidates⟩ := collectTypeFile_spec files.flatten
  have hcollected : collectTypes files = ⟨declaredTypes files.flatten, false⟩ := by
    have hgoing := Bool.eq_false_iff.mpr (mt htruncated.mp hfull)
    rw [collectTypes_eq, ← hcandidates hfull]
    generalize collectTypeFile ⟨[], false⟩ files.flatten = collected at hgoing
    cases collected
    simpa using hgoing
  obtain ⟨houtput, hstopped⟩ := @emitSeeds_emits threshold
    (indexTypeCandidates (declaredTypes files.flatten))
    ((declaredTypes files.flatten).filter (inScope scope))
    { output := [], seen := [], truncated := false }
    (fun seed hseed => by
      rw [countP_comparable (nodup_declaredTypes _)]
      exact hwithin seed (List.mem_of_mem_filter hseed) (List.of_mem_filter hseed))
    (Nat.zero_lt_succ _)
  have hperm := @finish_perm localeCompare (emitSeeds threshold
    (indexTypeCandidates (declaredTypes files.flatten))
    ((declaredTypes files.flatten).filter (inScope scope))
    { output := [], seen := [], truncated := false })
  rw [houtput, hstopped, kept_eq] at hperm
  simp only [similarTypes, hcollected]
  refine hperm.trans (List.Perm.of_eq ?_)
  simp only [Bool.false_or, decide_eq_true_eq, List.nil_append]
  by_cases hcap : ANALYZER_CAPS.typeFindings ≤
      ((foundPairs threshold scope (declaredTypes files.flatten)).map pairFinding).length
  · rw [if_pos hcap]
    exact if_pos hcap
  · rw [if_neg hcap]
    refine (if_neg hcap).trans ?_
    exact List.take_of_length_le (Nat.le_of_not_le hcap)

theorem length_found_le (candidates : List TypeCandidate) :
    (foundPairs threshold scope candidates).length ≤
      (similarPairs threshold scope candidates).card :=
  length_found ▸ Finset.card_image_le

theorem similarTypes_few (hfull : ¬ Overfull files.flatten)
    (hwithin : WithinComparisons scope (declaredTypes files.flatten))
    (hfew : (foundPairs threshold scope (declaredTypes files.flatten)).length <
      ANALYZER_CAPS.typeFindings) :
    (similarTypes threshold localeCompare files scope).Perm
      ((foundPairs threshold scope (declaredTypes files.flatten)).map pairFinding) := by
  have hperm := @similarTypes_perm localeCompare threshold files scope hfull hwithin
  rwa [if_neg (by rw [List.length_map]; exact Nat.not_le.mpr hfew)] at hperm

theorem notice_of_many (hfull : ¬ Overfull files.flatten)
    (hwithin : WithinComparisons scope (declaredTypes files.flatten))
    (hmany : ANALYZER_CAPS.typeFindings ≤
      (foundPairs threshold scope (declaredTypes files.flatten)).length) :
    truncationFinding .types ∈ similarTypes threshold localeCompare files scope := by
  have hperm := @similarTypes_perm localeCompare threshold files scope hfull hwithin
  rw [if_pos (by rw [List.length_map]; exact hmany)] at hperm
  exact hperm.mem_iff.mpr (List.mem_append_right _ (List.mem_singleton_self _))

-- -----
-- Keys
-- -----

/-- No two declarations start at the same place. -/
def DistinctPlaces (candidates : List TypeCandidate) : Prop :=
  ∀ a ∈ candidates, ∀ b ∈ candidates, a.loc.path = b.loc.path → a.loc.line = b.loc.line →
    a.loc.column = b.loc.column → a = b

theorem placeText_injective {a b : Place} (h : placeText a = placeText b) :
    a.path = b.path ∧ a.line = b.line ∧ a.column = b.column := by
  have hcut : (a.path ++ 58 :: decimal a.line) ++ 58 :: decimal a.column =
      (b.path ++ 58 :: decimal b.line) ++ 58 :: decimal b.column := by
    simpa [placeText, show lit ":" = [58] from rfl] using h
  obtain ⟨hfront, hcolumn⟩ := cut_last hcut (colon_not_mem_decimal _) (colon_not_mem_decimal _)
  obtain ⟨hpath, hline⟩ := cut_last hfront (colon_not_mem_decimal _) (colon_not_mem_decimal _)
  exact ⟨hpath, decimal_injective hline, decimal_injective hcolumn⟩

def bar : UInt16 := 124

theorem bar_not_mem_placeText {place : Place} (h : bar ∉ place.path) : bar ∉ placeText place := by
  have hdecimal (n : Nat) : bar ∉ decimal n := fun hmem => absurd (isDigit_decimal hmem) (by decide)
  have hcolon : bar ∉ lit ":" := by decide
  simp [placeText, h, hdecimal, hcolon]

theorem joinSorted_injective {a b c d : Str} (ha : bar ∉ a) (hb : bar ∉ b)
    (h : joinSorted a b = joinSorted c d) : a = c ∧ b = d ∨ a = d ∧ b = c := by
  simp only [joinSorted, show lit "|" = [bar] from rfl, List.append_assoc,
    List.singleton_append] at h
  split at h <;> split at h <;>
    obtain ⟨hfirst, -, hsecond⟩ := (List.append_cons_inj_of_notMem ‹_› ‹_›).mp h
  · exact .inl ⟨hsecond, hfirst⟩
  · exact .inr ⟨hsecond, hfirst⟩
  · exact .inr ⟨hfirst, hsecond⟩
  · exact .inl ⟨hfirst, hsecond⟩

/-- Paths without a bar keep the keys apart. -/
theorem keysApart_of_paths {candidates : List TypeCandidate} (hplaces : DistinctPlaces candidates)
    (hpaths : ∀ candidate ∈ candidates, bar ∉ candidate.loc.path) :
    KeysApart (similarPairs threshold scope candidates) := by
  intro pair
  induction pair with
  | _ a b =>
    intro hpair other
    induction other with
    | _ c d =>
      intro hother hkey
      obtain ⟨ha, hb, -⟩ := mem_similarPairs.mp hpair
      obtain ⟨hc, hd, -⟩ := mem_similarPairs.mp hother
      have hsame {x y : TypeCandidate} (hx : x ∈ candidates) (hy : y ∈ candidates)
          (h : placeText x.loc = placeText y.loc) : x = y := by
        obtain ⟨hpath, hline, hcolumn⟩ := placeText_injective h
        exact hplaces x hx y hy hpath hline hcolumn
      rcases joinSorted_injective (bar_not_mem_placeText (hpaths a ha))
        (bar_not_mem_placeText (hpaths b hb)) hkey with ⟨hac, hbd⟩ | ⟨had, hbc⟩
      · rw [hsame ha hc hac, hsame hb hd hbd]
      · rw [hsame ha hd had, hsame hb hc hbc, Sym2.eq_swap]

/-- The index holds the comparable declarations, and a report without limits the
similar pairs, exactly as long as different pairs have different keys. -/
theorem index_and_pairs_exact (threshold : Rat) (localeCompare : Str → Str → Ordering)
    (scope : Scope) :
    (∀ (candidates : List TypeCandidate) (seed : TypeCandidate),
      (comparableTypeCandidates seed (indexTypeCandidates candidates)).Nodup ∧
      ∀ peer, peer ∈ comparableTypeCandidates seed (indexTypeCandidates candidates) ↔
        peer ∈ candidates ∧ comparableBuckets seed.shape peer.shape = true) ∧
    ∀ files : List (List Statement), ¬ Overfull files.flatten →
      WithinComparisons scope (declaredTypes files.flatten) →
      (similarPairs threshold scope (declaredTypes files.flatten)).card <
        ANALYZER_CAPS.typeFindings →
      (ReportsExactly scope (similarTypes threshold localeCompare files scope)
          (similarPairs threshold scope (declaredTypes files.flatten)) ↔
        KeysApart (similarPairs threshold scope (declaredTypes files.flatten))) := by
  refine ⟨fun candidates seed => ⟨nodup_comparable _ _, fun peer => mem_comparable⟩, ?_⟩
  intro files hfull hwithin hfew
  exact reportsExactly_iff
    (similarTypes_few hfull hwithin (Nat.lt_of_le_of_lt (length_found_le _) hfew))

/-- All pairs are reported without the notice exactly when the collection is not stopped,
the pairs stay below the cap, and different pairs have different keys. -/
theorem all_reported_without_notice (threshold : Rat) (localeCompare : Str → Str → Ordering)
    (scope : Scope) (files : List (List Statement))
    (hwithin : WithinComparisons scope (declaredTypes files.flatten))
    (hmost : (similarPairs threshold scope (declaredTypes files.flatten)).card ≤
      ANALYZER_CAPS.typeFindings) :
    (ReportsAll (similarTypes threshold localeCompare files scope)
        (similarPairs threshold scope (declaredTypes files.flatten)) ∧
      truncationFinding .types ∉ similarTypes threshold localeCompare files scope) ↔
    ¬ Overfull files.flatten ∧
      (similarPairs threshold scope (declaredTypes files.flatten)).card ≠
        ANALYZER_CAPS.typeFindings ∧
      KeysApart (similarPairs threshold scope (declaredTypes files.flatten)) := by
  constructor
  · rintro ⟨⟨reported, hreported, hnodup, hpairs⟩, hnotice⟩
    have hfull : ¬ Overfull files.flatten := fun h => hnotice (notice_of_overfull h)
    have hfew : (foundPairs threshold scope (declaredTypes files.flatten)).length <
        ANALYZER_CAPS.typeFindings :=
      Nat.lt_of_not_le fun hmany => hnotice (notice_of_many hfull hwithin hmany)
    have hle : (similarPairs threshold scope (declaredTypes files.flatten)).card ≤
        (foundPairs threshold scope (declaredTypes files.flatten)).length := by
      rw [← length_reported hnodup hpairs]
      simpa using (hreported.trans (similarTypes_few hfull hwithin hfew).subperm).length_le
    have heq := Nat.le_antisymm (length_found_le _) hle
    exact ⟨hfull, (heq ▸ hfew).ne, keysApart_iff.mpr heq⟩
  · rintro ⟨hfull, hcard, hapart⟩
    have hfew := lt_of_le_of_ne hmost hcard
    have hperm := @similarTypes_few localeCompare threshold files scope hfull hwithin
      (Nat.lt_of_le_of_lt (length_found_le _) hfew)
    refine ⟨⟨_, hperm.symm.subperm, nodup_unordered_found, unordered_found_eq hapart⟩, ?_⟩
    exact fun hmem => notice_not_mem _ (hperm.mem_iff.mp hmem)

end

-- -----
-- Workspaces
-- -----

theorem length_declaredTypes_le (statements : List Statement) :
    (declaredTypes statements).length ≤ statements.length := by
  induction statements using List.reverseRecOn with
  | nil => exact Nat.le_refl _
  | append_singleton statements statement ih =>
    rw [declaredTypes_snoc, List.length_append, List.length_append]
    exact Nat.add_le_add ih (by cases candidate statement _ <;> simp)

theorem not_overfull_of_length {statements : List Statement}
    (h : statements.length ≤ ANALYZER_CAPS.typeCandidates) : ¬ Overfull statements := by
  rintro ⟨before, statement, after, rfl, -, hmany⟩
  have hle := length_declaredTypes_le before
  rw [List.length_append, List.length_cons] at h
  omega

/-- An interface with properties of type string. -/
def declares (path name : Str) (line : Nat) (properties : List Str) : Statement where
  kind := .interfaceDeclaration none
  type := ⟨true, properties.map (· ++ lit ":string"), []⟩
  loc := ⟨path, line, 1, line, 40⟩
  name := name

/-- Two interfaces with the same property. -/
def twoInterfaces : List (List Statement) :=
  [[declares (lit "a.ts") (lit "A") 1 [lit "x"]], [declares (lit "b.ts") (lit "B") 1 [lit "x"]]]

/-- Paths in the order of their units. -/
def byUnits (a b : Str) : Ordering := compareOfLessAndEq a b

theorem index_and_pairs_twoInterfaces :
    ReportsExactly .everything (similarTypes (4 / 5) byUnits twoInterfaces .everything)
      (similarPairs (4 / 5) .everything (declaredTypes twoInterfaces.flatten)) := by
  refine ((index_and_pairs_exact (4 / 5) byUnits .everything).2 twoInterfaces
    (not_overfull_of_length (by decide)) ?_ ?_).mpr (keysApart_of_paths ?_ ?_)
  · unfold WithinComparisons
    decide +kernel
  · decide +kernel
  · unfold DistinctPlaces
    decide +kernel
  · decide +kernel

/-- Two pairs whose places read alike when they are joined. -/
def barredPaths : List (List Statement) :=
  [[declares (lit "a.ts") (lit "A") 1 [lit "x"]],
    [declares (lit "b.ts:1:1|c.ts") (lit "B") 1 [lit "x"]],
    [declares (lit "a.ts:1:1|b.ts") (lit "C") 1 [lit "y"]],
    [declares (lit "c.ts") (lit "D") 1 [lit "y"]]]

theorem pair_lost_barredPaths :
    DistinctPlaces (declaredTypes barredPaths.flatten) ∧
    WithinComparisons .everything (declaredTypes barredPaths.flatten) ∧
    (similarPairs (4 / 5) .everything (declaredTypes barredPaths.flatten)).card = 2 ∧
    ¬ ReportsExactly .everything (similarTypes (4 / 5) byUnits barredPaths .everything)
      (similarPairs (4 / 5) .everything (declaredTypes barredPaths.flatten)) := by
  have hwithin : WithinComparisons .everything (declaredTypes barredPaths.flatten) := by
    unfold WithinComparisons
    decide +kernel
  have hcard : (similarPairs (4 / 5) .everything (declaredTypes barredPaths.flatten)).card = 2 := by
    decide +kernel
  have hfound : (foundPairs (4 / 5) .everything (declaredTypes barredPaths.flatten)).length = 1 := by
    decide +kernel
  refine ⟨by unfold DistinctPlaces; decide +kernel, hwithin, hcard, ?_⟩
  rw [reportsExactly_iff (similarTypes_few (not_overfull_of_length (by decide)) hwithin
    (hfound ▸ by decide)), keysApart_iff, hfound, hcard]
  decide

/-- An interface in scope, and fifty more that are all similar to it. -/
def fiftyPairs : List (List Statement) :=
  [[declares (lit "a.ts") (lit "A") 1 [lit "x"]],
    (List.range 50).map fun n => declares (lit "b.ts") (lit "B" ++ decimal n) (n + 1) [lit "x"]]

/-- The path of the first interface alone. -/
def onlyFirst : Scope := ⟨.paths, [lit "a.ts"], JsMap.empty⟩

theorem all_reported_twoInterfaces :
    ReportsAll (similarTypes (4 / 5) byUnits twoInterfaces .everything)
        (similarPairs (4 / 5) .everything (declaredTypes twoInterfaces.flatten)) ∧
      truncationFinding .types ∉ similarTypes (4 / 5) byUnits twoInterfaces .everything := by
  refine (all_reported_without_notice (4 / 5) byUnits .everything twoInterfaces ?_ ?_).mpr
    ⟨not_overfull_of_length (by decide), ?_, keysApart_of_paths ?_ ?_⟩
  · unfold WithinComparisons
    decide +kernel
  · decide +kernel
  · decide +kernel
  · unfold DistinctPlaces
    decide +kernel
  · decide +kernel

theorem notice_fiftyPairs :
    WithinComparisons onlyFirst (declaredTypes fiftyPairs.flatten) ∧
    (similarPairs (4 / 5) onlyFirst (declaredTypes fiftyPairs.flatten)).card =
      ANALYZER_CAPS.typeFindings ∧
    truncationFinding .types ∈ similarTypes (4 / 5) byUnits fiftyPairs onlyFirst := by
  have hwithin : WithinComparisons onlyFirst (declaredTypes fiftyPairs.flatten) := by
    unfold WithinComparisons
    decide +kernel
  have hfound : (foundPairs (4 / 5) onlyFirst (declaredTypes fiftyPairs.flatten)).length = 50 := by
    decide +kernel
  have hapart : KeysApart (similarPairs (4 / 5) onlyFirst (declaredTypes fiftyPairs.flatten)) := by
    refine keysApart_of_paths ?_ ?_
    · unfold DistinctPlaces
      decide +kernel
    · decide +kernel
  exact ⟨hwithin, (keysApart_iff.mp hapart).symm.trans hfound, notice_of_many
    (not_overfull_of_length (by decide)) hwithin (Nat.le_of_eq hfound.symm)⟩

end PiEnv.Analyze.TypeMatches
