import Mathlib.Algebra.Order.Floor.Semiring
import Mathlib.Data.Rat.Floor
import PiEnv.Introspection.Usage

/-!
# What the usage of a session refers to

Sources and timings are left out once there are enough references, while the counting
goes on. The outcome is that of a plain run that makes a reference for every record and
keeps the first of them.
-/

namespace PiEnv.Introspection

open Js

-- -----
-- Tallies
-- -----

def tally (names : List Str) : Counts := names.foldl increment .empty

theorem get_increment (counts : Counts) (name other : Str) :
    ((increment counts name).get other).getD 0 =
      (counts.get other).getD 0 + if other = name then 1 else 0 := by
  rw [increment, JsMap.get_set]
  split
  · rename_i h
    rw [h]
    rfl
  · rfl

/-- Each name is counted as often as it is there. -/
theorem get_tally (names : List Str) (name : Str) :
    ((tally names).get name).getD 0 = names.count name := by
  induction names using List.reverseRecOn with
  | nil => rfl
  | append_singleton names last ih =>
    rw [tally, List.foldl_append, List.foldl_cons, List.foldl_nil, get_increment]
    rw [tally] at ih
    rw [ih, List.count_append, List.count_singleton]
    by_cases h : name = last
    · simp [h]
    · simp [h, Ne.symm h]

theorem sum_increment (counts : Counts) (name : Str) :
    (increment counts name).values.sum = counts.values.sum + 1 := by
  cases h : counts.get name with
  | none =>
    rw [increment, h, JsMap.values, JsMap.entries_set h]
    simp [JsMap.values]
  | some count =>
    obtain ⟨before, after, hsplit, -, hset⟩ := JsMap.split_get h
    rw [increment, h, JsMap.values, JsMap.values, hset, hsplit]
    simp
    omega

theorem sum_tally (names : List Str) : (tally names).values.sum = names.length := by
  induction names using List.reverseRecOn with
  | nil => rfl
  | append_singleton names last ih =>
    rw [tally, List.foldl_append, List.foldl_cons, List.foldl_nil, sum_increment]
    rw [tally] at ih
    rw [ih, List.length_append, List.length_singleton]

-- -----
-- Records
-- -----

/-- A record that a query selects. -/
inductive Matched where
  | call (call : Call) (skill : Option Str)
  | envelope (skill : Str)

namespace Matched

def call? : Matched → Option Call
  | .call made _ => some made
  | .envelope _ => none

def skill? : Matched → Option Str
  | .call _ skill => skill
  | .envelope skill => some skill

def tool? (matched : Matched) : Option Str := matched.call?.map (·.name)

def failed? : Matched → Option Str
  | .call made _ => if made.status = .error then some made.name else none
  | .envelope _ => none

def read? : Matched → Option Str
  | .call _ (some []) | .call _ none => none
  | .call _ (some skill) => some skill
  | .envelope _ => none

def envelope? : Matched → Option Str
  | .call _ _ => none
  | .envelope skill => some skill

end Matched

def matchingCalls (environment : Environment) (query : UsageQuery) (cwd : Option Str)
    (calls : List Call) : List Matched :=
  calls.filterMap fun call =>
    let skill := skillRead environment cwd call
    if matchesCall environment call skill query then some (.call call skill) else none

def matchingEnvelope (message : Fields) (query : UsageQuery) : List Matched :=
  match skillEnvelope message query with
  | none | some [] => []
  | some skill => [.envelope skill]

def messageRecords (environment : Environment) (outcomes : JsMap Str Outcome) (query : UsageQuery)
    (cwd : Option Str) (includeTiming : Bool) (message : Fields) : List Matched :=
  matchingCalls environment query cwd (messageCalls message outcomes includeTiming) ++
    matchingEnvelope message query

/-- The records of an entry, each with where it stands. -/
def entryRecords (environment : Environment) (file : Str) (outcomes : JsMap Str Outcome)
    (query : UsageQuery) (cwd : Option Str) (indexed : Option Fields × Nat) : List (Source × Matched) :=
  match indexed.1, messageOf indexed.1 with
  | some entry, some message =>
    (messageRecords environment outcomes query cwd true message).map
      (sourceOf environment file indexed.2 entry message, ·)
  | _, _ => []

/-- All records that a query selects, in the order of the file. -/
def matchingRecords (environment : Environment) (entries : List (Option Fields)) (file : Str)
    (options : UsageQuery) : List (Source × Matched) :=
  entries.zipIdx.flatMap (entryRecords environment file (callOutcomes entries true)
    { options with argument := options.argument.map environment.toLowerCase } (headerCwd entries))

def reference (recorded : Source × Matched) : UsageReference :=
  referenceOf recorded.1 recorded.2.call? recorded.2.skill?

/-- How many references a limit allows. -/
def allowed : Number → Nat
  | .finite limit => ⌈limit⌉₊
  | _ => 0

-- -----
-- One record
-- -----

/-- A result of a run over records. -/
structure Agrees (referring : Bool) (limit : Number) (result : SessionUsage)
    (records : List (Source × Matched)) : Prop where
  tools : result.toolCounts = tally (records.filterMap (·.2.tool?))
  failed : result.toolErrorCounts = tally (records.filterMap (·.2.failed?))
  reads : result.skillReadCounts = tally (records.filterMap (·.2.read?))
  envelopes : result.skillEnvelopeCounts = tally (records.filterMap (·.2.envelope?))
  counted : result.matchedRecords = records.length
  references : result.references =
    if referring then (records.take (allowed limit)).map reference else []

def addMatched (source : Option Source) (limit : Number) (result : SessionUsage)
    (matched : Matched) : SessionUsage :=
  match matched with
  | .call call skill => addReference (countCall result call skill) source (some call) skill limit
  | .envelope skill =>
    addReference { result with skillEnvelopeCounts := increment result.skillEnvelopeCounts skill }
      source none (some skill) limit

theorem tally_append (names : List Str) (last : Str) :
    tally (names ++ [last]) = increment (tally names) last := by
  rw [tally, List.foldl_append]
  rfl

section
variable {environment : Environment} {query : UsageQuery} {cwd : Option Str} {limit : Number}
  {source : Option Source} {referring : Bool} {result : SessionUsage}
  {records : List (Source × Matched)} {here : Source} {matched : Matched}

theorem foldl_collectCall (calls : List Call) (result : SessionUsage) :
    calls.foldl (collectCall environment source query limit cwd) result =
      (matchingCalls environment query cwd calls).foldl (addMatched source limit) result := by
  induction calls generalizing result with
  | nil => rfl
  | cons call calls ih =>
    rw [List.foldl_cons, ih, matchingCalls, matchingCalls, List.filterMap_cons]
    dsimp only [collectCall]
    split <;> rfl

theorem collectMessage_eq (message : Fields) (outcomes : JsMap Str Outcome) :
    collectMessage environment result message source outcomes query limit cwd =
      (messageRecords environment outcomes query cwd source.isSome message).foldl
        (addMatched source limit) (noteIncomplete message result) := by
  rw [collectMessage, messageRecords, List.foldl_append, foldl_collectCall, matchingEnvelope]
  cases skillEnvelope message query with
  | none => rfl
  | some skill => cases skill <;> rfl

-- -----
-- A step of a run
-- -----

theorem Agrees.init : Agrees referring limit emptyUsage [] := by
  constructor <;> simp [emptyUsage, tally]

/-- The references after one more record. -/
def extended (limit : Number) (source : Option Source) (call : Option Call) (skill : Option Str)
    (references : List UsageReference) : List UsageReference :=
  match source with
  | none => references
  | some source =>
    if reaches references.length limit then references
    else references ++ [referenceOf source call skill]

theorem addReference_eq (result : SessionUsage) (source : Option Source) (call : Option Call)
    (skill : Option Str) : addReference result source call skill limit =
      { result with
        matchedRecords := result.matchedRecords + 1
        references := extended limit source call skill result.references } := by
  cases source with
  | none => rfl
  | some source =>
    cases h : reaches result.references.length limit <;> simp [addReference, extended, h]

theorem addMatched_references : (addMatched source limit result matched).references =
    extended limit source matched.call? matched.skill? result.references := by
  cases matched <;> exact congrArg SessionUsage.references (addReference_eq _ _ _ _)

theorem addMatched_matchedRecords :
    (addMatched source limit result matched).matchedRecords = result.matchedRecords + 1 := by
  cases matched <;> exact congrArg SessionUsage.matchedRecords (addReference_eq _ _ _ _)

theorem addMatched_counts : (addMatched source limit result matched).toolCounts =
      matched.tool?.elim result.toolCounts (increment result.toolCounts) ∧
    (addMatched source limit result matched).toolErrorCounts =
      matched.failed?.elim result.toolErrorCounts (increment result.toolErrorCounts) ∧
    (addMatched source limit result matched).skillReadCounts =
      matched.read?.elim result.skillReadCounts (increment result.skillReadCounts) ∧
    (addMatched source limit result matched).skillEnvelopeCounts =
      matched.envelope?.elim result.skillEnvelopeCounts (increment result.skillEnvelopeCounts) := by
  cases matched with
  | envelope skill =>
    simp only [addMatched, addReference_eq]
    exact ⟨rfl, rfl, rfl, rfl⟩
  | call made skill =>
    simp only [addMatched, addReference_eq]
    refine ⟨rfl, ?_, ?_, rfl⟩
    · by_cases h : made.status = .error <;> simp [countCall, Matched.failed?, h]
    · cases skill with
      | none => rfl
      | some skill => cases skill <;> rfl

theorem tally_filterMap {β : Type} (f : β → Option Str) (records : List β) (last : β) :
    tally ((records ++ [last]).filterMap f) =
      (f last).elim (tally (records.filterMap f)) (increment (tally (records.filterMap f))) := by
  rw [List.filterMap_append, List.filterMap_cons, List.filterMap_nil]
  cases f last with
  | none => simp
  | some name => exact tally_append _ _

/-- A source is there while references are missing. -/
structure Fitting (referring : Bool) (limit : Number) (records : List (Source × Matched))
    (source : Option Source) (here : Source) : Prop where
  present : ∀ other, source = some other → other = here ∧ referring = true ∧ limit ≠ .nan
  missing : source = none → referring = true → allowed limit ≤ records.length

/-- A number of references reaches a limit when as many are allowed. -/
theorem reaches_iff (n : Nat) (q : Rat) : reaches n (.finite q) = true ↔ allowed (.finite q) ≤ n := by
  rw [allowed, Nat.ceil_le]
  exact decide_eq_true_iff

theorem extended_take (hlimit : limit = .nan ∨ ∃ q, limit = .finite q)
    (hfit : Fitting referring limit records source here) :
    extended limit source matched.call? matched.skill?
        (if referring then (records.take (allowed limit)).map reference else []) =
      if referring then ((records ++ [(here, matched)]).take (allowed limit)).map reference else [] := by
  cases source with
  | none =>
    cases referring with
    | false => rfl
    | true => simp [extended, List.take_append_of_le_length (hfit.missing rfl rfl)]
  | some other =>
    obtain ⟨rfl, rfl, hnan⟩ := hfit.present other rfl
    obtain ⟨q, rfl⟩ := hlimit.resolve_left hnan
    simp only [extended, if_true, List.length_map, List.length_take]
    rcases Nat.lt_or_ge records.length (allowed (.finite q)) with room | full
    · -- the reference of the record is one of the first
      have hreach : ¬ reaches (min (allowed (.finite q)) records.length : Nat) (.finite q) = true := by
        rw [reaches_iff]
        omega
      rw [if_neg hreach, List.take_of_length_le (by omega), List.take_of_length_le (by simp; omega),
        List.map_append]
      rfl
    · have hreach : reaches (min (allowed (.finite q)) records.length : Nat) (.finite q) = true := by
        rw [reaches_iff]
        omega
      rw [if_pos hreach, List.take_append_of_le_length full]

theorem Agrees.add (hlimit : limit = .nan ∨ ∃ q, limit = .finite q)
    (h : Agrees referring limit result records)
    (hfit : Fitting referring limit records source here) :
    Agrees referring limit (addMatched source limit result matched) (records ++ [(here, matched)]) := by
  obtain ⟨htools, hfailed, hreads, henvelopes⟩ := addMatched_counts
  constructor
  · rw [htools, tally_filterMap, h.tools]
  · rw [hfailed, tally_filterMap, h.failed]
  · rw [hreads, tally_filterMap, h.reads]
  · rw [henvelopes, tally_filterMap, h.envelopes]
  · rw [addMatched_matchedRecords, h.counted, List.length_append]
    rfl
  · rw [addMatched_references, h.references, extended_take hlimit hfit]

theorem Agrees.foldl (hlimit : limit = .nan ∨ ∃ q, limit = .finite q) (found : List Matched)
    (h : Agrees referring limit result records)
    (hfit : Fitting referring limit records source here) :
    Agrees referring limit (found.foldl (addMatched source limit) result)
      (records ++ found.map (here, ·)) := by
  induction found generalizing result records with
  | nil => simpa using h
  | cons matched found ih =>
    rw [List.foldl_cons, List.map_cons, List.append_cons]
    refine ih (h.add hlimit hfit) ⟨hfit.present, fun hnone hreferring => ?_⟩
    exact (hfit.missing hnone hreferring).trans (by simp)

-- -----
-- Timings
-- -----

def Call.untimed (call : Call) : Call := { call with durationMs := none }

def Matched.untimed : Matched → Matched
  | .call made skill => .call made.untimed skill
  | .envelope skill => .envelope skill

/-- Two maps that differ in durations at most. -/
def SameStatus (outcomes others : JsMap Str Outcome) : Prop :=
  ∀ id, (outcomes.get id).map (·.status) = (others.get id).map (·.status)

def Outcome.timed (includeTiming : Bool) (outcome : Outcome) : Outcome :=
  ⟨outcome.status, if includeTiming then outcome.durationMs else none⟩

theorem resultOf_timed (includeTiming : Bool) (message : Fields) :
    resultOf includeTiming message =
      (resultOf true message).map fun result => (result.1, result.2.timed includeTiming) := by
  unfold resultOf
  split
  · rw [Option.map_map]
    rfl
  · rfl

theorem SameStatus.foldl {outcomes others : JsMap Str Outcome} (h : SameStatus outcomes others)
    (includeTiming : Bool) (results : List (Str × Outcome)) :
    SameStatus
      ((results.map fun result => (result.1, result.2.timed includeTiming)).foldl
        (fun outcomes result => outcomes.set result.1 result.2) outcomes)
      (results.foldl (fun outcomes result => outcomes.set result.1 result.2) others) := by
  induction results generalizing outcomes others with
  | nil => exact h
  | cons result results ih =>
    refine ih fun id => ?_
    rw [JsMap.get_set, JsMap.get_set]
    split
    · rfl
    · exact h id

theorem sameStatus_callOutcomes (entries : List (Option Fields)) (includeTiming : Bool) :
    SameStatus (callOutcomes entries includeTiming) (callOutcomes entries true) := by
  have hresults : entries.filterMap (fun entry => (messageOf entry).bind (resultOf includeTiming)) =
      (entries.filterMap fun entry => (messageOf entry).bind (resultOf true)).map
        fun result => (result.1, result.2.timed includeTiming) := by
    rw [List.map_filterMap]
    congr 1
    funext entry
    cases messageOf entry with
    | none => rfl
    | some message => exact resultOf_timed includeTiming message
  rw [callOutcomes, hresults]
  exact SameStatus.foldl (fun _ => rfl) includeTiming _

theorem outcomeOf_status {outcomes others : JsMap Str Outcome} (h : SameStatus outcomes others)
    (id : Option Str) :
    (outcomeOf outcomes id).map (·.status) = (outcomeOf others id).map (·.status) := by
  unfold outcomeOf
  split
  · rfl
  · rfl
  · exact h _

theorem parseCall_untimed {outcomes others : JsMap Str Outcome} (h : SameStatus outcomes others)
    (value : Json) (nested timed timed' : Bool) :
    (parseCall value nested outcomes timed).map Call.untimed =
      (parseCall value nested others timed').map Call.untimed := by
  unfold parseCall
  split
  · rfl
  · split
    · rfl
    · split
      · rfl
      · simp only [Option.map_some, Call.untimed, outcomeOf_status h]

theorem messageCalls_untimed {outcomes others : JsMap Str Outcome} (h : SameStatus outcomes others)
    (message : Fields) (timed timed' : Bool) :
    (messageCalls message outcomes timed).map Call.untimed =
      (messageCalls message others timed').map Call.untimed := by
  unfold messageCalls
  dsimp only
  split
  · rfl
  · split
    · rw [List.map_filterMap, List.map_filterMap]
      congr 1
      funext value
      exact parseCall_untimed h value _ timed timed'
    · rfl

theorem matchingCalls_untimed (calls : List Call) :
    (matchingCalls environment query cwd calls).map Matched.untimed =
      matchingCalls environment query cwd (calls.map Call.untimed) := by
  rw [matchingCalls, matchingCalls, List.map_filterMap, List.filterMap_map]
  congr 1
  funext call
  exact apply_ite _ _ _ _

theorem messageRecords_untimed {outcomes others : JsMap Str Outcome} (h : SameStatus outcomes others)
    (message : Fields) (timed timed' : Bool) :
    (messageRecords environment outcomes query cwd timed message).map Matched.untimed =
      (messageRecords environment others query cwd timed' message).map Matched.untimed := by
  rw [messageRecords, messageRecords, List.map_append, List.map_append, matchingCalls_untimed,
    matchingCalls_untimed, messageCalls_untimed h message timed timed']

/-- Without a source, timings do not matter. -/
theorem foldl_untimed (found : List Matched) (result : SessionUsage) :
    found.foldl (addMatched none limit) result =
      (found.map Matched.untimed).foldl (addMatched none limit) result := by
  rw [List.foldl_map]
  congr 1
  funext result matched
  cases matched <;> rfl

-- -----
-- A session
-- -----

theorem noteIncomplete_agrees (message : Fields) (h : Agrees referring limit result records) :
    Agrees referring limit (noteIncomplete message result) records := by
  unfold noteIncomplete
  split
  · exact ⟨h.tools, h.failed, h.reads, h.envelopes, h.counted, h.references⟩
  · exact h

theorem clamped_cases (options : UsageQuery) :
    options.clamped = .nan ∨ ∃ q : Rat, options.clamped = .finite q := by
  unfold UsageQuery.clamped
  cases options.limit.getD (.finite 20) with
  | nan => exact .inl rfl
  | infinite negative => cases negative <;> exact .inr ⟨_, rfl⟩
  | finite value => exact .inr ⟨_, rfl⟩

theorem below_iff (n : Nat) (q : Rat) : below n (.finite q) = true ↔ n < allowed (.finite q) := by
  rw [allowed, Nat.lt_ceil]
  exact decide_eq_true_iff

/-- The guard on the source of a message. -/
theorem fitting_guard (hlimit : limit = .nan ∨ ∃ q, limit = .finite q)
    (h : Agrees referring limit result records) (here : Source) :
    Fitting referring limit records
      (if referring && below result.references.length limit then some here else none) here := by
  constructor
  · intro other hsome
    obtain ⟨hguard, heq⟩ := Option.ite_none_right_eq_some.mp hsome
    obtain ⟨hreferring, hbelow⟩ := Bool.and_eq_true_iff.mp hguard
    refine ⟨(Option.some.inj heq).symm, hreferring, ?_⟩
    rintro rfl
    cases hbelow
  · intro hnone hreferring
    subst hreferring
    rcases hlimit with rfl | ⟨q, rfl⟩
    · exact Nat.zero_le _
    · by_contra hroom
      refine absurd hnone ?_
      have hbelow : below result.references.length (.finite q) = true := by
        rw [below_iff, h.references, if_pos rfl, List.length_map, List.length_take]
        omega
      simp [hbelow]

theorem Agrees.entry {options : UsageQuery} {outcomes others : JsMap Str Outcome}
    (houtcomes : SameStatus outcomes others) (hsame : options.includes = true → outcomes = others)
    (h : Agrees options.includes options.clamped result records) (file : Str)
    (indexed : Option Fields × Nat) :
    Agrees options.includes options.clamped
      (collectEntry environment file options query options.clamped cwd outcomes result indexed)
      (records ++ entryRecords environment file others query cwd indexed) := by
  obtain ⟨entry, index⟩ := indexed
  cases entry with
  | none => simpa [collectEntry, entryRecords] using h
  | some entry =>
    cases hmessage : messageOf (some entry) with
    | none => simpa [collectEntry, entryRecords, hmessage] using h
    | some message =>
      have hlimit := clamped_cases options
      have hfit := fitting_guard hlimit h (sourceOf environment file index entry message)
      have hnoted := noteIncomplete_agrees message h
      simp only [collectEntry, entryRecords, hmessage, collectMessage_eq]
      by_cases hguard : (options.includes && below result.references.length options.clamped) = true
      · rw [if_pos hguard] at hfit ⊢
        obtain rfl := hsame (Bool.and_eq_true_iff.mp hguard).1
        exact hnoted.foldl hlimit _ hfit
      · rw [if_neg hguard] at hfit ⊢
        rw [foldl_untimed, messageRecords_untimed houtcomes message _ true, ← foldl_untimed]
        exact hnoted.foldl hlimit _ hfit

theorem Agrees.entries {options : UsageQuery} {outcomes others : JsMap Str Outcome}
    (houtcomes : SameStatus outcomes others) (hsame : options.includes = true → outcomes = others)
    (h : Agrees options.includes options.clamped result records) (file : Str)
    (entries : List (Option Fields × Nat)) :
    Agrees options.includes options.clamped
      (entries.foldl
        (collectEntry environment file options query options.clamped cwd outcomes) result)
      (records ++ entries.flatMap (entryRecords environment file others query cwd)) := by
  induction entries generalizing result records with
  | nil => simpa using h
  | cons indexed entries ih =>
    rw [List.foldl_cons, List.flatMap_cons, ← List.append_assoc]
    exact ih (h.entry houtcomes hsame file indexed)

end

-- -----
-- The usage
-- -----

section
variable (environment : Environment) (entries : List (Option Fields)) (file : Str)
  (options : UsageQuery)

theorem inspectSessionUsage_agrees :
    Agrees options.includes options.clamped (inspectSessionUsage environment entries file options)
      (matchingRecords environment entries file options) := by
  have hsame : options.includes = true →
      callOutcomes entries options.includes = callOutcomes entries true := by
    intro h
    rw [h]
  obtain ⟨htools, hfailed, hreads, henvelopes, hcounted, hreferences⟩ :=
    Agrees.init.entries (sameStatus_callOutcomes entries options.includes) hsame file entries.zipIdx
  exact ⟨htools, hfailed, hreads, henvelopes, hcounted, hreferences⟩

/-- The query with another limit, with or without references. -/
def UsageQuery.limited (options : UsageQuery) (limit : Option Number)
    (includeReferences : Option Bool) : UsageQuery :=
  { options with limit, includeReferences }

/-- Each name with how often it is there. -/
structure CountsOf (counts : Counts) (names : List Str) : Prop where
  same : counts = tally names
  count : ∀ name, (counts.get name).getD 0 = names.count name

theorem CountsOf.of_eq {counts : Counts} {names : List Str} (h : counts = tally names) :
    CountsOf counts names :=
  ⟨h, h ▸ get_tally names⟩

/-- What a usage says of the records that a query selects. -/
structure Exact (records : List (Source × Matched)) (options : UsageQuery) (usage : SessionUsage) :
    Prop where
  counted : usage.matchedRecords = records.length
  total : usage.toolCounts.values.sum + usage.skillEnvelopeCounts.values.sum = usage.matchedRecords
  tools : CountsOf usage.toolCounts (records.filterMap (·.2.tool?))
  failed : CountsOf usage.toolErrorCounts (records.filterMap (·.2.failed?))
  reads : CountsOf usage.skillReadCounts (records.filterMap (·.2.read?))
  envelopes : CountsOf usage.skillEnvelopeCounts (records.filterMap (·.2.envelope?))
  references : usage.references =
    if options.includes then (records.take (allowed options.clamped)).map reference else []
  truncated : usage.referencesTruncated = true ↔
    options.includes = true ∧ usage.references.length < records.length

/-- Every record is a call or an envelope. -/
theorem length_tools_envelopes (records : List (Source × Matched)) :
    (records.filterMap (·.2.tool?)).length + (records.filterMap (·.2.envelope?)).length =
      records.length := by
  induction records with
  | nil => rfl
  | cons recorded records ih =>
    obtain ⟨source, matched⟩ := recorded
    cases matched with
    | call made skill =>
      simp only [List.filterMap_cons, Matched.tool?, Matched.envelope?, Matched.call?,
        Option.map_some, List.length_cons] at ih ⊢
      omega
    | envelope skill =>
      simp only [List.filterMap_cons, Matched.tool?, Matched.envelope?, Matched.call?,
        Option.map_none, List.length_cons] at ih ⊢
      omega

/-- A usage is exact for the same records whatever the limit and with or without references. -/
theorem inspectSessionUsage_exact (limit : Option Number) (includeReferences : Option Bool) :
    Exact (matchingRecords environment entries file options)
      (options.limited limit includeReferences)
      (inspectSessionUsage environment entries file (options.limited limit includeReferences)) := by
  have h := inspectSessionUsage_agrees environment entries file
    (options.limited limit includeReferences)
  have hrecords : matchingRecords environment entries file
      (options.limited limit includeReferences) =
        matchingRecords environment entries file options := rfl
  rw [hrecords] at h
  refine ⟨h.counted, ?_, .of_eq h.tools, .of_eq h.failed, .of_eq h.reads, .of_eq h.envelopes,
    h.references, ?_⟩
  · rw [h.tools, h.envelopes, sum_tally, sum_tally, length_tools_envelopes, h.counted]
  · rw [← h.counted]
    exact Bool.and_eq_true_iff.trans (and_congr_right fun _ => decide_eq_true_iff)

end

/-- A message with two calls. -/
def twoCalls : List (Option Fields) :=
  let call := Json.obj [(lit "type", .str (lit "toolCall")), (lit "name", .str (lit "bash"))]
  [some [(lit "type", .str (lit "message")),
    (lit "message", .obj [(lit "role", .str (lit "assistant")), (lit "content", .arr [call, call])])]]

def plainEnvironment : Environment := ⟨fun _ => none, id, lit "/"⟩

def everything : UsageQuery := ⟨none, none, none, none, none, none⟩

/-- Without references none are missing, and a limit of one and a half allows two. -/
theorem twoCalls_references :
    ((inspectSessionUsage plainEnvironment twoCalls []
        (everything.limited none (some false))).matchedRecords = 2 ∧
      (inspectSessionUsage plainEnvironment twoCalls []
        (everything.limited none (some false))).references = [] ∧
      (inspectSessionUsage plainEnvironment twoCalls []
        (everything.limited none (some false))).referencesTruncated = false) ∧
    (inspectSessionUsage plainEnvironment twoCalls []
      (everything.limited (some (.finite (3 / 2))) none)).references.length = 2 := by
  decide +kernel

end PiEnv.Introspection
