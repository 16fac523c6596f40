import PiEnv.Lib.JsMap
import PiEnv.Lib.JsonText
import PiEnv.Lib.Pattern
import PiEnv.Lib.PosixPath

/-!
# The usage of tools and skills in a session

The calls and skill envelopes of the messages of a session, which of them a query
selects, and what is counted and referred to of them. The text of a date, the lower
case of a text and the working directory of the process are arguments.
-/

namespace PiEnv.Introspection

open Js Posix

abbrev Fields := List (Str × Json)

/-- `record(value)` of a value that may be undefined. -/
def record : Option Json → Option Fields
  | some (.obj fields) => some fields
  | _ => none

/-- `record(value)?.[key]` -/
def member (value : Option Json) (key : String) : Option Json :=
  (record value).bind (field · (lit key))

/-- A value whose type is string. -/
def string? : Option Json → Option Str
  | some (.str text) => some text
  | _ => none

/-- A value that is this string. -/
def isText (value : Option Json) (text : String) : Bool := string? value == some (lit text)

/-- A value that is this Boolean. -/
def isBool : Option Json → Bool → Bool
  | some (.bool b), expected => b == expected
  | _, _ => false

def textBlock (block : Json) : List Str :=
  if isText (member (some block) "type") "text" then (string? (member (some block) "text")).toList
  else []

def textContent : Option Json → Str
  | some (.str content) => content
  | some (.arr blocks) => join [LF] (blocks.flatMap textBlock)
  | _ => []

-- -----
-- The data
-- -----

inductive UsageKind where
  | toolCall | skillRead | skillEnvelope
  deriving DecidableEq, Repr

inductive UsageStatus where
  | ok | error | unfinished | unknown
  deriving DecidableEq, Repr

def UsageStatus.text : UsageStatus → String
  | .ok => "ok"
  | .error => "error"
  | .unfinished => "unfinished"
  | .unknown => "unknown"

def USAGE_STATUSES : List UsageStatus := [.ok, .error, .unfinished, .unknown]

structure Source where
  file : Str
  entryId : Option Str
  line : Nat
  timestamp : Option Str
  deriving DecidableEq

structure UsageReference where
  file : Str
  entryId : Option Str
  line : Nat
  timestamp : Option Str
  kind : UsageKind
  tool : Option Str
  skill : Option Str
  callId : Option Str
  status : Option UsageStatus
  nested : Option Bool
  durationMs : Option Rat
  deriving DecidableEq

abbrev Counts := JsMap Str Nat

structure SessionUsage where
  toolCounts : Counts
  toolErrorCounts : Counts
  skillReadCounts : Counts
  skillEnvelopeCounts : Counts
  matchedRecords : Nat
  references : List UsageReference
  referencesTruncated : Bool
  incompleteNestedRecords : Bool

inductive UsageScope where
  | tools | skills | all
  deriving DecidableEq, Repr

structure UsageQuery where
  tool : Option Str
  skill : Option Str
  argument : Option Str
  limit : Option Number
  scope : Option UsageScope
  includeReferences : Option Bool

structure Call where
  name : Str
  id : Option Str
  arguments : Option Json
  status : UsageStatus
  nested : Bool
  durationMs : Option Rat

structure Outcome where
  status : UsageStatus
  durationMs : Option Rat

/-- What the language and the process provide. -/
structure Environment where
  /-- The ISO text of a date, from a string or a number; none for an invalid date. -/
  dateText : Json → Option Str
  toLowerCase : Str → Str
  cwd : Str

-- -----
-- One call
-- -----

def duration : Option Json → Option Rat
  | some (.num (.finite value)) => if 0 ≤ value then some value else none
  | _ => none

/-- `value ?? other` -/
def orElse : Option Json → Option Json → Option Json
  | none, other | some .null, other => other
  | value, _ => value

def timestamp (environment : Environment) (entry message : Fields) : Option Str :=
  match orElse (field entry (lit "timestamp")) (field message (lit "timestamp")) with
  | some (.str text) => environment.dateText (.str text)
  | some (.num n) => environment.dateText (.num n)
  | _ => none

def increment (counts : Counts) (name : Str) : Counts := counts.set name ((counts.get name).getD 0 + 1)

/-- A path from the header's directory, which may be relative to that of the process. -/
def fromHeader (environment : Environment) (cwd : Option Str) (path : Str) : Str :=
  match cwd with
  | none | some [] => path
  | some cwd => resolve (resolve environment.cwd cwd) path

def skillRead (environment : Environment) (cwd : Option Str) (call : Call) : Option Str :=
  if call.name ≠ lit "read" ∨ call.status ≠ .ok then none
  else
    match string? (member call.arguments "path") with
    | none => none
    | some path =>
      if basename path ≠ lit "SKILL.md" then none
      else some (basename (dirname (fromHeader environment cwd path)))

def quoted (u : UInt16) : Bool := u != 34

def anyUnit (_ : UInt16) : Bool := true

def envelopePattern : Pattern :=
  .all [.literal (lit "<skill name=\""), .group 1 (.some1 quoted), .literal (lit "\" location=\""),
    .some1 quoted, .literal (lit "\">" ++ [LF]), .many anyUnit, .literal ([LF] ++ lit "</skill>"),
    .optional (.all [.literal [LF, LF], .some1 anyUnit])]

/-- `/^…$/.exec(text)?.[1]` -/
def envelopeName (text : Str) : Option Str :=
  envelopePattern.run ⟨none, text, []⟩ fun cursor =>
    if cursor.rest = [] then some (cursor.text 1) else none

def skillEnvelope (message : Fields) (query : UsageQuery) : Option Str :=
  if !isText (field message (lit "role")) "user" || query.scope == some .tools ||
      query.tool.isSome || query.argument.isSome then none
  else
    let skill := envelopeName (textContent (field message (lit "content")))
    if query.skill = none ∨ query.skill = skill then skill else none

def messageOf : Option Fields → Option Fields
  | none => none
  | some entry =>
    if isText (field entry (lit "type")) "message" then record (field entry (lit "message")) else none

/-- The outcome that a message records of a call. -/
def resultOf (includeTiming : Bool) (message : Fields) : Option (Str × Outcome) :=
  if isText (field message (lit "role")) "toolResult" then
    (string? (field message (lit "toolCallId"))).map fun id =>
      (id, ⟨if isBool (field message (lit "isError")) true then .error else .ok,
        if includeTiming then duration (field message (lit "durationMs")) else none⟩)
  else none

def callOutcomes (entries : List (Option Fields)) (includeTiming : Bool) : JsMap Str Outcome :=
  (entries.filterMap fun entry => (messageOf entry).bind (resultOf includeTiming)).foldl
    (fun outcomes result => outcomes.set result.1 result.2) .empty

def nestedStatus (status : Option Json) : UsageStatus :=
  (USAGE_STATUSES.find? fun known => isText status known.text).getD .unknown

def outcomeOf (outcomes : JsMap Str Outcome) : Option Str → Option Outcome
  | none | some [] => none
  | some id => outcomes.get id

def parseCall (value : Json) (nested : Bool) (outcomes : JsMap Str Outcome) (includeTiming : Bool) :
    Option Call :=
  match record (some value) with
  | none => none
  | some part =>
    match string? (field part (lit "name")) with
    | none => none
    | some name =>
      if !nested && !isText (field part (lit "type")) "toolCall" then none
      else
        let id := string? (field part (lit "id"))
        let outcome := outcomeOf outcomes id
        some
          { name
            id
            arguments := field part (lit "arguments")
            status :=
              if nested then nestedStatus (field part (lit "status"))
              else (outcome.map (·.status)).getD .unknown
            nested
            durationMs :=
              if includeTiming then
                if nested then duration (field part (lit "durationMs")) else outcome.bind (·.durationMs)
              else none }

def messageCalls (message : Fields) (outcomes : JsMap Str Outcome) (includeTiming : Bool) : List Call :=
  let nested := isText (field message (lit "role")) "toolResult"
  let values :=
    if nested then member (field message (lit "nestedCalls")) "calls" else field message (lit "content")
  if !nested && !isText (field message (lit "role")) "assistant" then []
  else
    match values with
    | some (.arr values) => values.filterMap (parseCall · nested outcomes includeTiming)
    | _ => []

-- -----
-- What a query selects
-- -----

def argumentText (arguments : Option Json) : Str :=
  match arguments with
  | none => []
  | some value => stringify value

/-- The argument of the query is in lower case already. -/
def matchesCall (environment : Environment) (call : Call) (skill : Option Str) (query : UsageQuery) :
    Bool :=
  if query.scope == some .skills && skill.isNone then false
  else if query.tool.any (· ≠ call.name) then false
  else if query.skill.isSome && skill != query.skill then false
  else query.argument.all fun argument =>
    includes (environment.toLowerCase (argumentText call.arguments)) argument

def kindOf (call : Option Call) (skill : Option Str) : UsageKind :=
  match call with
  | none => .skillEnvelope
  | some _ => if skill.any (· ≠ []) then .skillRead else .toolCall

def referenceOf (source : Source) (call : Option Call) (skill : Option Str) : UsageReference :=
  { file := source.file
    entryId := source.entryId
    line := source.line
    timestamp := source.timestamp
    kind := kindOf call skill
    tool := call.map (·.name)
    skill
    callId := call.bind (·.id)
    status := call.map (·.status)
    nested := call.map (·.nested)
    durationMs := call.bind (·.durationMs) }

def addReference (result : SessionUsage) (source : Option Source) (call : Option Call)
    (skill : Option Str) (limit : Number) : SessionUsage :=
  let result := { result with matchedRecords := result.matchedRecords + 1 }
  match source with
  | none => result
  | some source =>
    if reaches result.references.length limit then result
    else { result with references := result.references ++ [referenceOf source call skill] }

/-- The loop's body for a call that the query selects. -/
def countCall (result : SessionUsage) (call : Call) (skill : Option Str) : SessionUsage :=
  { result with
    toolCounts := increment result.toolCounts call.name
    toolErrorCounts :=
      if call.status = .error then increment result.toolErrorCounts call.name
      else result.toolErrorCounts
    skillReadCounts :=
      match skill with
      | none | some [] => result.skillReadCounts
      | some skill => increment result.skillReadCounts skill }

def collectCall (environment : Environment) (source : Option Source) (query : UsageQuery)
    (limit : Number) (cwd : Option Str) (result : SessionUsage) (call : Call) : SessionUsage :=
  let skill := skillRead environment cwd call
  if matchesCall environment call skill query then
    addReference (countCall result call skill) source (some call) skill limit
  else result

def collectEnvelope (source : Option Source) (limit : Number) (result : SessionUsage)
    (skill : Option Str) : SessionUsage :=
  match skill with
  | none | some [] => result
  | some skill =>
    addReference { result with skillEnvelopeCounts := increment result.skillEnvelopeCounts skill }
      source none (some skill) limit

def noteIncomplete (message : Fields) (result : SessionUsage) : SessionUsage :=
  if isText (field message (lit "role")) "toolResult" &&
      isBool (member (field message (lit "nestedCalls")) "complete") false then
    { result with incompleteNestedRecords := true }
  else result

def collectMessage (environment : Environment) (result : SessionUsage) (message : Fields)
    (source : Option Source) (outcomes : JsMap Str Outcome) (query : UsageQuery) (limit : Number)
    (cwd : Option Str) : SessionUsage :=
  let counted := (messageCalls message outcomes source.isSome).foldl
    (collectCall environment source query limit cwd) (noteIncomplete message result)
  collectEnvelope source limit counted (skillEnvelope message query)

-- -----
-- A session
-- -----

def UsageQuery.clamped (query : UsageQuery) : Number :=
  maxNumber (.finite 1) (minNumber (query.limit.getD (.finite 20)) (.finite 100))

/-- `options.includeReferences !== false` -/
def UsageQuery.includes (query : UsageQuery) : Bool := query.includeReferences != some false

def sourceOf (environment : Environment) (file : Str) (index : Nat) (entry message : Fields) : Source :=
  ⟨file, string? (field entry (lit "id")), index + 1, timestamp environment entry message⟩

def collectEntry (environment : Environment) (file : Str) (options query : UsageQuery)
    (limit : Number) (cwd : Option Str) (outcomes : JsMap Str Outcome) (result : SessionUsage)
    (indexed : Option Fields × Nat) : SessionUsage :=
  match indexed.1, messageOf indexed.1 with
  | some entry, some message =>
    let source :=
      if options.includes && below result.references.length limit then
        some (sourceOf environment file indexed.2 entry message)
      else none
    collectMessage environment result message source outcomes query limit cwd
  | _, _ => result

def headerCwd (entries : List (Option Fields)) : Option Str :=
  let header := entries.find? fun entry => entry.any fun fields =>
    isText (field fields (lit "type")) "session"
  string? (header.join.bind (field · (lit "cwd")))

def emptyUsage : SessionUsage := ⟨.empty, .empty, .empty, .empty, 0, [], false, false⟩

def inspectSessionUsage (environment : Environment) (entries : List (Option Fields)) (file : Str)
    (options : UsageQuery) : SessionUsage :=
  let limit := options.clamped
  let query := { options with argument := options.argument.map environment.toLowerCase }
  let outcomes := callOutcomes entries options.includes
  let result := entries.zipIdx.foldl
    (collectEntry environment file options query limit (headerCwd entries) outcomes) emptyUsage
  { result with
    referencesTruncated :=
      options.includes && decide (result.references.length < result.matchedRecords) }

end PiEnv.Introspection
