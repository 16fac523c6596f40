import PiEnv.Lib.PackedJson
import PiEnv.Lib.PosixPath

/-!
# Feedback of a pull request

The pages that `fetchPullRequestContext` reads through `gh`. The comments, the
reviews and the review threads go on side by side, under one cursor.
-/

namespace PiEnv.Review

open Js

-- -----
-- Pages and cursors
-- -----

abbrev JsonRecord := List (Str × Json)

inductive PrReviewFeedback where
  | all | conversation | reviews | inline
  deriving DecidableEq, Repr

def PrReviewFeedback.text : PrReviewFeedback → Str
  | .all => lit "all"
  | .conversation => lit "conversation"
  | .reviews => lit "reviews"
  | .inline => lit "inline"

/-- `isFeedback`, with the category that has the text. -/
def isFeedback : Option Json → Option PrReviewFeedback
  | some (.str value) =>
    [PrReviewFeedback.all, .conversation, .reviews, .inline].find? (·.text = value)
  | _ => none

structure PageInfo where
  hasNextPage : Bool
  endCursor : Option Str
  deriving DecidableEq, Repr

structure ContextConnection where
  totalCount : Int
  pageInfo : PageInfo
  nodes : List JsonRecord

structure ConnectionCursor where
  done : Bool
  after : Option Str
  deriving DecidableEq, Repr

structure ContextCursor where
  feedback : PrReviewFeedback
  conversation : Option ConnectionCursor
  reviews : Option ConnectionCursor
  inline : Option ConnectionCursor
  deriving DecidableEq, Repr

structure Reference where
  owner : Str
  repo : Str
  number : Nat
  url : Str
  deriving DecidableEq, Repr

structure PullRequestContextPage where
  reference : Reference
  pullRequest : JsonRecord
  feedback : PrReviewFeedback
  pageSize : Int
  conversation : Option ContextConnection
  reviews : Option ContextConnection
  inline : Option ContextConnection
  nextCursor : Option Str

structure PullRequestContextOptions where
  feedback : Option PrReviewFeedback
  cursor : Option Str
  pageSize : Option Number

-- -----
-- Values
-- -----

def record : Option Json → Option JsonRecord
  | some (.obj fields) => some fields
  | _ => none

def text : Option Json → Option Str
  | some (.str value) => some value
  | _ => none

def integer : Option Json → Option Int
  | some (.num value) => value.integer?
  | _ => none

def boolean : Option Json → Option Bool
  | some (.bool value) => some value
  | _ => none

/-- `value?.[key]` -/
def member (value : Option JsonRecord) (key : String) : Option Json :=
  value.bind fun fields => field fields (lit key)

def bound (value : Str) (max : Nat) : Str :=
  if value.length > max then
    value.take max ++ LF :: lit "[truncated " ++ decimal (value.length - max) ++ lit " chars]"
  else value

def isNameUnit (u : UInt16) : Bool := isDigit u || (65 ≤ u && u ≤ 90) || (97 ≤ u && u ≤ 122)

/-- `[A-Za-z0-9](?:[A-Za-z0-9._-]{0,98}[A-Za-z0-9])?` -/
def isGithubName (name : Str) : Bool :=
  name.head?.any isNameUnit && name.getLast?.any isNameUnit && name.length ≤ 100 &&
    name.all fun u => isNameUnit u || u == 46 || u == 95 || u == 45

/-- `[1-9][0-9]{0,9}` -/
def isPullNumber (digits : Str) : Bool :=
  digits.head?.any (· != 48) && digits.length ≤ 10 && digits.all isDigit

/-- `(?:[/?#].*)?$` -/
def endsNumber : Str → Bool
  | [] => true
  | u :: rest => (u == 47 || u == 63 || u == 35) && rest.all fun u => !isLineTerminator u

def parseGitHubPullRequestUrl (value : Str) : Option Reference :=
  if !(lit "https://github.com/").isPrefixOf value then none
  else
    match split [Posix.slash] (value.drop 19) with
    | owner :: repo :: pull :: tail =>
      let digits := (join [Posix.slash] tail).takeWhile isDigit
      if isGithubName owner && isGithubName repo && pull = lit "pull" && isPullNumber digits &&
          endsNumber ((join [Posix.slash] tail).dropWhile isDigit) then
        some ⟨owner, repo, digitsValue digits,
          lit "https://github.com/" ++ owner ++ lit "/" ++ repo ++ lit "/pull/" ++ digits⟩
      else none
    | _ => none

def parsePrUrl (url : Str) : Except Str Reference :=
  match parseGitHubPullRequestUrl url with
  | some reference => .ok reference
  | none => .error (lit "Expected a valid GitHub pull request URL.")

def connection (value : Option Json) (name : Str) : Except Str ContextConnection :=
  match record value, record (member (record value) "pageInfo"), member (record value) "nodes" with
  | some _, some pageInfo, some (.arr nodes) =>
    .ok {
      totalCount := max 0 ((integer (member (record value) "totalCount")).getD nodes.length)
      pageInfo := {
        hasNextPage := (boolean (field pageInfo (lit "hasNextPage"))).getD false
        endCursor := text (field pageInfo (lit "endCursor")) }
      nodes := nodes.filterMap fun node => record (some node) }
  | _, _, _ => .error (lit "GitHub returned an invalid " ++ name ++ lit " connection.")

-- -----
-- Cursors
-- -----

def selected (feedback category : PrReviewFeedback) : Bool :=
  feedback = .all || feedback = category

def initialConnection (feedback category : PrReviewFeedback) : Option ConnectionCursor :=
  if selected feedback category then some ⟨false, none⟩ else none

def initialCursor (feedback : PrReviewFeedback) : ContextCursor where
  feedback
  conversation := initialConnection feedback .conversation
  reviews := initialConnection feedback .reviews
  inline := initialConnection feedback .inline

def invalidCursor : Str := lit "The pull request context cursor is invalid."

def parseConnectionCursor (value : Option Json) : Except Str (Option ConnectionCursor) :=
  if value.isNone then .ok none
  else
    match boolean (member (record value) "done") with
    | none => .error invalidCursor
    | some done =>
      match member (record value) "after" with
      | none => .ok (some ⟨done, none⟩)
      | some (.str after) => if after = [] then .error invalidCursor else .ok (some ⟨done, some after⟩)
      | some _ => .error invalidCursor

/-- `value === 1` -/
def isVersion : Option Json → Bool
  | some (.num value) => value = .ofInt 1
  | _ => false

def decodeCursor (value : Str) : Except Str ContextCursor :=
  if value.length > 4096 then .error (lit "The pull request context cursor is too large.")
  else
    match record (unpackJson value) with
    | none => .error invalidCursor
    | some parsed =>
      if isVersion (field parsed (lit "version")) then
        match isFeedback (field parsed (lit "feedback")) with
        | none => .error invalidCursor
        | some feedback => do
          return {
            feedback
            conversation := ← parseConnectionCursor (field parsed (lit "conversation"))
            reviews := ← parseConnectionCursor (field parsed (lit "reviews"))
            inline := ← parseConnectionCursor (field parsed (lit "inline")) }
      else .error invalidCursor

/-- Undefined fields are left out. -/
def ConnectionCursor.json (cursor : ConnectionCursor) : Json :=
  .obj ((lit "done", .bool cursor.done) ::
    (cursor.after.map fun after => (lit "after", Json.str after)).toList)

def ContextCursor.fields (cursor : ContextCursor) : JsonRecord :=
  [(lit "version", .num (.ofInt 1)), (lit "feedback", .str cursor.feedback.text)] ++
    (cursor.conversation.map fun c => (lit "conversation", c.json)).toList ++
    (cursor.reviews.map fun c => (lit "reviews", c.json)).toList ++
    (cursor.inline.map fun c => (lit "inline", c.json)).toList

def ContextCursor.json (cursor : ContextCursor) : Json := .obj cursor.fields

def encodeCursor (cursor : ContextCursor) : Str := packJson cursor.json

def included (cursor : Option ConnectionCursor) : Bool :=
  match cursor with
  | some cursor => !cursor.done
  | none => false

def nextConnection (prior : Option ConnectionCursor) (result : Option ContextConnection) :
    Except Str (Option ConnectionCursor) :=
  match prior, result with
  | some cursor, some connection =>
    if cursor.done then .ok prior
    else if !connection.pageInfo.hasNextPage then .ok (some ⟨true, none⟩)
    else
      match connection.pageInfo.endCursor with
      | some (u :: rest) => .ok (some ⟨false, some (u :: rest)⟩)
      | _ => .error (lit "GitHub omitted a required pull request context cursor.")
  | _, _ => .ok prior

def hasMore (cursor : ContextCursor) : Bool :=
  [cursor.conversation, cursor.reviews, cursor.inline].any included

-- -----
-- Requests
-- -----

def parseGraphQlPullRequest (raw : Str) : Except Str JsonRecord :=
  match (if raw = [] then some (.obj []) else parse raw) with
  | none => .error (lit "GitHub returned invalid pull request context JSON.")
  | some value =>
    let root := (record (some value)).getD []
    match field root (lit "errors") with
    | some (.arr (first :: _)) =>
      .error (lit "GitHub could not get pull request context: " ++ bound
        ((text (member (record (some first)) "message")).getD (lit "unknown GraphQL error")) 500)
    | _ =>
      let repository := record (member (record (field root (lit "data"))) "repository")
      match record (member repository "pullRequest") with
      | some pullRequest => .ok pullRequest
      | none => .error (lit "GitHub did not return the requested pull request.")

/-- The connection of a category where it is included. -/
def includedConnection (cursor : Option ConnectionCursor) (value : Option Json) (name : Str) :
    Except Str (Option ContextConnection) :=
  if included cursor then (connection value name).map some else .ok none

def parseGraphQlPage (raw : Str) (reference : Reference) (cursor : ContextCursor) (pageSize : Int) :
    Except Str PullRequestContextPage := do
  let pullRequest ← parseGraphQlPullRequest raw
  let conversation ← includedConnection cursor.conversation (field pullRequest (lit "comments"))
    (lit "conversation comments")
  let reviews ← includedConnection cursor.reviews (field pullRequest (lit "reviews"))
    (lit "submitted reviews")
  let inline ← includedConnection cursor.inline (field pullRequest (lit "reviewThreads"))
    (lit "inline review threads")
  let next : ContextCursor := {
    feedback := cursor.feedback
    conversation := ← nextConnection cursor.conversation conversation
    reviews := ← nextConnection cursor.reviews reviews
    inline := ← nextConnection cursor.inline inline }
  return {
    reference, pullRequest
    feedback := cursor.feedback
    pageSize, conversation, reviews, inline
    nextCursor := if hasMore next then some (encodeCursor next) else none }

def DEFAULT_CONTEXT_PAGE_SIZE : Int := 3

def MAX_CONTEXT_PAGE_SIZE : Int := 5

def INLINE_COMMENTS_PER_THREAD : Nat := 5

def contextRequest (options : PullRequestContextOptions) : Except Str (ContextCursor × Int) := do
  let decoded ← match options.cursor with
    | some (u :: rest) => (decodeCursor (u :: rest)).map some
    | _ => pure none
  let feedback := (options.feedback <|> decoded.map (·.feedback)).getD .all
  if decoded.any fun cursor => options.feedback.any (· ≠ cursor.feedback) then
    throw (lit "The feedback category does not match the pagination cursor.")
  let cursor := decoded.getD (initialCursor feedback)
  match (options.pageSize.getD (.ofInt DEFAULT_CONTEXT_PAGE_SIZE)).integer? with
  | some pageSize =>
    if 1 ≤ pageSize ∧ pageSize ≤ MAX_CONTEXT_PAGE_SIZE then return (cursor, pageSize)
    else throw (lit "pageSize must be between 1 and " ++ decimalInt MAX_CONTEXT_PAGE_SIZE ++ lit ".")
  | none => throw (lit "pageSize must be between 1 and " ++ decimalInt MAX_CONTEXT_PAGE_SIZE ++ lit ".")

structure ExecResult where
  stdout : Str
  stderr : Str
  code : Int
  killed : Bool
  deriving DecidableEq, Repr

def flag (value : Bool) : Str := if value then lit "true" else lit "false"

def variableArgs (name : String) (value : Str) : List Str := [lit "-F", lit name ++ lit "=" ++ value]

/-- `appendVariable` of what a connection goes on after. -/
def appendVariable (name : String) (cursor : Option ConnectionCursor) : List Str :=
  match cursor.bind (·.after) with
  | some (u :: rest) => variableArgs name (u :: rest)
  | _ => []

section
variable (exec : Str → List Str → Option ExecResult) (query : Str)

def contextArgs (reference : Reference) (cursor : ContextCursor) (pageSize : Int) : List Str :=
  [lit "api", lit "graphql", lit "-f", lit "query=" ++ query] ++
    variableArgs "owner" reference.owner ++ variableArgs "repo" reference.repo ++
    variableArgs "number" (decimal reference.number) ++
    variableArgs "pageSize" (decimalInt pageSize) ++
    variableArgs "inlineCommentLimit" (decimal INLINE_COMMENTS_PER_THREAD) ++
    variableArgs "includeConversation" (flag (included cursor.conversation)) ++
    variableArgs "includeReviews" (flag (included cursor.reviews)) ++
    variableArgs "includeInline" (flag (included cursor.inline)) ++
    appendVariable "conversationCursor" cursor.conversation ++
    appendVariable "reviewsCursor" cursor.reviews ++
    appendVariable "inlineCursor" cursor.inline

/-- A command that rejects has no result. -/
def execEffect (command : Str) (args : List Str) (failureDetail : Str) : Except Str ExecResult :=
  let rendered := join [space] (command :: args)
  match exec command args with
  | none => .error failureDetail
  | some result =>
    let detail := if result.stderr = [] then result.stdout else result.stderr
    if result.killed then .error (rendered ++ lit " was terminated: " ++ detail)
    else if result.code = 0 then .ok result
    else .error (rendered ++ lit " exited " ++ decimalInt result.code ++ lit ": " ++ detail)

def fetchPullRequestContext (url : Str) (options : PullRequestContextOptions) :
    Except Str PullRequestContextPage := do
  let reference ← parsePrUrl url
  let (cursor, pageSize) ← contextRequest options
  let result ← execEffect exec (lit "gh") (contextArgs query reference cursor pageSize)
    (lit "Could not get pull request context from GitHub.")
  parseGraphQlPage result.stdout reference cursor pageSize

end

end PiEnv.Review
