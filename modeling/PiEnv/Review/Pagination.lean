import PiEnv.Lib.Paging
import PiEnv.Lib.Program
import PiEnv.Review.Context

/-!
# Pagination of feedback

Three connections of any length go on side by side. From the first page to the
one without a cursor each selected category is read to its end, and then left
alone.
-/

namespace PiEnv.Review

open Js

-- -----
-- Cursors
-- -----

/-- No connection goes on after an empty cursor. -/
def NonEmpty (cursor : Option ConnectionCursor) : Prop := ∀ c ∈ cursor, c.after ≠ some []

theorem plain_object {fields : JsonRecord} (h : ∀ entry ∈ fields, Plain entry.2)
    (hnames : (fields.map (·.1)).Nodup ∧ ∀ key ∈ fields.map (·.1), arrayIndex key = none) :
    Plain (.obj fields) :=
  .obj h (fromEntries_self hnames.1 hnames.2)

theorem plain_connection (cursor : ConnectionCursor) : Plain cursor.json := by
  obtain ⟨done, after⟩ := cursor
  refine plain_object ?_ ⟨?_, ?_⟩
  · cases after <;> simp [Plain.bool, Plain.str]
  · cases after <;> simp
    decide
  · cases after <;> simp <;> decide

theorem plain_cursor (cursor : ContextCursor) : Plain cursor.json := by
  obtain ⟨feedback, conversation, reviews, inline⟩ := cursor
  have hone : Plain (.num (.ofInt 1)) := .int (by decide)
  refine plain_object ?_ ⟨?_, ?_⟩
  · cases conversation <;> cases reviews <;> cases inline <;>
      simp [ContextCursor.fields, hone, Plain.str, plain_connection]
  · cases conversation <;> cases reviews <;> cases inline <;> simp [ContextCursor.fields] <;> decide
  · cases conversation <;> cases reviews <;> cases inline <;> simp [ContextCursor.fields] <;> decide

theorem isFeedback_text (feedback : PrReviewFeedback) :
    isFeedback (some (.str feedback.text)) = some feedback := by
  cases feedback <;> decide

theorem parseConnectionCursor_json {cursor : Option ConnectionCursor} (h : NonEmpty cursor) :
    parseConnectionCursor (cursor.map (·.json)) = .ok cursor := by
  cases cursor with
  | none => rfl
  | some cursor =>
    obtain ⟨done, after⟩ := cursor
    cases after with
    | none => rfl
    | some after =>
      cases after with
      | nil => exact absurd rfl (h _ rfl)
      | cons => rfl

section
variable (cursor : ContextCursor)

theorem fields_version : field cursor.fields (lit "version") = some (.num (.ofInt 1)) := rfl

theorem fields_feedback : field cursor.fields (lit "feedback") = some (.str cursor.feedback.text) :=
  rfl

theorem fields_conversation :
    field cursor.fields (lit "conversation") = cursor.conversation.map (·.json) := by
  obtain ⟨feedback, conversation, reviews, inline⟩ := cursor
  cases conversation <;> cases reviews <;> cases inline <;> rfl

theorem fields_reviews : field cursor.fields (lit "reviews") = cursor.reviews.map (·.json) := by
  obtain ⟨feedback, conversation, reviews, inline⟩ := cursor
  cases conversation <;> cases reviews <;> cases inline <;> rfl

theorem fields_inline : field cursor.fields (lit "inline") = cursor.inline.map (·.json) := by
  obtain ⟨feedback, conversation, reviews, inline⟩ := cursor
  cases conversation <;> cases reviews <;> cases inline <;> rfl

end

/-- A cursor that is not too long decodes to what it encodes. -/
theorem decodeCursor_encodeCursor {cursor : ContextCursor}
    (hconversation : NonEmpty cursor.conversation) (hreviews : NonEmpty cursor.reviews)
    (hinline : NonEmpty cursor.inline) (hshort : (encodeCursor cursor).length ≤ 4096) :
    decodeCursor (encodeCursor cursor) = .ok cursor := by
  have hparsed : record (unpackJson (encodeCursor cursor)) = some cursor.fields := by
    rw [encodeCursor, unpackJson_packJson (plain_cursor cursor)]
    rfl
  have hversion : isVersion (some (.num (.ofInt 1))) = true := by decide
  rw [decodeCursor, if_neg (by omega), hparsed]
  simp only [fields_version, fields_feedback, fields_conversation, fields_reviews, fields_inline,
    hversion, if_true, isFeedback_text, parseConnectionCursor_json hconversation,
    parseConnectionCursor_json hreviews, parseConnectionCursor_json hinline]
  rfl

-- -----
-- Connections as they are served
-- -----

/-- The items of a category, and where each cursor stands. -/
structure Pagination where
  items : List JsonRecord
  position : Option Str → Nat
  endCursor : Option Str → Nat → Option Str
  start : position none = 0
  consistent : ∀ after first, 0 < first → position after + first < items.length →
    ∃ c, endCursor after first = some c ∧ c ≠ [] ∧ position (some c) = position after + first

namespace Pagination
variable (p : Pagination)

def hasNextPage (after : Option Str) (first : Nat) : Bool := p.position after + first < p.items.length

def page (after : Option Str) (first : Nat) : List JsonRecord :=
  (p.items.drop (p.position after)).take first

/-- What GitHub answers for a connection. -/
def response (after : Option Str) (first : Nat) : Json :=
  .obj [(lit "totalCount", .num (.ofInt p.items.length)),
    (lit "pageInfo", .obj [(lit "hasNextPage", .bool (p.hasNextPage after first)),
      (lit "endCursor", ((p.endCursor after first).map Json.str).getD .null)]),
    (lit "nodes", .arr ((p.page after first).map Json.obj))]

/-- The cursors that a caller can have got. -/
inductive Issued : Option Str → Prop
  | start : Issued none
  | next {after : Option Str} {first : Nat} {c : Str} (h : Issued after) (hfirst : 0 < first)
    (hnext : p.hasNextPage after first = true) (hc : p.endCursor after first = some c) :
    Issued (some c)

/-- Where the cursor of a connection stands, with what is left of a category
that is not done. -/
inductive At : ConnectionCursor → Option (List JsonRecord) → Prop
  | going {after : Option Str} (h : p.Issued after) :
    At ⟨false, after⟩ (some (p.items.drop (p.position after)))
  | ended : At ⟨true, none⟩ none

variable {p}

theorem issued_position {c : Option Str} (h : p.Issued c) : c ≠ some [] := by
  cases h with
  | start => nofun
  | next h hfirst hnext hc =>
    obtain ⟨c', hc', hne, -⟩ := p.consistent _ _ hfirst (of_decide_eq_true hnext)
    obtain rfl := Option.some.inj (hc.symm.trans hc')
    exact fun hnil => hne (Option.some.inj hnil)

theorem At.nonEmpty {c : ConnectionCursor} {rest : Option (List JsonRecord)} (h : p.At c rest) :
    c.after ≠ some [] := by
  cases h with
  | going h => exact issued_position h
  | ended => nofun

end Pagination

/-- What is made of a connection that is served. -/
def servedConnection (p : Pagination) (after : Option Str) (first : Nat) : ContextConnection where
  totalCount := p.items.length
  pageInfo := ⟨p.hasNextPage after first, p.endCursor after first⟩
  nodes := p.page after first

theorem text_endCursor (cursor : Option Str) : text (some ((cursor.map Json.str).getD .null)) = cursor := by
  cases cursor <;> rfl

theorem filterMap_records (nodes : List JsonRecord) :
    (nodes.map Json.obj).filterMap (fun node => record (some node)) = nodes := by
  rw [List.filterMap_map]
  exact List.filterMap_some

theorem connection_response (p : Pagination) (after : Option Str) (first : Nat) (name : Str) :
    connection (some (p.response after first)) name = .ok (servedConnection p after first) := by
  have htotal : max 0 ((integer (some (.num (.ofInt p.items.length)))).getD
      ((p.page after first).map Json.obj).length) = (p.items.length : Int) :=
    max_eq_right (Int.natCast_nonneg _)
  have hconnection : connection (some (p.response after first)) name = .ok {
      totalCount := max 0 ((integer (some (.num (.ofInt p.items.length)))).getD
        ((p.page after first).map Json.obj).length)
      pageInfo := ⟨p.hasNextPage after first, text (some (((p.endCursor after first).map Json.str).getD .null))⟩
      nodes := ((p.page after first).map Json.obj).filterMap fun node => record (some node) } := rfl
  rw [hconnection, htotal, text_endCursor, filterMap_records]
  rfl

/-- A category is read to its end and then left alone. -/
inductive Drains : Option (List JsonRecord) → List (Option ContextConnection) → Prop
  | finished {trace : List (Option ContextConnection)} (h : ∀ c ∈ trace, c = none) : Drains none trace
  | last {c : ContextConnection} {trace : List (Option ContextConnection)}
    (hnext : c.pageInfo.hasNextPage = false) (h : Drains none trace) :
    Drains (some c.nodes) (some c :: trace)
  | more {c : ContextConnection} {rest : List JsonRecord} {trace : List (Option ContextConnection)}
    (hnext : c.pageInfo.hasNextPage = true) (h : Drains (some rest) trace) :
    Drains (some (c.nodes ++ rest)) (some c :: trace)

/-- The pages have every item of a category once and in order. They go on with it
up to its last page, and have nothing of it behind that. -/
structure Complete (items : List JsonRecord) (trace : List (Option ContextConnection)) : Prop where
  items : (trace.flatMap fun c => (c.map (·.nodes)).getD []) = items
  ends : ∃ before last after, trace = before ++ some last :: after ∧
    (∀ c ∈ before, ∃ page, c = some page ∧ page.pageInfo.hasNextPage = true) ∧
    last.pageInfo.hasNextPage = false ∧ ∀ c ∈ after, c = none

theorem Drains.nothing {trace : List (Option ContextConnection)} (h : Drains none trace) :
    ∀ c ∈ trace, c = none := by
  cases h with
  | finished h => exact h

theorem nodes_nothing {trace : List (Option ContextConnection)} (h : ∀ c ∈ trace, c = none) :
    (trace.flatMap fun c => (c.map (·.nodes)).getD []) = [] := by
  refine List.flatMap_eq_nil_iff.mpr fun c hc => ?_
  rw [h c hc]
  rfl

theorem Drains.complete {left : Option (List JsonRecord)} {trace : List (Option ContextConnection)}
    (h : Drains left trace) : ∀ {rest}, left = some rest → Complete rest trace := by
  induction h with
  | finished => exact fun hleft => nomatch hleft
  | @last c trace hnext hover ih =>
    intro rest hleft
    obtain rfl := Option.some.inj hleft
    refine ⟨?_, [], c, trace, rfl, fun _ hmem => (nomatch hmem), hnext, hover.nothing⟩
    rw [List.flatMap_cons, nodes_nothing hover.nothing, List.append_nil]
    rfl
  | @more c rest trace hnext hdrains ih =>
    intro whole hleft
    obtain rfl := Option.some.inj hleft
    obtain ⟨hitems, before, last, after, htrace, hbefore, hlast, hafter⟩ := ih rfl
    refine ⟨?_, some c :: before, last, after, ?_, ?_, hlast, hafter⟩
    · rw [List.flatMap_cons, hitems]
      rfl
    · rw [htrace, List.cons_append]
    · exact List.forall_mem_cons.mpr ⟨⟨c, rfl, hnext⟩, hbefore⟩

-- -----
-- One category
-- -----

/-- What is left of a category that is not selected, that has ended or that goes on. -/
inductive Stands (p : Pagination) : Option ConnectionCursor → Option (List JsonRecord) → Prop
  | unselected : Stands p none none
  | selected {c : ConnectionCursor} {left : Option (List JsonRecord)} (h : p.At c left) :
    Stands p (some c) left

def size (left : Option (List JsonRecord)) : Nat := (left.map fun rest => rest.length + 1).getD 0

/-- A category after one page. -/
structure Advances (p : Pagination) (left : Option (List JsonRecord))
    (result : Option ContextConnection) (next : Option ConnectionCursor)
    (left' : Option (List JsonRecord)) : Prop where
  stands : Stands p next left'
  drains : ∀ trace, Drains left' trace → Drains left (result :: trace)
  le : size left' ≤ size left
  less : left ≠ none → size left' < size left

section
variable {p : Pagination} {cursor : Option ConnectionCursor} {left : Option (List JsonRecord)}

theorem Stands.included (h : Stands p cursor left) : included cursor = left.isSome := by
  cases h with
  | unselected => rfl
  | selected h => cases h <;> rfl

theorem Stands.nonEmpty (h : Stands p cursor left) : NonEmpty cursor := by
  rintro c hc
  cases h with
  | unselected => cases hc
  | selected h =>
    obtain rfl := Option.some.inj hc
    exact h.nonEmpty

theorem advances_rest (h : left = none) (hs : Stands p cursor left) :
    Advances p left none cursor left := by
  subst h
  refine ⟨hs, fun trace htrace => ?_, le_rfl, fun hne => absurd rfl hne⟩
  cases htrace with
  | finished htrace => exact .finished (List.forall_mem_cons.mpr ⟨rfl, htrace⟩)

theorem category_advances {first : Nat} (hfirst : 0 < first) (h : Stands p cursor left)
    (value : Option Json) (name : Str)
    (hvalue : ∀ c, cursor = some c → c.done = false → value = some (p.response c.after first)) :
    ∃ result next left', includedConnection cursor value name = .ok result ∧
      nextConnection cursor result = .ok next ∧ Advances p left result next left' := by
  cases h with
  | unselected => exact ⟨none, none, none, rfl, rfl, advances_rest rfl .unselected⟩
  | selected hat =>
    cases hat with
    | ended => exact ⟨none, _, none, rfl, rfl, advances_rest rfl (.selected .ended)⟩
    | @going after hissued =>
      have hread : includedConnection (some ⟨false, after⟩) value name =
          .ok (some (servedConnection p after first)) := by
        rw [hvalue _ rfl rfl, includedConnection, connection_response]
        rfl
      cases hnext : p.hasNextPage after first with
      | false =>
        have hall : p.page after first = p.items.drop (p.position after) := by
          have hlast := of_decide_eq_false hnext
          refine List.take_of_length_le ?_
          rw [List.length_drop]
          omega
        refine ⟨_, some ⟨true, none⟩, none, hread, ?_, .selected .ended, fun trace htrace => ?_, ?_, ?_⟩
        · simp [nextConnection, servedConnection, hnext]
        · rw [← hall]
          exact .last (c := servedConnection p after first) hnext htrace
        · exact Nat.zero_le _
        · exact fun _ => Nat.succ_pos _
      | true =>
        have hmore := of_decide_eq_true hnext
        obtain ⟨c, hc, hne, hposition⟩ := p.consistent after first hfirst hmore
        obtain ⟨u, rest, rfl⟩ := List.exists_cons_of_ne_nil hne
        have hless : size (some (p.items.drop (p.position (some (u :: rest))))) <
            size (some (p.items.drop (p.position after))) := by
          simp only [size, hposition, Option.map_some, Option.getD_some, List.length_drop]
          omega
        refine ⟨_, some ⟨false, some (u :: rest)⟩, _, hread, ?_,
          .selected (.going (.next hissued hfirst hnext hc)), fun trace htrace => ?_, hless.le, fun _ => hless⟩
        · simp [nextConnection, servedConnection, hnext, hc]
        · have hparts : p.page after first ++ p.items.drop (p.position (some (u :: rest))) =
              p.items.drop (p.position after) := by
            rw [hposition, ← List.drop_drop]
            exact List.take_append_drop first _
          rw [← hparts]
          exact .more (c := servedConnection p after first) hnext htrace

end

-- -----
-- All categories
-- -----

inductive Category where
  | conversation | reviews | inline
  deriving DecidableEq, Repr

def Category.feedback : Category → PrReviewFeedback
  | .conversation => .conversation
  | .reviews => .reviews
  | .inline => .inline

def Category.key : Category → Str
  | .conversation => lit "comments"
  | .reviews => lit "reviews"
  | .inline => lit "reviewThreads"

def ContextCursor.of (cursor : ContextCursor) : Category → Option ConnectionCursor
  | .conversation => cursor.conversation
  | .reviews => cursor.reviews
  | .inline => cursor.inline

def PullRequestContextPage.of (page : PullRequestContextPage) : Category → Option ContextConnection
  | .conversation => page.conversation
  | .reviews => page.reviews
  | .inline => page.inline

/-- What is left of each category. -/
abbrev Left := Category → Option (List JsonRecord)

def Left.size (left : Left) : Nat :=
  Review.size (left .conversation) + Review.size (left .reviews) + Review.size (left .inline)

section
variable (service : Category → Pagination)

/-- A cursor that a caller can have come to. -/
def Reached (cursor : ContextCursor) (left : Left) : Prop :=
  ∀ category, Stands (service category) (cursor.of category) (left category)

/-- The answer to a query, with the fields of the pull request. -/
def answered (fields : JsonRecord) : Json :=
  .obj [(lit "data", .obj [(lit "repository", .obj [(lit "pullRequest", .obj fields)])])]

/-- What `gh` prints for a page is what GitHub has behind the cursor. -/
structure Answers (cursor : ContextCursor) (pageSize : Nat) (result : ExecResult)
    (fields : JsonRecord) : Prop where
  killed : result.killed = false
  code : result.code = 0
  parsed : parse result.stdout = some (answered fields)
  connection : ∀ category c, cursor.of category = some c → c.done = false →
    field fields category.key = some ((service category).response c.after pageSize)

/-- A pull request whose connections are served page by page. -/
def Serves (exec : Str → List Str → Option ExecResult) (query : Str) (reference : Reference) : Prop :=
  ∀ cursor left pageSize, Reached service cursor left → 1 ≤ pageSize → pageSize ≤ 5 →
    ∃ result fields, exec (lit "gh") (contextArgs query reference cursor (pageSize : Nat)) = some result ∧
      Answers service cursor pageSize result fields

variable {service : Category → Pagination}

theorem parseGraphQlPullRequest_answered {raw : Str} {fields : JsonRecord}
    (h : parse raw = some (answered fields)) : parseGraphQlPullRequest raw = .ok fields := by
  have hraw : raw ≠ [] := by
    rintro rfl
    exact nomatch (show (none : Option Json) = some _ from h)
  rw [parseGraphQlPullRequest, if_neg hraw, h]
  rfl

/-- A page that is read, and what is left behind it. -/
structure PageRead (service : Category → Pagination) (cursor : ContextCursor) (left : Left)
    (page : PullRequestContextPage) (next : ContextCursor) (left' : Left) : Prop where
  nextCursor : page.nextCursor = if hasMore next then some (encodeCursor next) else none
  feedback : next.feedback = cursor.feedback
  advances : ∀ category, Advances (service category) (left category) (page.of category)
    (next.of category) (left' category)

theorem parseGraphQlPage_read {cursor : ContextCursor} {left : Left} {pageSize : Nat}
    {result : ExecResult} {fields : JsonRecord} (hreached : Reached service cursor left)
    (hsize : 0 < pageSize) (h : Answers service cursor pageSize result fields) (reference : Reference) :
    ∃ page next left', parseGraphQlPage result.stdout reference cursor pageSize = .ok page ∧
      PageRead service cursor left page next left' := by
  have hpull := parseGraphQlPullRequest_answered h.parsed
  obtain ⟨conversation, nextConversation, leftConversation, hc, hnc, hac⟩ := category_advances hsize
    (hreached .conversation) (field fields (lit "comments")) (lit "conversation comments")
    (h.connection .conversation)
  obtain ⟨reviews, nextReviews, leftReviews, hr, hnr, har⟩ := category_advances hsize
    (hreached .reviews) (field fields (lit "reviews")) (lit "submitted reviews") (h.connection .reviews)
  obtain ⟨inline, nextInline, leftInline, hi, hni, hai⟩ := category_advances hsize
    (hreached .inline) (field fields (lit "reviewThreads")) (lit "inline review threads")
    (h.connection .inline)
  refine ⟨⟨reference, fields, cursor.feedback, pageSize, conversation, reviews, inline, _⟩,
    ⟨cursor.feedback, nextConversation, nextReviews, nextInline⟩,
    fun | .conversation => leftConversation | .reviews => leftReviews | .inline => leftInline, ?_,
    rfl, rfl, ?_⟩
  · refine Effects.bind_eq_ok.mpr ⟨fields, hpull, ?_⟩
    refine Effects.bind_eq_ok.mpr ⟨conversation, hc, ?_⟩
    refine Effects.bind_eq_ok.mpr ⟨reviews, hr, ?_⟩
    refine Effects.bind_eq_ok.mpr ⟨inline, hi, ?_⟩
    refine Effects.bind_eq_ok.mpr ⟨nextConversation, hnc, ?_⟩
    refine Effects.bind_eq_ok.mpr ⟨nextReviews, hnr, ?_⟩
    exact Effects.bind_eq_ok.mpr ⟨nextInline, hni, rfl⟩
  · rintro (_ | _ | _)
    · exact hac
    · exact har
    · exact hai

theorem hasMore_left {cursor : ContextCursor} {left : Left} (h : Reached service cursor left) :
    hasMore cursor = true ↔ ∃ category, left category ≠ none := by
  have hincluded : ∀ category, included (cursor.of category) = (left category).isSome := fun category =>
    (h category).included
  have hall : hasMore cursor = ((left .conversation).isSome || ((left .reviews).isSome ||
      (left .inline).isSome)) := by
    rw [← hincluded, ← hincluded, ← hincluded]
    simp [hasMore, ContextCursor.of]
  rw [hall, Bool.or_eq_true, Bool.or_eq_true, Option.isSome_iff_ne_none, Option.isSome_iff_ne_none,
    Option.isSome_iff_ne_none]
  constructor
  · rintro (hc | hr | hi)
    · exact ⟨_, hc⟩
    · exact ⟨_, hr⟩
    · exact ⟨_, hi⟩
  · rintro ⟨_ | _ | _, hc⟩
    · exact .inl hc
    · exact .inr (.inl hc)
    · exact .inr (.inr hc)

theorem PageRead.reached {cursor next : ContextCursor} {left left' : Left}
    {page : PullRequestContextPage} (h : PageRead service cursor left page next left') :
    Reached service next left' := fun category => (h.advances category).stands

theorem PageRead.size {cursor next : ContextCursor} {left left' : Left}
    {page : PullRequestContextPage} (h : PageRead service cursor left page next left')
    (hmore : ∃ category, left category ≠ none) : left'.size < left.size := by
  have hconversation := (h.advances .conversation).le
  have hreviews := (h.advances .reviews).le
  have hinline := (h.advances .inline).le
  obtain ⟨category, hne⟩ := hmore
  have hless := (h.advances category).less hne
  unfold Left.size
  cases category <;> omega

theorem Reached.decodes {cursor : ContextCursor} {left : Left} (h : Reached service cursor left)
    (hshort : (encodeCursor cursor).length ≤ 4096) :
    decodeCursor (encodeCursor cursor) = .ok cursor :=
  decodeCursor_encodeCursor (h .conversation).nonEmpty (h .reviews).nonEmpty (h .inline).nonEmpty hshort

-- -----
-- Requests
-- -----

/-- The options of a page: the first names a category or none, the later ones the
category of their cursor or none. -/
def optionsFor (first later : Option PrReviewFeedback) (cursor : Option Str) (pageSize : Nat) :
    PullRequestContextOptions where
  feedback := if cursor.isNone then first else later
  cursor
  pageSize := some (.ofInt pageSize)

theorem request_first {first later : Option PrReviewFeedback} {pageSize : Nat} (hl : 1 ≤ pageSize)
    (hu : pageSize ≤ 5) :
    contextRequest (optionsFor first later none pageSize) =
      .ok (initialCursor (first.getD .all), (pageSize : Int)) := by
  have hsize : (1 : Int) ≤ pageSize ∧ (pageSize : Int) ≤ MAX_CONTEXT_PAGE_SIZE := by
    rw [MAX_CONTEXT_PAGE_SIZE]
    omega
  simp [contextRequest, optionsFor, hsize]
  rfl

theorem request_later {first later : Option PrReviewFeedback} {cursor : ContextCursor} {pageSize : Nat}
    (hdecodes : decodeCursor (encodeCursor cursor) = .ok cursor)
    (hlater : ∀ f ∈ later, f = cursor.feedback) (hl : 1 ≤ pageSize) (hu : pageSize ≤ 5) :
    contextRequest (optionsFor first later (some (encodeCursor cursor)) pageSize) =
      .ok (cursor, (pageSize : Int)) := by
  have hsize : (1 : Int) ≤ pageSize ∧ (pageSize : Int) ≤ MAX_CONTEXT_PAGE_SIZE := by
    rw [MAX_CONTEXT_PAGE_SIZE]
    omega
  cases hencoded : encodeCursor cursor with
  | nil =>
    rw [hencoded] at hdecodes
    exact nomatch hdecodes
  | cons u rest =>
    rw [hencoded] at hdecodes
    refine Effects.bind_eq_ok.mpr ⟨some cursor, by simp [hdecodes, Except.map], ?_⟩
    have hagrees : (later.any fun f => !decide (f = cursor.feedback)) = false := by
      cases later with
      | none => rfl
      | some f => simp [hlater f rfl]
    simp [optionsFor, hagrees, hsize]
    rfl

theorem initial_reached (feedback : PrReviewFeedback) :
    Reached service (initialCursor feedback) fun category =>
      if selected feedback category.feedback then some (service category).items else none := by
  have hstart : ∀ category, (service category).At ⟨false, none⟩ (some (service category).items) := by
    intro category
    have hat := Pagination.At.going (p := service category) .start
    rwa [(service category).start, List.drop_zero] at hat
  intro category
  have hof : (initialCursor feedback).of category = initialConnection feedback category.feedback := by
    cases category <;> rfl
  rw [hof, initialConnection]
  cases hs : selected feedback category.feedback with
  | true =>
    simp only [hs, if_true]
    exact .selected (hstart category)
  | false =>
    simp only [hs]
    exact .unselected

theorem initial_more (feedback : PrReviewFeedback) :
    ∃ category : Category, selected feedback category.feedback = true := by
  cases feedback with
  | all | conversation => exact ⟨.conversation, rfl⟩
  | reviews => exact ⟨.reviews, rfl⟩
  | inline => exact ⟨.inline, rfl⟩

-- -----
-- The chain of pages
-- -----

/-- What the pages from here on have of each category, and their cursors. -/
structure Chain (left : Left) (pages : List PullRequestContextPage) : Prop where
  drains : ∀ category, Drains (left category) (pages.map (·.of category))
  decodes : ∀ page ∈ pages, ∀ c, page.nextCursor = some c →
    ∃ state, encodeCursor state = c ∧ decodeCursor c = .ok state

theorem PageRead.chain_last {cursor next : ContextCursor} {left left' : Left}
    {page : PullRequestContextPage} (h : PageRead service cursor left page next left')
    (hmore : hasMore next = false) : page.nextCursor = none ∧ Chain left [page] := by
  have hnone : page.nextCursor = none := by rw [h.nextCursor, hmore]; rfl
  refine ⟨hnone, fun category => (h.advances category).drains [] ?_, ?_⟩
  · have hleft : left' category = none := by
      by_contra hne
      exact Bool.noConfusion (hmore.symm.trans ((hasMore_left h.reached).mpr ⟨category, hne⟩))
    rw [hleft]
    exact .finished fun _ hmem => nomatch hmem
  · intro other hmem c hc
    rw [List.mem_singleton.mp hmem, hnone] at hc
    cases hc

theorem PageRead.chain_more {cursor next : ContextCursor} {left left' : Left}
    {page : PullRequestContextPage} (h : PageRead service cursor left page next left')
    (hmore : hasMore next = true) (hdecodes : decodeCursor (encodeCursor next) = .ok next)
    {pages : List PullRequestContextPage} (hchain : Chain left' pages) : Chain left (page :: pages) := by
  refine ⟨fun category => (h.advances category).drains _ (hchain.drains category),
    List.forall_mem_cons.mpr ⟨fun c hc => ?_, hchain.decodes⟩⟩
  rw [h.nextCursor, if_pos hmore] at hc
  obtain rfl := Option.some.inj hc
  exact ⟨next, rfl, hdecodes⟩

theorem execEffect_ok {exec : Str → List Str → Option ExecResult} {command : Str} {args : List Str}
    {cursor : ContextCursor} {pageSize : Nat} {result : ExecResult} {fields : JsonRecord}
    (failureDetail : Str) (hexec : exec command args = some result)
    (h : Answers service cursor pageSize result fields) :
    execEffect exec command args failureDetail = .ok result := by
  simp [execEffect, hexec, h.killed, h.code]

/-- A cursor that goes on with what is left. -/
structure Resumes (service : Category → Pagination) (first later : Option PrReviewFeedback)
    (cursor : Option Str) (left : Left) : Prop where
  more : ∃ category, left category ≠ none
  reached : ∃ state, state.feedback = first.getD .all ∧ Reached service state left ∧
    ∀ pageSize : Nat, 1 ≤ pageSize → pageSize ≤ 5 →
      contextRequest (optionsFor first later cursor pageSize) = .ok (state, (pageSize : Int))

end

/-- A comment, and a review that has no comments in the code. -/
def fewItems : Category → Pagination
  | .conversation => ⟨[[(lit "body", .str (lit "Thanks"))]], fun _ => 0, fun _ _ => some (lit "MQ"), rfl,
      fun _ first _ hmore => absurd hmore (by simp only [List.length_singleton]; omega)⟩
  | .reviews => ⟨[[(lit "state", .str (lit "APPROVED"))]], fun _ => 0, fun _ _ => some (lit "MQ"), rfl,
      fun _ first _ hmore => absurd hmore (by simp only [List.length_singleton]; omega)⟩
  | .inline => ⟨[], fun _ => 0, fun _ _ => none, rfl,
      fun _ first _ hmore => absurd hmore (Nat.not_lt_zero _)⟩

def fewFields : JsonRecord :=
  [(lit "comments", (fewItems .conversation).response none 5),
    (lit "reviews", (fewItems .reviews).response none 5),
    (lit "reviewThreads", (fewItems .inline).response none 5)]

def fewAnswers (_ : Str) (_ : List Str) : Option ExecResult :=
  some ⟨stringify (answered fewFields), [], 0, false⟩

theorem few_last (category : Category) (after : Option Str) {first : Nat} (h : 0 < first) :
    (fewItems category).hasNextPage after first = false := by
  cases category <;> simp [fewItems, Pagination.hasNextPage] <;> omega

theorem few_response (category : Category) (after : Option Str) {first : Nat} (h : 0 < first) :
    (fewItems category).response after first = (fewItems category).response none 5 := by
  have hpage : (fewItems category).page after first = (fewItems category).page none 5 := by
    cases category with
    | conversation | reviews => exact List.take_of_length_le h
    | inline => exact List.take_nil
  have hcursor : (fewItems category).endCursor after first = (fewItems category).endCursor none 5 := by
    cases category <;> rfl
  rw [Pagination.response, Pagination.response, hpage, hcursor, few_last category after h,
    few_last category none (by decide : 0 < 5)]

theorem plain_response (p : Pagination) (after : Option Str) (first : Nat)
    (hlength : p.items.length ≤ maxSafe) (hitems : ∀ item ∈ p.items, Plain (.obj item)) :
    Plain (p.response after first) := by
  have hcursor : Plain (((p.endCursor after first).map Json.str).getD .null) := by
    cases p.endCursor after first with
    | none => exact .null
    | some c => exact .str c
  have hnodes : Plain (.arr ((p.page after first).map Json.obj)) := by
    refine .arr fun item hitem => ?_
    obtain ⟨fields, hfields, rfl⟩ := List.mem_map.mp hitem
    exact hitems fields (List.mem_of_mem_drop (List.mem_of_mem_take hfields))
  have hinfo : Plain (.obj [(lit "hasNextPage", .bool (p.hasNextPage after first)),
      (lit "endCursor", ((p.endCursor after first).map Json.str).getD .null)]) :=
    plain_object (by simp [Plain.bool, hcursor]) (by simp; decide)
  exact plain_object (by simp [Plain.int, hlength, hinfo, hnodes]) (by simp; decide)

theorem few_serves (query : Str) (reference : Reference) :
    Serves fewItems fewAnswers query reference := by
  intro cursor left pageSize _ hl _
  have hitems : ∀ category, (fewItems category).items.length ≤ maxSafe ∧
      ∀ item ∈ (fewItems category).items, Plain (.obj item) := by
    rintro (_ | _ | _)
    · exact ⟨by decide, List.forall_mem_singleton.mpr (plain_object (by simp [Plain.str]) (by decide))⟩
    · exact ⟨by decide, List.forall_mem_singleton.mpr (plain_object (by simp [Plain.str]) (by decide))⟩
    · exact ⟨by decide, fun _ hmem => nomatch hmem⟩
  have hresponse : ∀ category, Plain ((fewItems category).response none 5) := fun category =>
    plain_response _ _ _ (hitems category).1 (hitems category).2
  have hplain : Plain (answered fewFields) := by
    refine plain_object (List.forall_mem_singleton.mpr ?_) (by decide)
    refine plain_object (List.forall_mem_singleton.mpr ?_) (by decide)
    refine plain_object (List.forall_mem_singleton.mpr ?_) (by decide)
    exact plain_object (by simp [fewFields, hresponse]) (by decide)
  refine ⟨_, fewFields, rfl, rfl, rfl, parse_stringify_self hplain, fun category c _ _ => ?_⟩
  · rw [few_response category c.after hl]
    cases category <;> rfl

def fewCursors : List (Option ConnectionCursor) := [none, some ⟨false, none⟩, some ⟨true, none⟩]

theorem few_cursors {category : Category} {cursor : Option ConnectionCursor}
    {left : Option (List JsonRecord)} (h : Stands (fewItems category) cursor left) :
    cursor ∈ fewCursors := by
  cases h with
  | unselected => simp [fewCursors]
  | selected hat =>
    cases hat with
    | ended => simp [fewCursors]
    | going hissued =>
      cases hissued with
      | start => simp [fewCursors]
      | next _ hfirst hnext _ => exact Bool.noConfusion ((few_last category _ hfirst).symm.trans hnext)

theorem few_short (cursor : ContextCursor) (left : Left) (hfeedback : cursor.feedback = .all)
    (h : Reached fewItems cursor left) : (encodeCursor cursor).length ≤ 4096 := by
  have hall : (fewCursors.all fun conversation => fewCursors.all fun reviews => fewCursors.all
      fun inline => (encodeCursor ⟨.all, conversation, reviews, inline⟩).length ≤ 4096) = true := by
    decide +kernel
  obtain ⟨feedback, conversation, reviews, inline⟩ := cursor
  obtain rfl := hfeedback
  have hconversation := List.all_eq_true.mp hall conversation (few_cursors (h .conversation))
  have hreviews := List.all_eq_true.mp hconversation reviews (few_cursors (h .reviews))
  exact of_decide_eq_true (List.all_eq_true.mp hreviews inline (few_cursors (h .inline)))

end PiEnv.Review
