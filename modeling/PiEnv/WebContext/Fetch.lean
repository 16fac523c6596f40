import PiEnv.Lib.JsonText
import PiEnv.WebContext.Entities

/-!
# Fetched text

A response is decoded and made into text, depending on the mode and on the type of its
content. The network, the parsing of URLs and the lower case of a content type are
arguments; causes of failures are their messages.
-/

namespace PiEnv.WebContext

open Js

-- -----
-- White space
-- -----

def isBlank (u : UInt16) : Bool := u == 9 || u == 32

def isPunctuation (u : UInt16) : Bool := (lit ".,;:!?").contains u

def is (c : UInt16) (u : UInt16) : Bool := u == c

def isNot (c : UInt16) (u : UInt16) : Bool := u != c

def anyUnit (_ : UInt16) : Bool := true

def normalizeWhitespace (value : Str) : Str :=
  let lines := (Pattern.all [.one (is CR), .optional (.one (is LF))]).replace
    (fun _ => [LF]) value
  let single := (Pattern.some1 isBlank).replace (fun _ => lit " ") lines
  let attached := (Pattern.all [.some1 isSpace, .group 1 (.one isPunctuation)]).replace
    (fun found => (found.group 1).getD []) single
  let trimmed := (Pattern.all [.many (is space), .one (is LF), .many (is space)]).replace
    (fun _ => [LF]) attached
  trim ((Pattern.all [.one (is LF), .one (is LF), .some1 (is LF)]).replace
    (fun _ => [LF, LF]) trimmed)

-- -----
-- Markup
-- -----

def names (words : List String) : Pattern := .oneOf (words.map fun word => .anyCase (lit word))

/-- `<tag\b[\s\S]*?</tag>` without regard to case, for any of the names. -/
def element (words : List String) : Pattern :=
  .all [.literal (lit "<"), names words, .boundary, .few anyUnit, .literal (lit "</"), names words,
    .literal (lit ">")]

def closing (words : List String) : Pattern :=
  .all [.literal (lit "</"), names words, .literal (lit ">")]

/-- `<[^>]+>` -/
def tag : Pattern := .all [.literal (lit "<"), .some1 (isNot 62), .literal (lit ">")]

def spaced (pattern : Pattern) (s : Str) : Str := pattern.replace (fun _ => lit " ") s

def broken (pattern : Pattern) (s : Str) : Str := pattern.replace (fun _ => [LF]) s

def withoutNoise (html : Str) : Str :=
  spaced (element ["header", "footer", "nav", "aside"]) <| spaced (element ["svg"]) <|
    spaced (element ["noscript"]) <| spaced (element ["style"]) <| spaced (element ["script"]) <|
    spaced (.all [.literal (lit "<!--"), .few anyUnit, .literal (lit "-->")]) html

def isHeadingLevel (upTo : UInt16) (u : UInt16) : Bool := 49 ≤ u && u ≤ upTo

/-- Text without tags, its entities still encoded. -/
def withoutTags (html : Str) : Str :=
  let blocks := broken (.all [.literal (lit "</"),
    .oneOf [names ["p", "div", "section", "article"],
      .all [.anyCase (lit "h"), .one (isHeadingLevel 54)],
      names ["li", "tr", "pre", "blockquote"]], .literal (lit ">")]) html
  let breaks := broken (.all [.anyCase (lit "<br"), .many isSpace, .optional (.literal (lit "/")),
    .many isSpace, .literal (lit ">")]) blocks
  let items := (Pattern.all [.anyCase (lit "<li"), .boundary, .many (isNot 62),
    .literal (lit ">")]).replace (fun _ => LF :: lit "- ") breaks
  spaced tag items

def withoutXmlTags (xml : Str) : Str :=
  let unwrapped := (Pattern.all [.literal (lit "<![CDATA["), .group 1 (.few anyUnit),
    .literal (lit "]]>")]).replace (fun found => (found.group 1).getD []) xml
  let entries := (closing ["item", "entry", "channel", "feed"]).replace (fun _ => [LF, LF]) unwrapped
  spaced tag (broken
    (closing ["title", "link", "description", "summary", "updated", "published"]) entries)

def htmlToPlainText (html : Str) : Except RangeError Str := do
  return normalizeWhitespace (← decodeEntities (withoutTags html))

def extractHtmlText (html : Str) : Except RangeError Str := htmlToPlainText (withoutNoise html)

def extractXmlText (xml : Str) : Except RangeError Str := do
  return normalizeWhitespace (← decodeEntities (withoutXmlTags xml))

-- -----
-- JSON
-- -----

/-- Lines between brackets, each one level deeper. -/
def block (opening close indent : Str) (items : List Str) : Str :=
  if items = [] then opening ++ close
  else opening ++ [LF] ++ join (lit "," ++ [LF]) (items.map (indent ++ lit "  " ++ ·)) ++
    [LF] ++ indent ++ close

mutual
/-- `JSON.stringify(value, null, 2)` -/
def indented (indent : Str) : Json → Str
  | .arr items => block (lit "[") (lit "]") indent (indentedItems (indent ++ lit "  ") items)
  | .obj fields => block [123] [125] indent (indentedFields (indent ++ lit "  ") fields)
  | value => stringify value

def indentedItems (indent : Str) : List Json → List Str
  | [] => []
  | item :: rest => indented indent item :: indentedItems indent rest

def indentedFields (indent : Str) : List (Str × Json) → List Str
  | [] => []
  | (key, value) :: rest =>
    (quote key ++ lit ": " ++ indented indent value) :: indentedFields indent rest
end

def compactJsonText (text : Str) : Str :=
  match parse text with
  | some value => indented [] value
  | none => normalizeWhitespace text

-- -----
-- Metadata
-- -----

def firstMatch (text : Str) (pattern : Pattern) : Option Str :=
  (pattern.matchAll text).head?.bind (·.group 1)

def isQuote (u : UInt16) : Bool := u == 34 || u == 39

def titlePattern : Pattern :=
  .all [.anyCase (lit "<title"), .many (isNot 62), .literal (lit ">"), .group 1 (.few anyUnit),
    .anyCase (lit "</title>")]

def descriptionPattern : Pattern :=
  .all [.anyCase (lit "<meta"), .some1 isSpace, .many (isNot 62), names ["name", "property"],
    .literal (lit "="), .one isQuote, names ["description", "og:description"], .one isQuote,
    .many (isNot 62), .anyCase (lit "content="), .one isQuote,
    .group 1 (.many fun u => !isQuote u), .one isQuote, .many (isNot 62), .literal (lit ">")]

def headingPattern : Pattern :=
  .all [.anyCase (lit "<h"), .group 1 (.one (isHeadingLevel 51)), .many (isNot 62),
    .literal (lit ">"), .group 2 (.few anyUnit), .anyCase (lit "</h"), .again 1, .literal (lit ">")]

def linkPattern : Pattern :=
  .all [.anyCase (lit "<a"), .some1 isSpace, .many (isNot 62), .anyCase (lit "href="),
    .one isQuote, .group 1 (.many fun u => !isQuote u), .one isQuote, .many (isNot 62),
    .literal (lit ">"), .group 2 (.few anyUnit), .anyCase (lit "</a>")]

structure Link where
  text : Str
  href : Str

/-- `map` with a function that may throw. -/
def eachOrThrow {α β ε : Type} (f : α → Except ε β) : List α → Except ε (List β)
  | [] => .ok []
  | a :: rest => do
    let b ← f a
    return b :: (← eachOrThrow f rest)

def headingLine (found : Match) : Except RangeError Str := do
  let text ← htmlToPlainText ((found.group 2).getD [])
  return List.replicate (digitsValue ((found.group 1).getD [])) 35 ++ lit " " ++ text

def linkOf (found : Match) : Except RangeError Link := do
  let href ← decodeEntities ((found.group 1).getD [])
  let text ← htmlToPlainText ((found.group 2).getD [])
  return ⟨text.take 120, href⟩

def extractLinks (html : Str) : Except RangeError (List Link) := do
  let links ← eachOrThrow linkOf (linkPattern.matchAll html)
  return links.filter fun link => link.text ≠ [] || link.href ≠ []

def linkLine (link : Link) : Str :=
  lit "- " ++ link.text ++ if link.href = [] then [] else lit " — " ++ link.href

/-- A text that is there and not empty, decoded after its lead. -/
def decodeAfter (lead : Str) : Option Str → Except RangeError Str
  | none | some [] => .ok []
  | some text => do return lead ++ (← decodeEntities text)

/-- A heading and its lines; nothing without lines. -/
def listing (heading : Str) (lines : List Str) : Str :=
  if lines = [] then [] else [LF] ++ lit "## " ++ heading ++ [LF] ++ join [LF] lines

def extractMetadata (text contentType : Str) : Except RangeError Str :=
  if !includes contentType (lit "html") then .ok (compactJsonText text)
  else do
    let title := firstMatch text titlePattern
    let description := firstMatch text descriptionPattern
    let headings ← eachOrThrow headingLine ((headingPattern.matchAll text).take 40)
    let links ← extractLinks text
    let titlePart ← decodeAfter (lit "# ") title
    let descriptionPart ← decodeAfter [] description
    let parts := [titlePart, descriptionPart, listing (lit "Headings") headings,
      listing (lit "Links") ((links.take 80).map linkLine)]
    return join [LF, LF] (parts.filter (· ≠ []))

-- -----
-- The transformation
-- -----

inductive WebFetchMode where
  | raw | text | metadata
  deriving DecidableEq, Repr

def isXml (lowerContentType : Str) : Bool :=
  includes lowerContentType (lit "xml") || includes lowerContentType (lit "rss") ||
    includes lowerContentType (lit "atom")

def transformFetchedBodyText (text lowerContentType : Str) : Except RangeError Str :=
  if includes lowerContentType (lit "html") then extractHtmlText text
  else if isXml lowerContentType then extractXmlText text
  else if includes lowerContentType (lit "json") then .ok (compactJsonText text)
  else .ok (normalizeWhitespace text)

def transformFetchedText (toLowerCase : Str → Str) (text : Str) (contentType : Option Str)
    (mode : WebFetchMode) : Except RangeError Str :=
  let lowerContentType := (contentType.map toLowerCase).getD []
  match mode with
  | .raw => .ok text
  | .metadata => extractMetadata text lowerContentType
  | .text => transformFetchedBodyText text lowerContentType

-- -----
-- Fetching
-- -----

inductive WebFetchFailureKind where
  | url | request | body
  deriving DecidableEq, Repr

structure WebFetchFailure where
  kind : WebFetchFailureKind
  url : Str
  message : Str
  deriving DecidableEq, Repr

structure WebFetchResult where
  text : Str
  url : Str
  status : Nat
  contentType : Option Str
  truncated : Bool
  mode : WebFetchMode
  rawBytes : Nat
  outputBytes : Number

/-- How an effect ends: with a value, a typed failure or a defect. -/
inductive Exit (α : Type) where
  | success (value : α)
  | failure (error : WebFetchFailure)
  | die (thrown : RangeError)

structure Url where
  protocol : Str
  text : Str

structure WebFetchResponse where
  contentType : Option Str
  status : Nat
  url : Str
  /-- The bytes of the body, or why they could not be read. -/
  body : Except Str Utf8.Bytes

structure World where
  newUrl : Str → Except Str Url
  fetch : Url → Except Str WebFetchResponse
  toLowerCase : Str → Str

def webFetchFailure (kind : WebFetchFailureKind) (url cause : Str) : WebFetchFailure :=
  let label := match kind with
    | .url => lit "Invalid web URL"
    | .request => lit "Web fetch request failed"
    | .body => lit "Web fetch body read failed"
  ⟨kind, url, label ++ lit ": " ++ cause⟩

def World.parseWebUrl (world : World) (rawUrl : Str) : Except Str Url :=
  match world.newUrl rawUrl with
  | .error cause => .error cause
  | .ok url =>
    if url.protocol = lit "http:" ∨ url.protocol = lit "https:" then .ok url
    else .error (lit "Unsupported URL protocol: " ++ url.protocol)

/-- `new TextDecoder("utf-8").decode(bytes)`, which takes a byte order mark away. -/
def decodeBody (bytes : Utf8.Bytes) : Str :=
  match Utf8.decode bytes with
  | 0xFEFF :: rest => rest
  | text => text

/-- The characters of a text, surrogate pairs in one piece. -/
def characters : Str → List Str
  | [] => []
  | [u] => [[u]]
  | u :: v :: rest =>
    if isHighSurrogate u && isLowSurrogate v then [u, v] :: characters rest
    else [u] :: characters (v :: rest)

def truncateLoop (maxBytes : Number) : List Str → Nat → Str
  | [], _ => []
  | char :: rest, used =>
    let length := (Utf8.encode char).length
    if exceeds (used + length : Nat) maxBytes then []
    else char ++ truncateLoop maxBytes rest (used + length)

def truncateUtf8 (text : Str) (maxBytes : Number) : Str :=
  if atMost (Utf8.encode text).length maxBytes then text
  else truncateLoop maxBytes (characters text) 0

structure WebFetchOptions where
  maxBytes : Option Number
  mode : Option WebFetchMode

/-- The bytes that may be returned. -/
def WebFetchOptions.limit (options : WebFetchOptions) : Number :=
  maxNumber (.finite 1) (minNumber (options.maxBytes.getD (.finite 100000)) (.finite 1000000))

def fetchWebTextEffect (world : World) (rawUrl : Str) (options : WebFetchOptions) :
    Exit WebFetchResult :=
  let mode := options.mode.getD .text
  match world.parseWebUrl rawUrl with
  | .error cause => .failure (webFetchFailure .url rawUrl cause)
  | .ok url =>
    match world.fetch url with
    | .error cause => .failure (webFetchFailure .request url.text cause)
    | .ok response =>
      match response.body with
      | .error cause => .failure (webFetchFailure .body url.text cause)
      | .ok bytes =>
        match transformFetchedText world.toLowerCase (decodeBody bytes) response.contentType mode with
        | .error thrown => .die thrown
        | .ok transformed =>
          let limit := options.limit
          let encoded := (Utf8.encode transformed).length
          .success
            { text := truncateUtf8 transformed limit
              url := response.url
              status := response.status
              contentType := response.contentType
              truncated := exceeds encoded limit
              mode := mode
              rawBytes := bytes.length
              outputBytes := minNumber (.finite encoded) limit }

-- -----
-- What is handed to the decoder
-- -----

def maxCodePoint : Nat := 0x10FFFF

def hexCode (found : Match) : Nat := hexNumber ((found.group 1).getD [])

def decimalCode (found : Match) : Nat := digitsValue ((found.group 1).getD [])

/-- What the decimal references are looked for in. -/
def withoutHex (value : Str) : Str :=
  hexReference.replace (fun found => Utf8.scalarUnits (hexCode found)) value

/-- No reference the decoder comes to is beyond the code points. -/
def InRange (value : Str) : Prop :=
  let named := decodeNamed (replaceText (lit "&amp;") (lit "&")
    (replaceText (lit "&nbsp;") (lit " ") value))
  (∀ found ∈ hexReference.matchAll named, hexCode found ≤ maxCodePoint) ∧
    ∀ found ∈ decimalReference.matchAll (withoutHex named), decimalCode found ≤ maxCodePoint

def present : Option Str → List Str
  | none | some [] => []
  | some text => [text]

/-- The texts of a page that are handed to the decoder. -/
def decodedTexts (text lowerContentType : Str) : WebFetchMode → List Str
  | .raw => []
  | .text =>
    if includes lowerContentType (lit "html") then [withoutTags (withoutNoise text)]
    else if isXml lowerContentType then [withoutXmlTags text]
    else []
  | .metadata =>
    if includes lowerContentType (lit "html") then
      ((headingPattern.matchAll text).take 40).map
          (fun found => withoutTags ((found.group 2).getD [])) ++
        (linkPattern.matchAll text).flatMap (fun found =>
          [(found.group 1).getD [], withoutTags ((found.group 2).getD [])]) ++
        present (firstMatch text titlePattern) ++ present (firstMatch text descriptionPattern)
    else []

theorem mem_matchAll {pattern : Pattern} {s : Str} {found : Match} :
    found ∈ pattern.matchAll s ↔ Sum.inr found ∈ pattern.scan 0 none s := by
  simp [Pattern.matchAll]

theorem fromCodePoint_isOk (n : Nat) : (∃ out, fromCodePoint n = .ok out) ↔ n ≤ maxCodePoint := by
  unfold fromCodePoint maxCodePoint
  split <;> simp_all

/-- Replacements that all return are those of a function. -/
theorem replaceParts_eq {replacement : Match → Except RangeError Str} {f : Match → Str}
    {parts : List (UInt16 ⊕ Match)}
    (h : ∀ found, Sum.inr found ∈ parts → replacement found = .ok (f found)) :
    Pattern.replaceParts replacement parts = .ok (parts.flatMap (Sum.elim ([·]) f)) := by
  induction parts with
  | nil => rfl
  | cons part rest ih =>
    have hrest := ih fun found hmem => h found (List.mem_cons_of_mem _ hmem)
    cases part with
    | inl u => rw [Pattern.replaceParts_inl, hrest]; rfl
    | inr found =>
      rw [Pattern.replaceParts, h found List.mem_cons_self, hrest]
      rfl

theorem decodeNumeric_isOk (value : Str) : (∃ out, decodeNumeric value = .ok out) ↔
    (∀ found ∈ hexReference.matchAll value, hexCode found ≤ maxCodePoint) ∧
      ∀ found ∈ decimalReference.matchAll (withoutHex value), decimalCode found ≤ maxCodePoint := by
  by_cases hhex : ∀ found ∈ hexReference.matchAll value, hexCode found ≤ maxCodePoint
  · have hfirst : hexReference.replaceOrThrow decodeHex value = .ok (withoutHex value) :=
      replaceParts_eq fun found hmem => if_pos (hhex found (mem_matchAll.mpr hmem))
    have hsecond : (∃ out, decimalReference.replaceOrThrow decodeDecimal (withoutHex value) =
        .ok out) ↔ ∀ found ∈ decimalReference.matchAll (withoutHex value),
          decimalCode found ≤ maxCodePoint := by
      refine Pattern.replaceParts_isOk.trans ?_
      simp only [← mem_matchAll, decodeDecimal, fromCodePoint_isOk]
      rfl
    rw [decodeNumeric, hfirst]
    exact hsecond.trans (and_iff_right hhex).symm
  · refine iff_of_false ?_ fun h => hhex h.1
    rintro ⟨out, hout⟩
    unfold decodeNumeric at hout
    cases hfirst : hexReference.replaceOrThrow decodeHex value with
    | error thrown =>
      rw [hfirst] at hout
      cases hout
    | ok middle =>
      refine hhex fun found hmem => (fromCodePoint_isOk _).mp ?_
      exact Pattern.replaceParts_isOk.mp ⟨middle, hfirst⟩ found (mem_matchAll.mp hmem)

theorem decodeEntities_isOk (value : Str) :
    (∃ out, decodeEntities value = .ok out) ↔ InRange value :=
  decodeNumeric_isOk _

-- -----
-- When the transformation returns
-- -----

section
variable {α β γ ε : Type}

theorem bind_isOk {first : Except ε α} {next : α → Except ε β} {P : Prop}
    (h : ∀ a, first = .ok a → ((∃ b, next a = .ok b) ↔ P)) :
    (∃ b, (first >>= next) = .ok b) ↔ (∃ a, first = .ok a) ∧ P := by
  cases first with
  | error thrown => simp [bind, Except.bind]
  | ok a =>
    have hnext := h a rfl
    simpa [bind, Except.bind] using hnext

theorem eachOrThrow_isOk {f : α → Except ε β} {values : List α} :
    (∃ out, eachOrThrow f values = .ok out) ↔ ∀ a ∈ values, ∃ b, f a = .ok b := by
  induction values with
  | nil => simp [eachOrThrow]
  | cons a rest ih =>
    rw [eachOrThrow, List.forall_mem_cons]
    refine bind_isOk fun b _ => (bind_isOk fun tail _ => ?_).trans ((and_true _).to_iff.trans ih)
    exact iff_of_true ⟨_, rfl⟩ trivial

end

theorem htmlToPlainText_isOk (html : Str) :
    (∃ out, htmlToPlainText html = .ok out) ↔ InRange (withoutTags html) := by
  refine (bind_isOk fun text _ => iff_of_true ⟨_, rfl⟩ trivial).trans ?_
  rw [and_true, decodeEntities_isOk]

theorem extractXmlText_isOk (xml : Str) :
    (∃ out, extractXmlText xml = .ok out) ↔ InRange (withoutXmlTags xml) := by
  refine (bind_isOk fun text _ => iff_of_true ⟨_, rfl⟩ trivial).trans ?_
  rw [and_true, decodeEntities_isOk]

theorem headingLine_isOk (found : Match) : (∃ out, headingLine found = .ok out) ↔
    InRange (withoutTags ((found.group 2).getD [])) := by
  refine (bind_isOk fun text _ => iff_of_true ⟨_, rfl⟩ trivial).trans ?_
  rw [and_true, htmlToPlainText_isOk]

theorem linkOf_isOk (found : Match) : (∃ out, linkOf found = .ok out) ↔
    InRange ((found.group 1).getD []) ∧ InRange (withoutTags ((found.group 2).getD [])) := by
  rw [← decodeEntities_isOk, ← htmlToPlainText_isOk]
  refine bind_isOk fun href _ => ?_
  exact (bind_isOk fun text _ => iff_of_true ⟨_, rfl⟩ trivial).trans (and_true _).to_iff

theorem extractLinks_isOk (html : Str) : (∃ out, extractLinks html = .ok out) ↔
    ∀ found ∈ linkPattern.matchAll html,
      InRange ((found.group 1).getD []) ∧ InRange (withoutTags ((found.group 2).getD [])) := by
  refine (bind_isOk fun text _ => iff_of_true ⟨_, rfl⟩ trivial).trans ?_
  simp only [and_true, eachOrThrow_isOk, linkOf_isOk]

theorem decodeAfter_isOk (lead : Str) (text : Option Str) :
    (∃ out, decodeAfter lead text = .ok out) ↔ ∀ value ∈ present text, InRange value := by
  unfold decodeAfter present
  split
  · simp
  · simp
  · refine (bind_isOk fun text _ => iff_of_true ⟨_, rfl⟩ trivial).trans ?_
    simp [decodeEntities_isOk]

theorem extractMetadata_isOk (text lowerContentType : Str) :
    (∃ out, extractMetadata text lowerContentType = .ok out) ↔
      ∀ value ∈ decodedTexts text lowerContentType .metadata, InRange value := by
  unfold extractMetadata decodedTexts
  cases includes lowerContentType (lit "html") with
  | false => simp
  | true =>
    simp only [Bool.not_true, Bool.false_eq_true, if_false, if_true]
    refine (bind_isOk fun headings _ => bind_isOk fun links _ => bind_isOk fun titlePart _ =>
      bind_isOk fun descriptionPart _ => iff_of_true ⟨_, rfl⟩ trivial).trans ?_
    simp only [eachOrThrow_isOk, headingLine_isOk, extractLinks_isOk, decodeAfter_isOk, and_true,
      List.forall_mem_append, List.forall_mem_map, List.forall_mem_flatMap, List.forall_mem_cons,
      List.not_mem_nil, false_imp_iff, forall_const, and_assoc]

/-- The transformation returns a text when all references it comes to are code points. -/
theorem transformFetchedText_isOk (toLowerCase : Str → Str) (text : Str)
    (contentType : Option Str) (mode : WebFetchMode) :
    (∃ out, transformFetchedText toLowerCase text contentType mode = .ok out) ↔
      ∀ value ∈ decodedTexts text ((contentType.map toLowerCase).getD []) mode, InRange value := by
  generalize hlower : (contentType.map toLowerCase).getD [] = lower
  simp only [transformFetchedText, hlower]
  cases mode with
  | raw => simp [decodedTexts]
  | metadata => exact extractMetadata_isOk text lower
  | text =>
    simp only [transformFetchedBodyText, decodedTexts]
    split
    · simp [extractHtmlText, htmlToPlainText_isOk]
    · split
      · simp [extractXmlText_isOk]
      · split <;> simp

-- -----
-- How the effect ends
-- -----

/-- The effect ends with a text, or with a typed failure for what failed outside. -/
def EndsWell (world : World) (rawUrl : Str) : Exit WebFetchResult → Prop
  | .success _ => True
  | .failure error =>
    match error.kind with
    | .url => ∃ cause, world.parseWebUrl rawUrl = .error cause
    | .request => ∃ url cause, world.parseWebUrl rawUrl = .ok url ∧ world.fetch url = .error cause
    | .body => ∃ url response cause, world.parseWebUrl rawUrl = .ok url ∧
        world.fetch url = .ok response ∧ response.body = .error cause
  | .die _ => False

/-- The effect ends well exactly when every page it gets is one whose references are
code points. -/
theorem fetch_endsWell (world : World) (rawUrl : Str) (options : WebFetchOptions) :
    EndsWell world rawUrl (fetchWebTextEffect world rawUrl options) ↔
      ∀ url response bytes, world.parseWebUrl rawUrl = .ok url → world.fetch url = .ok response →
        response.body = .ok bytes →
        ∀ value ∈ decodedTexts (decodeBody bytes)
          ((response.contentType.map world.toLowerCase).getD []) (options.mode.getD .text),
          InRange value := by
  unfold fetchWebTextEffect
  cases hurl : world.parseWebUrl rawUrl with
  | error cause => exact iff_of_true ⟨cause, hurl⟩ fun url response bytes h => by cases h
  | ok url =>
    cases hfetch : world.fetch url with
    | error cause =>
      dsimp only
      rw [hfetch]
      refine iff_of_true ⟨url, cause, hurl, hfetch⟩ ?_
      intro url' response bytes hsame hresponse
      obtain rfl := Except.ok.inj hsame
      cases hfetch.symm.trans hresponse
    | ok response =>
      cases hbody : response.body with
      | error cause =>
        dsimp only
        rw [hfetch]
        dsimp only
        rw [hbody]
        refine iff_of_true ⟨url, response, cause, hurl, hfetch, hbody⟩ ?_
        intro url' other bytes hsame hresponse hbytes
        obtain rfl := Except.ok.inj hsame
        cases hfetch.symm.trans hresponse
        cases hbody.symm.trans hbytes
      | ok bytes =>
        have hpage : (∃ out, transformFetchedText world.toLowerCase (decodeBody bytes)
            response.contentType (options.mode.getD .text) = .ok out) ↔
            ∀ url' response' bytes', (.ok url : Except Str Url) = .ok url' →
              world.fetch url' = .ok response' → response'.body = .ok bytes' → ∀ value ∈ decodedTexts (decodeBody bytes')
                ((response'.contentType.map world.toLowerCase).getD []) (options.mode.getD .text),
                InRange value := by
          rw [transformFetchedText_isOk]
          constructor
          · intro h url' other bytes' hsame hresponse hbytes
            obtain rfl := Except.ok.inj hsame
            cases hfetch.symm.trans hresponse
            cases hbody.symm.trans hbytes
            exact h
          · intro h
            exact h url response bytes rfl hfetch hbody
        rw [← hpage]
        simp only [hfetch, hbody]
        cases htransform : transformFetchedText world.toLowerCase (decodeBody bytes)
            response.contentType (options.mode.getD .text) with
        | error thrown => simp [EndsWell]
        | ok transformed => simp [EndsWell]

/-- A server whose page refers to the code point after the last. -/
def badReference : World where
  newUrl rawUrl := .ok ⟨lit "https:", rawUrl⟩
  fetch url := .ok ⟨some (lit "text/html"), 200, url.text, .ok (Utf8.encode (lit "&#x110000;"))⟩
  toLowerCase := id

theorem dies_badReference :
    fetchWebTextEffect badReference (lit "https://example.com/") ⟨none, none⟩ =
        .die .invalidCodePoint ∧
      ¬ EndsWell badReference (lit "https://example.com/") (.die .invalidCodePoint) := by
  have hthrows : transformFetchedText id (decodeBody (Utf8.encode (lit "&#x110000;")))
      (some (lit "text/html")) .text = .error .invalidCodePoint := by
    decide +kernel
  refine ⟨?_, id⟩
  have hurl : badReference.parseWebUrl (lit "https://example.com/") =
      .ok ⟨lit "https:", lit "https://example.com/"⟩ := rfl
  simp only [fetchWebTextEffect, hurl]
  simp only [badReference, Option.getD_none, hthrows]

end PiEnv.WebContext
