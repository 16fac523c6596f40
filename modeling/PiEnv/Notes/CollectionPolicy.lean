import PiEnv.Notes.Domain

/-!
# Day notes and their sections

Dates and paths of day notes, the Markdown lines a reader sees, the bounds of
a level-two section, and the append of one item to it.
-/

namespace PiEnv.Notes

open Js

def invalidSelector (message : Str) : NotesError := .provider .invalidPath message

-- -----
-- Dates and paths
-- -----

/-- The local calendar date of a `Date`, its month counted from one. -/
structure CalendarDate where
  year : Int
  month : Nat
  day : Nat
  deriving DecidableEq, Repr

def localDate (now : CalendarDate) : Str :=
  let year := padStart 4 48 (decimalInt now.year)
  let month := padStart 2 48 (decimal now.month)
  let day := padStart 2 48 (decimal now.day)
  year ++ lit "-" ++ month ++ lit "-" ++ day

/-- The groups of `/^(\d{4})-(\d{2})-(\d{2})$/`. -/
def matchIsoDate : Str → Option (Str × Str × Str)
  | [y₁, y₂, y₃, y₄, 45, m₁, m₂, 45, d₁, d₂] =>
    if [y₁, y₂, y₃, y₄, m₁, m₂, d₁, d₂].all isDigit then
      some ([y₁, y₂, y₃, y₄], [m₁, m₂], [d₁, d₂])
    else none
  | _ => none

def daysInMonth (year month : Nat) : Nat :=
  let leap := year % 4 = 0 && (year % 100 ≠ 0 || year % 400 = 0)
  [31, if leap then 29 else 28, 31, 30, 31, 30, 31, 31, 30, 31, 30, 31].getD (month - 1) 0

def requireIsoDate (value : Str) : Except NotesError Str :=
  match matchIsoDate value with
  | none => .error (invalidSelector (lit "Invalid ISO date: " ++ value))
  | some (y, m, d) =>
    let year := digitsValue y
    let month := digitsValue m
    let day := digitsValue d
    if month ≤ 0 ∨ month > 12 ∨ day ≤ 0 ∨ day > daysInMonth year month then
      .error (invalidSelector (lit "Invalid ISO date: " ++ value))
    else .ok value

/-- A destructured element in a template literal. -/
def part (parts : List Str) (index : Nat) : Str := parts.getD index (lit "undefined")

def inboxPath (date : Str) : Except NotesError Str := do
  let parts := split (lit "-") (← requireIsoDate date)
  return lit "inbox/" ++ part parts 0 ++ part parts 1 ++ part parts 2 ++ lit ".md"

def recordPath (date : Str) : Except NotesError Str := do
  let parts := split (lit "-") (← requireIsoDate date)
  return lit "records/" ++ part parts 0 ++ lit "/" ++ part parts 1 ++ lit "/" ++ part parts 2 ++
    lit ".md"

-- -----
-- Visible lines and section bounds
-- -----

structure Fence where
  character : UInt16
  length : Nat
  deriving DecidableEq, Repr

def backtick : UInt16 := 96
def tilde : UInt16 := 126

/-- A line after at most three spaces: the run of backticks or tildes that
starts there, and what follows it. -/
def fenceRun (line : Str) : Option (UInt16 × Nat × Str) :=
  let rest := line.dropWhile (· == space)
  if line.length - rest.length > 3 then none
  else
    match rest with
    | [] => none
    | c :: _ =>
      if c == backtick || c == tilde then
        let run := (rest.takeWhile (· == c)).length
        some (c, run, rest.drop run)
      else none

/-- The fence a line opens: `/^ {0,3}(`{3,}|~{3,})(.*)$/`, and no backtick in
the info string of a backtick fence. -/
def openingFence (line : Str) : Option Fence :=
  match fenceRun line with
  | some (c, run, info) =>
    if 3 ≤ run && !info.any isLineTerminator && (c == tilde || !info.contains backtick) then
      some ⟨c, run⟩
    else none
  | none => none

def isClosingFence (line : Str) (fence : Fence) : Bool :=
  match fenceRun line with
  | some (c, run, rest) => rest.all isSpace && c == fence.character && fence.length ≤ run
  | none => false

def visibleFrom : Option Fence → List Str → List Bool
  | _, [] => []
  | some fence, line :: rest =>
    false :: visibleFrom (if isClosingFence line fence then none else some fence) rest
  | none, line :: rest =>
    match openingFence line with
    | some fence => false :: visibleFrom (some fence) rest
    | none => true :: visibleFrom none rest

def visibleMarkdownLines (lines : List Str) : List Bool := visibleFrom none lines

inductive Heading where
  | followUps | notes | worklog
  deriving DecidableEq, Repr

def Heading.text : Heading → Str
  | .followUps => lit "Follow-ups"
  | .notes => lit "Notes"
  | .worklog => lit "Worklog"

/-- `/^##(?:\s|$)/` -/
def startsLevelTwo (line : Str) : Bool :=
  match line with
  | 35 :: 35 :: [] => true
  | 35 :: 35 :: u :: _ => isSpace u
  | _ => false

structure Bounds where
  start : Nat
  stop : Nat
  deriving DecidableEq, Repr

def sectionBounds (lines : List Str) (heading : Heading) : Option Bounds :=
  let marked := lines.zip (visibleMarkdownLines lines)
  let header := lit "## " ++ heading.text
  match marked.findIdx? (fun (line, visible) => visible && trimEnd line == header) with
  | none => none
  | some headingIndex =>
    let rest := marked.drop (headingIndex + 1)
    match rest.findIdx? (fun (line, visible) => visible && startsLevelTwo line) with
    | none => some ⟨headingIndex + 1, lines.length⟩
    | some relativeEnd => some ⟨headingIndex + 1, headingIndex + relativeEnd + 1⟩

-- -----
-- Appending an item
-- -----

def normalizeItemText (text : Str) : Except NotesError Str :=
  let normalized := trim text
  if normalized.isEmpty then .error (invalidSelector (lit "Note item text must not be empty."))
  else .ok normalized

def CRLF : Str := [CR, LF]

/-- `content.includes("\r\n") ? "\r\n" : "\n"` -/
def newlineOf (content : Str) : Str := if includes content CRLF then CRLF else [LF]

def marker : Heading → Str
  | .followUps => lit "- [ ] "
  | _ => lit "- "

def blankItem : Heading → Str
  | .followUps => lit "- [ ]"
  | _ => lit "-"

/-- The placeholder of a section: `/^- \[ \]\s*$/` or `/^-\s*$/`. -/
def isPlaceholder (heading : Heading) (line : Str) : Bool :=
  (blankItem heading).isPrefixOf line && (line.drop (blankItem heading).length).all isSpace

/-- The first visible placeholder of a section. -/
def placeholderIndex (lines : List Str) (heading : Heading) (bounds : Bounds) : Option Nat :=
  let visible := visibleMarkdownLines lines
  (List.range' bounds.start (bounds.stop - bounds.start)).find? fun index =>
    visible.getD index false && isPlaceholder heading (lines.getD index [])

/-- Back from the end of a section over its blank lines. -/
def insertPosition (lines : List Str) (start : Nat) : Nat → Nat
  | 0 => 0
  | n + 1 =>
    if start < n + 1 && (trim (lines.getD n [])).isEmpty then insertPosition lines start n
    else n + 1

def bulletOf (heading : Heading) (newline normalizedText : Str) : Str :=
  marker heading ++ join (newline ++ lit "  ") (splitLines normalizedText)

def appendSectionItem (content : Str) (heading : Heading) (text : Str) :
    Except NotesError Str := do
  let newline := newlineOf content
  let normalizedText ← normalizeItemText text
  let bullet := bulletOf heading newline normalizedText
  let lines := split newline content
  match sectionBounds lines heading with
  | none =>
    let gap :=
      if content.length = 0 then []
      else if newline.isSuffixOf content then newline
      else newline ++ newline
    return content ++ gap ++ lit "## " ++ heading.text ++ newline ++ newline ++ bullet ++ newline
  | some bounds =>
    match placeholderIndex lines heading bounds with
    | some index => return join newline (lines.set index bullet)
    | none =>
      let insertAt := insertPosition lines bounds.start bounds.stop
      return join newline (lines.take insertAt ++ bullet :: lines.drop insertAt)

def newInboxNote (kind : InboxItemKind) (text : Str) : Except NotesError Str :=
  let base := lit "## Follow-ups\n\n- [ ]\n\n## Notes\n\n-\n"
  appendSectionItem base (if kind = .followup then .followUps else .notes) text

def newWorklogRecord (date text : Str) : Except NotesError Str := do
  let isoDate ← requireIsoDate date
  let normalizedText ← normalizeItemText text
  return lit "---\ntype: record\ndate: " ++ isoDate ++ lit "\n---\n# Record — " ++ date ++
    lit "\n\n## Worklog\n\n- " ++ join (lit "\n  ") (split [LF] normalizedText) ++ lit "\n"

end PiEnv.Notes
