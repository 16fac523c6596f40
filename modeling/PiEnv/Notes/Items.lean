import Mathlib.Data.List.Sort
import PiEnv.Lib.JsonText
import PiEnv.Notes.CollectionPolicy

/-!
# The items of day notes

What a section of a day note lists, and the JSON of each item.
-/

namespace PiEnv.Notes

open Js

structure WorklogItem where
  date : Str
  text : Str
  nestedDetails : List Str
  sourcePath : Str
  position : Nat
  deriving DecidableEq, Repr

structure InboxItem extends WorklogItem where
  kind : InboxItemKind
  checked : Option Bool
  deriving DecidableEq, Repr

def WorklogItem.fields (item : WorklogItem) : List (Str × Json) :=
  [(lit "date", .str item.date), (lit "text", .str item.text),
    (lit "nestedDetails", .arr (item.nestedDetails.map .str)),
    (lit "sourcePath", .str item.sourcePath), (lit "position", .num (.ofInt item.position))]

def WorklogItem.toJson (item : WorklogItem) : Json := .obj item.fields

def kindText : InboxItemKind → Str
  | .note => lit "note"
  | .followup => lit "followup"

def InboxItem.toJson (item : InboxItem) : Json :=
  .obj (item.fields ++ [(lit "kind", .str (kindText item.kind))] ++
    match item.checked with
    | none => []
    | some checked => [(lit "checked", .bool checked)])

-- -----
-- Lines
-- -----

/-- `\s+(.*)$`: what follows the white space. -/
def afterSpace (rest : Str) : Option Str :=
  match rest with
  | u :: _ =>
    let text := rest.dropWhile isSpace
    if isSpace u && !text.any isLineTerminator then some text else none
  | [] => none

/-- The groups of `/^- \[([ xX])\](?:\s+(.*))?$/`. -/
def matchFollowup (line : Str) : Option (UInt16 × Option Str) :=
  match line with
  | 45 :: 32 :: 91 :: mark :: 93 :: rest =>
    if mark == 32 || mark == 120 || mark == 88 then
      if rest = [] then some (mark, none) else (afterSpace rest).map fun text => (mark, some text)
    else none
  | _ => none

/-- The group of `/^-\s+(.*)$/`. -/
def matchBullet (line : Str) : Option Str :=
  match line with
  | 45 :: rest => afterSpace rest
  | _ => none

/-- `none` is a Worklog item. -/
def parseListItem (line : Str) (kind : Option InboxItemKind) : Option (Str × Option Bool) :=
  let followup := matchFollowup line
  if kind = some .followup then
    match followup with
    | some (mark, text) =>
      let text := trim (text.getD [])
      if text = [] then none else some (text, some (mark == 120 || mark == 88))
    | none => none
  else if followup ≠ none then none
  else
    let text := trim ((matchBullet line).getD [])
    if text = [] then none else some (text, none)

/-- `/^-\s/` -/
def startsItem (line : Str) : Bool :=
  match line with
  | 45 :: u :: _ => isSpace u
  | _ => false

/-- `/^[ \t]+\S/` -/
def isDetail (line : Str) : Bool :=
  match line with
  | u :: _ =>
    (u == 32 || u == 9) &&
      match line.dropWhile (fun u => u == 32 || u == 9) with
      | v :: _ => !isSpace v
      | [] => false
  | [] => false

def collectNestedDetails : List (Str × Bool) → List Str
  | [] => []
  | (line, visible) :: rest =>
    if visible && startsItem line then []
    else if !visible then collectNestedDetails rest
    else if isDetail line then trim line :: collectNestedDetails rest
    else if trim line = [] then collectNestedDetails rest
    else []

-- -----
-- Sections
-- -----

/-- An item before it is told what kind it is. -/
structure ParsedItem where
  item : WorklogItem
  checked : Option Bool

def itemsFrom (kind : Option InboxItemKind) (date sourcePath : Str) :
    Nat → List (Str × Bool) → List ParsedItem
  | _, [] => []
  | index, (line, visible) :: rest =>
    match visible, parseListItem line kind with
    | true, some (text, checked) =>
      ⟨⟨date, text, collectNestedDetails rest, sourcePath, index + 1⟩, checked⟩ ::
        itemsFrom kind date sourcePath (index + 1) rest
    | _, _ => itemsFrom kind date sourcePath (index + 1) rest

def extractListItems (content : Str) (heading : Heading) (kind : Option InboxItemKind)
    (date sourcePath : Str) : List ParsedItem :=
  let lines := splitLines content
  match sectionBounds lines heading with
  | none => []
  | some bounds =>
    let marked := lines.zip (visibleMarkdownLines lines)
    itemsFrom kind date sourcePath bounds.start
      ((marked.drop bounds.start).take (bounds.stop - bounds.start))

def extractWorklogItems (content date sourcePath : Str) : List WorklogItem :=
  (extractListItems content .worklog none date sourcePath).map (·.item)

def inboxItemsOf (content : Str) (heading : Heading) (kind : InboxItemKind)
    (date sourcePath : Str) : List InboxItem :=
  (extractListItems content heading (some kind) date sourcePath).map fun parsed =>
    ⟨parsed.item, kind, parsed.checked⟩

def extractInboxItems (content date sourcePath : Str) : List InboxItem :=
  (inboxItemsOf content .followUps .followup date sourcePath ++
    inboxItemsOf content .notes .note date sourcePath).mergeSort
      fun left right => left.position ≤ right.position

-- -----
-- How many items there are
-- -----

theorem length_itemsFrom (kind : Option InboxItemKind) (date sourcePath : Str) (index : Nat)
    (marked : List (Str × Bool)) :
    (itemsFrom kind date sourcePath index marked).length ≤ marked.length := by
  induction marked generalizing index with
  | nil => simp [itemsFrom]
  | cons entry rest ih =>
    obtain ⟨line, visible⟩ := entry
    have hrest := ih (index + 1)
    unfold itemsFrom
    split
    · simpa using hrest
    · simp only [List.length_cons]
      omega

theorem length_splitLinesAux (acc s : Str) : (splitLinesAux acc s).length ≤ s.length + 1 := by
  fun_induction splitLinesAux acc s <;> simp_all <;> omega

theorem length_extractListItems (content : Str) (heading : Heading) (kind : Option InboxItemKind)
    (date sourcePath : Str) :
    (extractListItems content heading kind date sourcePath).length ≤ byteLength content + 1 := by
  simp only [extractListItems]
  split
  · simp
  · have hitems := length_itemsFrom kind date sourcePath
    have hlines : (splitLines content).length ≤ content.length + 1 := length_splitLinesAux [] content
    have hbytes := length_le_byteLength content
    refine (hitems _ _).trans ?_
    simp only [List.length_take, List.length_drop, List.length_zip]
    omega

end PiEnv.Notes
