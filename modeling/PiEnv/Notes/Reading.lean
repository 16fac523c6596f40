import PiEnv.Lib.Splitting
import PiEnv.Notes.Items

/-!
# Reading a note line by line

The reader of a section as a machine over the lines of the note: the fence
that is open, and whether the section is still to come, being read, or behind.
-/

namespace PiEnv.Notes

open Js

inductive Place where
  | before | inside | behind
  deriving DecidableEq, Repr

/-- What the reader of a section knows at a line. -/
structure Reading where
  fence : Option Fence
  place : Place
  deriving DecidableEq, Repr

namespace Reading

def start : Reading := ⟨none, .before⟩

def nextFence (fence : Option Fence) (line : Str) : Option Fence :=
  match fence with
  | some fence => if isClosingFence line fence then none else some fence
  | none => openingFence line

/-- The line is text, and no fence. -/
def shows (fence : Option Fence) (line : Str) : Bool := fence.isNone && (openingFence line).isNone

def nextPlace (heading : Heading) (place : Place) (line : Str) (visible : Bool) : Place :=
  match place with
  | .before => if visible && trimEnd line == lit "## " ++ heading.text then .inside else .before
  | .inside => if visible && startsLevelTwo line then .behind else .inside
  | .behind => .behind

def next (heading : Heading) (reading : Reading) (line : Str) : Reading :=
  ⟨nextFence reading.fence line, nextPlace heading reading.place line (shows reading.fence line)⟩

/-- The reader behind these lines. -/
def after (heading : Heading) (reading : Reading) (lines : List Str) : Reading :=
  lines.foldl (next heading) reading

/-- The lines of the section that are still to come, and which of them show. -/
def body (heading : Heading) : Reading → List Str → List (Str × Bool)
  | _, [] => []
  | reading, line :: rest =>
    match reading.place with
    | .before => body heading (next heading reading line) rest
    | .inside =>
      if shows reading.fence line && startsLevelTwo line then []
      else (line, shows reading.fence line) :: body heading (next heading reading line) rest
    | .behind => []

end Reading

open Reading

section
variable (heading : Heading) (kind : Option InboxItemKind) (date sourcePath : Str)

/-- The item of a line, with the lines behind it. -/
def itemAt (reading : Reading) (index : Nat) (line : Str) (rest : List Str) : Option ParsedItem :=
  if reading.place = .inside ∧ shows reading.fence line = true then
    (parseListItem line kind).map fun (text, checked) =>
      ⟨⟨date, text, collectNestedDetails (body heading (next heading reading line) rest), sourcePath,
        index + 1⟩, checked⟩
  else none

def readItems : Reading → Nat → List Str → List ParsedItem
  | _, _, [] => []
  | reading, index, line :: rest =>
    (itemAt heading kind date sourcePath reading index line rest).toList ++
      readItems (next heading reading line) (index + 1) rest
end

-- -----
-- The machine and the section bounds
-- -----

theorem visibleFrom_cons (fence : Option Fence) (line : Str) (rest : List Str) :
    visibleFrom fence (line :: rest) =
      shows fence line :: visibleFrom (nextFence fence line) rest := by
  cases fence with
  | some fence => simp [visibleFrom, shows, nextFence]
  | none => cases h : openingFence line <;> simp [visibleFrom, shows, nextFence, h]

/-- The lines from here on, and which of them show. -/
def marked (fence : Option Fence) (lines : List Str) : List (Str × Bool) :=
  lines.zip (visibleFrom fence lines)

theorem marked_cons (fence : Option Fence) (line : Str) (rest : List Str) :
    marked fence (line :: rest) = (line, shows fence line) :: marked (nextFence fence line) rest := by
  simp [marked, visibleFrom_cons]

theorem length_marked (fence : Option Fence) (lines : List Str) :
    (marked fence lines).length = lines.length := by
  induction lines generalizing fence with
  | nil => rfl
  | cons line rest ih => simp [marked_cons, ih]

/-- How many lines a section has left. -/
def sectionLength (marked : List (Str × Bool)) : Nat :=
  (marked.findIdx? fun (line, visible) => visible && startsLevelTwo line).getD marked.length

theorem sectionLength_cons (line : Str) (visible : Bool) (rest : List (Str × Bool)) :
    sectionLength ((line, visible) :: rest) =
      if visible && startsLevelTwo line then 0 else sectionLength rest + 1 := by
  unfold sectionLength
  rw [List.findIdx?_cons]
  by_cases h : (visible && startsLevelTwo line) = true
  · simp [h]
  · rw [if_neg h]
    cases rest.findIdx? fun (line, visible) => visible && startsLevelTwo line <;> simp [h]

section
variable {heading : Heading} {kind : Option InboxItemKind} {date sourcePath : Str}

theorem body_behind (fence : Option Fence) (lines : List Str) :
    body heading ⟨fence, .behind⟩ lines = [] := by
  cases lines <;> rfl

theorem readItems_behind (fence : Option Fence) (index : Nat) (lines : List Str) :
    readItems heading kind date sourcePath ⟨fence, .behind⟩ index lines = [] := by
  induction lines generalizing fence index with
  | nil => rfl
  | cons line rest ih => simpa [readItems, itemAt, next, nextPlace] using ih _ _

theorem body_inside (fence : Option Fence) (lines : List Str) :
    body heading ⟨fence, .inside⟩ lines =
      (marked fence lines).take (sectionLength (marked fence lines)) := by
  induction lines generalizing fence with
  | nil => rfl
  | cons line rest ih =>
    rw [marked_cons, sectionLength_cons, body]
    by_cases h : (shows fence line && startsLevelTwo line) = true
    · simp [h]
    · simp [h, next, nextPlace, ih]

theorem parse_levelTwo {line : Str} (h : startsLevelTwo line = true) :
    parseListItem line kind = none := by
  unfold startsLevelTwo at h
  split at h
  · cases kind with
    | none => rfl
    | some kind => cases kind <;> rfl
  · cases kind with
    | none => rfl
    | some kind => cases kind <;> rfl
  · simp at h

/-- A heading of level two is no item, and what follows it is behind the section. -/
theorem readItems_heading {fence : Option Fence} {line : Str}
    (h : (shows fence line && startsLevelTwo line) = true) (index : Nat) (rest : List Str) :
    readItems heading kind date sourcePath ⟨fence, .inside⟩ index (line :: rest) = [] := by
  obtain ⟨hs, hl⟩ := Bool.and_eq_true_iff.mp h
  simp [readItems, itemAt, next, nextPlace, hs, hl, parse_levelTwo, readItems_behind]

theorem itemsFrom_cons (index : Nat) (line : Str) (visible : Bool) (rest : List (Str × Bool)) :
    itemsFrom kind date sourcePath index ((line, visible) :: rest) =
      (if visible = true then
        ((parseListItem line kind).map fun (text, checked) =>
          (⟨⟨date, text, collectNestedDetails rest, sourcePath, index + 1⟩, checked⟩ : ParsedItem)).toList
      else []) ++ itemsFrom kind date sourcePath (index + 1) rest := by
  cases visible with
  | false => simp [itemsFrom]
  | true => cases h : parseListItem line kind <;> simp [itemsFrom, h]

theorem readItems_inside (fence : Option Fence) (index : Nat) (lines : List Str) :
    readItems heading kind date sourcePath ⟨fence, .inside⟩ index lines =
      itemsFrom kind date sourcePath index
        ((marked fence lines).take (sectionLength (marked fence lines))) := by
  induction lines generalizing fence index with
  | nil => rfl
  | cons line rest ih =>
    rw [marked_cons, sectionLength_cons]
    by_cases h : (shows fence line && startsLevelTwo line) = true
    · rw [readItems_heading h, if_pos h]
      rfl
    · have hnext : next heading ⟨fence, .inside⟩ line = ⟨nextFence fence line, .inside⟩ := by
        simp [next, nextPlace, h]
      rw [if_neg h, List.take_succ_cons, itemsFrom_cons, readItems, hnext, ih, itemAt, hnext,
        body_inside]
      cases shows fence line <;> simp

theorem readItems_before (fence : Option Fence) (index : Nat) (lines : List Str) :
    readItems heading kind date sourcePath ⟨fence, .before⟩ index lines =
      match (marked fence lines).findIdx? (fun (line, visible) =>
        visible && trimEnd line == lit "## " ++ heading.text) with
      | none => []
      | some k => itemsFrom kind date sourcePath (index + k + 1)
          (((marked fence lines).drop (k + 1)).take
            (sectionLength ((marked fence lines).drop (k + 1)))) := by
  induction lines generalizing fence index with
  | nil => rfl
  | cons line rest ih =>
    rw [marked_cons, List.findIdx?_cons]
    by_cases h : (shows fence line && trimEnd line == lit "## " ++ heading.text) = true
    · simp [h, readItems, itemAt, next, nextPlace, readItems_inside]
    · rw [if_neg h]
      have hnext : next heading ⟨fence, .before⟩ line = ⟨nextFence fence line, .before⟩ := by
        simp [next, nextPlace, h]
      rw [readItems, hnext, ih]
      simp only [itemAt, reduceCtorEq, false_and, ↓reduceIte, Option.toList_none, List.nil_append]
      cases (marked (nextFence fence line) rest).findIdx? fun (line, visible) =>
          visible && trimEnd line == lit "## " ++ heading.text with
      | none => rfl
      | some k =>
        have hindex : index + 1 + k + 1 = index + (k + 1) + 1 := by omega
        simp [hindex]

/-- The extractor is the machine. -/
theorem extractListItems_eq (content : Str) :
    extractListItems content heading kind date sourcePath =
      readItems heading kind date sourcePath start 0 (splitLines content) := by
  have hm : (splitLines content).zip (visibleMarkdownLines (splitLines content)) =
      marked none (splitLines content) := rfl
  rw [start, readItems_before]
  simp only [extractListItems, sectionBounds, hm]
  cases (marked none (splitLines content)).findIdx? fun (line, visible) =>
      visible && trimEnd line == lit "## " ++ heading.text with
  | none => rfl
  | some k =>
    simp only [Nat.zero_add, sectionLength, List.length_drop, length_marked]
    cases ((marked none (splitLines content)).drop (k + 1)).findIdx? fun (line, visible) =>
        visible && startsLevelTwo line with
    | none => rfl
    | some e =>
      have hlen : k + e + 1 - (k + 1) = e := by omega
      simp [hlen]

-- -----
-- Items and their lines
-- -----

theorem after_append (reading : Reading) (xs ys : List Str) :
    after heading reading (xs ++ ys) = after heading (after heading reading xs) ys :=
  List.foldl_append

theorem after_cons (reading : Reading) (line : Str) (rest : List Str) :
    after heading reading (line :: rest) = after heading (next heading reading line) rest := rfl

/-- Every item is that of one line, read as the lines before it leave the reader. -/
theorem mem_readItems {reading : Reading} {index : Nat} {lines : List Str} {parsed : ParsedItem} :
    parsed ∈ readItems heading kind date sourcePath reading index lines ↔
      ∃ front line back, lines = front ++ line :: back ∧
        itemAt heading kind date sourcePath (after heading reading front) (index + front.length) line
          back = some parsed := by
  induction lines generalizing reading index with
  | nil => simp [readItems]
  | cons line rest ih =>
    rw [readItems, List.mem_append, Option.mem_toList, ih]
    constructor
    · rintro (h | ⟨front, item, back, rfl, h⟩)
      · exact ⟨[], line, rest, rfl, h⟩
      · refine ⟨line :: front, item, back, rfl, ?_⟩
        rw [after_cons, List.length_cons, ← h]
        congr 1
        omega
    · rintro ⟨front, item, back, he, h⟩
      cases front with
      | nil =>
        obtain ⟨rfl, rfl⟩ := List.cons.inj he
        exact .inl h
      | cons first front =>
        obtain ⟨rfl, rfl⟩ := List.cons.inj he
        refine .inr ⟨front, item, back, rfl, ?_⟩
        rw [after_cons, List.length_cons] at h
        rw [← h]
        congr 1
        omega

theorem itemAt_eq_some {reading : Reading} {index : Nat} {line : Str} {rest : List Str}
    {parsed : ParsedItem} :
    itemAt heading kind date sourcePath reading index line rest = some parsed ↔
      reading.place = .inside ∧ shows reading.fence line = true ∧
      ∃ text checked, parseListItem line kind = some (text, checked) ∧
        parsed = ⟨⟨date, text, collectNestedDetails (body heading (next heading reading line) rest),
          sourcePath, index + 1⟩, checked⟩ := by
  unfold itemAt
  split
  · rename_i h
    simp only [h, true_and, Option.map_eq_some_iff, Prod.exists]
    exact ⟨fun ⟨a, b, hp, he⟩ => ⟨a, b, hp, he.symm⟩, fun ⟨a, b, hp, he⟩ => ⟨a, b, hp, he.symm⟩⟩
  · rename_i h
    simp only [reduceCtorEq, false_iff]
    exact fun ⟨hp, hs, _⟩ => h ⟨hp, hs⟩

/-- The item on a line that is known. -/
theorem mem_readItems_line {reading : Reading} {index : Nat} {front back : List Str} {line : Str}
    {parsed : ParsedItem} (hp : parsed.item.position = index + front.length + 1) :
    parsed ∈ readItems heading kind date sourcePath reading index (front ++ line :: back) ↔
      itemAt heading kind date sourcePath (after heading reading front) (index + front.length) line
        back = some parsed := by
  rw [mem_readItems]
  constructor
  · rintro ⟨front', line', back', he, h⟩
    obtain ⟨-, -, text, checked, -, hparsed⟩ := itemAt_eq_some.mp h
    have hlen : front.length = front'.length := by
      rw [hparsed] at hp
      simp only at hp
      omega
    obtain ⟨rfl, htail⟩ := List.append_inj he hlen
    obtain ⟨rfl, rfl⟩ := List.cons.inj htail
    exact h
  · exact fun h => ⟨front, line, back, rfl, h⟩
end

end PiEnv.Notes
