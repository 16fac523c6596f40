import PiEnv.Lib.PackedJson
import PiEnv.Notes.CollectionPolicy

/-!
# Continuation cursors

A cursor is the text of a JSON object in base64: the collection and the scope
it belongs to, and a position in it.
-/

namespace PiEnv.Notes

open Js

def textField (fields : List (Str × Json)) (key : Str) : Option Str :=
  match field fields key with
  | some (.str value) => some value
  | _ => none

def numberField (fields : List (Str × Json)) (key : Str) : Option Number :=
  match field fields key with
  | some (.num value) => some value
  | _ => none

-- -----
-- Cursors of collections
-- -----

inductive Collection where
  | inbox | projects | worklog | wiki
  deriving DecidableEq, Repr

def Collection.text : Collection → Str
  | .inbox => lit "inbox"
  | .projects => lit "projects"
  | .worklog => lit "worklog"
  | .wiki => lit "wiki"

structure CursorPosition where
  offset : Nat
  location : Option Str
  deriving DecidableEq, Repr

def cursorPayload (collection : Collection) (scope : Str) (offset : Nat) (location : Option Str) :
    List (Str × Json) :=
  [(lit "v", .num (.ofInt 1)), (lit "collection", .str collection.text),
    (lit "scope", .str scope), (lit "offset", .num (.ofInt offset))] ++
    match location with
    | none => []
    | some location => [(lit "location", .str location)]

def encodeCursor (collection : Collection) (scope : Str) (offset : Nat) (location : Option Str) :
    Str :=
  packJson (.obj (cursorPayload collection scope offset location))

/-- `Number.isSafeInteger(n) && n >= 0` -/
def safeOffset (n : Number) : Option Nat :=
  match n.integer? with
  | some n => if 0 ≤ n ∧ n.natAbs < maxSafe then some n.natAbs else none
  | none => none

def invalidCursor : NotesError :=
  invalidSelector (lit "Invalid or mismatched notes continuation cursor.")

/-- The position in a payload of this collection and scope. -/
def cursorPosition (payload : List (Str × Json)) (collection : Collection) (scope : Str) :
    Option CursorPosition := do
  guard (numberField payload (lit "v") = some (.ofInt 1))
  guard (textField payload (lit "collection") = some collection.text)
  guard (textField payload (lit "scope") = some scope)
  let offset ← safeOffset (← numberField payload (lit "offset"))
  match field payload (lit "location") with
  | none => return ⟨offset, none⟩
  | some (.str location) => return ⟨offset, some location⟩
  | some _ => none

def decodeCursor (cursor : Option Str) (collection : Collection) (scope : Str) :
    Except NotesError CursorPosition :=
  match cursor with
  | none => .ok ⟨0, none⟩
  | some cursor =>
    match unpackJson cursor with
    | some (.obj payload) =>
      match cursorPosition payload collection scope with
      | some position => .ok position
      | none => .error invalidCursor
    | _ => .error invalidCursor

theorem Collection.text_inj {c c' : Collection} (h : c.text = c'.text) : c = c' := by
  cases c <;> cases c' <;> first | rfl | exact absurd h (by decide)

theorem safeOffset_ofInt {n : Nat} (h : n < maxSafe) : safeOffset (.ofInt n) = some n := by
  have hnat : ((n : Int)).natAbs = n := rfl
  simp [safeOffset, hnat, h]

theorem plain_cursorPayload {offset : Nat} (h : offset < maxSafe) (collection : Collection)
    (scope : Str) (location : Option Str) :
    Js.Plain (.obj (cursorPayload collection scope offset location)) := by
  have hone : Js.Plain (.num (.ofInt 1)) := .int (by decide)
  have hoffset : Js.Plain (.num (.ofInt offset)) := .int (by simpa using h.le)
  apply Js.Plain.obj
  · cases location <;> simp [cursorPayload, hone, hoffset, Js.Plain.str]
  · apply fromEntries_self
    · cases location <;> simp [cursorPayload] <;> decide
    · cases location <;> simp [cursorPayload] <;> decide

section
variable (collection : Collection) (scope : Str) (offset : Nat) (location : Option Str)

theorem cursorPayload_v : numberField (cursorPayload collection scope offset location) (lit "v") =
    some (.ofInt 1) := rfl

theorem cursorPayload_collection :
    textField (cursorPayload collection scope offset location) (lit "collection") =
      some collection.text := rfl

theorem cursorPayload_scope :
    textField (cursorPayload collection scope offset location) (lit "scope") = some scope := rfl

theorem cursorPayload_offset :
    numberField (cursorPayload collection scope offset location) (lit "offset") =
      some (.ofInt offset) := rfl

theorem cursorPayload_location :
    field (cursorPayload collection scope offset location) (lit "location") =
      location.map .str := by
  cases location <;> rfl
end

theorem cursorPosition_payload {offset : Nat} (h : offset < maxSafe)
    (collection collection' : Collection) (scope scope' : Str) (location : Option Str) :
    cursorPosition (cursorPayload collection scope offset location) collection' scope' =
      if collection = collection' ∧ scope = scope' then some ⟨offset, location⟩ else none := by
  unfold cursorPosition
  rw [cursorPayload_v, cursorPayload_collection, cursorPayload_scope, cursorPayload_offset,
    cursorPayload_location]
  by_cases hc : collection = collection'
  · by_cases hs : scope = scope'
    · cases location <;> simp [hc, hs, safeOffset_ofInt h]
    · simp [hc, hs]
  · have htext : collection.text ≠ collection'.text := fun he => hc (Collection.text_inj he)
    simp [hc, htext]

/-- A cursor gives its position back, where its collection and scope are asked
for, and nowhere else. -/
theorem decodeCursor_encodeCursor {offset : Nat} (h : offset < maxSafe)
    (collection collection' : Collection) (scope scope' : Str) (location : Option Str) :
    decodeCursor (some (encodeCursor collection scope offset location)) collection' scope' =
      if collection = collection' ∧ scope = scope' then .ok ⟨offset, location⟩
      else .error invalidCursor := by
  have hunpack : unpackJson (encodeCursor collection scope offset location) =
      some (.obj (cursorPayload collection scope offset location)) :=
    unpackJson_packJson (plain_cursorPayload h collection scope location)
  simp only [decodeCursor, hunpack, cursorPosition_payload h]
  split_ifs <;> rfl

end PiEnv.Notes
