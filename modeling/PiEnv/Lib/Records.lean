import PiEnv.Lib.Json

/-!
# Strict records

Decoders of values into records: an object has the properties of its record and no
others, one that is optional may be absent.
-/

namespace Js.Records

variable {α β : Type}

abbrev Decoder (α : Type) := Json → Option α

def string : Decoder Str
  | .str text => some text
  | _ => none

def number : Decoder Number
  | .num value => some value
  | _ => none

/-- One given text. -/
def literal (text : Str) : Decoder Unit
  | .str found => if found = text then some () else none
  | _ => none

def literalTrue : Decoder Unit
  | .bool true => some ()
  | _ => none

/-- One given number. -/
def literalNumber (number : Number) : Decoder Unit
  | .num found => if found = number then some () else none
  | _ => none

/-- The first of the members that takes the value. -/
def union (first second : Decoder α) : Decoder α := fun value => (first value).or (second value)

def array (decoder : Decoder α) : Decoder (List α)
  | .arr items => items.mapM decoder
  | _ => none

def required (decoder : Decoder α) (key : Str) (fields : List (Str × Json)) : Option α :=
  (field fields key).bind decoder

def optional (decoder : Decoder α) (key : Str) (fields : List (Str × Json)) : Option (Option α) :=
  match field fields key with
  | none => some none
  | some value => (decoder value).map some

/-- An object with these properties and no others. -/
def struct (keys : List Str) (read : List (Str × Json) → Option α) : Decoder α
  | .obj fields => if fields.all (keys.contains ·.1) then read fields else none
  | _ => none

/-- An array is read item by item. -/
theorem array_map {f : β → Json} {decoder : Decoder β} (hdecoder : ∀ b, decoder (f b) = some b)
    (items : List β) : array decoder (.arr (items.map f)) = some items := by
  show (items.map f).mapM decoder = some items
  induction items with
  | nil => rfl
  | cons b items ih =>
    rw [List.map_cons, List.mapM_cons, hdecoder, ih]
    rfl

end Js.Records
