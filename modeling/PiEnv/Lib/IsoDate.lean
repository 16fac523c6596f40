import PiEnv.Lib.JsString

/-!
# Dates as text

`new Date(ms).toISOString()` for instants since 1970, and the reading of such
text back.
-/

namespace Js

structure Civil where
  year : Nat
  month : Nat
  day : Nat
  hour : Nat
  minute : Nat
  second : Nat
  milli : Nat
  deriving DecidableEq, Repr

def isLeapYear (year : Nat) : Bool := year % 4 = 0 ∧ (year % 100 ≠ 0 ∨ year % 400 = 0)

def daysInYear (year : Nat) : Nat := if isLeapYear year then 366 else 365

def daysInMonth (year month : Nat) : Nat :=
  if month = 2 then if isLeapYear year then 29 else 28
  else if month = 4 ∨ month = 6 ∨ month = 9 ∨ month = 11 then 30
  else 31

-- -----
-- From an instant
-- -----

/-- The year of a day, and the day of that year, counted from a year's first
day. -/
def yearOf (year : Nat) : Nat → Nat → Nat × Nat
  | 0, days => (year, days)
  | bound + 1, days =>
    if days < daysInYear year then (year, days)
    else yearOf (year + 1) bound (days - daysInYear year)

/-- The month of a day of a year, and the day of that month, counted from a
month's first day. -/
def monthOf (year month : Nat) : Nat → Nat → Nat × Nat
  | 0, days => (month, days + 1)
  | bound + 1, days =>
    if days < daysInMonth year month then (month, days + 1)
    else monthOf year (month + 1) bound (days - daysInMonth year month)

def dayMs : Nat := 86400000

def civil (ms : Nat) : Civil :=
  let days := ms / dayMs
  let time := ms % dayMs
  let (year, yearDay) := yearOf 1970 days days
  let (month, day) := monthOf year 1 11 yearDay
  ⟨year, month, day, time / 3600000, time / 60000 % 60, time / 1000 % 60, time % 1000⟩

-- -----
-- Text
-- -----

def padded (width n : Nat) : Str := padStart width 48 (decimal n)

def Civil.text (c : Civil) : Str :=
  (if c.year ≤ 9999 then padded 4 c.year else lit "+" ++ padded 6 c.year) ++ lit "-" ++
    padded 2 c.month ++ lit "-" ++ padded 2 c.day ++ lit "T" ++ padded 2 c.hour ++ lit ":" ++
    padded 2 c.minute ++ lit ":" ++ padded 2 c.second ++ lit "." ++ padded 3 c.milli ++ lit "Z"

def toISOString (ms : Nat) : Str := (civil ms).text

/-- What `^\d{4}-\d\d-\d\dT\d\d:\d\d:\d\d\.\d{3}Z$` matches, by its groups. -/
def parseIso : Str → Option Civil
  | [y₁, y₂, y₃, y₄, 45, m₁, m₂, 45, d₁, d₂, 84, h₁, h₂, 58, n₁, n₂, 58, s₁, s₂, 46, f₁, f₂, f₃,
      90] =>
    if [y₁, y₂, y₃, y₄, m₁, m₂, d₁, d₂, h₁, h₂, n₁, n₂, s₁, s₂, f₁, f₂, f₃].all isDigit then
      some ⟨digitsValue [y₁, y₂, y₃, y₄], digitsValue [m₁, m₂], digitsValue [d₁, d₂],
        digitsValue [h₁, h₂], digitsValue [n₁, n₂], digitsValue [s₁, s₂],
        digitsValue [f₁, f₂, f₃]⟩
    else none
  | _ => none

/-- The fields of an instant. -/
def Civil.Valid (c : Civil) : Prop :=
  1 ≤ c.month ∧ c.month ≤ 12 ∧ 1 ≤ c.day ∧ c.day ≤ daysInMonth c.year c.month ∧ c.hour < 24 ∧
    c.minute < 60 ∧ c.second < 60

instance (c : Civil) : Decidable c.Valid := inferInstanceAs (Decidable (_ ∧ _))

/-- The text of an instant in a year of four digits: it matches, its date
exists, and the date's text is the text it was read from. -/
def isTimestamp (s : Str) : Bool :=
  match parseIso s with
  | some c => c.Valid
  | none => false

-- -----
-- Back to an instant
-- -----

def daysBeforeYear (year : Nat) : Int :=
  let y : Int := year - 1
  365 * y + y / 4 - y / 100 + y / 400 - 719162

def daysBeforeMonth (year : Nat) : Nat → Nat
  | 0 => 0
  | month + 1 => if month = 0 then 0 else daysBeforeMonth year month + daysInMonth year month

/-- The milliseconds since 1970 of an instant. -/
def Civil.instant (c : Civil) : Int :=
  (daysBeforeYear c.year + daysBeforeMonth c.year c.month + c.day - 1) * dayMs +
    c.hour * 3600000 + c.minute * 60000 + c.second * 1000 + c.milli

/-- `Date.parse(s)` of the text of an instant. -/
def dateParse (s : Str) : Option Int :=
  match parseIso s with
  | some c => if c.Valid then some c.instant else none
  | none => none

end Js
