import Mathlib.Algebra.Order.Ring.Unbundled.Rat
import PiEnv.Lib.JsString

/-!
# JSON values

What `JSON.parse` returns. A number is the exact rational value of a double, or
one of the values a double may have besides.
-/

namespace Js

inductive Number where
  | finite (value : Rat)
  | infinite (negative : Bool)
  | nan
  deriving DecidableEq, Repr

/-- `Number.isInteger(n)`, with the integer. -/
def Number.integer? : Number → Option Int
  | .finite value => if value.den = 1 then some value.num else none
  | _ => none

def Number.ofInt (n : Int) : Number := .finite n

@[simp] theorem Number.integer?_ofInt (n : Int) : (Number.ofInt n).integer? = some n := rfl

/-- `Math.max(a, b)` -/
def maxNumber : Number → Number → Number
  | .nan, _ => .nan
  | _, .nan => .nan
  | .infinite false, _ => .infinite false
  | _, .infinite false => .infinite false
  | .infinite true, b => b
  | a, .infinite true => a
  | .finite a, .finite b => .finite (max a b)

/-- `Math.min(a, b)` -/
def minNumber : Number → Number → Number
  | .nan, _ => .nan
  | _, .nan => .nan
  | .infinite true, _ => .infinite true
  | _, .infinite true => .infinite true
  | .infinite false, b => b
  | a, .infinite false => a
  | .finite a, .finite b => .finite (min a b)

/-- `value <= bound` -/
def atMost (value : Rat) : Number → Bool
  | .finite bound => value ≤ bound
  | .infinite negative => !negative
  | .nan => false

/-- `value > bound` -/
def exceeds (value : Rat) : Number → Bool
  | .finite bound => bound < value
  | .infinite negative => negative
  | .nan => false

/-- `value >= bound` -/
def reaches (value : Rat) : Number → Bool
  | .finite bound => bound ≤ value
  | .infinite negative => negative
  | .nan => false

/-- `value < bound` -/
def below (value : Rat) : Number → Bool
  | .finite bound => value < bound
  | .infinite negative => !negative
  | .nan => false

theorem atMost_finite {value bound : Rat} : atMost value (.finite bound) = true ↔ value ≤ bound :=
  decide_eq_true_iff

theorem exceeds_finite {value bound : Rat} : exceeds value (.finite bound) = true ↔ bound < value :=
  decide_eq_true_iff

inductive Json where
  | null
  | bool (value : Bool)
  | num (value : Number)
  | str (value : Str)
  | arr (items : List Json)
  | obj (fields : List (Str × Json))
  deriving Repr

/-- `value[key]` of a record; `none` stands for undefined. -/
def field (fields : List (Str × Json)) (key : Str) : Option Json := fields.lookup key

-- -----
-- Strings
-- -----

def hexDigit (n : Nat) : UInt16 := UInt16.ofNat (if n < 10 then 48 + n else 87 + n)

/-- `\uXXXX` in lower case. -/
def unicodeEscape (u : UInt16) : Str :=
  let n := u.toNat
  [92, 117, hexDigit (n / 0x1000), hexDigit (n / 0x100 % 0x10), hexDigit (n / 0x10 % 0x10),
    hexDigit (n % 0x10)]

/-- One unit of a string that is not half of a surrogate pair. -/
def escapeUnit (u : UInt16) : Str :=
  match u with
  | 34 => [92, 34]
  | 92 => [92, 92]
  | 8 => [92, 98]
  | 9 => [92, 116]
  | 10 => [92, 110]
  | 12 => [92, 102]
  | 13 => [92, 114]
  | u =>
    if u < 0x20 || isHighSurrogate u || isLowSurrogate u then unicodeEscape u else [u]

def escapeUnits : Str → Str
  | [] => []
  | [u] => escapeUnit u
  | u :: v :: rest =>
    if isHighSurrogate u && isLowSurrogate v then u :: v :: escapeUnits rest
    else escapeUnit u ++ escapeUnits (v :: rest)

/-- `JSON.stringify(s)` of a string. -/
def quote (s : Str) : Str := 34 :: escapeUnits s ++ [34]

end Js
