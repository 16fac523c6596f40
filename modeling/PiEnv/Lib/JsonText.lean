import Mathlib.Algebra.Order.Floor.Defs
import Mathlib.Data.Rat.Floor
import PiEnv.Lib.Json

/-!
# The text of JSON values

`JSON.stringify` and `JSON.parse`. The parser descends with a bound on its
depth, which the length of the text suffices for.
-/

namespace Js

-- -----
-- Doubles
-- -----

def maxSafe : Nat := 2 ^ 53

/-- Half of an integer is taken to the even one. -/
def roundHalfEven (q : Rat) : Int :=
  let low := ⌊q⌋
  if q - low < 1 / 2 then low
  else if 1 / 2 < q - low then low + 1
  else if low % 2 = 0 then low else low + 1

/-- The exponent of the greatest power of two up to a positive rational. -/
def binaryExponent (q : Rat) : Int :=
  let e : Int := q.num.natAbs.log2 - q.den.log2
  if (2 : Rat) ^ e ≤ q then e else e - 1

/-- The double nearest to a rational. -/
def toDouble (q : Rat) : Number :=
  if q.den = 1 ∧ q.num.natAbs ≤ maxSafe then .finite q
  else
    let unit := (2 : Rat) ^ max (binaryExponent |q| - 52) (-1074)
    let rounded := roundHalfEven (|q| / unit) * unit
    if (2 : Rat) ^ (1024 : Nat) ≤ rounded then .infinite (q < 0)
    else .finite (if q < 0 then -rounded else rounded)

theorem toDouble_int {n : Int} (h : n.natAbs ≤ maxSafe) : toDouble n = .ofInt n := by
  simp [toDouble, h, Number.ofInt]

/-- `n + 1` -/
def Number.succ : Number → Number
  | .finite value => toDouble (value + 1)
  | value => value

-- -----
-- Printing
-- -----

/-- The fewest digits that give the double back, and the exponent of the first:
of two that do, the nearer. -/
def shortestDigits (q : Rat) (exponent : Int) (count : Nat) : Nat → Nat × Int
  | 0 => (0, 0)
  | bound + 1 =>
    let scale := (10 : Rat) ^ (exponent + 1 - count)
    let near := roundHalfEven (q / scale)
    let far := if near = ⌊q / scale⌋ then near + 1 else near - 1
    match [near, far].find? fun digits : Int => toDouble ((digits : Rat) * scale) == .finite q with
    | some digits =>
      if digits = 10 ^ count then (10 ^ (count - 1), exponent + 1) else (digits.natAbs, exponent)
    | none => shortestDigits q exponent (count + 1) bound

def decimalExponent (q : Rat) : Int :=
  if 1 ≤ q then (decimal ⌊q⌋.natAbs).length - 1
  else -((decimal ⌊1 / q⌋.natAbs).length : Int) +
    if (10 : Rat) ^ (((decimal ⌊1 / q⌋.natAbs).length : Nat) - 1) * q = 1 then 1 else 0

/-- `Number::toString` of a positive double: its digits, with a point or an
exponent where they are due. -/
def positiveText (q : Rat) : Str :=
  let (value, e) := shortestDigits q (decimalExponent q) 1 17
  let digits := decimal value
  let n := e + 1
  let k : Int := digits.length
  if k ≤ n ∧ n ≤ 21 then digits ++ List.replicate (n - k).toNat 48
  else if 0 < n ∧ n ≤ 21 then digits.take n.toNat ++ lit "." ++ digits.drop n.toNat
  else if -6 < n ∧ n ≤ 0 then lit "0." ++ List.replicate (-n).toNat 48 ++ digits
  else
    let exponent := lit "e" ++ (if 0 ≤ e then lit "+" else lit "-") ++ decimal e.natAbs
    match digits with
    | [digit] => digit :: exponent
    | digit :: rest => digit :: lit "." ++ rest ++ exponent
    | [] => exponent

def Number.text : Number → Str
  | .finite q =>
    if q.den = 1 ∧ q.num.natAbs ≤ maxSafe then decimalInt q.num
    else if q < 0 then 45 :: positiveText (-q) else positiveText q
  | _ => lit "null"

mutual
def stringify : Json → Str
  | .null => lit "null"
  | .bool true => lit "true"
  | .bool false => lit "false"
  | .num value => value.text
  | .str value => quote value
  | .arr items => 91 :: stringifyItems items ++ [93]
  | .obj fields => 123 :: stringifyFields fields ++ [125]

def stringifyItems : List Json → Str
  | [] => []
  | [item] => stringify item
  | item :: rest => stringify item ++ 44 :: stringifyItems rest

def stringifyFields : List (Str × Json) → Str
  | [] => []
  | [(key, value)] => quote key ++ 58 :: stringify value
  | (key, value) :: rest => quote key ++ 58 :: stringify value ++ 44 :: stringifyFields rest
end

-- -----
-- Objects
-- -----

/-- The integer of a key that is an array index, which comes before other
keys. -/
def arrayIndex (key : Str) : Option Nat :=
  let n := digitsValue key
  if decimal n = key ∧ n < 2 ^ 32 - 1 then some n else none

/-- Whether an index key goes before a key. -/
def precedes (index : Nat) (key : Str) : Bool :=
  match arrayIndex key with
  | some other => index < other
  | none => true

def insertField (fields : List (Str × Json)) (entry : Str × Json) : List (Str × Json) :=
  if fields.any (·.1 == entry.1) then
    fields.map fun other => if other.1 == entry.1 then entry else other
  else
    match arrayIndex entry.1 with
    | none => fields ++ [entry]
    | some index =>
      fields.takeWhile (!precedes index ·.1) ++ entry :: fields.dropWhile (!precedes index ·.1)

/-- The object that gets these entries one after another. -/
def fromEntries (entries : List (Str × Json)) : List (Str × Json) := entries.foldl insertField []

theorem fromEntries_self {entries : List (Str × Json)} (h : (entries.map (·.1)).Nodup)
    (hi : ∀ key ∈ entries.map (·.1), arrayIndex key = none) : fromEntries entries = entries := by
  induction entries using List.reverseRecOn with
  | nil => rfl
  | append_singleton entries entry ih =>
    rw [List.map_append, List.nodup_append] at h
    obtain ⟨hn, -, hd⟩ := h
    have hrest := ih hn fun key hkey => hi key (by simp_all)
    have hnew : entries.any (·.1 == entry.1) = false := by
      rw [List.any_eq_false]
      intro other ho he
      exact hd _ (List.mem_map_of_mem ho) entry.1 (by simp) (by simpa using he)
    have hnone : arrayIndex entry.1 = none := hi entry.1 (by simp)
    unfold fromEntries at *
    rw [List.foldl_append, hrest]
    simp [insertField, hnew, hnone]

-- -----
-- Parsing
-- -----

def isJsonSpace (u : UInt16) : Bool := u == 32 || u == 9 || u == 10 || u == 13

def skipSpace (s : Str) : Str := s.dropWhile isJsonSpace

def hexValue (u : UInt16) : Option Nat :=
  if 48 ≤ u && u ≤ 57 then some (u.toNat - 48)
  else if 97 ≤ u && u ≤ 102 then some (u.toNat - 87)
  else if 65 ≤ u && u ≤ 70 then some (u.toNat - 55)
  else none

def hexUnit (a b c d : UInt16) : Option UInt16 := do
  return UInt16.ofNat
    (0x1000 * (← hexValue a) + 0x100 * (← hexValue b) + 0x10 * (← hexValue c) + (← hexValue d))

/-- What a backslash and this unit stand for. -/
def unescape (u : UInt16) : Option UInt16 :=
  match u with
  | 34 => some 34
  | 92 => some 92
  | 47 => some 47
  | 98 => some 8
  | 102 => some 12
  | 110 => some 10
  | 114 => some 13
  | 116 => some 9
  | _ => none

/-- The rest of a string after its opening quote. -/
def parseString : Str → Option (Str × Str)
  | [] => none
  | 34 :: rest => some ([], rest)
  | 92 :: 117 :: a :: b :: c :: d :: rest => do
    let unit ← hexUnit a b c d
    let (value, after) ← parseString rest
    return (unit :: value, after)
  | 92 :: u :: rest => do
    let unit ← unescape u
    let (value, after) ← parseString rest
    return (unit :: value, after)
  | u :: rest =>
    if u < 32 || u == 92 then none
    else do
      let (value, after) ← parseString rest
      return (u :: value, after)

/-- An integer without leading zeros. -/
def parseInteger (s : Str) : Option (Nat × Str) :=
  match s.span isDigit with
  | ([], _) => none
  | (48 :: _ :: _, _) => none
  | (digits, rest) => some (digitsValue digits, rest)

/-- `.` and digits: their value, and how many they are. -/
def parseFraction (s : Str) : Option ((Nat × Nat) × Str) :=
  match s with
  | 46 :: rest =>
    match rest.span isDigit with
    | ([], _) => none
    | (digits, rest) => some ((digitsValue digits, digits.length), rest)
  | _ => some ((0, 0), s)

def parseExponentDigits (negative : Bool) (s : Str) : Option (Int × Str) :=
  match s.span isDigit with
  | ([], _) => none
  | (digits, rest) => some (if negative then -digitsValue digits else digitsValue digits, rest)

def parseExponent (s : Str) : Option (Int × Str) :=
  match s with
  | u :: rest =>
    if u == 101 || u == 69 then
      match rest with
      | 43 :: rest => parseExponentDigits false rest
      | 45 :: rest => parseExponentDigits true rest
      | _ => parseExponentDigits false rest
    else some (0, s)
  | [] => some (0, s)

def parseMagnitude (s : Str) : Option (Rat × Str) := do
  let (whole, s) ← parseInteger s
  let ((part, count), s) ← parseFraction s
  let (exponent, s) ← parseExponent s
  return ((whole + part / (10 : Rat) ^ count) * (10 : Rat) ^ exponent, s)

def parseNumber (s : Str) : Option (Number × Str) :=
  match s with
  | 45 :: rest => do
    let (value, rest) ← parseMagnitude rest
    return (toDouble (-value), rest)
  | _ => do
    let (value, rest) ← parseMagnitude s
    return (toDouble value, rest)

/-- The items of an array after its bracket, for a parser of values. -/
def parseItems (value : Str → Option (Json × Str)) : Nat → Str → Option (List Json × Str)
  | 0, _ => none
  | bound + 1, s => do
    let (item, s) ← value s
    match skipSpace s with
    | 93 :: rest => return ([item], rest)
    | 44 :: rest => do
      let (items, rest) ← parseItems value bound rest
      return (item :: items, rest)
    | _ => none

def parseField (value : Str → Option (Json × Str)) (s : Str) : Option ((Str × Json) × Str) :=
  match skipSpace s with
  | 34 :: rest => do
    let (key, rest) ← parseString rest
    match skipSpace rest with
    | 58 :: rest => do
      let (item, rest) ← value rest
      return ((key, item), rest)
    | _ => none
  | _ => none

def parseFields (value : Str → Option (Json × Str)) : Nat → Str → Option (List (Str × Json) × Str)
  | 0, _ => none
  | bound + 1, s => do
    let (entry, s) ← parseField value s
    match skipSpace s with
    | 125 :: rest => return ([entry], rest)
    | 44 :: rest => do
      let (entries, rest) ← parseFields value bound rest
      return (entry :: entries, rest)
    | _ => none

def parseWord (word : Str) (value : Json) (s : Str) : Option (Json × Str) :=
  if word.isPrefixOf s then some (value, s.drop word.length) else none

def parseArray (value : Str → Option (Json × Str)) (bound : Nat) (s : Str) : Option (Json × Str) :=
  match skipSpace s with
  | 93 :: rest => some (.arr [], rest)
  | _ => (parseItems value bound s).map fun (items, rest) => (.arr items, rest)

def parseObject (value : Str → Option (Json × Str)) (bound : Nat) (s : Str) :
    Option (Json × Str) :=
  match skipSpace s with
  | 125 :: rest => some (.obj [], rest)
  | _ => (parseFields value bound s).map fun (entries, rest) => (.obj (fromEntries entries), rest)

def parseValue : Nat → Str → Option (Json × Str)
  | 0, _ => none
  | bound + 1, s =>
    match skipSpace s with
    | 34 :: rest => (parseString rest).map fun (value, rest) => (.str value, rest)
    | 91 :: rest => parseArray (parseValue bound) bound rest
    | 123 :: rest => parseObject (parseValue bound) bound rest
    | 110 :: rest => parseWord (lit "ull") .null rest
    | 116 :: rest => parseWord (lit "rue") (.bool true) rest
    | 102 :: rest => parseWord (lit "alse") (.bool false) rest
    | s => (parseNumber s).map fun (value, rest) => (.num value, rest)

/-- `JSON.parse(s)`; `none` where it throws. -/
def parse (s : Str) : Option Json :=
  match parseValue (s.length + 1) s with
  | some (value, rest) => if skipSpace rest = [] then some value else none
  | none => none

end Js
