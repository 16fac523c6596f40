import PiEnv.Lib.Utf8

/-!
# Base64 with the URL alphabet

What `Buffer` writes and reads under the name `base64url`: no padding is
written, and reading passes over what is not in either alphabet.
-/

namespace Js.Base64

open Utf8 (Bytes)

/-- The unit for six bits. -/
def sextetUnit (n : Nat) : UInt16 :=
  UInt16.ofNat (if n < 26 then 65 + n else if n < 52 then 71 + n else if n < 62 then n - 4
    else if n = 62 then 45 else 95)

/-- The six bits a unit stands for, in the URL alphabet or the usual one. -/
def sextet (u : UInt16) : Option Nat :=
  if 65 ≤ u && u ≤ 90 then some (u.toNat - 65)
  else if 97 ≤ u && u ≤ 122 then some (u.toNat - 71)
  else if 48 ≤ u && u ≤ 57 then some (u.toNat + 4)
  else if u == 45 || u == 43 then some 62
  else if u == 95 || u == 47 then some 63
  else none

/-- `buffer.toString("base64url")` -/
def encodeUrl : Bytes → Str
  | [] => []
  | [a] => [sextetUnit (a.toNat / 4), sextetUnit (a.toNat % 4 * 16)]
  | [a, b] =>
    [sextetUnit (a.toNat / 4), sextetUnit (a.toNat % 4 * 16 + b.toNat / 16),
      sextetUnit (b.toNat % 16 * 4)]
  | a :: b :: c :: rest =>
    sextetUnit (a.toNat / 4) :: sextetUnit (a.toNat % 4 * 16 + b.toNat / 16) ::
      sextetUnit (b.toNat % 16 * 4 + c.toNat / 64) :: sextetUnit (c.toNat % 64) :: encodeUrl rest

def joinSextets : List Nat → Bytes
  | a :: b :: c :: d :: rest =>
    UInt8.ofNat (a * 4 + b / 16) :: UInt8.ofNat (b % 16 * 16 + c / 4) ::
      UInt8.ofNat (c % 4 * 64 + d) :: joinSextets rest
  | [a, b, c] => [UInt8.ofNat (a * 4 + b / 16), UInt8.ofNat (b % 16 * 16 + c / 4)]
  | [a, b] => [UInt8.ofNat (a * 4 + b / 16)]
  | _ => []

/-- `Buffer.from(s, "base64url")` -/
def decode (s : Str) : Bytes := joinSextets (s.filterMap sextet)

theorem length_encodeUrl (bytes : Bytes) : (encodeUrl bytes).length = (4 * bytes.length + 2) / 3 := by
  fun_induction encodeUrl bytes with
  | case1 => rfl
  | case2 a => simp
  | case3 a b => simp
  | case4 a b c rest ih =>
    simp only [List.length_cons, ih]
    omega

theorem sextet_sextetUnit {n : Nat} (h : n < 64) : sextet (sextetUnit n) = some n := by
  have hall := (by decide : ∀ n : Fin 64, sextet (sextetUnit n) = some n.val)
  exact hall ⟨n, h⟩

theorem ofNat_eq {n : Nat} {b : UInt8} (h : n = b.toNat) : UInt8.ofNat n = b := by
  rw [h, UInt8.ofNat_toNat]

theorem decode_encodeUrl (bytes : Bytes) : decode (encodeUrl bytes) = bytes := by
  unfold decode
  fun_induction encodeUrl bytes with
  | case1 => rfl
  | case2 a =>
    have ha : a.toNat < 256 := a.toNat_lt
    simp only [List.filterMap_cons, List.filterMap_nil, sextet_sextetUnit (show a.toNat / 4 < 64 by omega),
      sextet_sextetUnit (show a.toNat % 4 * 16 < 64 by omega), joinSextets]
    rw [ofNat_eq (b := a) (by omega)]
  | case3 a b =>
    have ha : a.toNat < 256 := a.toNat_lt
    have hb : b.toNat < 256 := b.toNat_lt
    simp only [List.filterMap_cons, List.filterMap_nil, sextet_sextetUnit (show a.toNat / 4 < 64 by omega),
      sextet_sextetUnit (show a.toNat % 4 * 16 + b.toNat / 16 < 64 by omega),
      sextet_sextetUnit (show b.toNat % 16 * 4 < 64 by omega), joinSextets]
    rw [ofNat_eq (b := a) (by omega), ofNat_eq (b := b) (by omega)]
  | case4 a b c rest ih =>
    have ha : a.toNat < 256 := a.toNat_lt
    have hb : b.toNat < 256 := b.toNat_lt
    have hc : c.toNat < 256 := c.toNat_lt
    simp only [List.filterMap_cons, sextet_sextetUnit (show a.toNat / 4 < 64 by omega),
      sextet_sextetUnit (show a.toNat % 4 * 16 + b.toNat / 16 < 64 by omega),
      sextet_sextetUnit (show b.toNat % 16 * 4 + c.toNat / 64 < 64 by omega),
      sextet_sextetUnit (show c.toNat % 64 < 64 by omega), joinSextets, ih]
    rw [ofNat_eq (b := a) (by omega), ofNat_eq (b := b) (by omega), ofNat_eq (b := c) (by omega)]

end Js.Base64
