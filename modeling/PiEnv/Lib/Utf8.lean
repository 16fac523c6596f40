import PiEnv.Lib.JsString

/-!
# UTF-8

The encoder of strings of UTF-16 units, and the decoder that replaces what is
ill formed, as a machine that reads one byte at a time. Both are total: a lone
surrogate and each maximal piece of an ill-formed sequence become U+FFFD.
-/

namespace Js.Utf8

abbrev Bytes := List UInt8

def replacement : UInt16 := 0xFFFD

-- -----
-- Encoding
-- -----

/-- The bytes of a scalar value. -/
def encodeScalar (n : Nat) : Bytes :=
  if n < 0x80 then [UInt8.ofNat n]
  else if n < 0x800 then [UInt8.ofNat (0xC0 + n / 0x40), UInt8.ofNat (0x80 + n % 0x40)]
  else if n < 0x10000 then
    [UInt8.ofNat (0xE0 + n / 0x1000), UInt8.ofNat (0x80 + n / 0x40 % 0x40),
      UInt8.ofNat (0x80 + n % 0x40)]
  else
    [UInt8.ofNat (0xF0 + n / 0x40000), UInt8.ofNat (0x80 + n / 0x1000 % 0x40),
      UInt8.ofNat (0x80 + n / 0x40 % 0x40), UInt8.ofNat (0x80 + n % 0x40)]

/-- The scalar value of a surrogate pair. -/
def pairScalar (high low : UInt16) : Nat :=
  0x10000 + (high.toNat - 0xD800) * 0x400 + (low.toNat - 0xDC00)

/-- The scalar value one unit is written as on its own. -/
def loneScalar (u : UInt16) : Nat :=
  if isHighSurrogate u || isLowSurrogate u then replacement.toNat else u.toNat

/-- `Buffer.from(s, "utf8")` -/
def encode : Str → Bytes
  | [] => []
  | [u] => encodeScalar (loneScalar u)
  | u :: v :: rest =>
    if isHighSurrogate u && isLowSurrogate v then encodeScalar (pairScalar u v) ++ encode rest
    else encodeScalar (loneScalar u) ++ encode (v :: rest)

-- -----
-- Decoding
-- -----

/-- A sequence that has begun: its bits so far, the bytes it still lacks, and
the bounds of the next one. -/
structure Pending where
  bits : Nat
  missing : Nat
  lower : UInt8
  upper : UInt8
  deriving DecidableEq, Repr

/-- Between sequences, or inside one. -/
abbrev State := Option Pending

/-- The units of a scalar value. -/
def scalarUnits (n : Nat) : Str :=
  if n < 0x10000 then [UInt16.ofNat n]
  else [UInt16.ofNat (0xD800 + (n - 0x10000) / 0x400), UInt16.ofNat (0xDC00 + (n - 0x10000) % 0x400)]

/-- A byte between sequences. -/
def lead (b : UInt8) : Str × State :=
  if b ≤ 0x7F then ([b.toUInt16], none)
  else if 0xC2 ≤ b && b ≤ 0xDF then ([], some ⟨(b &&& 0x1F).toNat, 1, 0x80, 0xBF⟩)
  else if b == 0xE0 then ([], some ⟨(b &&& 0xF).toNat, 2, 0xA0, 0xBF⟩)
  else if b == 0xED then ([], some ⟨(b &&& 0xF).toNat, 2, 0x80, 0x9F⟩)
  else if 0xE1 ≤ b && b ≤ 0xEF then ([], some ⟨(b &&& 0xF).toNat, 2, 0x80, 0xBF⟩)
  else if b == 0xF0 then ([], some ⟨(b &&& 0x7).toNat, 3, 0x90, 0xBF⟩)
  else if 0xF1 ≤ b && b ≤ 0xF3 then ([], some ⟨(b &&& 0x7).toNat, 3, 0x80, 0xBF⟩)
  else if b == 0xF4 then ([], some ⟨(b &&& 0x7).toNat, 3, 0x80, 0x8F⟩)
  else ([replacement], none)

/-- Whether a byte goes on with the sequence. -/
def Pending.continues (p : Pending) (b : UInt8) : Bool := p.lower ≤ b && b ≤ p.upper

/-- What one byte adds to the text, and the state it leaves. A byte that does
not go on with the sequence ends it, and is read again between sequences. -/
def step : State → UInt8 → Str × State
  | none, b => lead b
  | some p, b =>
    if p.continues b then
      let bits := p.bits * 0x40 + (b &&& 0x3F).toNat
      if p.missing ≤ 1 then (scalarUnits bits, none)
      else ([], some ⟨bits, p.missing - 1, 0x80, 0xBF⟩)
    else (replacement :: (lead b).1, (lead b).2)

/-- What the end of the input adds. -/
def finish : State → Str
  | none => []
  | some _ => [replacement]

def decodeFrom (state : State) : Bytes → Str
  | [] => finish state
  | b :: rest => (step state b).1 ++ decodeFrom (step state b).2 rest

/-- `buffer.toString("utf8")` -/
def decode (bytes : Bytes) : Str := decodeFrom none bytes

-- -----
-- Decoding in pieces
-- -----

/-- The units that bytes complete, and the state they leave. -/
def feed (state : State) : Bytes → Str × State
  | [] => ([], state)
  | b :: rest =>
    ((step state b).1 ++ (feed (step state b).2 rest).1, (feed (step state b).2 rest).2)

theorem feed_append (state : State) (xs ys : Bytes) :
    feed state (xs ++ ys) =
      ((feed state xs).1 ++ (feed (feed state xs).2 ys).1, (feed (feed state xs).2 ys).2) := by
  induction xs generalizing state with
  | nil => rfl
  | cons b xs ih =>
    rw [List.cons_append, feed, ih]
    simp [feed]

theorem decodeFrom_append (state : State) (xs ys : Bytes) :
    decodeFrom state (xs ++ ys) = (feed state xs).1 ++ decodeFrom (feed state xs).2 ys := by
  induction xs generalizing state with
  | nil => rfl
  | cons b xs ih => rw [List.cons_append, decodeFrom, ih, feed, List.append_assoc]

/-- What a decoder makes of each chunk of a stream. -/
def decodeChunks (state : State) : List Bytes → List Str
  | [] => []
  | chunk :: rest => (feed state chunk).1 :: decodeChunks (feed state chunk).2 rest

theorem flatten_decodeChunks (state : State) (chunks : List Bytes) :
    (decodeChunks state chunks).flatten = (feed state chunks.flatten).1 := by
  induction chunks generalizing state with
  | nil => rfl
  | cons chunk rest ih => rw [decodeChunks, List.flatten_cons, ih, List.flatten_cons, feed_append]

-- -----
-- Reading back what was written
-- -----

/-- `s.isWellFormed()`: every surrogate is half of a pair. -/
def isWellFormed : Str → Bool
  | [] => true
  | [u] => !isHighSurrogate u && !isLowSurrogate u
  | u :: v :: rest =>
    if isHighSurrogate u && isLowSurrogate v then isWellFormed rest
    else !isHighSurrogate u && !isLowSurrogate u && isWellFormed (v :: rest)

theorem isWellFormed_append {s t : Str} (hs : isWellFormed s = true) (ht : isWellFormed t = true) :
    isWellFormed (s ++ t) = true := by
  fun_induction isWellFormed s with
  | case1 => exact ht
  | case2 u =>
    simp only [Bool.and_eq_true, Bool.not_eq_true'] at hs
    cases t with
    | nil => simp [isWellFormed, hs]
    | cons v t => simp [isWellFormed, hs, ht]
  | case3 u v rest hp ih =>
    simpa [isWellFormed, hp] using ih hs
  | case4 u v rest hp ih =>
    simp only [Bool.and_eq_true] at hs
    have := ih hs.2
    simp_all [isWellFormed]

theorem encode_append {s : Str} (h : isWellFormed s = true) (t : Str) :
    encode (s ++ t) = encode s ++ encode t := by
  fun_induction isWellFormed s with
  | case1 => rfl
  | case2 u =>
    simp only [Bool.and_eq_true, Bool.not_eq_true'] at h
    cases t with
    | nil => simp [encode]
    | cons v t => simp [encode, h.1]
  | case3 u v rest hp ih =>
    rw [List.cons_append, List.cons_append, encode, if_pos hp, ih h, encode, if_pos hp,
      List.append_assoc]
  | case4 u v rest hp ih =>
    simp only [Bool.and_eq_true] at h
    have hrest := ih h.2
    rw [List.cons_append] at hrest
    rw [List.cons_append, List.cons_append, encode, if_neg hp, hrest, encode, if_neg hp,
      List.append_assoc]

theorem surrogate_toNat (u : UInt16) :
    (isHighSurrogate u = true ↔ 0xD800 ≤ u.toNat ∧ u.toNat ≤ 0xDBFF) ∧
      (isLowSurrogate u = true ↔ 0xDC00 ≤ u.toNat ∧ u.toNat ≤ 0xDFFF) := by
  have h1 : (0xD800 : UInt16).toNat = 0xD800 := rfl
  have h2 : (0xDBFF : UInt16).toNat = 0xDBFF := rfl
  have h3 : (0xDC00 : UInt16).toNat = 0xDC00 := rfl
  have h4 : (0xDFFF : UInt16).toNat = 0xDFFF := rfl
  simp [isHighSurrogate, isLowSurrogate, UInt16.le_iff_toNat_le, h1, h2, h3, h4]

theorem lead_one {n : Nat} (h : n < 0x80) : lead (UInt8.ofNat n) = ([UInt16.ofNat n], none) := by
  have := (by decide : ∀ n : Fin 0x80, lead (UInt8.ofNat n) = ([UInt16.ofNat n], none))
  exact this ⟨n, h⟩

theorem lead_two {n : Nat} (hl : 2 ≤ n) (h : n < 0x20) :
    lead (UInt8.ofNat (0xC0 + n)) = ([], some ⟨n, 1, 0x80, 0xBF⟩) := by
  have := (by decide : ∀ n : Fin 0x20, 2 ≤ n.val →
    lead (UInt8.ofNat (0xC0 + n)) = ([], some ⟨n, 1, 0x80, 0xBF⟩))
  exact this ⟨n, h⟩ hl

/-- The bounds of the byte after the lead of three. -/
theorem lead_three {n : Nat} (h : n < 0x10) :
    lead (UInt8.ofNat (0xE0 + n)) =
      ([], some ⟨n, 2, if n = 0 then 0xA0 else 0x80, if n = 0xD then 0x9F else 0xBF⟩) := by
  have := (by decide : ∀ n : Fin 0x10, lead (UInt8.ofNat (0xE0 + n)) =
    ([], some ⟨n, 2, if n.val = 0 then 0xA0 else 0x80, if n.val = 0xD then 0x9F else 0xBF⟩))
  exact this ⟨n, h⟩

theorem lead_four {n : Nat} (h : n < 5) :
    lead (UInt8.ofNat (0xF0 + n)) =
      ([], some ⟨n, 3, if n = 0 then 0x90 else 0x80, if n = 4 then 0x8F else 0xBF⟩) := by
  have := (by decide : ∀ n : Fin 5, lead (UInt8.ofNat (0xF0 + n)) =
    ([], some ⟨n, 3, if n.val = 0 then 0x90 else 0x80, if n.val = 4 then 0x8F else 0xBF⟩))
  exact this ⟨n, h⟩

/-- A byte that goes on with a sequence. -/
theorem step_continue {p : Pending} {n : Nat} (h : n < 0x40) (hl : p.lower.toNat ≤ 0x80 + n)
    (hu : 0x80 + n ≤ p.upper.toNat) :
    step (some p) (UInt8.ofNat (0x80 + n)) =
      if p.missing ≤ 1 then (scalarUnits (p.bits * 0x40 + n), none)
      else ([], some ⟨p.bits * 0x40 + n, p.missing - 1, 0x80, 0xBF⟩) := by
  have hbits : (UInt8.ofNat (0x80 + n) &&& 0x3F).toNat = n :=
    (by decide : ∀ n : Fin 0x40, (UInt8.ofNat (0x80 + n.val) &&& 0x3F).toNat = n.val) ⟨n, h⟩
  have hnat : (UInt8.ofNat (0x80 + n)).toNat = 0x80 + n := by
    rw [UInt8.toNat_ofNat']
    omega
  have hcont : p.continues (UInt8.ofNat (0x80 + n)) = true := by
    simp only [Pending.continues, Bool.and_eq_true, decide_eq_true_eq, UInt8.le_iff_toNat_le, hnat]
    exact ⟨hl, hu⟩
  simp only [step, hcont, if_true, hbits]

section
variable {bits n missing : Nat} {lower upper : UInt8} {rest : Bytes} (h : n < 0x40)
  (hl : lower.toNat ≤ 0x80 + n) (hu : 0x80 + n ≤ upper.toNat)

include h hl hu

theorem feed_last :
    feed (some ⟨bits, 1, lower, upper⟩) [UInt8.ofNat (0x80 + n)] =
      (scalarUnits (bits * 0x40 + n), none) := by
  rw [feed, step_continue h hl hu]
  simp [feed]

theorem feed_more :
    feed (some ⟨bits, missing + 2, lower, upper⟩) (UInt8.ofNat (0x80 + n) :: rest) =
      feed (some ⟨bits * 0x40 + n, missing + 1, 0x80, 0xBF⟩) rest := by
  rw [feed, step_continue h hl hu]
  rfl
end

theorem feed_lead {b : UInt8} {state : State} (h : lead b = ([], state)) (rest : Bytes) :
    feed none (b :: rest) = feed state rest := by
  simp [feed, step, h]

/-- A code point that is not half of a pair. -/
def IsScalar (n : Nat) : Prop := n < 0xD800 ∨ (0xE000 ≤ n ∧ n < 0x110000)

theorem feed_encodeScalar {n : Nat} (h : IsScalar n) :
    feed none (encodeScalar n) = (scalarUnits n, none) := by
  have h80 : (0x80 : UInt8).toNat = 0x80 := rfl
  have hBF : (0xBF : UInt8).toNat = 0xBF := rfl
  unfold IsScalar at h
  unfold encodeScalar
  split
  · rename_i h1
    simp [feed, step, lead_one h1, scalarUnits, show n < 0x10000 by omega]
  split
  · rw [feed_lead (lead_two (by omega) (by omega)), feed_last (by omega) (by omega) (by omega),
      Nat.div_add_mod' n 0x40]
  split
  · have hlow : (if n / 0x1000 = 0 then 0xA0 else 0x80 : UInt8).toNat ≤ 0x80 + n / 0x40 % 0x40 := by
      split
      · have : (0xA0 : UInt8).toNat = 0xA0 := rfl
        omega
      · omega
    have hhigh : 0x80 + n / 0x40 % 0x40 ≤ (if n / 0x1000 = 0xD then 0x9F else 0xBF : UInt8).toNat := by
      split
      · have : (0x9F : UInt8).toNat = 0x9F := rfl
        omega
      · omega
    rw [feed_lead (lead_three (by omega)), feed_more (by omega) hlow hhigh,
      feed_last (by omega) (by omega) (by omega)]
    congr 2
    omega
  · have hlow : (if n / 0x40000 = 0 then 0x90 else 0x80 : UInt8).toNat ≤ 0x80 + n / 0x1000 % 0x40 := by
      split
      · have : (0x90 : UInt8).toNat = 0x90 := rfl
        omega
      · omega
    have hhigh : 0x80 + n / 0x1000 % 0x40 ≤ (if n / 0x40000 = 4 then 0x8F else 0xBF : UInt8).toNat := by
      split
      · have : (0x8F : UInt8).toNat = 0x8F := rfl
        omega
      · omega
    rw [feed_lead (lead_four (by omega)), feed_more (by omega) hlow hhigh,
      feed_more (by omega) (by omega) (by omega), feed_last (by omega) (by omega) (by omega)]
    congr 2
    omega

theorem scalar_lone {u : UInt16} (hh : isHighSurrogate u = false) (hl : isLowSurrogate u = false) :
    IsScalar (loneScalar u) ∧ scalarUnits (loneScalar u) = [u] := by
  have hlt : u.toNat < 0x10000 := u.toNat_lt
  obtain ⟨hiff, liff⟩ := surrogate_toNat u
  have hh' : ¬ (0xD800 ≤ u.toNat ∧ u.toNat ≤ 0xDBFF) := by simp [← hiff, hh]
  have hl' : ¬ (0xDC00 ≤ u.toNat ∧ u.toNat ≤ 0xDFFF) := by simp [← liff, hl]
  have hval : loneScalar u = u.toNat := by simp [loneScalar, hh, hl]
  rw [hval]
  refine ⟨?_, ?_⟩
  · unfold IsScalar
    omega
  · simp [scalarUnits, hlt]

theorem scalar_pair {u v : UInt16} (hu : isHighSurrogate u = true) (hv : isLowSurrogate v = true) :
    IsScalar (pairScalar u v) ∧ scalarUnits (pairScalar u v) = [u, v] := by
  obtain ⟨hul, huu⟩ := (surrogate_toNat u).1.mp hu
  obtain ⟨hvl, hvu⟩ := (surrogate_toNat v).2.mp hv
  unfold IsScalar scalarUnits pairScalar
  refine ⟨by omega, ?_⟩
  rw [if_neg (by omega)]
  have hhigh : 0xD800 + (0x10000 + (u.toNat - 0xD800) * 0x400 + (v.toNat - 0xDC00) - 0x10000) / 0x400 =
      u.toNat := by omega
  have hlow : 0xDC00 + (0x10000 + (u.toNat - 0xD800) * 0x400 + (v.toNat - 0xDC00) - 0x10000) % 0x400 =
      v.toNat := by omega
  rw [hhigh, hlow, UInt16.ofNat_toNat, UInt16.ofNat_toNat]

theorem feed_encode {s : Str} (h : isWellFormed s = true) : feed none (encode s) = (s, none) := by
  fun_induction isWellFormed s with
  | case1 => rfl
  | case2 u =>
    simp only [Bool.and_eq_true, Bool.not_eq_true'] at h
    obtain ⟨hs, hu⟩ := scalar_lone h.1 h.2
    rw [encode, feed_encodeScalar hs, hu]
  | case3 u v t hp ih =>
    simp only [Bool.and_eq_true] at hp
    obtain ⟨hs, hu⟩ := scalar_pair hp.1 hp.2
    rw [encode, if_pos (by simpa using hp), feed_append, feed_encodeScalar hs, hu, ih h]
    rfl
  | case4 u v t hp ih =>
    simp only [Bool.and_eq_true, Bool.not_eq_true'] at h
    obtain ⟨hs, hu⟩ := scalar_lone h.1.1 h.1.2
    rw [encode, if_neg hp, feed_append, feed_encodeScalar hs, hu, ih h.2]
    rfl

theorem decodeChunks_encode {pieces : List Str} (h : ∀ piece ∈ pieces, isWellFormed piece = true) :
    decodeChunks none (pieces.map encode) = pieces := by
  induction pieces with
  | nil => rfl
  | cons piece rest ih =>
    have hrest := ih fun p hp => h p (List.mem_cons_of_mem _ hp)
    rw [List.map_cons, decodeChunks, feed_encode (h piece List.mem_cons_self), hrest]

theorem flatten_encode {pieces : List Str} (h : ∀ piece ∈ pieces, isWellFormed piece = true) :
    (pieces.map encode).flatten = encode pieces.flatten := by
  induction pieces with
  | nil => rfl
  | cons piece rest ih =>
    have hrest := ih fun p hp => h p (List.mem_cons_of_mem _ hp)
    rw [List.map_cons, List.flatten_cons, hrest, List.flatten_cons,
      encode_append (h piece List.mem_cons_self)]

theorem decodeFrom_encode {s : Str} (h : isWellFormed s = true) (rest : Bytes) :
    decodeFrom none (encode s ++ rest) = s ++ decodeFrom none rest := by
  rw [decodeFrom_append, feed_encode h]

/-- `Buffer.from(s, "utf8").toString("utf8")` -/
theorem decode_encode {s : Str} (h : isWellFormed s = true) : decode (encode s) = s := by
  simpa [decode, decodeFrom, finish] using decodeFrom_encode h []

theorem length_encode (s : Str) : (encode s).length = byteLength s := by
  have hlone : ∀ u : UInt16, (encodeScalar (loneScalar u)).length = unitBytes u := by
    intro u
    have h1 : (0x80 : UInt16).toNat = 0x80 := rfl
    have h2 : (0x800 : UInt16).toNat = 0x800 := rfl
    have h3 : replacement.toNat = 0xFFFD := rfl
    have hlt : u.toNat < 0x10000 := u.toNat_lt
    obtain ⟨hiff, liff⟩ := surrogate_toNat u
    unfold unitBytes loneScalar encodeScalar
    simp only [UInt16.lt_iff_toNat_lt, h1, h2, h3, Bool.or_eq_true, hiff, liff]
    split_ifs <;> first | rfl | omega
  fun_induction encode s with
  | case1 => rfl
  | case2 u => exact hlone u
  | case3 u v t hp ih =>
    have hbig : 0x10000 ≤ pairScalar u v := by
      unfold pairScalar
      omega
    rw [List.length_append, ih, byteLength, if_pos hp]
    unfold encodeScalar
    rw [if_neg (by omega), if_neg (by omega), if_neg (by omega)]
    rfl
  | case4 u v t hp ih =>
    rw [List.length_append, ih, hlone, byteLength, if_neg hp]

-- -----
-- Length
-- -----

/-- What a sequence that has begun counts for. -/
def State.open : State → Nat
  | none => 0
  | some _ => 1

theorem length_scalarUnits (n : Nat) : (scalarUnits n).length ≤ 2 := by
  unfold scalarUnits
  split <;> simp

theorem length_lead (b : UInt8) : (lead b).1.length + State.open (lead b).2 ≤ 1 := by
  unfold lead
  repeat' split
  all_goals exact Nat.le_refl 1

theorem length_step (state : State) (b : UInt8) :
    (step state b).1.length + State.open (step state b).2 ≤ state.open + 1 := by
  cases state with
  | none =>
    show (lead b).1.length + State.open (lead b).2 ≤ 0 + 1
    exact length_lead b
  | some p =>
    by_cases hcontinues : p.continues b = true
    · rw [step, if_pos hcontinues]
      simp only
      split
      · exact length_scalarUnits _
      · exact Nat.le_succ 1
    · have := length_lead b
      rw [step, if_neg hcontinues]
      show (replacement :: (lead b).1).length + State.open (lead b).2 ≤ 1 + 1
      rw [List.length_cons]
      omega

theorem length_decodeFrom (state : State) (bytes : Bytes) :
    (decodeFrom state bytes).length ≤ state.open + bytes.length := by
  induction bytes generalizing state with
  | nil => cases state <;> simp [decodeFrom, finish, State.open]
  | cons b rest ih =>
    have := length_step state b
    have := ih (step state b).2
    rw [decodeFrom, List.length_append, List.length_cons]
    omega

theorem length_decode (bytes : Bytes) : (decode bytes).length ≤ bytes.length :=
  Nat.le_trans (length_decodeFrom none bytes) (Nat.le_of_eq (Nat.zero_add _))

end Js.Utf8
