import PiEnv.Lib.JsonRoundTrip

/-!
# Framing of language-server messages

Messages with a `Content-Length` header on a stream of bytes. The parser keeps
what has arrived of an unfinished frame, so cutting the stream into chunks does
not change the messages.
-/

namespace PiEnv.DevTools

open Js

abbrev Buffer := Utf8.Bytes

def headerSeparator : Buffer := [13, 10, 13, 10]

/-- `Buffer.from(s, "ascii")` -/
def fromAscii (s : Str) : Buffer := s.map (·.toUInt8)

/-- `buffer.toString("ascii")`, which drops the high bit. -/
def toAscii (buffer : Buffer) : Str := buffer.map fun b => (b &&& 0x7F).toUInt16

/-- `buffer.indexOf(part)` -/
def indexOf (part : Buffer) : Buffer → Option Nat
  | [] => if part = [] then some 0 else none
  | b :: rest =>
    if part.isPrefixOf (b :: rest) then some 0 else (indexOf part rest).map (· + 1)

/-- `s.toLowerCase()` of a string of ASCII. -/
def toLowerCase (s : Str) : Str := s.map fun u => if 65 ≤ u && u ≤ 90 then u + 32 else u

def serializeMessage (msg : Json) : Buffer :=
  let body := stringify msg
  let header := lit "Content-Length: " ++ decimal (byteLength body) ++ [CR, LF, CR, LF]
  fromAscii header ++ Utf8.encode body

def parseContentLength (header : Str) : Option Nat :=
  match (split [CR, LF] header).find? fun line => (lit "content-length:").isPrefixOf (toLowerCase line) with
  | none => none
  | some line =>
    match parseInt (trim (line.drop (lit "content-length:").length)) with
    | none => none
    | some value => if value < 0 then none else some value.toNat

-- -----
-- The parser
-- -----

/-- One turn of the loop of `drain`: the message it gives out, if any, and what
is left of the buffer; `none` where the loop breaks. -/
def nextFrame (buffer : Buffer) : Option (Option Json × Buffer) :=
  match indexOf headerSeparator buffer with
  | none => none
  | some headerEnd =>
    let bodyStart := headerEnd + headerSeparator.length
    match parseContentLength (toAscii (buffer.take headerEnd)) with
    | none => some (none, buffer.drop bodyStart)
    | some contentLength =>
      if buffer.length < bodyStart + contentLength then none
      else
        -- a body that is no JSON is passed over
        some (parse (Utf8.decode ((buffer.drop bodyStart).take contentLength)),
          buffer.drop (bodyStart + contentLength))

theorem indexOf_length {part buffer : Buffer} {i : Nat} (h : indexOf part buffer = some i) :
    i + part.length ≤ buffer.length := by
  induction buffer generalizing i with
  | nil =>
    simp only [indexOf] at h
    split at h
    · rename_i hp
      simp [hp, ← Option.some.inj h]
    · cases h
  | cons b rest ih =>
    rw [indexOf] at h
    split at h
    · rename_i hp
      have := (List.isPrefixOf_iff_prefix.mp hp).length_le
      simpa [← Option.some.inj h] using this
    · obtain ⟨j, hj, rfl⟩ := Option.map_eq_some_iff.mp h
      have := ih hj
      simp only [List.length_cons]
      omega

theorem nextFrame_length {buffer rest : Buffer} {message : Option Json}
    (h : nextFrame buffer = some (message, rest)) : rest.length < buffer.length := by
  have hsep : headerSeparator.length = 4 := rfl
  unfold nextFrame at h
  split at h
  · cases h
  · rename_i headerEnd hi
    have := indexOf_length hi
    simp only at h
    split at h
    · cases h
      simp only [List.length_drop]
      omega
    · split at h
      · cases h
      · cases h
        simp only [List.length_drop]
        omega

/-- The messages of the whole frames in a buffer, and what is left. -/
def drain (buffer : Buffer) : List Json × Buffer :=
  match h : nextFrame buffer with
  | none => ([], buffer)
  | some (message, rest) =>
    have := nextFrame_length h
    (message.toList ++ (drain rest).1, (drain rest).2)
termination_by buffer.length

structure LspParser where
  buffer : Buffer
  deriving DecidableEq, Repr

def LspParser.new : LspParser := ⟨[]⟩

inductive Chunk where
  | buffer (bytes : Buffer)
  | string (text : Str)
  deriving DecidableEq, Repr

def Chunk.data : Chunk → Buffer
  | .buffer bytes => bytes
  | .string text => Utf8.encode text

/-- The messages `onMessage` is called with. -/
def LspParser.push (parser : LspParser) (chunk : Chunk) : List Json × LspParser :=
  ((drain (parser.buffer ++ chunk.data)).1, ⟨(drain (parser.buffer ++ chunk.data)).2⟩)

def LspParser.pushAll (parser : LspParser) : List Chunk → List Json × LspParser
  | [] => ([], parser)
  | chunk :: rest =>
    let (messages, parser) := parser.push chunk
    let (more, parser) := parser.pushAll rest
    (messages ++ more, parser)

-- -----
-- Bytes that arrive later
-- -----

theorem indexOf_append {part buffer : Buffer} {i : Nat} (h : indexOf part buffer = some i)
    (more : Buffer) : indexOf part (buffer ++ more) = some i := by
  induction buffer generalizing i with
  | nil =>
    simp only [indexOf] at h
    split at h
    · rename_i hp
      subst hp
      cases more <;> simpa [indexOf] using h
    · cases h
  | cons b rest ih =>
    rw [indexOf] at h
    rw [List.cons_append, indexOf]
    split at h
    · rename_i hp
      have hprefix : part <+: b :: (rest ++ more) :=
        (List.isPrefixOf_iff_prefix.mp hp).trans (List.prefix_append (b :: rest) more)
      rw [if_pos (List.isPrefixOf_iff_prefix.mpr hprefix)]
      exact h
    · rename_i hp
      obtain ⟨j, hj, rfl⟩ := Option.map_eq_some_iff.mp h
      have hlen := indexOf_length hj
      have hnot : ¬ part.isPrefixOf (b :: (rest ++ more)) = true := by
        intro hq
        apply hp
        rw [List.isPrefixOf_iff_prefix] at hq ⊢
        refine List.prefix_of_prefix_length_le hq (List.prefix_append (b :: rest) more) ?_
        simp only [List.length_cons]
        omega
      rw [if_neg hnot, ih hj]
      rfl

/-- A frame that is whole is read the same whatever follows it. -/
theorem nextFrame_append {buffer rest : Buffer} {message : Option Json}
    (h : nextFrame buffer = some (message, rest)) (more : Buffer) :
    nextFrame (buffer ++ more) = some (message, rest ++ more) := by
  unfold nextFrame at h ⊢
  split at h
  · cases h
  · rename_i headerEnd hi
    have hlen := indexOf_length hi
    rw [indexOf_append hi]
    simp only at h ⊢
    rw [List.take_append_of_le_length (by omega)]
    split at h
    · rename_i hc
      cases h
      simp [List.drop_append_of_le_length hlen]
    · rename_i contentLength hc
      split at h
      · cases h
      · rename_i hle
        cases h
        simp only [List.length_append]
        rw [if_neg (by omega), List.drop_append_of_le_length hlen,
          List.take_append_of_le_length (by simp only [List.length_drop]; omega),
          List.drop_append_of_le_length (by omega)]

theorem drain_none {buffer : Buffer} (h : nextFrame buffer = none) : drain buffer = ([], buffer) := by
  rw [drain]
  split
  · rfl
  · rename_i hs
    rw [h] at hs
    cases hs

theorem drain_some {buffer rest : Buffer} {message : Option Json}
    (h : nextFrame buffer = some (message, rest)) :
    drain buffer = (message.toList ++ (drain rest).1, (drain rest).2) := by
  rw [drain]
  split
  · rename_i hs
    rw [h] at hs
    cases hs
  · rename_i hs
    rw [h] at hs
    cases hs
    rfl

theorem drain_append (buffer more : Buffer) :
    drain (buffer ++ more) =
      ((drain buffer).1 ++ (drain ((drain buffer).2 ++ more)).1,
        (drain ((drain buffer).2 ++ more)).2) := by
  induction hn : buffer.length using Nat.strongRecOn generalizing buffer with
  | ind n ih =>
    cases hf : nextFrame buffer with
    | none => simp [drain_none hf]
    | some frame =>
      obtain ⟨message, rest⟩ := frame
      have hrest := ih rest.length (hn ▸ nextFrame_length hf) rest rfl
      rw [drain_some (nextFrame_append hf more), drain_some hf, hrest]
      simp

theorem nextFrame_drain (buffer : Buffer) : nextFrame (drain buffer).2 = none := by
  induction hn : buffer.length using Nat.strongRecOn generalizing buffer with
  | ind n ih =>
    cases hf : nextFrame buffer with
    | none => rwa [drain_none hf]
    | some frame =>
      obtain ⟨message, rest⟩ := frame
      rw [drain_some hf]
      exact ih rest.length (hn ▸ nextFrame_length hf) rest rfl

/-- What chunks give and leave is what their bytes give and leave at once. -/
theorem pushAll_eq (parser : LspParser) (hp : nextFrame parser.buffer = none)
    (chunks : List Chunk) :
    parser.pushAll chunks =
      ((drain (parser.buffer ++ chunks.flatMap Chunk.data)).1,
        ⟨(drain (parser.buffer ++ chunks.flatMap Chunk.data)).2⟩) := by
  induction chunks generalizing parser with
  | nil => simp [LspParser.pushAll, drain_none hp]
  | cons chunk chunks ih =>
    have hrest := ih (parser.push chunk).2 (nextFrame_drain _)
    rw [List.flatMap_cons, ← List.append_assoc, drain_append]
    simp only [LspParser.pushAll, hrest]
    rfl

theorem nextFrame_nil : nextFrame [] = none := by decide

-- -----
-- A message that was serialized
-- -----

theorem indexOf_separator {before : Buffer} (h : (13 : UInt8) ∉ before) (more : Buffer) :
    indexOf headerSeparator (before ++ headerSeparator ++ more) = some before.length := by
  induction before with
  | nil => rfl
  | cons b before ih =>
    obtain ⟨hb, hrest⟩ := not_or.mp (mt List.mem_cons.mpr h)
    have hnot : ¬ headerSeparator.isPrefixOf (b :: (before ++ headerSeparator ++ more)) = true := by
      simp [headerSeparator, hb]
    show indexOf headerSeparator (b :: (before ++ headerSeparator ++ more)) = _
    rw [indexOf, if_neg hnot, ih hrest]
    rfl

theorem splitAux_of_not_mem {c : UInt16} {cs acc s : Str} (h : c ∉ s) :
    splitAux (c :: cs) 0 acc s = [acc.reverse ++ s] := by
  induction s generalizing acc with
  | nil => simp [splitAux]
  | cons u s ih =>
    obtain ⟨hu, hs⟩ := not_or.mp (mt List.mem_cons.mpr h)
    simp [splitAux, hu, ih hs]

theorem ascii_back {s : Str} (h : IsAscii s) : toAscii (fromAscii s) = s := by
  have hunit : ∀ u : UInt16, u < 0x80 → (u.toUInt8 &&& 0x7F).toUInt16 = u := by
    intro u hu
    have hlt : u.toNat < 0x80 := UInt16.lt_iff_toNat_lt.mp hu
    have hall : ∀ n : Fin 0x80, ((UInt16.ofNat n).toUInt8 &&& 0x7F).toUInt16 = UInt16.ofNat n := by
      decide
    simpa using hall ⟨u.toNat, hlt⟩
  induction s with
  | nil => rfl
  | cons u s ih =>
    rw [IsAscii, List.all_cons, Bool.and_eq_true, decide_eq_true_eq] at h
    have hs := ih h.2
    simp_all [toAscii, fromAscii]

theorem isSpace_digit {u : UInt16} (h : isDigit u = true) : isSpace u = false := by
  have hall : ∀ n : Fin 10, isSpace (UInt16.ofNat (48 + n)) = false := by decide
  simp only [isDigit, Bool.and_eq_true, decide_eq_true_eq, UInt16.le_iff_toNat_le] at h
  have hlow : 48 ≤ u.toNat := h.1
  have hhigh : u.toNat ≤ 57 := h.2
  have hu := hall ⟨u.toNat - 48, by omega⟩
  rwa [show 48 + (u.toNat - 48) = u.toNat by omega, UInt16.ofNat_toNat] at hu

theorem dropWhile_decimal (n : Nat) : (decimal n).dropWhile isSpace = decimal n := by
  obtain ⟨u, rest, hd⟩ := List.exists_cons_of_ne_nil (decimal_ne_nil n)
  have hu : isSpace u = false := isSpace_digit (isDigit_decimal (hd ▸ List.mem_cons_self))
  rw [hd, List.dropWhile_cons_of_neg (by simp [hu])]

theorem trim_decimal (n : Nat) : trim (32 :: decimal n) = decimal n := by
  have hlast : ¬ isSpace ((decimal n).getLast (decimal_ne_nil n)) = true := by
    simp [isSpace_digit (isDigit_decimal (List.getLast_mem (decimal_ne_nil n)))]
  rw [trim, List.dropWhile_cons_of_pos (by decide), dropWhile_decimal, trimEnd,
    List.rdropWhile_eq_self_iff]
  exact fun _ => hlast

theorem parseInt_decimal (n : Nat) : parseInt (decimal n) = some (n : Int) := by
  have hdigits : parseInt.parseDigits (decimal n) = some n := by
    have htake : (decimal n).takeWhile isDigit = decimal n :=
      List.takeWhile_eq_self_iff.mpr fun _ h => isDigit_decimal h
    simp [parseInt.parseDigits, htake, decimal_ne_nil, digitsValue_decimal]
  obtain ⟨u, rest, hd⟩ := List.exists_cons_of_ne_nil (decimal_ne_nil n)
  have hu : isDigit u = true := isDigit_decimal (hd ▸ List.mem_cons_self)
  have hminus : u ≠ 45 := by
    rintro rfl
    exact absurd hu (by decide)
  have hplus : u ≠ 43 := by
    rintro rfl
    exact absurd hu (by decide)
  unfold parseInt
  rw [dropWhile_decimal]
  split
  · rename_i he
    exact absurd (List.cons.inj (hd ▸ he)).1 hminus
  · rename_i he
    exact absurd (List.cons.inj (hd ▸ he)).1 hplus
  · rw [hdigits]
    rfl

theorem CR_not_mem_header (n : Nat) : CR ∉ lit "Content-Length: " ++ decimal n := by
  intro hm
  rcases List.mem_append.mp hm with h | h
  · exact absurd h (by decide)
  · exact absurd (isDigit_decimal h) (by decide)

theorem parseContentLength_header (n : Nat) :
    parseContentLength (lit "Content-Length: " ++ decimal n) = some n := by
  have hsplit : split [CR, LF] (lit "Content-Length: " ++ decimal n) =
      [lit "Content-Length: " ++ decimal n] := splitAux_of_not_mem (CR_not_mem_header n)
  have hname : (lit "content-length:").isPrefixOf
      (toLowerCase (lit "Content-Length: " ++ decimal n)) = true := by
    rw [List.isPrefixOf_iff_prefix, toLowerCase, List.map_append]
    exact List.IsPrefix.trans (by decide) (List.prefix_append _ _)
  have hvalue : (lit "Content-Length: " ++ decimal n).drop (lit "content-length:").length =
      32 :: decimal n := rfl
  have hnat : ¬ (n : Int) < 0 := by omega
  simp [parseContentLength, hsplit, hname, hvalue, trim_decimal, parseInt_decimal, hnat]

theorem fromAscii_append (s t : Str) : fromAscii (s ++ t) = fromAscii s ++ fromAscii t :=
  List.map_append

theorem nextFrame_serialize {msg : Json} (h : Plain msg) (more : Buffer) :
    nextFrame (serializeMessage msg ++ more) = some (some msg, more) := by
  have hascii : IsAscii (lit "Content-Length: " ++ decimal (byteLength (stringify msg))) :=
    isAscii_append (by decide) (isAscii_decimal _)
  have hback := ascii_back hascii
  have hlength := parseContentLength_header (byteLength (stringify msg))
  have htext : serializeMessage msg ++ more =
      fromAscii (lit "Content-Length: " ++ decimal (byteLength (stringify msg))) ++
        headerSeparator ++ (Utf8.encode (stringify msg) ++ more) := by
    rw [serializeMessage, fromAscii_append _ [CR, LF, CR, LF], List.append_assoc]
    rfl
  rw [htext]
  generalize hb : fromAscii (lit "Content-Length: " ++ decimal (byteLength (stringify msg))) = before at *
  have hcr : (13 : UInt8) ∉ before := by
    intro hm
    apply CR_not_mem_header (byteLength (stringify msg))
    rw [← hback]
    exact List.mem_map_of_mem hm
  have hparse := parse_stringify_self h
  have hdecode := Utf8.decode_encode (isWellFormed_stringify msg)
  have hlen := Utf8.length_encode (stringify msg)
  have hbody : (before ++ headerSeparator ++ (Utf8.encode (stringify msg) ++ more)).drop
      (before.length + headerSeparator.length) = Utf8.encode (stringify msg) ++ more := by
    rw [← List.length_append, List.drop_left]
  have hafter : (before ++ headerSeparator ++ (Utf8.encode (stringify msg) ++ more)).drop
      (before.length + headerSeparator.length + byteLength (stringify msg)) = more := by
    rw [← List.drop_drop, hbody, ← hlen, List.drop_left]
  have hheader : (before ++ headerSeparator ++ (Utf8.encode (stringify msg) ++ more)).take
      before.length = before := by
    rw [List.append_assoc, List.take_left]
  unfold nextFrame
  rw [indexOf_separator hcr]
  simp only
  rw [hheader, hback, hlength]
  simp only
  rw [hbody, hafter, ← hlen, List.take_left, hdecode,
    if_neg (by simp only [List.length_append]; omega)]
  rw [hparse]

theorem drain_serialize {messages : List Json} (h : ∀ msg ∈ messages, Plain msg) :
    drain (messages.flatMap serializeMessage) = (messages, []) := by
  induction messages with
  | nil => exact drain_none nextFrame_nil
  | cons msg messages ih =>
    have hrest := ih fun m hm => h m (by simp [hm])
    rw [List.flatMap_cons, drain_some (nextFrame_serialize (h msg (by simp)) _), hrest]
    rfl

/-- However a stream is cut into chunks, its messages are those of the whole
stream; and a stream of serialized messages gives these messages. -/
theorem lsp_framing (chunks : List Chunk) :
    (LspParser.new.pushAll chunks).1 =
        (LspParser.new.push (.buffer (chunks.flatMap Chunk.data))).1 ∧
      ∀ messages : List Json, (∀ msg ∈ messages, Plain msg) →
        chunks.flatMap Chunk.data = messages.flatMap serializeMessage →
          (LspParser.new.pushAll chunks).1 = messages := by
  have hall := pushAll_eq .new nextFrame_nil chunks
  constructor
  · rw [hall]
    rfl
  · intro messages hm hs
    rw [hall, hs]
    exact congrArg Prod.fst (drain_serialize hm)

/-- One message, cut inside its header. -/
theorem lsp_framing_cut :
    (LspParser.new.pushAll
      [.buffer ((serializeMessage (.obj [(lit "id", .num (.ofInt 1)), (lit "result", .null)])).take 9),
        .buffer ((serializeMessage (.obj [(lit "id", .num (.ofInt 1)), (lit "result", .null)])).drop 9)]).1 =
      [.obj [(lit "id", .num (.ofInt 1)), (lit "result", .null)]] := by
  have hplain : Plain (.obj [(lit "id", .num (.ofInt 1)), (lit "result", .null)]) := by
    apply Plain.obj
    · simp only [List.forall_mem_cons]
      exact ⟨.int (by decide), .null, by simp⟩
    · exact fromEntries_self (by decide) (List.forall_mem_cons.mpr ⟨by decide, by simp; decide⟩)
  apply (lsp_framing _).2
  · simpa using hplain
  · simp [Chunk.data]

end PiEnv.DevTools
