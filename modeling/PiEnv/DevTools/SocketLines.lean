import PiEnv.DevTools.LspClient
import PiEnv.DevTools.LspDaemon
import PiEnv.Lib.JsonLength
import PiEnv.Lib.JsonLines
import PiEnv.Lib.JsonRoundTrip
import PiEnv.Lib.Lines

/-!
# Lines on the daemon's socket

Requests and responses go over the socket as lines of JSON, and arrive in
whatever chunks the bytes come in. Each side keeps what follows the last line
feed; the daemon also bounds what it keeps, before it looks for lines.
-/

namespace PiEnv.DevTools.SocketLines

open Js Utf8
open LspDaemon (ConnId MAX_BUFFER_BYTES)

/-- A request or a response: an object, with its entries in their order. -/
abbrev Message := List (Str × Json)

def text (message : Message) : Str := stringify (.obj message)

def serializeRequest (req : Message) : Str := text req ++ [LF]

def serializeResponse (res : Message) : Str := text res ++ [LF]

/-- What an empty line throws is none, as what `JSON.parse` throws is. -/
def parseRequest (line : Str) : Option Json :=
  let trimmed := trim line
  if trimmed = [] then none else parse trimmed

def parseResponse (line : Str) : Option Json := LspClient.State.parseResponse line

-- -----
-- The daemon
-- -----

/-- One connection of the daemon, with what `handleRequest` was called with. -/
structure Connection where
  buf : Str
  destroyed : Bool
  handled : List Str
  deriving DecidableEq

def Connection.initial : Connection := ⟨[], false, []⟩

/-- A socket that is destroyed reports no more data. -/
def Connection.onData (s : Connection) (chunk : Str) : Connection :=
  if s.destroyed then s
  else
    let buf := s.buf ++ chunk
    if buf.length > MAX_BUFFER_BYTES then { s with buf, destroyed := true }
    else
      let lines := buf.splitOn LF
      { s with
        buf := lines.getLast?.getD []
        handled := s.handled ++ lines.dropLast.filter (trim · ≠ []) }

/-- The socket decodes what it reads. -/
def serve (chunks : List Bytes) : Connection :=
  (decodeChunks none chunks).foldl Connection.onData .initial

-- -----
-- The client
-- -----

/-- The socket of a client, with the lines it dispatched. -/
structure ClientSocket where
  buf : Str
  dispatched : List Str
  deriving DecidableEq

def ClientSocket.initial : ClientSocket := ⟨[], []⟩

def ClientSocket.onSocketData (s : ClientSocket) (chunk : Str) : ClientSocket :=
  let lines := (s.buf ++ chunk).splitOn LF
  { buf := lines.getLast?.getD []
    dispatched := s.dispatched ++ lines.dropLast.filter (trim · ≠ []) }

def receive (chunks : List Bytes) : ClientSocket :=
  (decodeChunks none chunks).foldl ClientSocket.onSocketData .initial

-- -----
-- Messages and their lines
-- -----

theorem trim_text (message : Message) : trim (text message) = text message := by
  rw [text, stringify]
  exact trim_ends (by decide) (by decide) (stringifyFields message)

theorem text_ne_nil (message : Message) : text message ≠ [] := by
  rw [text, stringify]
  simp

theorem LF_not_mem_text (message : Message) : LF ∉ text message := fun hmem =>
  absurd (List.all_eq_true.mp (printable_stringify (.obj message)) LF hmem) (by decide)

/-- A line reads back as the message it was written for. -/
theorem parse_text {message : Message} (h : Plain (.obj message)) :
    parseRequest (text message) = some (.obj message) ∧
      parseResponse (text message) = some (.obj message) := by
  have hparse : parse (text message) = some (.obj message) := parse_stringify_self h
  have hline : parseRequest (text message) = some (.obj message) := by
    simp only [parseRequest, trim_text, if_neg (text_ne_nil message), hparse]
  exact ⟨hline, hline⟩

/-- Lines that carry these messages, in their order. -/
def Carry (parseLine : Str → Option Json) (messages : List Message) (lines : List Str) : Prop :=
  List.Forall₂ (fun message line =>
    line = text message ∧ (Plain (.obj message) → parseLine line = some (.obj message)))
    messages lines

theorem Carry.of_map {parseLine : Str → Option Json} {messages : List Message}
    (h : ∀ message ∈ messages,
      Plain (.obj message) → parseLine (text message) = some (.obj message)) :
    Carry parseLine messages (messages.map text) := by
  rw [Carry, List.forall₂_map_right_iff, List.forall₂_same]
  intro message hmem
  exact ⟨rfl, h message hmem⟩

-- -----
-- What a stream of messages holds
-- -----

/-- Lines of a text that a side does not skip. -/
def filledLines (s : Str) : List Str := (Lines.whole LF s).filter (trim · ≠ [])

theorem filledLines_append (s more : Str) :
    filledLines (s ++ more) = filledLines s ++ filledLines (Lines.left LF s ++ more) := by
  rw [filledLines, Lines.whole_append, List.filter_append]
  rfl

section
variable {messages : List Message} {chunks : List Bytes}
  (h : chunks.flatten = encode (messages.flatMap fun message => text message ++ [LF]))

theorem isWellFormed_messages (messages : List Message) :
    isWellFormed (messages.flatMap fun message => text message ++ [LF]) = true := by
  induction messages with
  | nil => rfl
  | cons message rest ih =>
    rw [List.flatMap_cons]
    exact isWellFormed_append (isWellFormed_append (isWellFormed_stringify _) rfl) ih

theorem filledLines_messages (messages : List Message) :
    filledLines (messages.flatMap fun message => text message ++ [LF]) = messages.map text := by
  have hended : (messages.flatMap fun message => text message ++ [LF]) =
      Lines.ended LF (messages.map text) := by
    rw [Lines.ended, List.flatMap_map]
  rw [hended, filledLines, Lines.whole_ended, List.filter_eq_self]
  · intro line hline
    obtain ⟨message, -, rfl⟩ := List.mem_map.mp hline
    simpa [trim_text] using text_ne_nil message
  · intro line hline
    obtain ⟨message, -, rfl⟩ := List.mem_map.mp hline
    exact LF_not_mem_text message

include h

/-- However the bytes are cut, the decoder gives the text that was written. -/
theorem flatten_messages : filledLines (decodeChunks none chunks).flatten = messages.map text := by
  rw [flatten_decodeChunks, h, feed_encode (isWellFormed_messages messages), filledLines_messages]

end

-- -----
-- Runs of the daemon
-- -----

/-- No chunk makes what is kept of a line and the chunk longer together than
the daemon's bound. -/
def Fits (chunks : List Str) : Prop :=
  ∀ before chunk after, chunks = before ++ chunk :: after →
    (Lines.left LF before.flatten).length + chunk.length ≤ MAX_BUFFER_BYTES

theorem Fits.init {chunks : List Str} {chunk : Str} (h : Fits (chunks ++ [chunk])) : Fits chunks := by
  rintro before c after rfl
  exact h before c (after ++ [chunk]) (by simp)

theorem fits_concat {chunks : List Str} {chunk : Str} :
    Fits (chunks ++ [chunk]) ↔
      Fits chunks ∧ (Lines.left LF chunks.flatten).length + chunk.length ≤ MAX_BUFFER_BYTES := by
  refine ⟨fun h => ⟨h.init, h chunks chunk [] rfl⟩, fun ⟨hinit, hlast⟩ before c after he => ?_⟩
  rcases List.eq_nil_or_concat after with rfl | ⟨more, last, rfl⟩
  · obtain ⟨rfl, hc⟩ := List.append_inj' he rfl
    obtain rfl := (List.cons.inj hc).1
    exact hlast
  · have he' : chunks ++ [chunk] = (before ++ c :: more) ++ [last] := by simpa using he
    exact hinit before c more (List.append_inj' he' rfl).1

theorem onData_fits {s : Connection} {chunk : Str} (hopen : s.destroyed = false)
    (h : s.buf.length + chunk.length ≤ MAX_BUFFER_BYTES) :
    s.onData chunk =
      ⟨Lines.left LF (s.buf ++ chunk), false, s.handled ++ filledLines (s.buf ++ chunk)⟩ := by
  obtain ⟨buf, destroyed, handled⟩ := s
  obtain rfl : destroyed = false := hopen
  have hlength : ¬ (buf ++ chunk).length > MAX_BUFFER_BYTES := by
    rw [List.length_append]
    exact Nat.not_lt.mpr h
  simp only [Connection.onData, if_neg hlength, Bool.false_eq_true, if_false]
  rfl

theorem onData_exceeds {s : Connection} {chunk : Str}
    (h : MAX_BUFFER_BYTES < s.buf.length + chunk.length) : (s.onData chunk).destroyed = true := by
  unfold Connection.onData
  split
  case isTrue hdestroyed => exact hdestroyed
  case isFalse => simp [h]

theorem onData_destroyed {s : Connection} (h : s.destroyed = true) (chunk : Str) :
    (s.onData chunk).destroyed = true := by
  rw [Connection.onData, if_pos h]
  exact h

/-- A connection whose chunks fit has handled the lines that have arrived whole. -/
theorem serve_fits {chunks : List Str} (h : Fits chunks) :
    chunks.foldl Connection.onData .initial =
      ⟨Lines.left LF chunks.flatten, false, filledLines chunks.flatten⟩ := by
  induction chunks using List.reverseRecOn with
  | nil => rfl
  | append_singleton chunks chunk ih =>
    obtain ⟨hinit, hlast⟩ := fits_concat.mp h
    have hstep := onData_fits
      (s := ⟨Lines.left LF chunks.flatten, false, filledLines chunks.flatten⟩) rfl hlast
    rw [List.foldl_append, ih hinit, List.foldl_cons, List.foldl_nil, hstep, List.flatten_append,
      List.flatten_singleton, Lines.left_append chunks.flatten, filledLines_append chunks.flatten]

theorem serve_open {chunks : List Str} :
    (chunks.foldl Connection.onData .initial).destroyed = false ↔ Fits chunks := by
  refine ⟨fun h => ?_, fun h => by rw [serve_fits h]⟩
  induction chunks using List.reverseRecOn with
  | nil =>
    intro before chunk after he
    simp at he
  | append_singleton chunks chunk ih =>
    rw [List.foldl_append, List.foldl_cons, List.foldl_nil] at h
    have hinit : Fits chunks := by
      refine ih ?_
      cases hd : (chunks.foldl Connection.onData .initial).destroyed with
      | false => rfl
      | true => rw [onData_destroyed hd] at h; cases h
    refine fits_concat.mpr ⟨hinit, Nat.le_of_not_lt fun hlong => ?_⟩
    rw [onData_exceeds (by rw [serve_fits hinit]; exact hlong)] at h
    cases h

theorem handleLines_eq (s : LspDaemon.State) (c : ConnId) (lines : List Str) :
    s.handleLines c lines =
      (lines.filter (trim · ≠ [])).foldl (fun s line => s.handleRequest c line) s := by
  induction lines generalizing s with
  | nil => rfl
  | cons line lines ih =>
    rw [LspDaemon.State.handleLines]
    by_cases hblank : trim line = []
    · rw [if_pos hblank, ih, List.filter_cons_of_neg (by simpa using hblank)]
    · rw [if_neg hblank, ih, List.filter_cons_of_pos (by simpa using hblank)]
      rfl

/-- The handler of a whole daemon hands `handleRequest` what its connection does. -/
theorem handleData_eq {s : LspDaemon.State} {c : ConnId} {connection : Connection}
    (hopen : connection.destroyed = false) (hbuf : s.bufs c = connection.buf) (chunk : Str) :
    ∃ passed, (connection.onData chunk).handled = connection.handled ++ passed ∧
      s.handleData c chunk = passed.foldl (fun s line => s.handleRequest c line)
        { s with
          bufs := Function.update s.bufs c (connection.onData chunk).buf
          destroyed :=
            if (connection.onData chunk).destroyed then c :: s.destroyed else s.destroyed } := by
  obtain ⟨buf, destroyed, handled⟩ := connection
  obtain rfl : destroyed = false := hopen
  obtain rfl : s.bufs c = buf := hbuf
  by_cases hlong : (s.bufs c ++ chunk).length > MAX_BUFFER_BYTES
  · refine ⟨[], ?_, ?_⟩
    · simp only [Connection.onData, if_pos hlong, Bool.false_eq_true, if_false, List.append_nil]
    · simp only [LspDaemon.State.handleData, Connection.onData, if_pos hlong, Bool.false_eq_true,
        if_false, if_true, List.foldl_nil]
  · refine ⟨filledLines (s.bufs c ++ chunk), ?_, ?_⟩
    · simp only [Connection.onData, if_neg hlong, Bool.false_eq_true, if_false]
      rfl
    · simp only [LspDaemon.State.handleData, Connection.onData, if_neg hlong, Bool.false_eq_true,
        if_false, handleLines_eq]
      rfl

-- -----
-- Runs of the client
-- -----

theorem receive_eq (chunks : List Str) :
    chunks.foldl ClientSocket.onSocketData .initial =
      ⟨Lines.left LF chunks.flatten, filledLines chunks.flatten⟩ := by
  induction chunks using List.reverseRecOn with
  | nil => rfl
  | append_singleton chunks chunk ih =>
    rw [List.foldl_append, ih, List.foldl_cons, List.foldl_nil, List.flatten_append,
      List.flatten_singleton, Lines.left_append chunks.flatten, filledLines_append chunks.flatten]
    rfl

/-- The handler of a whole client sets out to dispatch what its socket does; a
line that is blank is dispatched to nobody. -/
theorem onSocketData_eq {s : LspClient.State} {socket : LspClient.Socket} {client : ClientSocket}
    (hsocket : s.socket = some socket) (hbuf : s.buf = client.buf) (chunk : Str) :
    (∃ lines, (client.onSocketData chunk).dispatched =
        client.dispatched ++ lines.filter (trim · ≠ []) ∧
      s.onSocketData socket chunk =
        { s with buf := (client.onSocketData chunk).buf, reading := some (socket, lines) }) ∧
      ∀ line, trim line = [] → s.dispatch socket line = s := by
  refine ⟨⟨Lines.whole LF (client.buf ++ chunk), rfl, ?_⟩, fun line hblank => ?_⟩
  · rw [LspClient.State.onSocketData, if_pos hsocket, hbuf]
    rfl
  · simp [LspClient.State.dispatch, LspClient.State.parseResponse, hblank]

-- -----
-- Framing
-- -----

/-- Every request is handed to `handleRequest`, and the connection is kept. -/
def Connection.Served (s : Connection) (requests : List Message) : Prop :=
  Carry parseRequest requests s.handled ∧ s.destroyed = false

/-- The daemon serves a stream of requests in whatever chunks it fits in, and
only in these; the client dispatches a stream of responses in any chunks. -/
theorem framing {requests responses : List Message} {sent answered : List Bytes}
    (hsent : sent.flatten = encode (requests.flatMap serializeRequest))
    (hanswered : answered.flatten = encode (responses.flatMap serializeResponse)) :
    ((serve sent).Served requests ↔ Fits (decodeChunks none sent)) ∧
      Carry parseResponse responses (receive answered).dispatched := by
  refine ⟨⟨fun hserved => serve_open.mp hserved.2, fun hfits => ⟨?_, serve_open.mpr hfits⟩⟩, ?_⟩
  · have hhandled : (serve sent).handled = requests.map text := by
      rw [serve, serve_fits hfits]
      exact flatten_messages hsent
    rw [hhandled]
    exact Carry.of_map fun _ _ hplain => (parse_text hplain).1
  · have hdispatched : (receive answered).dispatched = responses.map text := by
      rw [receive, receive_eq]
      exact flatten_messages hanswered
    rw [hdispatched]
    exact Carry.of_map fun _ _ hplain => (parse_text hplain).2

theorem fits_of_length {chunks : List Str} (h : chunks.flatten.length ≤ MAX_BUFFER_BYTES) :
    Fits chunks := by
  rintro before chunk after rfl
  have hleft := Lines.length_left LF before.flatten
  rw [List.flatten_append, List.flatten_cons, List.length_append, List.length_append] at h
  omega

def hoverRequest : Message :=
  [(lit "id", .num (.ofInt 1)), (lit "action", .str (lit "hover")), (lit "path", .str (lit "é"))]

def hoverBytes : Bytes := encode (serializeRequest hoverRequest)

/-- The bytes of one character may come in two chunks. -/
theorem framing_split :
    (serve [hoverBytes.take 34, hoverBytes.drop 34]).Served [hoverRequest] ∧
      hoverBytes.drop 34 = 0xA9 :: encode (lit "\"\x7d\n") ∧
      Carry parseResponse [hoverRequest]
        (receive [hoverBytes.take 34, hoverBytes.drop 34]).dispatched := by
  have hbytes : [hoverBytes.take 34, hoverBytes.drop 34].flatten =
      encode ([hoverRequest].flatMap serializeRequest) := by
    simp [hoverBytes]
  have hlength : (decodeChunks none [hoverBytes.take 34, hoverBytes.drop 34]).flatten.length ≤
      MAX_BUFFER_BYTES := by decide +kernel
  obtain ⟨hserved, hdispatched⟩ := framing hbytes hbytes
  exact ⟨hserved.mpr (fits_of_length hlength), by decide +kernel, hdispatched⟩

-- -----
-- A burst of requests
-- -----

/-- A query of as many letters. -/
def letters (length : Nat) : Str := List.replicate length 97

def symbolsRequest (id : Number) (query : Str) : Message :=
  [(lit "id", .num id), (lit "action", .str (lit "symbols")), (lit "query", .str query)]

def burst : List Message :=
  [symbolsRequest (.ofInt 1) (letters (65000 + 15 * 65536)),
    symbolsRequest (.ofInt 2) (letters 1000)]

def symbolsHead (id : Number) : Str :=
  lit "\x7b\"id\":" ++ id.text ++ lit ",\"action\":\"symbols\",\"query\":\""

def symbolsTail : Str := lit "\"\x7d\n"

/-- What the first reads bring: the first request, up to the end of its query. -/
def burstReads : List Str :=
  (symbolsHead (.ofInt 1) ++ letters 65000) :: List.replicate 15 (letters 65536)

/-- What the last read brings. -/
def lastRead : Str := symbolsTail ++ symbolsHead (.ofInt 2) ++ letters 1000 ++ symbolsTail

def burstPieces : List Str := burstReads ++ [lastRead]

theorem plain_letters (length : Nat) : ∀ u ∈ letters length, IsPlainAscii u := by
  intro u hu
  rw [List.eq_of_mem_replicate hu]
  exact ⟨by decide, by decide⟩

theorem isWellFormed_letters (length : Nat) : isWellFormed (letters length) = true := by
  refine isWellFormed_units fun u hu => ?_
  rw [List.eq_of_mem_replicate hu]
  exact ⟨by decide, by decide⟩

theorem LF_not_mem_letters (length : Nat) : LF ∉ letters length := fun hmem =>
  absurd (List.eq_of_mem_replicate hmem) (by decide)

theorem length_letters (length : Nat) : (letters length).length = length := List.length_replicate

theorem flatten_letters (count length : Nat) :
    (List.replicate count (letters length)).flatten = letters (count * length) :=
  List.flatten_replicate_replicate

theorem symbolsHead_spec {id : Number} (h : id = .ofInt 1 ∨ id = .ofInt 2) :
    (symbolsHead id).length = 36 ∧ LF ∉ symbolsHead id ∧ isWellFormed (symbolsHead id) = true := by
  rcases h with rfl | rfl
  · decide +kernel
  · decide +kernel

theorem symbolsTail_spec : symbolsTail.length = 3 ∧ isWellFormed symbolsTail = true := by decide

theorem serialize_symbols (id : Number) {query : Str} (h : ∀ u ∈ query, IsPlainAscii u) :
    serializeRequest (symbolsRequest id query) = symbolsHead id ++ query ++ symbolsTail := by
  have hplain : escapeUnits query = query := by simpa [escapeUnits] using escapeUnits_plain h []
  have hquery : quote query = 34 :: query ++ [34] := by rw [quote, hplain]
  have hid : quote (lit "id") = lit "\"id\"" := by decide
  have haction : quote (lit "action") = lit "\"action\"" := by decide
  have hsymbols : quote (lit "symbols") = lit "\"symbols\"" := by decide
  have hkey : quote (lit "query") = lit "\"query\"" := by decide
  simp only [serializeRequest, text, symbolsRequest, stringify, stringifyFields, hid, haction,
    hsymbols, hkey, hquery]
  simp [symbolsHead, symbolsTail, lit, units, LF]

theorem length_serialize_symbols {id : Number} (h : id = .ofInt 1 ∨ id = .ofInt 2)
    (length : Nat) : (serializeRequest (symbolsRequest id (letters length))).length = length + 39 := by
  rw [serialize_symbols id (plain_letters length), List.length_append, List.length_append,
    (symbolsHead_spec h).1, symbolsTail_spec.1, length_letters]
  omega

theorem flatten_burstReads :
    burstReads.flatten = symbolsHead (.ofInt 1) ++ letters (65000 + 15 * 65536) := by
  have happend : letters 65000 ++ letters (15 * 65536) = letters (65000 + 15 * 65536) :=
    List.replicate_append_replicate
  rw [burstReads, List.flatten_cons, flatten_letters, List.append_assoc, happend]

theorem flatten_burstPieces : burstPieces.flatten = burst.flatMap serializeRequest := by
  rw [burst, List.flatMap_cons, List.flatMap_singleton, serialize_symbols _ (plain_letters _),
    serialize_symbols _ (plain_letters _), burstPieces, List.flatten_append, List.flatten_singleton,
    flatten_burstReads, lastRead]
  simp only [List.append_assoc]

theorem isWellFormed_burstPieces : ∀ piece ∈ burstPieces, isWellFormed piece = true := by
  intro piece hpiece
  rcases List.mem_append.mp hpiece with hpiece | hpiece
  · rcases List.mem_cons.mp hpiece with rfl | hpiece
    · exact isWellFormed_append (symbolsHead_spec (.inl rfl)).2.2 (isWellFormed_letters _)
    · rw [List.eq_of_mem_replicate hpiece]
      exact isWellFormed_letters _
  · rw [List.mem_singleton.mp hpiece]
    exact isWellFormed_append (isWellFormed_append
      (isWellFormed_append symbolsTail_spec.2 (symbolsHead_spec (.inr rfl)).2.2)
      (isWellFormed_letters _)) symbolsTail_spec.2

theorem length_lastRead : lastRead.length = 1042 := by
  rw [lastRead, List.length_append, List.length_append, List.length_append, symbolsTail_spec.1,
    (symbolsHead_spec (.inr rfl)).1, length_letters]

/-- What is kept of the first request does not fit with the last read. -/
theorem not_fits_burst : ¬ Fits burstPieces := by
  intro h
  have hlast := (fits_concat.mp h).2
  have hleft : LF ∉ burstReads.flatten := by
    rw [flatten_burstReads, List.mem_append]
    exact fun hmem => hmem.elim (symbolsHead_spec (.inl rfl)).2.1 (LF_not_mem_letters _)
  have hkept : burstReads.flatten.length = 36 + (65000 + 15 * 65536) := by
    rw [flatten_burstReads, List.length_append, (symbolsHead_spec (.inl rfl)).1, length_letters]
  rw [Lines.left_of_not_mem hleft, hkept, length_lastRead, MAX_BUFFER_BYTES] at hlast
  omega

theorem length_burstPieces : ∀ piece ∈ burstPieces, piece.length ≤ 65536 := by
  intro piece hpiece
  rcases List.mem_append.mp hpiece with hpiece | hpiece
  · rcases List.mem_cons.mp hpiece with rfl | hpiece
    · rw [List.length_append, (symbolsHead_spec (.inl rfl)).1, length_letters]
      decide
    · rw [List.eq_of_mem_replicate hpiece, length_letters]
  · rw [List.mem_singleton.mp hpiece, length_lastRead]
    decide

/-- A burst of two requests within the bound, in reads of at most 64 KiB, costs
the client its connection. -/
theorem burst_destroyed :
    (∀ request ∈ burst, (serializeRequest request).length ≤ MAX_BUFFER_BYTES) ∧
      (burstPieces.map encode).flatten = encode (burst.flatMap serializeRequest) ∧
      (∀ piece ∈ burstPieces, piece.length ≤ 65536) ∧
      ¬ (serve (burstPieces.map encode)).Served burst := by
  refine ⟨fun request hrequest => ?_, ?_, length_burstPieces, fun hserved => ?_⟩
  · rcases List.mem_cons.mp hrequest with rfl | hrequest
    · rw [length_serialize_symbols (.inl rfl)]
      decide
    · rw [List.mem_singleton.mp hrequest, length_serialize_symbols (.inr rfl)]
      decide
  · rw [flatten_encode isWellFormed_burstPieces, flatten_burstPieces]
  · have hopen := hserved.2
    rw [serve, decodeChunks_encode isWellFormed_burstPieces, serve_open] at hopen
    exact not_fits_burst hopen

end PiEnv.DevTools.SocketLines
