import PiEnv.Lib.JsonText
import PiEnv.Lib.Utf8

/-!
# Frames of the runtime bus

Requests come in as lines of strict JSON. A connection keeps what it has
received up to the last line feed, in whatever chunks the bytes arrive, and
takes nothing more after its first error.
-/

namespace PiEnv.SessionManager.RuntimeBus

open Js Utf8

def MAX_FRAME_BYTES : Nat := 64 * 1024
def MAX_BUFFER_BYTES : Nat := MAX_FRAME_BYTES + 1

-- -----
-- Requests
-- -----

structure ReadyPublication where
  sessionId : Str
  runtimeId : Str
  launchId : Str
  windowId : Str
  deriving DecidableEq, Repr

/-- A method with its parameters, and the idempotency key of one that mutates. -/
inductive RuntimeCall where
  | ping
  | reconcile (idempotencyKey : Str)
  | publishReady (idempotencyKey : Str) (params : ReadyPublication)
  deriving DecidableEq, Repr

def isHexDigit (u : UInt16) : Bool :=
  isDigit u || (97 ≤ u && u ≤ 102) || (65 ≤ u && u ≤ 70)

/-- What stands at a place of a UUID. -/
def uuidUnit (u : UInt16) : Nat → Bool
  | 8 | 13 | 18 | 23 => u = 45
  | 14 => 49 ≤ u && u ≤ 56
  | 19 => u = 56 || u = 57 || u = 97 || u = 98 || u = 65 || u = 66
  | _ => isHexDigit u

def uuid (value : Str) : Bool :=
  value.length = 36 && value.zipIdx.all fun (u, i) => uuidUnit u i

structure RuntimeRequest where
  workspaceId : Str
  coordinatorSessionId : Str
  requestId : Str
  deadline : Number
  call : RuntimeCall
  identified : uuid requestId = true
  deriving DecidableEq

/-- `/^[0-9a-f]{64}$/` -/
def isWorkspaceId (value : Str) : Bool :=
  value.length = 64 && value.all fun u => isDigit u || (97 ≤ u && u ≤ 102)

def safeText (value : Str) (maximum : Nat) : Bool :=
  0 < byteLength value && byteLength value ≤ maximum && !value.any fun u => u = 0 || u = 13 || u = 10

/-- The fields of an object that has no others. -/
def strictFields (allowed : List Str) : Json → Option (List (Str × Json))
  | .obj fields => if fields.all (allowed.contains ·.1) then some fields else none
  | _ => none

def stringField (fields : List (Str × Json)) (key : Str) : Option Str :=
  match field fields key with
  | some (.str value) => some value
  | _ => none

def parseReadyPublication (value : Json) : Option ReadyPublication := do
  let fields ← strictFields [lit "sessionId", lit "runtimeId", lit "launchId", lit "windowId"] value
  let sessionId ← stringField fields (lit "sessionId")
  let runtimeId ← stringField fields (lit "runtimeId")
  let launchId ← stringField fields (lit "launchId")
  let windowId ← stringField fields (lit "windowId")
  if safeText sessionId 256 && safeText runtimeId 256 && safeText launchId 256 &&
      safeText windowId 256 then
    some ⟨sessionId, runtimeId, launchId, windowId⟩
  else none

def parseEmptyParams : Json → Option Unit
  | .obj [] => some ()
  | _ => none

/-- The key of a request that mutates; there has to be one. -/
def idempotencyKeyOf (fields : List (Str × Json)) : Option Str := do
  let key ← stringField fields (lit "idempotencyKey")
  if safeText key 256 then some key else none

def parseCall (fields : List (Str × Json)) (method : Str) (params : Json) : Option RuntimeCall :=
  if method = lit "ping" then
    match field fields (lit "idempotencyKey") with
    | none => (parseEmptyParams params).map fun _ => .ping
    | some _ => none
  else if method = lit "publish-ready" then do
    let key ← idempotencyKeyOf fields
    (parseReadyPublication params).map (.publishReady key)
  else if method = lit "reconcile" then do
    let key ← idempotencyKeyOf fields
    (parseEmptyParams params).map fun _ => .reconcile key
  else none

def isOne : Option Json → Bool
  | some (.num number) => number = .ofInt 1
  | _ => false

def numberField (fields : List (Str × Json)) (key : Str) : Option Number :=
  match field fields key with
  | some (.num value) => some value
  | _ => none

def parseRequest (value : Json) : Option RuntimeRequest := do
  let fields ← strictFields [lit "version", lit "type", lit "workspaceId",
    lit "coordinatorSessionId", lit "requestId", lit "deadline", lit "method",
    lit "idempotencyKey", lit "params"] value
  let type ← stringField fields (lit "type")
  let workspaceId ← stringField fields (lit "workspaceId")
  let coordinatorSessionId ← stringField fields (lit "coordinatorSessionId")
  let requestId ← stringField fields (lit "requestId")
  let deadline ← numberField fields (lit "deadline")
  let method ← stringField fields (lit "method")
  let params ← field fields (lit "params")
  if isOne (field fields (lit "version")) && type = lit "request" && isWorkspaceId workspaceId &&
      safeText coordinatorSessionId 256 then
    if identified : uuid requestId = true then
      (parseCall fields method params).map fun call =>
        ⟨workspaceId, coordinatorSessionId, requestId, deadline, call, identified⟩
    else none
  else none

/-- `new TextDecoder("utf-8", { fatal: true }).decode(bytes)`: what is not well
formed would not be written back as it was, and a leading mark is dropped. -/
def fatalDecode (bytes : Bytes) : Option Str :=
  let text := decode bytes
  if encode text = bytes then
    match text with
    | 0xFEFF :: rest => some rest
    | _ => some text
  else none

def decodeFrame (frame : Bytes) : Option RuntimeRequest := do
  let text ← fatalDecode frame
  let value ← parse text
  parseRequest value

-- -----
-- Connections
-- -----

def newline : UInt8 := 10

def isInvalidFrame (frame : Bytes) : Bool :=
  frame.length = 0 || frame.length > MAX_FRAME_BYTES || frame.contains 0

/-- What `acceptRequest` does with a request: it may also throw, which ends the
process. -/
inductive Verdict where
  | accepted
  | refused
  | threw
  deriving DecidableEq, Repr

/-- The receiving side of a connection. -/
structure Receiver where
  buffer : Bytes
  closed : Bool
  crashed : Bool
  /-- The frames that were decoded. -/
  handed : List Bytes
  accepted : List RuntimeRequest

def Receiver.initial : Receiver := ⟨[], false, false, [], []⟩

section
variable (verdict : List RuntimeRequest → RuntimeRequest → Verdict)

/-- One frame of a connection that is open. -/
def Receiver.onFrame (r : Receiver) (frame : Bytes) : Receiver :=
  if isInvalidFrame frame then { r with closed := true }
  else
    let r := { r with handed := r.handed ++ [frame] }
    match decodeFrame frame with
    | none => { r with closed := true }
    | some request =>
      match verdict r.accepted request with
      | .accepted => { r with accepted := r.accepted ++ [request] }
      | .refused => { r with closed := true }
      | .threw => { r with crashed := true }

def Receiver.isOpen (r : Receiver) : Bool := !r.closed && !r.crashed

/-- The loop over the frames in the buffer; each takes a line feed from it. -/
def Receiver.drain : Nat → Receiver → Receiver
  | 0, r => r
  | fuel + 1, r =>
    match r.buffer.dropWhile (· ≠ newline) with
    | [] => r
    | _ :: rest =>
      let frame := r.buffer.takeWhile (· ≠ newline)
      let r := { r with buffer := rest }.onFrame verdict frame
      if r.isOpen then r.drain fuel else r

def Receiver.onData (r : Receiver) (chunk : Bytes) : Receiver :=
  if !r.isOpen then r
  else
    let r := { r with buffer := r.buffer ++ chunk }
    if r.buffer.length > MAX_BUFFER_BYTES && !r.buffer.contains newline then
      { r with closed := true }
    else
      let r := r.drain verdict (r.buffer.length + 1)
      if r.isOpen && r.buffer.length > MAX_BUFFER_BYTES then { r with closed := true } else r

def receiveAll (chunks : List Bytes) : Receiver :=
  chunks.foldl (Receiver.onData verdict) .initial

-- -----
-- What is accepted
-- -----

/-- The lines of a stream that have ended. -/
def completeFrames (bytes : Bytes) : List Bytes := (bytes.splitOn newline).dropLast

/-- The requests of frames up to the first that is not accepted, behind those
accepted before. -/
def requestsOf (accepted : List RuntimeRequest) : List Bytes → List RuntimeRequest
  | [] => accepted
  | frame :: rest =>
    if isInvalidFrame frame then accepted
    else
      match decodeFrame frame with
      | none => accepted
      | some request =>
        match verdict accepted request with
        | .accepted => requestsOf (accepted ++ [request]) rest
        | _ => accepted

end

variable {verdict : List RuntimeRequest → RuntimeRequest → Verdict} {r : Receiver}
  {frame rest bytes : Bytes} {accepted : List RuntimeRequest}

theorem splitOn_none (hbytes : newline ∉ bytes) : bytes.splitOn newline = [bytes] := by
  rw [List.splitOn_eq_splitOnP, List.splitOnP_eq_singleton]
  intro b hb
  simpa using fun h : b = newline => hbytes (h ▸ hb)

theorem completeFrames_frame (hframe : newline ∉ frame) :
    completeFrames (frame ++ newline :: rest) = frame :: completeFrames rest := by
  unfold completeFrames
  rw [List.splitOn_append_cons_self, splitOn_none hframe, List.singleton_append,
    List.dropLast_cons_of_ne_nil (List.splitOn_ne_nil _ _)]

theorem completeFrames_none (hbytes : newline ∉ bytes) : completeFrames bytes = [] := by
  rw [completeFrames, splitOn_none hbytes]
  rfl

/-- The first line of a buffer, and what follows it. -/
theorem takeLine (h : bytes.dropWhile (· ≠ newline) = b :: rest) :
    bytes = bytes.takeWhile (· ≠ newline) ++ newline :: rest ∧
      newline ∉ bytes.takeWhile (· ≠ newline) := by
  have hb : b = newline := by
    have hhead := List.head?_dropWhile_not (· ≠ newline) bytes
    rw [h] at hhead
    simpa using hhead
  refine ⟨?_, fun hmem => ?_⟩
  · conv => lhs; rw [← List.takeWhile_append_dropWhile (p := (· ≠ newline)) (l := bytes)]
    rw [h, hb]
  · simpa using List.mem_takeWhile_imp hmem

theorem noLine (h : bytes.dropWhile (· ≠ newline) = []) : newline ∉ bytes := by
  intro hmem
  have := List.dropWhile_eq_nil_iff.mp h newline hmem
  simp at this

theorem requestsOf_invalid {frames : List Bytes} (h : isInvalidFrame frame = true) :
    requestsOf verdict accepted (frame :: frames) = accepted := by
  simp [requestsOf, h]

/-- A line that is too long is invalid wherever it ends. -/
theorem requestsOf_long (hlong : bytes.length > MAX_FRAME_BYTES) (hbytes : newline ∉ bytes)
    (more : Bytes) :
    requestsOf verdict accepted (completeFrames (bytes ++ more)) = accepted := by
  cases hmore : more.dropWhile (· ≠ newline) with
  | nil =>
    have hnone : newline ∉ bytes ++ more := by
      rw [List.mem_append]
      exact fun h => h.elim hbytes (noLine hmore)
    rw [completeFrames_none hnone]
    rfl
  | cons b rest =>
    obtain ⟨hsplit, hline⟩ := takeLine hmore
    have hframe : newline ∉ bytes ++ more.takeWhile (· ≠ newline) := by
      rw [List.mem_append]
      exact fun h => h.elim hbytes hline
    rw [hsplit, ← List.append_assoc, completeFrames_frame hframe]
    refine requestsOf_invalid ?_
    have hlength : (bytes ++ more.takeWhile (· ≠ newline)).length > MAX_FRAME_BYTES := by
      rw [List.length_append]
      omega
    rw [isInvalidFrame, decide_eq_true hlength, Bool.or_true, Bool.true_or]

-- -----
-- Steps of a receiver
-- -----

/-- What is still to come of a stream: nothing at a receiver that has stopped,
and otherwise the lines that its buffer begins. -/
def Receiver.Continues (verdict : List RuntimeRequest → RuntimeRequest → Verdict) (r : Receiver)
    (bytes : Bytes) : Prop :=
  ∀ more, requestsOf verdict [] (completeFrames (bytes ++ more)) =
    if r.isOpen then requestsOf verdict r.accepted (completeFrames (r.buffer ++ more)) else r.accepted

theorem Receiver.Continues.onFrame (hframe : newline ∉ frame)
    (h : ({ r with buffer := frame ++ newline :: rest } : Receiver).Continues verdict bytes)
    (hopen : r.isOpen = true) :
    (({ r with buffer := rest } : Receiver).onFrame verdict frame).Continues verdict bytes := by
  intro more
  have hmore := h more
  rw [show ({ r with buffer := frame ++ newline :: rest } : Receiver).isOpen = true from hopen,
    if_pos rfl, List.append_assoc, List.cons_append, completeFrames_frame hframe] at hmore
  obtain ⟨hclosed, hcrashed⟩ : r.closed = false ∧ r.crashed = false := by
    simpa [Receiver.isOpen] using hopen
  rw [hmore, requestsOf, Receiver.onFrame]
  by_cases hinvalid : isInvalidFrame frame = true
  · simp [hinvalid, Receiver.isOpen]
  · cases hdecoded : decodeFrame frame with
    | none => simp [hinvalid, Receiver.isOpen]
    | some request =>
      cases hverdict : verdict r.accepted request <;>
        simp [hinvalid, hverdict, Receiver.isOpen, hclosed, hcrashed]

theorem Receiver.onFrame_buffer : (r.onFrame verdict frame).buffer = r.buffer := by
  unfold Receiver.onFrame
  split
  · rfl
  · simp only
    split
    · rfl
    · split <;> rfl

theorem Receiver.onFrame_handed (hhanded : ∀ f ∈ r.handed, isInvalidFrame f = false) :
    ∀ f ∈ (r.onFrame verdict frame).handed, isInvalidFrame f = false := by
  unfold Receiver.onFrame
  split
  · exact hhanded
  case isFalse hvalid =>
    have hall : ∀ f ∈ r.handed ++ [frame], isInvalidFrame f = false := by
      intro f hf
      rcases List.mem_append.mp hf with hf | hf
      · exact hhanded f hf
      · rw [List.mem_singleton.mp hf]
        exact Bool.eq_false_iff.mpr hvalid
    simp only
    split
    · exact hall
    · split <;> exact hall

/-- What a receiver keeps of the bytes it has received. -/
structure Receiver.Received (verdict : List RuntimeRequest → RuntimeRequest → Verdict) (r : Receiver)
    (bytes : Bytes) : Prop where
  continues : r.Continues verdict bytes
  handed : ∀ frame ∈ r.handed, isInvalidFrame frame = false

theorem Receiver.Received.drain {fuel : Nat} (h : r.Received verdict bytes) (hopen : r.isOpen = true) :
    (r.drain verdict fuel).Received verdict bytes := by
  induction fuel generalizing r with
  | zero => exact h
  | succ fuel ih =>
    unfold Receiver.drain
    split
    · exact h
    case h_2 b rest hline =>
      obtain ⟨hsplit, hframe⟩ := takeLine hline
      have hbefore : ({ r with buffer := r.buffer.takeWhile (· ≠ newline) ++ newline :: rest } :
          Receiver).Continues verdict bytes := by
        rw [← hsplit]
        exact h.continues
      have hnext : (({ r with buffer := rest } : Receiver).onFrame verdict
          (r.buffer.takeWhile (· ≠ newline))).Received verdict bytes :=
        ⟨hbefore.onFrame hframe hopen, Receiver.onFrame_handed h.handed⟩
      simp only
      split
      case isTrue hstill => exact ih hnext hstill
      case isFalse => exact hnext

/-- The loop leaves no line in the buffer of a receiver that stays open. -/
theorem Receiver.drain_noLine {fuel : Nat} (hfuel : r.buffer.length < fuel)
    (hopen : (r.drain verdict fuel).isOpen = true) : newline ∉ (r.drain verdict fuel).buffer := by
  induction fuel generalizing r with
  | zero => exact absurd hfuel (Nat.not_lt_zero _)
  | succ fuel ih =>
    unfold Receiver.drain at hopen ⊢
    split
    case h_1 hnone => exact noLine hnone
    case h_2 b rest hline =>
      have hlength := congrArg List.length (takeLine hline).1
      rw [List.length_append, List.length_cons] at hlength
      simp only [hline] at hopen ⊢
      split
      case isTrue hstill =>
        rw [if_pos hstill] at hopen
        refine ih ?_ hopen
        rw [Receiver.onFrame_buffer]
        show rest.length < fuel
        omega
      case isFalse hstill =>
        rw [if_neg hstill] at hopen
        exact absurd hopen hstill

theorem Receiver.Received.closes (h : r.Received verdict bytes) (hnone : newline ∉ r.buffer)
    (hlong : r.buffer.length > MAX_FRAME_BYTES) :
    ({ r with closed := true } : Receiver).Received verdict bytes := by
  refine ⟨fun more => ?_, h.handed⟩
  rw [h.continues more]
  split
  · rw [requestsOf_long hlong hnone]
    simp [Receiver.isOpen]
  · simp [Receiver.isOpen]

theorem Receiver.Received.append {chunk : Bytes} (h : r.Received verdict bytes) :
    ({ r with buffer := r.buffer ++ chunk } : Receiver).Received verdict (bytes ++ chunk) := by
  refine ⟨fun more => ?_, h.handed⟩
  show _ = if r.isOpen then requestsOf verdict r.accepted (completeFrames (r.buffer ++ chunk ++ more))
    else r.accepted
  rw [List.append_assoc, List.append_assoc, h.continues (chunk ++ more)]

theorem Receiver.onData_of_not_open {chunk : Bytes} (h : r.isOpen = false) :
    r.onData verdict chunk = r := by
  rw [Receiver.onData, h, Bool.not_false, if_pos rfl]

/-- A chunk is received, and leaves no line in the buffer. -/
theorem Receiver.Received.onData {chunk : Bytes} (h : r.Received verdict bytes) :
    (r.onData verdict chunk).Received verdict (bytes ++ chunk) ∧
      ((r.onData verdict chunk).isOpen = true → newline ∉ (r.onData verdict chunk).buffer) := by
  cases hopen : r.isOpen with
  | false =>
    rw [Receiver.onData_of_not_open hopen]
    refine ⟨⟨fun more => ?_, h.handed⟩, fun hstill => absurd (hopen.symm.trans hstill) nofun⟩
    rw [List.append_assoc, h.continues (chunk ++ more), hopen]
    rfl
  | true =>
    let received : Receiver := { r with buffer := r.buffer ++ chunk }
    have happended : received.Received verdict (bytes ++ chunk) := h.append
    have hframe : MAX_FRAME_BYTES < MAX_BUFFER_BYTES := Nat.lt_succ_self _
    rw [Receiver.onData, hopen, Bool.not_true, if_neg Bool.false_ne_true]
    simp only
    split
    case isTrue hlarge =>
      simp only [gt_iff_lt, Bool.and_eq_true, decide_eq_true_eq, Bool.not_eq_true',
        List.contains_eq_mem, decide_eq_false_iff_not] at hlarge
      exact ⟨happended.closes hlarge.2 (Nat.lt_trans hframe hlarge.1), fun hstill => nomatch hstill⟩
    case isFalse =>
      have hdrained : (received.drain verdict (received.buffer.length + 1)).Received verdict
          (bytes ++ chunk) := happended.drain hopen
      have hnone : (received.drain verdict (received.buffer.length + 1)).isOpen = true →
          newline ∉ (received.drain verdict (received.buffer.length + 1)).buffer :=
        Receiver.drain_noLine (Nat.lt_succ_self _)
      split
      case isTrue hlarge =>
        simp only [gt_iff_lt, Bool.and_eq_true, decide_eq_true_eq] at hlarge
        refine ⟨hdrained.closes (hnone hlarge.1) (Nat.lt_trans hframe hlarge.2), fun hstill => ?_⟩
        simp [Receiver.isOpen] at hstill
      case isFalse => exact ⟨hdrained, hnone⟩

-- -----
-- Streams
-- -----

theorem received_initial : Receiver.initial.Received verdict [] :=
  ⟨fun _ => rfl, fun _ h => absurd h List.not_mem_nil⟩

theorem receiveAll_received (chunks : List Bytes) :
    (receiveAll verdict chunks).Received verdict chunks.flatten ∧
      ((receiveAll verdict chunks).isOpen = true →
        newline ∉ (receiveAll verdict chunks).buffer) := by
  induction chunks using List.reverseRecOn with
  | nil => exact ⟨received_initial, fun _ => List.not_mem_nil⟩
  | append_singleton chunks chunk ih =>
    rw [receiveAll, List.foldl_append, List.flatten_append, List.flatten_singleton]
    exact ih.1.onData

theorem foldl_of_not_open {chunks : List Bytes} (h : r.isOpen = false) :
    chunks.foldl (Receiver.onData verdict) r = r := by
  induction chunks with
  | nil => rfl
  | cons chunk rest ih =>
    rw [List.foldl_cons, Receiver.onData_of_not_open h]
    exact ih

/-- The requests a connection accepts are those of its bytes, in whatever chunks
they come; frames that are empty, too long or hold a NUL are not decoded; and
after an error nothing more is accepted. -/
theorem framing_independent (verdict : List RuntimeRequest → RuntimeRequest → Verdict) :
    (∀ chunks, (receiveAll verdict chunks).accepted =
      requestsOf verdict [] (completeFrames chunks.flatten)) ∧
    (∀ chunks, ∀ frame ∈ (receiveAll verdict chunks).handed,
      frame ≠ [] ∧ 0 ∉ frame ∧ frame.length ≤ MAX_FRAME_BYTES) ∧
    ∀ chunks more, (receiveAll verdict chunks).closed = true →
      (receiveAll verdict (chunks ++ more)).accepted = (receiveAll verdict chunks).accepted := by
  refine ⟨fun chunks => ?_, fun chunks frame hframe => ?_, fun chunks more hclosed => ?_⟩
  · obtain ⟨hreceived, hnone⟩ :
        (receiveAll verdict chunks).Received verdict chunks.flatten ∧
          ((receiveAll verdict chunks).isOpen = true →
            newline ∉ (receiveAll verdict chunks).buffer) := receiveAll_received chunks
    have hstream := hreceived.continues []
    rw [List.append_nil, List.append_nil] at hstream
    rw [hstream]
    split
    case isTrue hopen => rw [completeFrames_none (hnone hopen)]; rfl
    case isFalse => rfl
  · have hvalid := (receiveAll_received chunks).1.handed frame hframe
    simp only [isInvalidFrame, Bool.or_eq_false_iff, decide_eq_false_iff_not,
      List.contains_eq_mem] at hvalid
    exact ⟨fun h => hvalid.1.1 (h ▸ rfl), hvalid.2, Nat.not_lt.mp hvalid.1.2⟩
  · have hnot : (receiveAll verdict chunks).isOpen = false := by
      rw [Receiver.isOpen, hclosed]
      rfl
    rw [receiveAll, List.foldl_append]
    exact congrArg Receiver.accepted (foldl_of_not_open hnot)

end PiEnv.SessionManager.RuntimeBus
