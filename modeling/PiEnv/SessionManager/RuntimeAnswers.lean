import PiEnv.SessionManager.RuntimeBus

/-!
# Answers of the runtime bus

Every request that is admitted is answered once, or its connection has ended.
The table of idempotency keys throws on a conflict before there is a promise
whose failure could be written.
-/

namespace PiEnv.SessionManager.RuntimeBus

open Js Utf8
open Transitions (run)

-- -----
-- Error frames
-- -----

theorem uuid_length {value : Str} (h : uuid value = true) : value.length = 36 := by
  unfold uuid at h
  rw [Bool.and_eq_true, decide_eq_true_eq] at h
  exact h.1

theorem boundedReason_length (message : Str) : (boundedReason message).length ≤ 2048 := by
  refine Nat.le_trans (length_decode _) ?_
  rw [List.length_take]
  exact Nat.min_le_left _ _

/-- The frame of a failure is small enough. -/
theorem failure_fits {config : Config} {requestId message : Str} (h : requestId.length = 36) :
    (Response.mk requestId (.error (requestFailed message))).fits config = true := by
  have hcode : (requestFailed message).code.length ≤ 19 := by
    unfold requestFailed
    simp only
    split <;> decide
  have hmessage : (requestFailed message).message.length ≤ 2048 := boundedReason_length message
  have hruntime := uuid_length config.generated
  have hversion := fieldBytes_num (lit "version") (.ofInt 1)
  have htype := fieldBytes_str (lit "type") (lit "response")
  have hrequest := fieldBytes_str (lit "requestId") requestId
  have hcoordinator := fieldBytes_str (lit "coordinatorRuntimeId") config.runtimeId
  have hok : fieldBytes (lit "ok", .bool false) = 21 := by decide
  have herror := byteLength_object [(lit "code", .str (requestFailed message).code),
    (lit "message", .str (requestFailed message).message)]
  have hcodeField := fieldBytes_str (lit "code") (requestFailed message).code
  have hmessageField := fieldBytes_str (lit "message") (requestFailed message).message
  have htotal := byteLength_object [(lit "version", .num (.ofInt 1)),
    (lit "type", .str (lit "response")), (lit "requestId", .str requestId),
    (lit "coordinatorRuntimeId", .str config.runtimeId), (lit "ok", .bool false),
    (lit "error", .obj [(lit "code", .str (requestFailed message).code),
      (lit "message", .str (requestFailed message).message)])]
  have hlengths : (lit "version").length = 7 ∧ (lit "type").length = 4 ∧
      (lit "response").length = 8 ∧ (lit "requestId").length = 9 ∧
      (lit "coordinatorRuntimeId").length = 20 ∧ (lit "code").length = 4 ∧
      (lit "message").length = 7 ∧ (lit "error").length = 5 := by decide
  have herrorField : fieldBytes (lit "error", .obj [(lit "code", .str (requestFailed message).code),
      (lit "message", .str (requestFailed message).message)]) =
        6 * (lit "error").length + 4 + byteLength (stringify (.obj [
          (lit "code", .str (requestFailed message).code),
          (lit "message", .str (requestFailed message).message)])) := rfl
  simp only [List.map_cons, List.map_nil, List.sum_cons, List.sum_nil] at herror htotal
  have hmax : MAX_FRAME_BYTES = 65536 := rfl
  refine decide_eq_true ?_
  show byteLength (stringify (.obj _)) ≤ MAX_FRAME_BYTES
  simp only [List.cons_append, List.nil_append]
  omega

/-- Every settled promise has an answer. -/
theorem answer_some {config : Config} {requestId : Str} (h : requestId.length = 36)
    (settled : Except Str Json) :
    ∃ response, answer config requestId settled = some response ∧ response.requestId = requestId := by
  unfold answer
  simp only [failure_fits h, if_true]
  cases settled with
  | error message => exact ⟨_, rfl, rfl⟩
  | ok result =>
    simp only
    split
    · exact ⟨_, rfl, rfl⟩
    · exact ⟨_, rfl, rfl⟩

-- -----
-- Answers
-- -----

/-- The requests of a connection that are in flight. -/
def State.inFlightOf (s : State) (c : Nat) : Nat :=
  s.admitted.countP fun request => request.connection = c && request.stage ≠ .finished

/-- One response with the id of the request, unless its connection had ended. -/
def AnsweredOnce (s : State) (request : Admitted) : Prop :=
  (∃ response, request.responses = [response] ∧ response.requestId = request.requestId) ∨
    (request.responses = [] ∧
      ∃ connection, s.connections request.connection = some connection ∧ connection.ended = true)

/-- The bus lives, counts what is in flight, and each admitted request has its
answer, or waits for a handler, or can go on. -/
structure Answers (config : Config) (s : State) : Prop where
  alive : s.crashed = false
  counted : ∀ c connection, s.connections c = some connection → connection.closed = false →
    connection.inFlight = s.inFlightOf c
  waiting : ∀ (i : Nat) request, s.admitted[i]? = some request → request.stage = .waiting →
    request.responses = [] ∧
      ((∃ (j : Nat) (run : Run), request.promise = .run j ∧ s.runs[j]? = some run ∧ run.outcome = none) ∨
        ∃ s', step config s (.respond i) = some s')
  writing : ∀ (i : Nat) request, s.admitted[i]? = some request → request.stage = .writing →
    AnsweredOnce s request ∧ ∃ s', step config s (.flushed i) = some s'
  finished : ∀ (i : Nat) request, s.admitted[i]? = some request → request.stage = .finished →
    AnsweredOnce s request

/-- The key of a call is held with other parameters. -/
def Conflicts (s : State) (call : RuntimeCall) (now : Nat) : Prop :=
  ∃ key entry, call.idempotencyKey = some key ∧ s.cache.get key = some entry ∧
    now < entry.expiresAt ∧ entry.digest ≠ call.digest

/-- Identity, deadline and load are accepted, on a connection that still takes requests. -/
structure Admits (config : Config) (connection : Connection) (request : RuntimeRequest) (now : Nat) :
    Prop where
  notClosed : connection.closed = false
  notEnded : connection.ended = false
  accepted : refusal config request now = none
  load : connection.inFlight < MAX_IN_FLIGHT

/-- A step keeps the promises of the bus. -/
structure Answered (config : Config) (s : State) (event : Event) (s' : State) : Prop where
  answers : Answers config s'
  /-- A request that is in conflict is admitted to be answered so. -/
  conflict : ∀ c request now connection, event = .request c request now →
    s.connections c = some connection → Admits config connection request now →
    Conflicts s request.call now → ∃ promise,
      s'.admitted = s.admitted ++ [⟨c, request.requestId, promise, .waiting, []⟩] ∧
        s'.settled promise = some (.error (lit "IdempotencyConflict"))

/-- A request that is admitted finds its key free, or held with its parameters. -/
def Consistent (config : Config) (s : State) : Event → Prop
  | .request c request now => ∀ connection, s.connections c = some connection →
      Admits config connection request now → ¬ Conflicts s request.call now
  | _ => True

variable {config : Config} {s s' : State} {event : Event}

-- -----
-- What every step keeps
-- -----

structure Tracked (s : State) : Prop where
  counted : ∀ c connection, s.connections c = some connection → connection.closed = false →
    connection.inFlight = s.inFlightOf c
  known : ∀ request ∈ s.admitted, ∃ connection, s.connections request.connection = some connection
  identified : ∀ request ∈ s.admitted, request.requestId.length = 36
  waiting : ∀ request ∈ s.admitted, request.stage = .waiting → request.responses = []
  answered : ∀ request ∈ s.admitted, request.stage ≠ .waiting → AnsweredOnce s request
  promised : ∀ request ∈ s.admitted, ∀ j, request.promise = .run j → j < s.runs.length
  cached : ∀ key entry, s.cache.get key = some entry → entry.run < s.runs.length

theorem tracked_initial : Tracked State.initial :=
  ⟨nofun, nofun, nofun, nofun, nofun, nofun, nofun⟩

theorem AnsweredOnce.mono {request : Admitted}
    (hended : ∀ connection, s.connections request.connection = some connection →
      connection.ended = true → ∃ connection', s'.connections request.connection = some connection' ∧
        connection'.ended = true) (h : AnsweredOnce s request) : AnsweredOnce s' request := by
  rcases h with h | ⟨hnone, connection, hconnection, hended'⟩
  · exact .inl h
  · exact .inr ⟨hnone, hended connection hconnection hended'⟩

/-- A connection is replaced by one that has ended if it had, and that counts the
same while it is not closed. -/
theorem Tracked.setConnection (h : Tracked s) {c : Nat} {connection connection' : Connection}
    (hc : s.connections c = some connection)
    (hcount : connection'.closed = false →
      connection.closed = false ∧ connection'.inFlight = connection.inFlight)
    (hended : connection.ended = true → connection'.ended = true) :
    Tracked (s.setConnection c connection') := by
  refine ⟨fun d found hd hclosed => ?_, fun request hrequest => ?_, h.identified, h.waiting,
    fun request hrequest hstage => ?_, h.promised, h.cached⟩
  · by_cases hdc : d = c
    · subst hdc
      obtain rfl : connection' = found := by simpa [State.setConnection] using hd
      obtain ⟨hopen, hsame⟩ := hcount hclosed
      exact hsame.trans (h.counted d connection hc hopen)
    · exact h.counted d found (by simpa [State.setConnection, hdc] using hd) hclosed
  · by_cases hdc : request.connection = c
    · exact ⟨connection', by simp [State.setConnection, hdc]⟩
    · obtain ⟨found, hfound⟩ := h.known request hrequest
      exact ⟨found, by simp [State.setConnection, hdc, hfound]⟩
  · refine (h.answered request hrequest hstage).mono fun found hfound hfoundEnded => ?_
    by_cases hdc : request.connection = c
    · obtain rfl : connection = found := Option.some.inj (hc.symm.trans (hdc ▸ hfound))
      exact ⟨connection', by simp [State.setConnection, hdc], hended hfoundEnded⟩
    · exact ⟨found, by simp [State.setConnection, hdc, hfound], hfoundEnded⟩

theorem Tracked.connect (h : Tracked s) {c : Nat} (hc : s.connections c = none) :
    Tracked (s.setConnection c ⟨false, false, 0, []⟩) := by
  have hother : ∀ request ∈ s.admitted, request.connection ≠ c := by
    intro request hrequest heq
    obtain ⟨connection, hconnection⟩ := h.known request hrequest
    rw [heq, hc] at hconnection
    exact absurd hconnection nofun
  refine ⟨fun d found hd hclosed => ?_, fun request hrequest => ?_, h.identified, h.waiting,
    fun request hrequest hstage => ?_, h.promised, h.cached⟩
  · by_cases hdc : d = c
    · subst hdc
      obtain rfl : Connection.mk false false 0 [] = found := by
        simpa [State.setConnection] using hd
      refine (List.countP_eq_zero.mpr fun request hrequest => ?_).symm
      simp [hother request hrequest]
    · exact h.counted d found (by simpa [State.setConnection, hdc] using hd) hclosed
  · obtain ⟨found, hfound⟩ := h.known request hrequest
    exact ⟨found, by simp [State.setConnection, hother request hrequest, hfound]⟩
  · refine (h.answered request hrequest hstage).mono fun found hfound hfoundEnded => ?_
    exact ⟨found, by simp [State.setConnection, hother request hrequest, hfound], hfoundEnded⟩

/-- A request is admitted: its connection counts one more. -/
theorem Tracked.take (h : Tracked s) {c now : Nat} {connection : Connection} {requestId : Str}
    {promise : Promise} {cache : JsMap Str Entry} {runs : List Run}
    (hc : s.connections c = some connection) (hid : requestId.length = 36)
    (hruns : s.runs.length ≤ runs.length) (hpromise : ∀ j, promise = .run j → j < runs.length)
    (hcache : ∀ key entry, cache.get key = some entry → entry.run < runs.length) :
    Tracked { s.setConnection c { connection with inFlight := connection.inFlight + 1 } with
      now, cache, runs, admitted := s.admitted ++ [⟨c, requestId, promise, .waiting, []⟩] } := by
  have hmem : ∀ {request : Admitted}, request ∈ s.admitted ++ [⟨c, requestId, promise, .waiting, []⟩] →
      request ∈ s.admitted ∨ request = ⟨c, requestId, promise, .waiting, []⟩ := by
    intro request hrequest
    rcases List.mem_append.mp hrequest with hold | hnew
    · exact .inl hold
    · exact .inr (List.mem_singleton.mp hnew)
  refine ⟨fun d found hd hclosed => ?_, fun request hrequest => ?_, fun request hrequest => ?_,
    fun request hrequest hstage => ?_, fun request hrequest hstage => ?_,
    fun request hrequest j hj => ?_, hcache⟩
  · show found.inFlight = (s.admitted ++ _).countP _
    rw [List.countP_append]
    by_cases hdc : d = c
    · subst hdc
      obtain rfl : { connection with inFlight := connection.inFlight + 1 } = found := by
        simpa [State.setConnection] using hd
      have hcount : connection.inFlight = s.inFlightOf d := h.counted d connection hc hclosed
      simp [hcount, State.inFlightOf]
    · have hcount := h.counted d found (by simpa [State.setConnection, hdc] using hd) hclosed
      have hcd : c ≠ d := fun heq => hdc heq.symm
      simp [hcount, State.inFlightOf, hcd]
  · by_cases hdc : request.connection = c
    · exact ⟨{ connection with inFlight := connection.inFlight + 1 }, by simp [State.setConnection, hdc]⟩
    · rcases hmem hrequest with hold | rfl
      · obtain ⟨found, hfound⟩ := h.known request hold
        exact ⟨found, by simp [State.setConnection, hdc, hfound]⟩
      · exact absurd rfl hdc
  · rcases hmem hrequest with hold | rfl
    · exact h.identified request hold
    · exact hid
  · rcases hmem hrequest with hold | rfl
    · exact h.waiting request hold hstage
    · rfl
  · rcases hmem hrequest with hold | rfl
    · refine (h.answered request hold hstage).mono fun found hfound hended => ?_
      by_cases hdc : request.connection = c
      · obtain rfl : connection = found := Option.some.inj (hc.symm.trans (hdc ▸ hfound))
        exact ⟨{ connection with inFlight := connection.inFlight + 1 },
          by simp [State.setConnection, hdc], hended⟩
      · exact ⟨found, by simp [State.setConnection, hdc, hfound], hended⟩
    · exact absurd rfl hstage
  · rcases hmem hrequest with hold | rfl
    · exact Nat.lt_of_lt_of_le (h.promised request hold j hj) hruns
    · exact hpromise j hj

theorem Tracked.settle (h : Tracked s) {j : Nat} {run : Run} :
    Tracked { s with runs := s.runs.set j run } := by
  have hlength : (s.runs.set j run).length = s.runs.length := List.length_set
  exact ⟨h.counted, h.known, h.identified, h.waiting, h.answered,
    fun request hrequest k hk => hlength.symm ▸ h.promised request hrequest k hk,
    fun key entry hget => hlength.symm ▸ h.cached key entry hget⟩

/-- A request in flight stays so when its response is written. -/
theorem Tracked.respond (h : Tracked s) {i : Nat} {request : Admitted} {responses : List Response}
    (hi : s.admitted[i]? = some request) (hstage : request.stage = .waiting)
    (hanswered : AnsweredOnce s { request with stage := .writing, responses := responses }) :
    Tracked { s with
      admitted := s.admitted.set i { request with stage := .writing, responses := responses } } := by
  obtain ⟨hlt, hget⟩ := List.getElem?_eq_some_iff.mp hi
  have hold : request ∈ s.admitted := List.mem_of_getElem? hi
  refine ⟨fun d found hd hclosed => ?_, fun other hother => ?_, fun other hother => ?_,
    fun other hother hwaiting => ?_, fun other hother hnot => ?_, fun other hother => ?_, h.cached⟩
  · rw [h.counted d found hd hclosed]
    show s.inFlightOf d = (s.admitted.set i _).countP _
    have hpos : request.connection = d → 0 < s.inFlightOf d := by
      intro hconnection
      exact List.countP_pos_iff.mpr ⟨request, hold, by simp [hconnection, hstage]⟩
    rw [List.countP_set hlt, hget]
    by_cases hconnection : request.connection = d
    · have hcancel := Nat.sub_add_cancel (hpos hconnection)
      simpa [hconnection, hstage, State.inFlightOf] using hcancel.symm
    · simp [hconnection, State.inFlightOf]
  · rcases List.mem_or_eq_of_mem_set hother with hmem | rfl
    · exact h.known other hmem
    · exact h.known request hold
  · rcases List.mem_or_eq_of_mem_set hother with hmem | rfl
    · exact h.identified other hmem
    · exact h.identified request hold
  · rcases List.mem_or_eq_of_mem_set hother with hmem | rfl
    · exact h.waiting other hmem hwaiting
    · exact absurd hwaiting nofun
  · rcases List.mem_or_eq_of_mem_set hother with hmem | rfl
    · exact h.answered other hmem hnot
    · exact hanswered
  · rcases List.mem_or_eq_of_mem_set hother with hmem | rfl
    · exact h.promised other hmem
    · exact h.promised request hold

/-- A request that leaves is no longer counted. -/
theorem Tracked.flushed (h : Tracked s) {i : Nat} {request : Admitted} {connection : Connection}
    (hi : s.admitted[i]? = some request) (hstage : request.stage = .writing)
    (hc : s.connections request.connection = some connection) :
    Tracked ({ s with admitted := s.admitted.set i { request with stage := .finished } }.setConnection
      request.connection { connection with inFlight := connection.inFlight - 1 }) := by
  obtain ⟨hlt, hget⟩ := List.getElem?_eq_some_iff.mp hi
  have hold : request ∈ s.admitted := List.mem_of_getElem? hi
  have hconnected : ∀ other : Admitted, (∃ found, s.connections other.connection = some found) →
      ∃ found, Function.update s.connections request.connection
        (some { connection with inFlight := connection.inFlight - 1 }) other.connection = some found := by
    rintro other ⟨found, hfound⟩
    by_cases hconnection : other.connection = request.connection
    · exact ⟨{ connection with inFlight := connection.inFlight - 1 }, by simp [hconnection]⟩
    · exact ⟨found, by rw [Function.update_of_ne hconnection, hfound]⟩
  have hmono : ∀ other : Admitted, AnsweredOnce s other →
      AnsweredOnce ({ s with admitted := s.admitted.set i { request with stage := .finished } }.setConnection
        request.connection { connection with inFlight := connection.inFlight - 1 }) other := by
    intro other hanswered
    refine hanswered.mono fun found hfound hended => ?_
    by_cases hconnection : other.connection = request.connection
    · obtain rfl : connection = found := Option.some.inj (hc.symm.trans (hconnection ▸ hfound))
      exact ⟨{ connection with inFlight := connection.inFlight - 1 },
        by simp [State.setConnection, hconnection], hended⟩
    · exact ⟨found, by simp [State.setConnection, hconnection, hfound], hended⟩
  refine ⟨fun d found hd hclosed => ?_, fun other hother => ?_, fun other hother => ?_,
    fun other hother hwaiting => ?_, fun other hother hnot => ?_, fun other hother => ?_, h.cached⟩
  · show found.inFlight = (s.admitted.set i _).countP _
    rw [List.countP_set hlt, hget]
    by_cases hconnection : d = request.connection
    · subst hconnection
      obtain rfl : { connection with inFlight := connection.inFlight - 1 } = found := by
        simpa [State.setConnection] using hd
      have hcount : connection.inFlight = s.inFlightOf request.connection :=
        h.counted _ connection hc hclosed
      simp [hcount, hstage, State.inFlightOf]
    · have hcount := h.counted d found (by simpa [State.setConnection, hconnection] using hd) hclosed
      have hne : request.connection ≠ d := fun heq => hconnection heq.symm
      simp [hcount, hne, State.inFlightOf]
  · rcases List.mem_or_eq_of_mem_set hother with hmem | rfl
    · exact hconnected other (h.known other hmem)
    · exact hconnected { request with stage := .finished } (h.known request hold)
  · rcases List.mem_or_eq_of_mem_set hother with hmem | rfl
    · exact h.identified other hmem
    · exact h.identified request hold
  · rcases List.mem_or_eq_of_mem_set hother with hmem | rfl
    · exact h.waiting other hmem hwaiting
    · cases hwaiting
  · rcases List.mem_or_eq_of_mem_set hother with hmem | rfl
    · exact hmono other (h.answered other hmem hnot)
    · exact hmono { request with stage := .finished }
        (h.answered request hold (by rw [hstage]; decide))
  · rcases List.mem_or_eq_of_mem_set hother with hmem | rfl
    · exact h.promised other hmem
    · exact h.promised request hold

-- -----
-- Requests that come in
-- -----

theorem get_unexpired {cache : JsMap Str Entry} {now : Nat} {key : Str} {entry : Entry} :
    (unexpired cache now).get key = some entry ↔
      cache.get key = some entry ∧ now < entry.expiresAt := by
  constructor
  · intro h
    obtain ⟨hmem, hlive⟩ := List.mem_filter.mp (JsMap.mem_of_get h)
    exact ⟨JsMap.get_of_mem hmem, by simpa using hlive⟩
  · rintro ⟨hget, hlive⟩
    exact JsMap.get_of_mem (List.mem_filter.mpr ⟨JsMap.mem_of_get hget, by simpa using hlive⟩)

theorem get_dropOldest {cache : JsMap Str Entry} {key : Str} {entry : Entry}
    (h : (dropOldest cache).get key = some entry) : cache.get key = some entry := by
  unfold dropOldest at h
  split at h
  · exact h
  · rw [JsMap.get_delete] at h
    split at h
    · cases h
    · exact h

/-- A promise is of a run that is there, and so are those of the table. -/
theorem invokeRequest_promise {cache cache' : JsMap Str Entry} {runs runs' : List Run}
    {call : RuntimeCall} {now : Nat} {promise : Promise}
    (hcache : ∀ key entry, cache.get key = some entry → entry.run < runs.length)
    (h : invokeRequest cache runs call now = .promise promise cache' runs') :
    runs.length ≤ runs'.length ∧ (∀ j, promise = .run j → j < runs'.length) ∧
      ∀ key entry, cache'.get key = some entry → entry.run < runs'.length := by
  unfold invokeRequest at h
  split at h
  · cases h
    exact ⟨Nat.le_refl _, by simp, hcache⟩
  · have hlive : ∀ key entry, (unexpired cache now).get key = some entry →
        entry.run < runs.length := fun key entry hget => hcache key entry (get_unexpired.mp hget).1
    simp only at h
    split at h
    case h_1 existing hexisting =>
      split at h
      · cases h
      · cases h
        refine ⟨Nat.le_refl _, fun j hj => ?_, hlive⟩
        cases hj
        exact hlive _ existing hexisting
    case h_2 =>
      cases h
      have hlength (run : Run) : (runs ++ [run]).length = runs.length + 1 := List.length_append
      refine ⟨(hlength _).symm ▸ Nat.le_succ _, fun j hj => ?_, fun other entry hget => ?_⟩
      · cases hj
        exact (hlength _).symm ▸ Nat.lt_succ_self _
      · rw [JsMap.get_set] at hget
        split at hget
        · cases hget
          exact (hlength _).symm ▸ Nat.lt_succ_self _
        · rw [hlength]
          split at hget
          · exact Nat.lt_succ_of_lt (hlive other entry (get_dropOldest hget))
          · exact Nat.lt_succ_of_lt (hlive other entry hget)

/-- It throws on the requests that are in conflict. -/
theorem invokeRequest_threw (s : State) (call : RuntimeCall) (now : Nat) :
    (∃ cache, invokeRequest s.cache s.runs call now = .threw cache) ↔ Conflicts s call now := by
  unfold invokeRequest Conflicts
  cases hkey : call.idempotencyKey with
  | none => simp
  | some key =>
    simp only [Option.some.injEq]
    cases hget : (unexpired s.cache now).get key with
    | none =>
      refine ⟨(by rintro ⟨_, h⟩; cases h), ?_⟩
      rintro ⟨_, entry, rfl, hentry, hlive, -⟩
      rw [get_unexpired.mpr ⟨hentry, hlive⟩] at hget
      cases hget
    | some existing =>
      obtain ⟨hexisting, hlive⟩ := get_unexpired.mp hget
      by_cases hdigest : existing.digest = call.digest
      · simp only [hdigest, ne_eq, not_true_eq_false, if_false]
        refine ⟨(by rintro ⟨_, h⟩; cases h), ?_⟩
        rintro ⟨_, entry, rfl, hentry, -, hne⟩
        obtain rfl : existing = entry := Option.some.inj (hexisting.symm.trans hentry)
        exact absurd hdigest hne
      · simp only [ne_eq, hdigest, not_false_eq_true, if_true]
        exact ⟨fun _ => ⟨key, existing, rfl, hexisting, hlive, hdigest⟩, fun _ => ⟨_, rfl⟩⟩

/-- A request ends the process, or is refused or admitted. -/
theorem Tracked.acceptRequest (h : Tracked s) {c now : Nat} {connection : Connection}
    {request : RuntimeRequest} (hc : s.connections c = some connection) :
    (s.acceptRequest config c connection request now).crashed = true ∨
      Tracked (s.acceptRequest config c connection request now) := by
  rcases acceptRequest_cases config s c connection request now with
    ⟨closed, hclosed, hended, hs', -⟩ | ⟨promise, cache, runs, hinvoked, hs', -⟩ | ⟨cache, -, hs', -⟩
  · rw [hs']
    refine .inr (h.setConnection hc (fun hopen => ?_) fun hend => hended.trans hend)
    exact absurd (hclosed.symm.trans hopen) nofun
  · obtain ⟨hruns, hpromise, hcache⟩ := invokeRequest_promise h.cached hinvoked
    rw [hs']
    exact .inr (h.take hc (uuid_length request.identified) hruns hpromise hcache)
  · rw [hs']
    exact .inl rfl

/-- A step ends the process or keeps what is tracked. -/
theorem step_tracked (h : Tracked s) (hstep : step config s event = some s') :
    s'.crashed = true ∨ Tracked s' := by
  unfold step at hstep
  split at hstep
  · exact absurd hstep nofun
  split at hstep
  case h_1 c =>
    split at hstep
    case h_1 hc =>
      cases hstep
      exact .inr (h.connect hc)
    case h_2 => exact absurd hstep nofun
  case h_2 c request now =>
    split at hstep
    case h_1 connection hc =>
      split at hstep
      · exact absurd hstep nofun
      · cases hstep
        exact h.acceptRequest hc
    case h_2 => exact absurd hstep nofun
  case h_3 c failure =>
    split at hstep
    case h_1 connection hc =>
      split at hstep
      · exact absurd hstep nofun
      · cases hstep
        exact .inr (h.setConnection hc nofun id)
    case h_2 => exact absurd hstep nofun
  case h_4 c =>
    split at hstep
    case h_1 connection hc =>
      split at hstep
      · cases hstep
        exact .inr (h.setConnection hc (fun hopen => ⟨hopen, rfl⟩) fun _ => rfl)
      · exact absurd hstep nofun
    case h_2 => exact absurd hstep nofun
  case h_5 c =>
    split at hstep
    case h_1 connection hc =>
      cases hstep
      exact .inr (h.setConnection hc (fun hopen => ⟨hopen, rfl⟩) fun _ => rfl)
    case h_2 => exact absurd hstep nofun
  case h_6 j outcome =>
    split at hstep
    case h_1 run hrun =>
      split at hstep
      · cases hstep
        exact .inr h.settle
      · exact absurd hstep nofun
    case h_2 => exact absurd hstep nofun
  case h_7 i =>
    split at hstep
    case h_1 request hi =>
      split at hstep
      case h_1 settled connection hstage hsettled hc =>
        cases hstep
        refine .inr (h.respond hi hstage ?_)
        by_cases hended : connection.ended = true
        · exact .inr ⟨if_pos hended, connection, hc, hended⟩
        · obtain ⟨response, hanswer, hid⟩ : ∃ response, answer config request.requestId settled =
              some response ∧ response.requestId = request.requestId :=
            answer_some (h.identified request (List.mem_of_getElem? hi)) settled
          refine .inl ⟨response, ?_, hid⟩
          rw [if_neg hended, hanswer, Option.toList_some]
      case h_2 => exact absurd hstep nofun
    case h_2 => exact absurd hstep nofun
  case h_8 i =>
    split at hstep
    case h_1 request hi =>
      split at hstep
      case h_1 connection hstage hc =>
        cases hstep
        exact .inr (h.flushed hi hstage hc)
      case h_2 => exact absurd hstep nofun
    case h_2 => exact absurd hstep nofun

theorem respond_enabled (halive : s.crashed = false) {i : Nat} {request : Admitted}
    {settled : Except Str Json} {connection : Connection} (hi : s.admitted[i]? = some request)
    (hstage : request.stage = .waiting) (hsettled : s.settled request.promise = some settled)
    (hc : s.connections request.connection = some connection) :
    ∃ s', step config s (.respond i) = some s' := by
  simp only [step, halive, Bool.false_eq_true, if_false, hi, hstage, hsettled, hc]
  exact ⟨_, rfl⟩

theorem flushed_enabled (halive : s.crashed = false) {i : Nat} {request : Admitted}
    {connection : Connection} (hi : s.admitted[i]? = some request) (hstage : request.stage = .writing)
    (hc : s.connections request.connection = some connection) :
    ∃ s', step config s (.flushed i) = some s' := by
  simp only [step, halive, Bool.false_eq_true, if_false, hi, hstage, hc]
  exact ⟨_, rfl⟩

/-- What is tracked says how each request is answered. -/
theorem Tracked.answers (h : Tracked s) (halive : s.crashed = false) : Answers config s := by
  refine ⟨halive, h.counted, fun i request hi hstage => ?_, fun i request hi hstage => ?_,
    fun i request hi hstage => ?_⟩
  · have hmem : request ∈ s.admitted := List.mem_of_getElem? hi
    obtain ⟨connection, hc⟩ := h.known request hmem
    refine ⟨h.waiting request hmem hstage, ?_⟩
    cases hpromise : request.promise with
    | alive => exact .inr (respond_enabled halive hi hstage (by rw [hpromise]; rfl) hc)
    | run j =>
      have hj := h.promised request hmem j hpromise
      cases houtcome : s.runs[j].outcome with
      | none => exact .inl ⟨j, s.runs[j], rfl, List.getElem?_eq_getElem hj, houtcome⟩
      | some settled =>
        have hsettled : s.settled request.promise = some settled := by
          rw [hpromise, State.settled, List.getElem?_eq_getElem hj, Option.bind_some, houtcome]
        exact .inr (respond_enabled halive hi hstage hsettled hc)
  · have hmem : request ∈ s.admitted := List.mem_of_getElem? hi
    obtain ⟨connection, hc⟩ := h.known request hmem
    exact ⟨h.answered request hmem (by rw [hstage]; decide), flushed_enabled halive hi hstage hc⟩
  · exact h.answered request (List.mem_of_getElem? hi) (by rw [hstage]; decide)

-- -----
-- Runs
-- -----

/-- The process outlives the steps that are consistent, and no others. -/
theorem step_alive (hstep : step config s event = some s') :
    s'.crashed = false ↔ Consistent config s event := by
  unfold step at hstep
  split at hstep
  · exact absurd hstep nofun
  case isFalse halive =>
  have halive : s.crashed = false := by simpa using halive
  split at hstep
  case h_2 c request now =>
    split at hstep
    case h_2 => exact absurd hstep nofun
    case h_1 connection hc =>
    split at hstep
    · exact absurd hstep nofun
    case isFalse hopen =>
    obtain ⟨hnotClosed, hnotEnded⟩ : connection.closed = false ∧ connection.ended = false := by
      simpa using hopen
    cases hstep
    have hthrew := invokeRequest_threw s request.call now
    rcases acceptRequest_cases config s c connection request now with
      ⟨closed, -, -, hs', hnot⟩ | ⟨promise, cache, runs, hinvoked, hs', -⟩ |
        ⟨cache, hinvoked, hs', hrefusal, hload⟩
    · rw [hs']
      refine iff_of_true halive fun found hfound hadmits => ?_
      obtain rfl : connection = found := Option.some.inj (hc.symm.trans hfound)
      exact absurd ⟨hadmits.accepted, hadmits.load⟩ hnot
    · rw [hs']
      refine iff_of_true halive fun found _ _ hconflicts => ?_
      obtain ⟨other, hother⟩ := hthrew.mpr hconflicts
      exact absurd (hinvoked.symm.trans hother) nofun
    · rw [hs']
      refine iff_of_false nofun fun hconsistent => ?_
      exact hconsistent connection hc ⟨hnotClosed, hnotEnded, hrefusal, hload⟩
        (hthrew.mp ⟨cache, hinvoked⟩)
  all_goals
    refine iff_of_true ?_ trivial
    (repeat' split at hstep) <;> first | (cases hstep; done) | (cases hstep; exact halive)

theorem step_answered (h : Tracked s) (hstep : step config s event = some s') :
    Answered config s event s' ↔ Consistent config s event := by
  constructor
  · intro hanswered
    exact (step_alive hstep).mp hanswered.answers.alive
  · intro hconsistent
    have halive : s'.crashed = false := (step_alive hstep).mpr hconsistent
    rcases step_tracked h hstep with hcrashed | htracked
    · exact absurd (halive.symm.trans hcrashed) nofun
    · refine ⟨htracked.answers halive, ?_⟩
      rintro c request now connection rfl hc hadmits hconflicts
      exact absurd hconflicts (hconsistent connection hc hadmits)

/-- An event that cannot happen is no request that is admitted. -/
theorem consistent_of_disabled (halive : s.crashed = false) (hstep : step config s event = none) :
    Consistent config s event := by
  cases event with
  | request c request now =>
    intro connection hc hadmits _
    simp [step, halive, hc, hadmits.notClosed, hadmits.notEnded] at hstep
  | _ => trivial

theorem run_answered (events : List Event) (h : Tracked s) (halive : s.crashed = false) :
    Transitions.AllMeet (step config)
        (fun s event => ∀ s', step config s event = some s' → Answered config s event s') s events ↔
      Transitions.AllMeet (step config) (Consistent config) s events := by
  induction events generalizing s with
  | nil => exact Iff.rfl
  | cons event rest ih =>
    have hone : (∀ s', step config s event = some s' → Answered config s event s') ↔
        Consistent config s event := by
      cases hstep : step config s event with
      | none => exact iff_of_true nofun (consistent_of_disabled halive hstep)
      | some s' =>
        rw [← step_answered h hstep]
        exact ⟨fun hall => hall s' rfl, fun hanswered _ heq => Option.some.inj heq ▸ hanswered⟩
    simp only [Transitions.AllMeet]
    rw [hone]
    refine and_congr_right fun hconsistent => forall_congr' fun s' => forall_congr' fun hstep => ?_
    have halive' : s'.crashed = false := (step_alive hstep).mpr hconsistent
    rcases step_tracked h hstep with hcrashed | htracked
    · exact absurd (halive'.symm.trans hcrashed) nofun
    · exact ih htracked halive'

/-- The bus answers every request it admits, in the runs whose requests find
their key free, or held with their own parameters. -/
theorem every_request_answered (config : Config) (events : List Event) :
    Transitions.AllMeet (step config)
        (fun s event => ∀ s', step config s event = some s' → Answered config s event s')
        State.initial events ↔
      Transitions.AllMeet (step config) (Consistent config) State.initial events :=
  run_answered events tracked_initial rfl

def exampleConfig : Config where
  workspaceId := List.replicate 64 97
  coordinatorSessionId := lit "coordinator"
  runtimeId := lit "11111111-1111-4111-8111-111111111111"
  generated := by decide

def exampleRequest (call : RuntimeCall) : RuntimeRequest where
  workspaceId := List.replicate 64 97
  coordinatorSessionId := lit "coordinator"
  requestId := lit "22222222-2222-4222-8222-222222222222"
  deadline := .ofInt 1000
  call := call
  identified := by decide

/-- A publication under the key of an earlier reconciliation. -/
def reusedKey : List Event :=
  [.connect 0, .request 0 (exampleRequest (.reconcile (lit "k"))) 0,
    .request 0 (exampleRequest (.publishReady (lit "k") ⟨lit "s", lit "r", lit "l", lit "w"⟩)) 1]

theorem reusedKey_unanswered :
    ¬ Transitions.AllMeet (step exampleConfig)
      (fun s event => ∀ s', step exampleConfig s event = some s' → Answered exampleConfig s event s')
      State.initial reusedKey := by
  intro hall
  have hend : (run (step exampleConfig) State.initial reusedKey).map (·.crashed) = some true := by
    decide +kernel
  obtain ⟨s, hrun, hcrashed⟩ := Option.map_eq_some_iff.mp hend
  have hkeep : ∀ s event s', s.crashed = false →
      (∀ s', step exampleConfig s event = some s' → Answered exampleConfig s event s') →
      step exampleConfig s event = some s' → s'.crashed = false :=
    fun _ _ s' _ hok hstep => (hok s' hstep).answers.alive
  have halive : s.crashed = false := Transitions.invariant hkeep rfl hall hrun
  exact absurd (halive.symm.trans hcrashed) nofun

end PiEnv.SessionManager.RuntimeBus
