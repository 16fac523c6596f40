import PiEnv.Process.Collection

/-!
# What is retained, and what is reported

What is retained is a start of what was received, within the limits, and what is
reported is the first failure: a limit that the bytes received exceed is, if nothing
else failed before.
-/

namespace PiEnv.Process

open Js
open Utf8 (Bytes)

variable {config : Config} {events : List Event} {event : Event}

-- -----
-- What came first
-- -----

/-- The bytes of a stream that have come. -/
def received (stream : OutputStream) (events : List Event) : Bytes :=
  events.flatMap fun
    | .data other chunk => if other = stream then chunk else []
    | _ => []

def Exceeds (config : Config) (events : List Event) : Prop :=
  (∃ stream, config.limit stream < (received stream events).length) ∨
    ∃ combined, config.combinedOutputLimitBytes = some combined ∧
      combined < (received .stdout events).length + (received .stderr events).length

/-- What decides a collection, apart from the output. -/
def Event.ends : Event → Bool
  | .error _ | .timeout | .abort | .close _ _ => true
  | _ => false

def Event.isData : Event → Bool
  | .data _ _ => true
  | _ => false

/-- A limit is exceeded before anything else fails. -/
def ExceededFirst (config : Config) (events : List Event) : Prop :=
  ∃ before, before <+: events ∧ (∀ event ∈ before, event.ends = false) ∧ Exceeds config before

def ProcessFailure.output (failure : ProcessFailure) : Option ProcessOutput := do
  return ⟨← failure.stdout, ← failure.stderr⟩

def reported : Outcome → Option ProcessOutput
  | .ok (output, _) => some output
  | .error failure => failure.output

def outputLimited : Outcome → Bool
  | .ok _ => false
  | .error failure => failure.kind = .outputLimit

def Closed (events : List Event) : Prop := ∃ code closeSignal, Event.close code closeSignal ∈ events

-- -----
-- What is received
-- -----

theorem received_concat (stream : OutputStream) (events : List Event) (event : Event) :
    received stream (events ++ [event]) = received stream events ++ received stream [event] := by
  rw [received, List.flatMap_append]
  rfl

theorem received_other {stream : OutputStream} (h : event.isData = false) :
    received stream [event] = [] := by
  cases event with
  | data => cases h
  | _ => rfl

theorem received_quiet {stream : OutputStream} (h : event.isData = false) :
    received stream (events ++ [event]) = received stream events := by
  rw [received_concat, received_other h, List.append_nil]

theorem received_data (stream other : OutputStream) (chunk : Bytes) :
    received stream (events ++ [.data other chunk]) =
      received stream events ++ if other = stream then chunk else [] := by
  rw [received_concat]
  congr 1
  exact List.append_nil _

theorem exceeds_quiet (h : event.isData = false) :
    Exceeds config (events ++ [event]) ↔ Exceeds config events := by
  simp only [Exceeds, received_quiet h]

/-- What decides whether a limit was exceeded first is there. -/
def Over (config : Config) (events : List Event) : Prop :=
  (∃ event ∈ events, event.ends = true) ∨ Exceeds config events

theorem ExceededFirst.of_exceeds (h : ∀ event ∈ events, event.ends = false)
    (hexceeds : Exceeds config events) : ExceededFirst config events :=
  ⟨events, List.prefix_rfl, h, hexceeds⟩

theorem ExceededFirst.append (h : ExceededFirst config events) (event : Event) :
    ExceededFirst config (events ++ [event]) := by
  obtain ⟨before, hbefore, hends, hexceeds⟩ := h
  exact ⟨before, hbefore.trans (List.prefix_append _ _), hends, hexceeds⟩

/-- An event changes nothing about what came first, unless it brings output to a
collection that nothing has decided. -/
theorem exceededFirst_concat (h : event.isData = true → Over config events) :
    ExceededFirst config (events ++ [event]) ↔ ExceededFirst config events := by
  refine ⟨?_, fun h => h.append event⟩
  rintro ⟨before, hbefore, hends, hexceeds⟩
  rcases List.prefix_concat_iff.mp hbefore with rfl | hbefore
  · have hearlier : ∀ event ∈ events, event.ends = false :=
      fun event hevent => hends event (List.mem_append_left _ hevent)
    refine .of_exceeds hearlier ?_
    cases hdata : event.isData with
    | false => exact (exceeds_quiet hdata).mp hexceeds
    | true =>
      rcases h hdata with ⟨event, hevent, hend⟩ | hover
      · rw [hearlier event hevent] at hend
        cases hend
      · exact hover
  · exact ⟨before, hbefore, hends, hexceeds⟩

theorem Over.append (h : Over config events) (event : Event) : Over config (events ++ [event]) := by
  rcases h with ⟨earlier, hearlier, hends⟩ | ⟨stream, hlimit⟩ | ⟨combined, hcombined, hlimit⟩
  · exact .inl ⟨earlier, List.mem_append_left _ hearlier, hends⟩
  · refine .inr (.inl ⟨stream, ?_⟩)
    rw [received_concat, List.length_append]
    omega
  · refine .inr (.inr ⟨combined, hcombined, ?_⟩)
    rw [received_concat, received_concat, List.length_append, List.length_append]
    omega

theorem Over.of_ends (h : event.ends = true) : Over config (events ++ [event]) :=
  .inl ⟨event, List.mem_append_right _ List.mem_cons_self, h⟩

theorem Closed.append (h : Closed events) (event : Event) : Closed (events ++ [event]) := by
  obtain ⟨code, closeSignal, hclose⟩ := h
  exact ⟨code, closeSignal, List.mem_append_left _ hclose⟩

-- -----
-- What is retained
-- -----

def Retained.Sound (retained : Retained) : Prop := retained.bytes = retained.chunks.flatten.length

variable {retained : Retained}

theorem Retained.Sound.concat (h : retained.Sound) : retained.concat = retained.chunks.flatten := by
  rw [Retained.concat, h, List.take_length, Nat.sub_self]
  exact List.append_nil _

theorem Retained.push_flatten (retained : Retained) (chunk : Bytes) (remaining : Nat) :
    (retained.push chunk remaining).chunks.flatten =
      retained.chunks.flatten ++ chunk.take remaining := by
  unfold Retained.push
  split
  · rw [List.flatten_append, List.flatten_singleton]
  · rename_i h
    rw [Nat.eq_zero_of_not_pos h, List.take_zero, List.append_nil]

theorem Retained.Sound.push (h : retained.Sound) (chunk : Bytes) (remaining : Nat) :
    (retained.push chunk remaining).Sound := by
  rw [Retained.Sound, Retained.push_flatten, List.length_append, List.length_take, ← h, Nat.min_comm]
  rfl

-- -----
-- The verdict
-- -----

/-- The part of a collection that its outcome comes from. -/
structure Core where
  started : Bool
  retained : OutputStream → Retained
  terminalError : Option ProcessFailure
  settled : Bool
  failing : Option ProcessFailure
  resumed : List Outcome

namespace Core

def output (c : Core) : ProcessOutput :=
  ⟨Utf8.decode (c.retained .stdout).concat, Utf8.decode (c.retained .stderr).concat⟩

def decided (c : Core) : Bool := c.terminalError.isSome || c.settled

def keep (c : Core) (stream : OutputStream) (chunk : Bytes) (remaining : Nat) : Core :=
  { c with retained := fun other =>
      if other = stream then (c.retained stream).push chunk remaining else c.retained other }

def settle (c : Core) (outcome : Outcome) : Core :=
  { c with settled := true, resumed := c.resumed ++ [outcome] }

end Core

def Core.remaining (config : Config) (c : Core) (stream : OutputStream) : Nat :=
  let own : Int := (config.limit stream : Int) - (c.retained stream).bytes
  ((config.combinedOutputLimitBytes.map fun (combined : Nat) =>
    (combined : Int) - (c.retained .stdout).bytes - (c.retained .stderr).bytes).elim own
      (min own)).toNat

/-- What an event does to that part. -/
inductive Move (config : Config) : Core → Event → Core → Prop where
  | same {c : Core} {event : Event} : (event.isData = true → c.started = true ∧ c.decided = true) →
      (event.ends = true → c.decided = true) → Move config c event c
  | kept {c : Core} {stream : OutputStream} {chunk : Bytes} : c.decided = false →
      chunk.length ≤ c.remaining config stream →
      Move config c (.data stream chunk) (c.keep stream chunk (c.remaining config stream))
  | exceeded {c : Core} {stream : OutputStream} {chunk : Bytes} {failure : ProcessFailure} :
      c.decided = false → c.remaining config stream < chunk.length → failure.kind = .outputLimit →
      Move config c (.data stream chunk)
        { c.keep stream chunk (c.remaining config stream) with terminalError := some failure }
  | failed {c : Core} {event : Event} {failure : ProcessFailure} : c.terminalError = none →
      event.ends = true → failure.kind ≠ .outputLimit →
      Move config c event { c with terminalError := some failure }
  | deferred {c : Core} {code : Option Int} {closeSignal : Option Str} {failure : ProcessFailure} :
      c.terminalError = some failure → Move config c (.close code closeSignal)
        { c with failing := some (failure.withOutput c.output) }
  | closed {c : Core} {code : Option Int} {closeSignal : Option Str} {outcome : Outcome} :
      c.decided = false → outputLimited outcome = false → reported outcome = some c.output →
      Move config c (.close code closeSignal) (c.settle outcome)
  | settled {c : Core} {failure : ProcessFailure} : c.settled = false → c.failing = some failure →
      Move config c .fail ({ c with failing := none }.settle (.error failure))
  | dropped {c : Core} : c.settled = true → Move config c .fail { c with failing := none }

/-- What is retained is a start of what was received, within the limits. -/
structure Buffers (config : Config) (events : List Event) (retained : OutputStream → Retained) :
    Prop where
  sound : ∀ stream, (retained stream).Sound
  prefixes : ∀ stream, (retained stream).chunks.flatten <+: received stream events
  limits : ∀ stream, (retained stream).bytes ≤ config.limit stream
  combined : ∀ combined, config.combinedOutputLimitBytes = some combined →
    (retained .stdout).bytes + (retained .stderr).bytes ≤ combined

/-- All that was received is retained. -/
def Complete (events : List Event) (retained : OutputStream → Retained) : Prop :=
  ∀ stream, (retained stream).chunks.flatten = received stream events

/-- What a collection has retained and decided is right about the events. -/
structure Verdict (config : Config) (events : List Event) (c : Core) : Prop where
  buffers : Buffers config events c.retained
  going : c.decided = false → (∀ event ∈ events, event.ends = false) ∧ Complete events c.retained
  finished : c.started = true → c.decided = true → Over config events
  spared : c.terminalError = none → ¬ ExceededFirst config events
  error : ∀ failure, c.terminalError = some failure →
    (failure.kind = .outputLimit ↔ ExceededFirst config events)
  failing : ∀ failure, c.failing = some failure →
    (failure.kind = .outputLimit ↔ ExceededFirst config events) ∧
      failure.output = some c.output ∧ Closed events ∧ c.decided = true
  resumed : ∀ outcome ∈ c.resumed, (outputLimited outcome = true ↔ ExceededFirst config events) ∧
    reported outcome = some c.output ∧ (c.started = false ∨ Closed events)
  once : c.resumed.length = c.settled.toNat

section
variable {c : Core} {retained : OutputStream → Retained}

theorem Buffers.length (h : Buffers config events retained) (hall : Complete events retained)
    (stream : OutputStream) : (received stream events).length = (retained stream).bytes := by
  rw [h.sound stream, hall stream]

theorem Buffers.not_exceeds (h : Buffers config events retained) (hall : Complete events retained) :
    ¬ Exceeds config events := by
  rintro (⟨stream, hlimit⟩ | ⟨combined, hcombined, hlimit⟩)
  · rw [h.length hall] at hlimit
    exact Nat.lt_irrefl _ (hlimit.trans_le (h.limits stream))
  · rw [h.length hall, h.length hall] at hlimit
    exact Nat.lt_irrefl _ (hlimit.trans_le (h.combined combined hcombined))

theorem Buffers.append (h : Buffers config events retained) (event : Event) :
    Buffers config (events ++ [event]) retained where
  sound := h.sound
  prefixes stream := by
    rw [received_concat]
    exact (h.prefixes stream).trans (List.prefix_append _ _)
  limits := h.limits
  combined := h.combined

theorem Complete.append (h : Complete events retained) (hquiet : event.isData = false) :
    Complete (events ++ [event]) retained := by
  intro stream
  rw [received_quiet hquiet]
  exact h stream

theorem not_ends_concat (hno : ∀ event ∈ events, event.ends = false) (hevent : event.ends = false) :
    ∀ other ∈ events ++ [event], other.ends = false := by
  intro other hother
  rcases List.mem_append.mp hother with hold | hnew
  · exact hno other hold
  · rw [List.mem_singleton.mp hnew]
    exact hevent

theorem ends_not_data (h : event.ends = true) : event.isData = false := by
  cases event with
  | data => cases h
  | _ => rfl

theorem not_of_decided {b : Bool} (hgoing : c.decided = false)
    (h : b = true → c.decided = true) : b = false :=
  Bool.eq_false_iff.mpr fun hb => Bool.false_ne_true (hgoing.symm.trans (h hb))

/-- What is reported, or is going to be, is right as long as what came first is the same. -/
theorem Verdict.later (h : Verdict config events c)
    (hfirst : ExceededFirst config (events ++ [event]) ↔ ExceededFirst config events) :
    (∀ failure, c.failing = some failure →
      (failure.kind = .outputLimit ↔ ExceededFirst config (events ++ [event])) ∧
        failure.output = some c.output ∧ Closed (events ++ [event]) ∧ c.decided = true) ∧
    ∀ outcome ∈ c.resumed,
      (outputLimited outcome = true ↔ ExceededFirst config (events ++ [event])) ∧
        reported outcome = some c.output ∧ (c.started = false ∨ Closed (events ++ [event])) := by
  constructor
  · intro failure hfailing
    obtain ⟨hkind, houtput, hclosed, hdecided⟩ := h.failing failure hfailing
    rw [hfirst]
    exact ⟨hkind, houtput, hclosed.append event, hdecided⟩
  · intro outcome houtcome
    obtain ⟨hkind, houtput, hclosed⟩ := h.resumed outcome houtcome
    rw [hfirst]
    exact ⟨hkind, houtput, hclosed.imp_right fun hclosed => hclosed.append event⟩

/-- An event that leaves everything as it is. -/
theorem Verdict.same (h : Verdict config events c)
    (hdata : event.isData = true → c.started = true ∧ c.decided = true)
    (hends : event.ends = true → c.decided = true) : Verdict config (events ++ [event]) c := by
  have hfirst : ExceededFirst config (events ++ [event]) ↔ ExceededFirst config events :=
    exceededFirst_concat fun hevent => h.finished (hdata hevent).1 (hdata hevent).2
  obtain ⟨hfailing, hresumed⟩ := h.later hfirst
  refine ⟨h.buffers.append event, fun hgoing => ?_, ?_, ?_, ?_, hfailing, hresumed, h.once⟩
  · obtain ⟨hno, hall⟩ := h.going hgoing
    have hquiet := not_of_decided hgoing fun hevent => (hdata hevent).2
    exact ⟨not_ends_concat hno (not_of_decided hgoing hends), hall.append hquiet⟩
  · exact fun hstarted hdecided => (h.finished hstarted hdecided).append event
  · rw [hfirst]
    exact h.spared
  · rw [hfirst]
    exact h.error

/-- Something other than a limit fails first. -/
theorem Verdict.failed (h : Verdict config events c) {failure : ProcessFailure}
    (hnone : c.terminalError = none) (hends : event.ends = true)
    (hkind : failure.kind ≠ .outputLimit) :
    Verdict config (events ++ [event]) { c with terminalError := some failure } := by
  have hquiet := ends_not_data hends
  have hfirst : ExceededFirst config (events ++ [event]) ↔ ExceededFirst config events :=
    exceededFirst_concat fun hdata => absurd (hquiet.symm.trans hdata) Bool.false_ne_true
  obtain ⟨hfailing, hresumed⟩ := h.later hfirst
  refine ⟨h.buffers.append event, nofun, fun _ _ => .of_ends hends, nofun, ?_,
    fun failure hfailed => ?_, hresumed, h.once⟩
  · rintro _ ⟨⟩
    rw [hfirst]
    exact iff_of_false hkind (h.spared hnone)
  · obtain ⟨hlimited, houtput, hclosed, -⟩ := hfailing failure hfailed
    exact ⟨hlimited, houtput, hclosed, rfl⟩

-- The bytes that are retained exceed no limit.
theorem remaining_le {stream : OutputStream} (hlimit : (c.retained stream).bytes ≤ config.limit stream) :
    (c.retained stream).bytes + c.remaining config stream ≤ config.limit stream := by
  unfold Core.remaining
  cases config.combinedOutputLimitBytes with
  | none =>
    simp only [Option.map_none, Option.elim_none]
    omega
  | some combined =>
    simp only [Option.map_some, Option.elim_some]
    omega

theorem remaining_le_combined (stream : OutputStream) {combined : Nat}
    (hcombined : config.combinedOutputLimitBytes = some combined)
    (hlimit : (c.retained .stdout).bytes + (c.retained .stderr).bytes ≤ combined) :
    (c.retained .stdout).bytes + (c.retained .stderr).bytes + c.remaining config stream ≤ combined := by
  simp only [Core.remaining, hcombined, Option.map_some, Option.elim_some]
  omega

theorem le_remaining {stream : OutputStream} {length : Nat}
    (hlimit : (c.retained stream).bytes + length ≤ config.limit stream)
    (hcombined : ∀ combined, config.combinedOutputLimitBytes = some combined →
      (c.retained .stdout).bytes + (c.retained .stderr).bytes + length ≤ combined) :
    length ≤ c.remaining config stream := by
  unfold Core.remaining
  cases h : config.combinedOutputLimitBytes with
  | none =>
    simp only [Option.map_none, Option.elim_none]
    omega
  | some combined =>
    have := hcombined combined h
    simp only [Option.map_some, Option.elim_some]
    omega

theorem keep_retained (c : Core) (stream other : OutputStream) (chunk : Bytes) (remaining : Nat) :
    (c.keep stream chunk remaining).retained other =
      if other = stream then (c.retained stream).push chunk remaining else c.retained other :=
  rfl

theorem keep_bytes (c : Core) (stream other : OutputStream) (chunk : Bytes) (remaining : Nat) :
    ((c.keep stream chunk remaining).retained other).bytes =
      (c.retained other).bytes + if other = stream then min chunk.length remaining else 0 := by
  rw [keep_retained]
  split
  · rename_i h
    rw [h]
    rfl
  · rfl

theorem keep_flatten (c : Core) (stream other : OutputStream) (chunk : Bytes) (remaining : Nat) :
    ((c.keep stream chunk remaining).retained other).chunks.flatten =
      (c.retained other).chunks.flatten ++ if stream = other then chunk.take remaining else [] := by
  rw [keep_retained]
  by_cases h : other = stream
  · rw [if_pos h, if_pos h.symm, h]
    exact Retained.push_flatten _ _ _
  · rw [if_neg h, if_neg (Ne.symm h), List.append_nil]

theorem keep_total (c : Core) (stream : OutputStream) (chunk : Bytes) (remaining : Nat) :
    ((c.keep stream chunk remaining).retained .stdout).bytes +
        ((c.keep stream chunk remaining).retained .stderr).bytes =
      (c.retained .stdout).bytes + (c.retained .stderr).bytes + min chunk.length remaining := by
  rw [keep_bytes, keep_bytes]
  cases stream with
  | stdout =>
    rw [if_pos rfl, if_neg nofun]
    omega
  | stderr =>
    rw [if_pos rfl, if_neg nofun]
    omega

/-- What is kept of a chunk is a start of it, within the limits. -/
theorem Buffers.keep (h : Buffers config events c.retained) (hall : Complete events c.retained)
    (stream : OutputStream) (chunk : Bytes) :
    Buffers config (events ++ [.data stream chunk])
      (c.keep stream chunk (c.remaining config stream)).retained where
  sound other := by
    rw [keep_retained]
    split
    · exact (h.sound stream).push _ _
    · exact h.sound other
  prefixes other := by
    rw [keep_flatten, received_data, hall other]
    refine (List.prefix_append_right_inj _).mpr ?_
    split
    · exact List.take_prefix _ _
    · exact List.nil_prefix
  limits other := by
    rw [keep_bytes]
    split
    · rename_i heq
      have := remaining_le (h.limits stream)
      rw [heq]
      exact (Nat.add_le_add_left (Nat.min_le_right _ _) _).trans this
    · exact h.limits other
  combined combined hcombined := by
    have := remaining_le_combined stream hcombined (h.combined combined hcombined)
    rw [keep_total]
    exact (Nat.add_le_add_left (Nat.min_le_right _ _) _).trans this

theorem Complete.keep (hall : Complete events c.retained) {stream : OutputStream} {chunk : Bytes}
    {remaining : Nat} (hfits : chunk.length ≤ remaining) :
    Complete (events ++ [.data stream chunk]) (c.keep stream chunk remaining).retained := by
  intro other
  rw [keep_flatten, received_data, hall other, List.take_of_length_le hfits]

theorem Buffers.exceeds (h : Buffers config events c.retained) (hall : Complete events c.retained)
    {stream : OutputStream} {chunk : Bytes} (hlong : c.remaining config stream < chunk.length) :
    Exceeds config (events ++ [.data stream chunk]) := by
  by_contra hexceeds
  obtain ⟨hlimit, hcombined⟩ := not_or.mp hexceeds
  refine Nat.not_le.mpr hlong (le_remaining ?_ ?_)
  · have := Nat.not_lt.mp fun hlt => hlimit ⟨stream, hlt⟩
    rwa [received_data, if_pos rfl, List.length_append, h.length hall] at this
  · intro combined hsome
    have := Nat.not_lt.mp fun hlt => hcombined ⟨combined, hsome, hlt⟩
    rw [received_data, received_data, List.length_append, List.length_append, h.length hall,
      h.length hall] at this
    cases stream with
    | stdout =>
      rw [if_pos rfl, if_neg nofun] at this
      simp only [List.length_nil] at this
      omega
    | stderr =>
      rw [if_pos rfl, if_neg nofun] at this
      simp only [List.length_nil] at this
      omega

theorem Exceeds.of_prefix {before : List Event} (hbefore : before <+: events)
    (h : Exceeds config before) : Exceeds config events := by
  have hlength (stream : OutputStream) :
      (received stream before).length ≤ (received stream events).length := by
    obtain ⟨rest, rfl⟩ := hbefore
    rw [received, received, List.flatMap_append, List.length_append]
    exact Nat.le_add_right _ _
  rcases h with ⟨stream, hlimit⟩ | ⟨combined, hcombined, hlimit⟩
  · exact .inl ⟨stream, hlimit.trans_le (hlength stream)⟩
  · exact .inr ⟨combined, hcombined, hlimit.trans_le (Nat.add_le_add (hlength _) (hlength _))⟩

theorem not_exceededFirst (h : ¬ Exceeds config events) : ¬ ExceededFirst config events := by
  rintro ⟨before, hbefore, -, hexceeds⟩
  exact h (hexceeds.of_prefix hbefore)

theorem undecided (h : c.decided = false) : c.terminalError = none ∧ c.settled = false := by
  obtain ⟨herror, hsettled⟩ := Bool.or_eq_false_iff.mp h
  exact ⟨Option.isSome_eq_false_iff.mp herror |> Option.isNone_iff_eq_none.mp, hsettled⟩

/-- What is undecided has not settled. -/
theorem Verdict.unsettled (h : Verdict config events c) (hgoing : c.decided = false) :
    c.failing = none ∧ c.resumed = [] := by
  constructor
  · cases hfailing : c.failing with
    | none => rfl
    | some failure =>
      obtain ⟨-, -, -, hdecided⟩ := h.failing failure hfailing
      cases hgoing.symm.trans hdecided
  · have honce := h.once
    rw [(undecided hgoing).2] at honce
    exact List.length_eq_zero_iff.mp honce

/-- A chunk that fits is kept as it is. -/
theorem Verdict.kept (h : Verdict config events c) {stream : OutputStream} {chunk : Bytes}
    (hgoing : c.decided = false) (hfits : chunk.length ≤ c.remaining config stream) :
    Verdict config (events ++ [.data stream chunk])
      (c.keep stream chunk (c.remaining config stream)) := by
  obtain ⟨hno, hall⟩ := h.going hgoing
  obtain ⟨hnone, hsettled⟩ := undecided hgoing
  obtain ⟨hfailing, hresumed⟩ := h.unsettled hgoing
  have hbuffers := h.buffers.keep hall stream chunk
  have hcomplete : Complete (events ++ [.data stream chunk])
      (c.keep stream chunk (c.remaining config stream)).retained := hall.keep hfits
  refine ⟨hbuffers, fun _ => ⟨not_ends_concat hno rfl, hcomplete⟩, fun _ hdecided => ?_,
    fun _ => not_exceededFirst (hbuffers.not_exceeds hcomplete), fun failure herror => ?_,
    fun failure hfailed => ?_, fun outcome houtcome => ?_, h.once⟩
  · cases hgoing.symm.trans hdecided
  · cases hnone.symm.trans herror
  · cases hfailing.symm.trans hfailed
  · rw [Core.keep, hresumed] at houtcome
    cases houtcome

/-- Of a chunk that does not fit a start is kept, and a limit is exceeded first. -/
theorem Verdict.exceeded (h : Verdict config events c) {stream : OutputStream} {chunk : Bytes}
    {failure : ProcessFailure} (hgoing : c.decided = false)
    (hlong : c.remaining config stream < chunk.length) (hkind : failure.kind = .outputLimit) :
    Verdict config (events ++ [.data stream chunk])
      { c.keep stream chunk (c.remaining config stream) with terminalError := some failure } := by
  obtain ⟨hno, hall⟩ := h.going hgoing
  obtain ⟨hfailing, hresumed⟩ := h.unsettled hgoing
  have hexceeds := h.buffers.exceeds hall hlong
  refine ⟨h.buffers.keep hall stream chunk, nofun, fun _ _ => .inr hexceeds, nofun, ?_,
    fun failure hfailed => ?_, fun outcome houtcome => ?_, h.once⟩
  · rintro _ ⟨⟩
    exact iff_of_true hkind (.of_exceeds (not_ends_concat hno rfl) hexceeds)
  · cases hfailing.symm.trans hfailed
  · rw [Core.keep, hresumed] at houtcome
    cases houtcome

theorem closed_concat {code : Option Int} {closeSignal : Option Str} :
    Closed (events ++ [.close code closeSignal]) :=
  ⟨code, closeSignal, List.mem_append_right _ List.mem_cons_self⟩

/-- The child closes after a failure. -/
theorem Verdict.deferred (h : Verdict config events c) {code : Option Int} {closeSignal : Option Str}
    {failure : ProcessFailure} (herror : c.terminalError = some failure) :
    Verdict config (events ++ [.close code closeSignal])
      { c with failing := some (failure.withOutput c.output) } := by
  have hdecided : c.decided = true := by rw [Core.decided, herror]; rfl
  have hsame : Verdict config (events ++ [.close code closeSignal]) c :=
    h.same nofun fun _ => hdecided
  refine ⟨hsame.buffers, hsame.going, hsame.finished, hsame.spared, hsame.error, ?_, hsame.resumed,
    hsame.once⟩
  rintro _ ⟨⟩
  exact ⟨hsame.error failure herror, rfl, closed_concat, hdecided⟩

/-- The child closes by itself. -/
theorem Verdict.closed (h : Verdict config events c) {code : Option Int} {closeSignal : Option Str}
    {outcome : Outcome} (hgoing : c.decided = false) (hkind : outputLimited outcome = false)
    (hreport : reported outcome = some c.output) :
    Verdict config (events ++ [.close code closeSignal]) (c.settle outcome) := by
  obtain ⟨hnone, hsettled⟩ := undecided hgoing
  obtain ⟨hfailing, hresumed⟩ := h.unsettled hgoing
  obtain ⟨-, hall⟩ := h.going hgoing
  have hbuffers := h.buffers.append (.close code closeSignal)
  have hspared := not_exceededFirst (hbuffers.not_exceeds (hall.append rfl))
  refine ⟨hbuffers, fun hdecided => ?_, fun _ _ => .of_ends rfl, fun _ => hspared,
    fun failure herror => ?_, fun failure hfailed => ?_, fun other hother => ?_, ?_⟩
  · rw [Core.decided, Core.settle, Bool.or_true] at hdecided
    cases hdecided
  · cases hnone.symm.trans herror
  · cases hfailing.symm.trans hfailed
  · rw [Core.settle, hresumed] at hother
    rw [List.mem_singleton.mp hother]
    exact ⟨iff_of_false (fun h => Bool.false_ne_true (hkind.symm.trans h)) hspared, hreport,
      .inr closed_concat⟩
  · rw [Core.settle, hresumed]
    rfl

/-- The collection settles with the failure, after the termination. -/
theorem Verdict.settled (h : Verdict config events c) {failure : ProcessFailure}
    (hsettled : c.settled = false) (hfailing : c.failing = some failure) :
    Verdict config (events ++ [.fail])
      ({ c with failing := none }.settle (.error failure)) := by
  have hsame : Verdict config (events ++ [.fail]) c := h.same nofun nofun
  obtain ⟨hkind, houtput, hclosed, hdecided⟩ := hsame.failing failure hfailing
  have hresumed : c.resumed = [] := by
    have honce := h.once
    rw [hsettled] at honce
    exact List.length_eq_zero_iff.mp honce
  refine ⟨hsame.buffers, fun hgoing => ?_, fun hstarted _ => hsame.finished hstarted hdecided,
    hsame.spared, hsame.error, nofun, fun other hother => ?_, ?_⟩
  · rw [Core.decided, Core.settle, Bool.or_true] at hgoing
    cases hgoing
  · rw [Core.settle, hresumed] at hother
    rw [List.mem_singleton.mp hother]
    exact ⟨decide_eq_true_iff.trans hkind, houtput, .inr hclosed⟩
  · rw [Core.settle, hresumed]
    rfl

theorem Verdict.dropped (h : Verdict config events c) :
    Verdict config (events ++ [.fail]) { c with failing := none } := by
  have hsame : Verdict config (events ++ [.fail]) c := h.same nofun nofun
  exact ⟨hsame.buffers, hsame.going, hsame.finished, hsame.spared, hsame.error, nofun, hsame.resumed,
    hsame.once⟩

theorem Move.verdict {c' : Core} (hmove : Move config c event c') (h : Verdict config events c) :
    Verdict config (events ++ [event]) c' := by
  cases hmove with
  | same hdata hends => exact h.same hdata hends
  | kept hgoing hfits => exact h.kept hgoing hfits
  | exceeded hgoing hlong hkind => exact h.exceeded hgoing hlong hkind
  | failed hnone hends hkind => exact h.failed hnone hends hkind
  | deferred herror => exact h.deferred herror
  | closed hgoing hkind hreport => exact h.closed hgoing hkind hreport
  | settled hsettled hfailing => exact h.settled hsettled hfailing
  | dropped _ => exact h.dropped

end

end PiEnv.Process
