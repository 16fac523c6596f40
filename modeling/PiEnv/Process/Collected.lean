import PiEnv.Process.Verdict

/-!
# What is collected

In every run what is retained and what is reported is right about the events, and the
collection settles once, after the child has closed. The errors of the streams are
heard by no one.
-/

namespace PiEnv.Process

open Js
open Transitions (run)
open Utf8 (Bytes)

variable {config : Config} {spawned : Except Str Unit} {events : List Event} {event : Event}
  {s s' : Collection}

-- -----
-- What is promised
-- -----

/-- `spawn` threw. -/
def NotStarted (spawned : Except Str Unit) : Prop := ∃ cause, spawned = .error cause

structure Collected (config : Config) (spawned : Except Str Unit) (events : List Event)
    (s : Collection) : Prop where
  prefixes : ∀ stream, (s.retained stream).concat <+: received stream events
  limits : ∀ stream, (s.retained stream).concat.length ≤ config.limit stream
  combined : ∀ combined, config.combinedOutputLimitBytes = some combined →
    (s.retained .stdout).concat.length + (s.retained .stderr).concat.length ≤ combined
  reports : ∀ outcome ∈ s.resumed, reported outcome = some s.output
  outputLimit : ∀ outcome ∈ s.resumed, outputLimited outcome = true ↔ ExceededFirst config events
  once : s.resumed.length ≤ 1
  closes : s.resumed ≠ [] → NotStarted spawned ∨ Closed events
  releases : s.released = true → NotStarted spawned ∨ .exit ∈ events
  heard : s.unheard = []

/-- The event is no error of a stream, nor a second one of the child. -/
def Spares (before : List Event) (event : Event) : Prop :=
  (∀ stream cause, event ≠ .streamError stream cause) ∧
    ∀ cause, event = .error cause → ∀ earlier, .error earlier ∉ before

/-- While a collection is pending, no stream has an error and the child at most one. -/
def ErrorsSpared (config : Config) (spawned : Except Str Unit) (events : List Event) : Prop :=
  Transitions.EachMeets (step config) (fun before s event => s.pending = true → Spares before event)
    (start config spawned) events

-- -----
-- The steps
-- -----

/-- What an event does to a collection, and what it takes. -/
inductive Steps (config : Config) (s : Collection) : Event → Collection → Prop where
  | data {stream : OutputStream} {chunk : Bytes} : s.started = true →
      Steps config s (.data stream chunk) (s.emitData config stream chunk)
  | error {cause : Str} : Steps config s (.error cause) (s.emitError config cause)
  | streamError {stream : Stdio} {cause : Str} :
      Steps config s (.streamError stream cause) (s.unhear cause)
  | exit : Steps config s .exit { s with exited := true }
  | close {code : Option Int} {closeSignal : Option Str} : s.exited = true →
      Steps config s (.close code closeSignal) (s.emitClose config code closeSignal)
  | timeout : Steps config s .timeout ({ s with timeoutTimer := false }.onTimeout config)
  | terminated : s.childClosed = true →
      Steps config s .terminated { s with termination := some .done }
  | fail {promised : Promised} {error : ProcessFailure} : s.failing = some (promised, error) →
      Steps config s .fail ({ s with failing := none }.settle (.error error))
  | abort : Steps config s .abort (s.interrupt config)
  | release {promised : Promised} : s.releasing = some promised → s.awaited promised = true →
      Steps config s .release s.release

theorem step_cases (hstep : step config s event = some s') : Steps config s event s' := by
  cases event with
  | data stream chunk =>
    obtain ⟨hstarted, ⟨⟩⟩ := Option.ite_none_right_eq_some.mp hstep
    exact .data hstarted
  | error cause =>
    obtain ⟨-, ⟨⟩⟩ := Option.ite_none_right_eq_some.mp hstep
    exact .error
  | streamError stream cause =>
    obtain ⟨-, ⟨⟩⟩ := Option.ite_none_right_eq_some.mp hstep
    exact .streamError
  | exit =>
    obtain ⟨-, ⟨⟩⟩ := Option.ite_none_right_eq_some.mp hstep
    exact .exit
  | close code closeSignal =>
    obtain ⟨hguard, ⟨⟩⟩ := Option.ite_none_right_eq_some.mp hstep
    exact .close (Bool.and_eq_true_iff.mp hguard).1
  | timeout =>
    obtain ⟨-, ⟨⟩⟩ := Option.ite_none_right_eq_some.mp hstep
    exact .timeout
  | terminated =>
    obtain ⟨hguard, ⟨⟩⟩ := Option.ite_none_right_eq_some.mp hstep
    exact .terminated (Bool.and_eq_true_iff.mp hguard).2
  | fail =>
    rw [step] at hstep
    split at hstep
    · rename_i promised error hfailing
      obtain ⟨-, ⟨⟩⟩ := Option.ite_none_right_eq_some.mp hstep
      exact .fail hfailing
    · cases hstep
  | abort =>
    obtain ⟨-, ⟨⟩⟩ := Option.ite_none_right_eq_some.mp hstep
    exact .abort
  | release =>
    rw [step] at hstep
    split at hstep
    · rename_i hreleasing
      obtain ⟨hawaited, ⟨⟩⟩ := Option.ite_none_right_eq_some.mp hstep
      exact .release hreleasing hawaited
    · cases hstep

namespace Collection

def core (s : Collection) : Core where
  started := s.started
  retained := s.retained
  terminalError := s.terminalError
  settled := s.settled
  failing := s.failing.map (·.2)
  resumed := s.resumed

/-- The listeners are there until something is decided; a release has an error, and
ends no earlier than the child. -/
structure Tracked (spawned : Except Str Unit) (events : List Event) (s : Collection) : Prop where
  started : s.started = false → NotStarted spawned
  exited : s.exited = true → .exit ∈ events
  childClosed : s.childClosed = true → s.exited = true
  closed : s.closed = true → s.exited = true
  termination : s.termination = some .done → s.exited = true
  listening : s.listening = false → s.core.decided = true
  hearing : s.hearing = false → s.core.decided = true
  settled : s.settled = true → s.listening = false
  releasing : s.releasing.isSome = true → s.terminalError.isSome = true
  resolved : s.releasing = some .resolved → s.started = false ∨ s.exited = true
  released : s.released = true → s.started = false ∨ s.exited = true

theorem beginTermination_eq (s : Collection) :
    ∃ termination, s.beginTermination.1 = { s with termination } := by
  unfold beginTermination
  split
  · exact ⟨s.termination, rfl⟩
  split
  · exact ⟨s.termination, rfl⟩
  · exact ⟨_, rfl⟩

theorem beginTermination_core (s : Collection) : s.beginTermination.1.core = s.core := by
  obtain ⟨termination, hbegin⟩ := beginTermination_eq s
  rw [hbegin]
  rfl

theorem failAndTerminate_decided {error : ProcessFailure} (h : s.core.decided = true) :
    s.failAndTerminate error = s :=
  if_pos h

theorem failAndTerminate_going (error : ProcessFailure) (h : s.core.decided = false) :
    s.failAndTerminate error = (s.fails error).beginTermination.1 :=
  if_neg fun hdecided => Bool.false_ne_true (h.symm.trans hdecided)

/-- An error, or the timeout, is the one that is reported if it is the first. -/
theorem failAndTerminate_move {error : ProcessFailure} (hends : event.ends = true)
    (hkind : error.kind ≠ .outputLimit) (s : Collection) :
    Move config s.core event (s.failAndTerminate error).core := by
  cases hdecided : s.core.decided with
  | true =>
    rw [failAndTerminate_decided hdecided]
    refine .same (fun hdata => ?_) fun _ => hdecided
    cases (ends_not_data hends).symm.trans hdata
  | false =>
    rw [failAndTerminate_going error hdecided, beginTermination_core]
    exact .failed (undecided hdecided).1 hends hkind

theorem settle_settled {outcome : Outcome} (h : s.settled = true) : s.settle outcome = s := if_pos h

theorem settle_core {outcome : Outcome} (h : s.settled = false) :
    (s.settle outcome).core = s.core.settle outcome := by
  rw [Collection.settle, h]
  rfl

theorem collect_decided {stream : OutputStream} {chunk : Bytes} (h : s.core.decided = true) :
    s.collect config stream chunk = s :=
  if_pos h

theorem collect_going {stream : OutputStream} {chunk : Bytes} (h : s.core.decided = false) :
    s.collect config stream chunk =
      let kept := s.keep config stream chunk
      if s.remaining config stream < chunk.length then
        kept.failAndTerminate
          (kept.failure config .outputLimit (s.exceededMessage config stream chunk))
      else kept :=
  if_neg fun hdecided => Bool.false_ne_true (h.symm.trans hdecided)

theorem collect_move (hstarted : s.started = true) (stream : OutputStream) (chunk : Bytes) :
    Move config s.core (.data stream chunk) (s.collect config stream chunk).core := by
  cases hdecided : s.core.decided with
  | true =>
    rw [collect_decided hdecided]
    exact .same (fun _ => ⟨hstarted, hdecided⟩) nofun
  | false =>
    rw [collect_going hdecided]
    by_cases hlong : s.remaining config stream < chunk.length
    · have hkept : (s.keep config stream chunk).core.decided = false := hdecided
      simp only [if_pos hlong]
      rw [failAndTerminate_going _ hkept, beginTermination_core]
      exact .exceeded hdecided hlong rfl
    · simp only [if_neg hlong]
      exact .kept hdecided (Nat.not_lt.mp hlong)

theorem closing_outcome (config : Config) (s : Collection) (code : Option Int) (closeSignal : Option Str) :
    outputLimited (s.closing config code closeSignal) = false ∧
      reported (s.closing config code closeSignal) = some s.output := by
  unfold closing
  split
  · exact ⟨rfl, rfl⟩
  split
  · exact ⟨rfl, rfl⟩
  split
  · exact ⟨rfl, rfl⟩
  · exact ⟨rfl, rfl⟩

theorem onClose_move (s : Collection) (hsettled : s.settled = false) (code : Option Int)
    (closeSignal : Option Str) :
    Move config s.core (.close code closeSignal) (s.onClose config code closeSignal).core := by
  unfold onClose
  split
  · rename_i error herror
    exact .deferred (c := s.core) herror
  · rename_i hnone
    have hdecided : s.core.decided = false := by
      rw [Core.decided]
      exact Bool.or_eq_false_iff.mpr ⟨congrArg Option.isSome hnone, hsettled⟩
    obtain ⟨hkind, hreport⟩ := closing_outcome config s code closeSignal
    rw [settle_core (s := { s with closed := true }) hsettled]
    exact .closed (c := s.core) hdecided hkind hreport

/-- An interruption is an error like the others, also once the collection has settled. -/
theorem interrupt_move (s : Collection) : Move config s.core .abort (s.interrupt config).core := by
  have hcore : (s.interrupt config).core = (s.fails (s.interruption config)).core :=
    beginTermination_core _
  rw [hcore, interruption]
  cases herror : s.terminalError with
  | none => exact .failed (c := s.core) herror rfl (by intro h; cases h)
  | some error =>
    have hsame : (s.fails error).core = s.core := by
      rw [core, core, herror]
      rfl
    have hdecided : s.core.decided = true := by
      rw [Core.decided]
      exact Bool.or_eq_true_iff.mpr (.inl (congrArg Option.isSome herror))
    rw [Option.getD_some, hsame]
    exact .same (by intro h; cases h) fun _ => hdecided

theorem onError_move (s : Collection) (cause : Str) :
    Move config s.core (.error cause) (s.onError config cause).core :=
  failAndTerminate_move rfl (show ProcessFailureKind.spawn ≠ .outputLimit from nofun) s

theorem onTimeout_move (s : Collection) : Move config s.core .timeout (s.onTimeout config).core :=
  failAndTerminate_move rfl (show ProcessFailureKind.timeout ≠ .outputLimit from nofun) s

theorem unhear_core (s : Collection) (cause : Str) : (s.unhear cause).core = s.core := by
  unfold unhear
  split
  · rfl
  · rfl

theorem fail_move {promised : Promised} {error : ProcessFailure}
    (hfailing : s.failing = some (promised, error)) :
    Move config s.core .fail ({ s with failing := none }.settle (.error error)).core := by
  have hcore : s.core.failing = some error := congrArg (Option.map Prod.snd) hfailing
  by_cases hsettled : s.settled = true
  · rw [settle_settled (s := { s with failing := none }) hsettled]
    exact .dropped hsettled
  · have hgoing := Bool.eq_false_iff.mpr hsettled
    rw [settle_core (s := { s with failing := none }) hgoing]
    exact .settled (c := s.core) hgoing hcore

theorem emitData_move (h : Tracked spawned events s) (hstarted : s.started = true)
    (stream : OutputStream) (chunk : Bytes) :
    Move config s.core (.data stream chunk) (s.emitData config stream chunk).core := by
  unfold emitData
  split
  · exact collect_move hstarted stream chunk
  · rename_i hlistening
    exact .same (fun _ => ⟨hstarted, h.listening (Bool.eq_false_iff.mpr hlistening)⟩) nofun

theorem emitError_move (h : Tracked spawned events s) (cause : Str) :
    Move config s.core (.error cause) (s.emitError config cause).core := by
  unfold emitError
  split
  · exact onError_move { s with hearing := false } cause
  · rename_i hhearing
    rw [unhear_core]
    exact .same nofun fun _ => h.hearing (Bool.eq_false_iff.mpr hhearing)

theorem emitClose_move (h : Tracked spawned events s) (code : Option Int) (closeSignal : Option Str) :
    Move config s.core (.close code closeSignal) (s.emitClose config code closeSignal).core := by
  unfold emitClose
  split
  · rename_i hlistening
    have hsettled : s.settled = false := Bool.eq_false_iff.mpr fun hsettled =>
      Bool.false_ne_true ((h.settled hsettled).symm.trans hlistening)
    exact onClose_move { s with childClosed := true } hsettled code closeSignal
  · rename_i hlistening
    exact .same nofun fun _ => h.listening (Bool.eq_false_iff.mpr hlistening)

/-- A step does to the part that the outcome comes from what its event does. -/
theorem step_move (h : Tracked spawned events s) (hstep : step config s event = some s') :
    Move config s.core event s'.core := by
  cases step_cases hstep with
  | data hstarted => exact emitData_move h hstarted _ _
  | error => exact emitError_move h _
  | streamError =>
    rw [unhear_core]
    exact .same nofun nofun
  | exit => exact .same nofun nofun
  | close _ => exact emitClose_move h _ _
  | timeout => exact onTimeout_move { s with timeoutTimer := false }
  | terminated _ => exact .same nofun nofun
  | fail hfailing => exact fail_move hfailing
  | abort => exact interrupt_move s
  | release _ _ => exact .same nofun nofun

-- -----
-- Listeners and the end of the child
-- -----

theorem Tracked.append (h : Tracked spawned events s) (event : Event) :
    Tracked spawned (events ++ [event]) s where
  __ := h
  exited hexited := List.mem_append_left _ (h.exited hexited)

theorem start_tracked : Tracked spawned [] (start config spawned) := by
  cases spawned with
  | ok _ =>
    exact ⟨nofun, nofun, nofun, nofun, nofun, nofun, nofun, nofun, nofun, nofun, nofun⟩
  | error cause =>
    exact ⟨fun _ => ⟨cause, rfl⟩, nofun, nofun, nofun, nofun, fun _ => rfl, fun _ => rfl,
      fun _ => rfl, nofun, nofun, nofun⟩

theorem Tracked.beginTermination (h : Tracked spawned events s) :
    Tracked spawned events s.beginTermination.1 := by
  unfold Collection.beginTermination
  split
  · exact h
  split
  · exact h
  · refine { h with termination := fun hdone => ?_ }
    by_contra hexited
    simp only [if_neg hexited] at hdone
    cases hdone

/-- Once there is an error, no listener need be there. -/
theorem Tracked.fails (h : Tracked spawned events s) (error : ProcessFailure) :
    Tracked spawned events (s.fails error) where
  __ := h
  listening _ := rfl
  hearing _ := rfl
  releasing _ := rfl

theorem Tracked.failAndTerminate (h : Tracked spawned events s) (error : ProcessFailure) :
    Tracked spawned events (s.failAndTerminate error) := by
  cases hdecided : s.core.decided with
  | true =>
    rw [failAndTerminate_decided hdecided]
    exact h
  | false =>
    rw [failAndTerminate_going error hdecided]
    exact (h.fails error).beginTermination

theorem Tracked.collect (h : Tracked spawned events s) (stream : OutputStream) (chunk : Bytes) :
    Tracked spawned events (s.collect config stream chunk) := by
  have hkept : Tracked spawned events (s.keep config stream chunk) := { h with }
  cases hdecided : s.core.decided with
  | true =>
    rw [collect_decided hdecided]
    exact h
  | false =>
    rw [collect_going hdecided]
    by_cases hlong : s.remaining config stream < chunk.length
    · simp only [if_pos hlong]
      exact hkept.failAndTerminate _
    · simp only [if_neg hlong]
      exact hkept

theorem Tracked.settle (h : Tracked spawned events s) (outcome : Outcome) :
    Tracked spawned events (s.settle outcome) := by
  by_cases hsettled : s.settled = true
  · rw [settle_settled hsettled]
    exact h
  · rw [Collection.settle, if_neg hsettled]
    refine { h with listening := fun _ => ?_, hearing := fun _ => ?_, settled := fun _ => rfl }
    · exact Bool.or_true _
    · exact Bool.or_true _

theorem Tracked.onClose (h : Tracked spawned events s) (hexited : s.exited = true)
    (code : Option Int) (closeSignal : Option Str) :
    Tracked spawned events (s.onClose config code closeSignal) := by
  have hclosed : Tracked spawned events { s with closed := true } :=
    { h with closed := fun _ => hexited }
  unfold Collection.onClose
  split
  · exact { hclosed with }
  · exact hclosed.settle _

theorem Tracked.unhear (h : Tracked spawned events s) (cause : Str) :
    Tracked spawned events (s.unhear cause) := by
  unfold Collection.unhear
  split
  · exact { h with }
  · exact h

/-- The first error that is heard decides the collection, and takes its listener away. -/
theorem Tracked.emitError (h : Tracked spawned events s) (cause : Str) :
    Tracked spawned events (s.emitError config cause) := by
  unfold Collection.emitError
  split
  · cases hdecided : s.core.decided with
    | true =>
      have htaken : Tracked spawned events { s with hearing := false } :=
        { h with hearing := fun _ => hdecided }
      exact htaken.failAndTerminate _
    | false =>
      have hgoing : ({ s with hearing := false } : Collection).core.decided = false := hdecided
      rw [Collection.onError, failAndTerminate_going _ hgoing]
      refine Tracked.beginTermination ?_
      exact { h with listening := fun _ => rfl, hearing := fun _ => rfl, releasing := fun _ => rfl }
  · exact h.unhear cause

/-- What is waited for, if not the termination, is over once nothing runs. -/
theorem beginTermination_resolved (h : Tracked spawned events s)
    (hresolved : s.beginTermination.2 = .resolved) :
    s.beginTermination.1.started = false ∨ s.beginTermination.1.exited = true := by
  unfold Collection.beginTermination at hresolved ⊢
  split at hresolved
  · cases hresolved
  split at hresolved
  · rename_i hrunning hover
    rw [if_neg hrunning, if_pos hover]
    rcases Bool.or_eq_true_iff.mp hover with hstarted | hclosed
    · exact .inl (Bool.not_eq_true' _ ▸ hstarted)
    · exact .inr (h.closed hclosed)
  · cases hresolved

theorem Tracked.interrupt (h : Tracked spawned events s) :
    Tracked spawned events (s.interrupt config) := by
  have hfails := h.fails (s.interruption config)
  have hbegun := hfails.beginTermination
  refine { hbegun with releasing := fun _ => ?_, resolved := fun hresolved => ?_ }
  · obtain ⟨termination, hbegin⟩ := beginTermination_eq (s.fails (s.interruption config))
    exact congrArg (·.terminalError.isSome) hbegin
  · exact beginTermination_resolved hfails (Option.some.inj hresolved)

theorem Tracked.release (h : Tracked spawned events s) {promised : Promised}
    (hreleasing : s.releasing = some promised) (hawaited : s.awaited promised = true) :
    Tracked spawned events s.release := by
  have hdecided : s.core.decided = true := by
    refine Bool.or_eq_true_iff.mpr (.inl (h.releasing ?_))
    rw [hreleasing]
    rfl
  refine { h with
    listening := fun _ => hdecided, hearing := fun _ => hdecided, settled := fun _ => rfl
    releasing := nofun, resolved := nofun, released := fun _ => ?_ }
  cases promised with
  | resolved => exact h.resolved hreleasing
  | termination => exact .inr (h.termination (of_decide_eq_true hawaited))

/-- A step keeps what is tracked. -/
theorem step_tracked (h : Tracked spawned events s) (hstep : step config s event = some s') :
    Tracked spawned (events ++ [event]) s' := by
  have happended := h.append event
  cases step_cases hstep with
  | @data stream chunk _ =>
    unfold Collection.emitData
    split
    · exact happended.collect stream chunk
    · exact happended
  | error => exact happended.emitError _
  | streamError => exact happended.unhear _
  | exit =>
    exact { happended with
      exited := fun _ => List.mem_append_right _ List.mem_cons_self
      childClosed := fun _ => rfl
      closed := fun _ => rfl
      termination := fun _ => rfl
      resolved := fun _ => .inr rfl
      released := fun _ => .inr rfl }
  | @close code closeSignal hexited =>
    have hclosed : Tracked spawned (events ++ [.close code closeSignal])
        { s with childClosed := true } :=
      { happended with childClosed := fun _ => hexited }
    unfold Collection.emitClose
    split
    · exact hclosed.onClose hexited code closeSignal
    · exact hclosed
  | timeout =>
    have hfired : Tracked spawned (events ++ [.timeout]) { s with timeoutTimer := false } :=
      { happended with }
    exact hfired.failAndTerminate _
  | terminated hclosed =>
    exact { happended with termination := fun _ => h.childClosed hclosed }
  | fail _ =>
    have hdropped : Tracked spawned (events ++ [.fail]) { s with failing := none } :=
      { happended with }
    exact hdropped.settle _
  | abort => exact happended.interrupt
  | release hreleasing hawaited => exact happended.release hreleasing hawaited

-- -----
-- Errors that are heard
-- -----

/-- No error is left unheard, and the listener is there as before. -/
def Quiet (s s' : Collection) : Prop :=
  s'.unheard = s.unheard ∧ (s'.pending = true → s.pending = true ∧ s'.hearing = s.hearing)

theorem Quiet.refl (s : Collection) : Quiet s s := ⟨rfl, fun h => ⟨h, rfl⟩⟩

theorem failAndTerminate_quiet (error : ProcessFailure) (s : Collection) :
    Quiet s (s.failAndTerminate error) := by
  cases hdecided : s.core.decided with
  | true =>
    rw [failAndTerminate_decided hdecided]
    exact .refl s
  | false =>
    obtain ⟨termination, hbegin⟩ := beginTermination_eq (s.fails error)
    rw [failAndTerminate_going error hdecided, hbegin]
    exact .refl s

theorem collect_quiet (s : Collection) (stream : OutputStream) (chunk : Bytes) :
    Quiet s (s.collect config stream chunk) := by
  cases hdecided : s.core.decided with
  | true =>
    rw [collect_decided hdecided]
    exact .refl s
  | false =>
    rw [collect_going hdecided]
    by_cases hlong : s.remaining config stream < chunk.length
    · simp only [if_pos hlong]
      exact failAndTerminate_quiet _ (s.keep config stream chunk)
    · simp only [if_neg hlong]
      exact .refl s

theorem settle_quiet (outcome : Outcome) (s : Collection) : Quiet s (s.settle outcome) := by
  unfold Collection.settle
  split
  · exact .refl s
  · exact ⟨rfl, nofun⟩

theorem onClose_quiet (s : Collection) (code : Option Int) (closeSignal : Option Str) :
    Quiet s (s.onClose config code closeSignal) := by
  unfold Collection.onClose
  split
  · exact .refl s
  · exact settle_quiet _ { s with closed := true }

theorem interrupt_quiet (s : Collection) : Quiet s (s.interrupt config) := by
  obtain ⟨termination, hbegin⟩ := beginTermination_eq (s.fails (s.interruption config))
  unfold Collection.interrupt
  simp only [hbegin]
  exact .refl s

theorem release_quiet (s : Collection) : Quiet s s.release :=
  ⟨rfl, fun h => absurd h (by rw [pending, Collection.release, Bool.not_true, Bool.and_false]; nofun)⟩

/-- The events other than errors. -/
theorem step_quiet (hstep : step config s event = some s') (herror : ∀ cause, event ≠ .error cause)
    (hstream : ∀ stream cause, event ≠ .streamError stream cause) : Quiet s s' := by
  cases step_cases hstep with
  | @data stream chunk _ =>
    unfold Collection.emitData
    split
    · exact collect_quiet s stream chunk
    · exact .refl s
  | @error cause => exact absurd rfl (herror cause)
  | @streamError stream cause => exact absurd rfl (hstream stream cause)
  | exit => exact .refl s
  | @close code closeSignal _ =>
    unfold Collection.emitClose
    split
    · exact onClose_quiet { s with childClosed := true } code closeSignal
    · exact .refl s
  | timeout => exact failAndTerminate_quiet _ { s with timeoutTimer := false }
  | terminated _ => exact .refl s
  | fail _ => exact settle_quiet _ { s with failing := none }
  | abort => exact interrupt_quiet s
  | release _ _ => exact release_quiet s

/-- The listener is there until the first error of the child. -/
def Hears (events : List Event) (s : Collection) : Prop :=
  s.pending = true → (s.hearing = true ↔ ∀ cause, .error cause ∉ events)

theorem Hears.quiet (h : Hears events s) (hquiet : Quiet s s') (herror : ∀ cause, event ≠ .error cause) :
    Hears (events ++ [event]) s' := by
  intro hpending
  obtain ⟨hbefore, hhearing⟩ := hquiet.2 hpending
  rw [hhearing, h hbefore]
  refine forall_congr' fun cause => not_congr ?_
  rw [List.mem_append, List.mem_singleton]
  exact (or_iff_left fun heq => herror cause heq.symm).symm

theorem unhear_pending {cause : Str} : (s.unhear cause).pending = s.pending := by
  unfold Collection.unhear
  split
  · rfl
  · rfl

theorem unhear_hearing {cause : Str} : (s.unhear cause).hearing = s.hearing := by
  unfold Collection.unhear
  split
  · rfl
  · rfl

theorem unhear_unheard {cause : Str} (h : s.pending = true) : (s.unhear cause).unheard ≠ [] := by
  rw [Collection.unhear, if_pos h]
  exact List.append_ne_nil_of_right_ne_nil _ (List.cons_ne_nil _ _)

theorem unhear_over {cause : Str} (h : s.pending = false) : s.unhear cause = s :=
  if_neg (Bool.eq_false_iff.mp h)

/-- After an error of the child nothing listens to the next one. -/
theorem emitError_hearing (cause : Str) (h : (s.emitError config cause).pending = true) :
    (s.emitError config cause).hearing = false := by
  unfold Collection.emitError at h ⊢
  split at h
  · rename_i hhearing
    rw [if_pos hhearing]
    exact ((failAndTerminate_quiet _ { s with hearing := false }).2 h).2
  · rename_i hhearing
    rw [if_neg hhearing, unhear_hearing]
    exact Bool.eq_false_iff.mpr hhearing

theorem step_hears (h : Hears events s) (hstep : step config s event = some s') :
    Hears (events ++ [event]) s' := by
  cases hcases : step_cases hstep with
  | @error cause =>
    intro hpending
    refine iff_of_false (Bool.eq_false_iff.mp (emitError_hearing cause hpending)) fun hno => ?_
    exact hno cause (List.mem_append_right _ List.mem_cons_self)
  | @streamError stream cause =>
    have hkept : Hears (events ++ [.streamError stream cause]) s := h.quiet (.refl s) nofun
    intro hpending
    rw [unhear_pending] at hpending
    rw [unhear_hearing]
    exact hkept hpending
  | _ => exact h.quiet (step_quiet hstep nofun nofun) nofun

/-- An error is left unheard exactly if the event is not one that is spared. -/
theorem step_unheard (h : Hears events s) (hstep : step config s event = some s') :
    s'.unheard = [] ↔ s.unheard = [] ∧ (s.pending = true → Spares events event) := by
  cases hcases : step_cases hstep with
  | @error cause =>
    unfold Collection.emitError
    split
    · rename_i hhearing
      rw [show (({ s with hearing := false } : Collection).onError config cause).unheard = s.unheard
        from (failAndTerminate_quiet _ { s with hearing := false }).1]
      refine (and_iff_left fun hpending => ⟨nofun, ?_⟩).symm
      rintro _ -
      exact (h hpending).mp hhearing
    · rename_i hhearing
      cases hpending : s.pending with
      | true =>
        refine iff_of_false (unhear_unheard hpending) ?_
        rintro ⟨-, hspares⟩
        exact hhearing ((h hpending).mpr ((hspares rfl).2 cause rfl))
      | false =>
        rw [unhear_over hpending]
        exact (and_iff_left nofun).symm
  | @streamError stream cause =>
    cases hpending : s.pending with
    | true =>
      refine iff_of_false (unhear_unheard hpending) ?_
      rintro ⟨-, hspares⟩
      exact (hspares rfl).1 stream cause rfl
    | false =>
      rw [unhear_over hpending]
      exact (and_iff_left nofun).symm
  | _ =>
    rw [(step_quiet hstep nofun nofun).1]
    exact (and_iff_left fun _ => ⟨nofun, nofun⟩).symm

theorem start_hears : Hears [] (start config spawned) := by
  cases spawned with
  | ok _ => exact fun _ => iff_of_true rfl nofun
  | error cause => exact nofun

theorem start_unheard : (start config spawned).unheard = [] := by
  cases spawned with
  | ok _ => rfl
  | error cause => rfl

/-- Before anything comes, or where `spawn` threw. -/
theorem start_verdict : Verdict config [] (start config spawned).core := by
  have hbuffers : Buffers config [] fun _ => ⟨[], 0⟩ :=
    ⟨fun _ => rfl, fun _ => List.nil_prefix, fun _ => Nat.zero_le _, fun _ _ => Nat.zero_le _⟩
  have hspared := not_exceededFirst (hbuffers.not_exceeds fun _ => rfl)
  cases spawned with
  | ok _ =>
    exact ⟨hbuffers, fun _ => ⟨nofun, fun _ => rfl⟩, nofun, fun _ => hspared, nofun, nofun, nofun, rfl⟩
  | error cause =>
    refine ⟨hbuffers, nofun, nofun, fun _ => hspared, nofun, nofun, fun outcome houtcome => ?_, rfl⟩
    rw [List.mem_singleton.mp houtcome]
    exact ⟨iff_of_false nofun hspared, rfl, .inl rfl⟩

-- -----
-- Runs
-- -----

structure Inv (config : Config) (spawned : Except Str Unit) (events : List Event) (s : Collection) :
    Prop where
  reached : run (step config) (start config spawned) events = some s
  tracked : Tracked spawned events s
  verdict : Verdict config events s.core
  hears : Hears events s
  unheard : s.unheard = [] ↔ ErrorsSpared config spawned events

theorem step_inv (h : Inv config spawned events s) (hstep : step config s event = some s') :
    Inv config spawned (events ++ [event]) s' where
  reached := by
    rw [Transitions.run_append h.reached, run, hstep]
    rfl
  tracked := step_tracked h.tracked hstep
  verdict := (step_move h.tracked hstep).verdict h.verdict
  hears := step_hears h.hears hstep
  unheard := by
    rw [step_unheard h.hears hstep, h.unheard]
    exact (Transitions.eachMeets_concat h.reached).symm

theorem run_inv (hrun : run (step config) (start config spawned) events = some s) :
    Inv config spawned events s := by
  refine Transitions.along (fun _ _ _ _ => step_inv) ?_ hrun
  exact ⟨rfl, start_tracked, start_verdict, start_hears,
    iff_of_true start_unheard Transitions.eachMeets_nil⟩

end Collection

open Collection in
/-- Whatever the order of events, the collection is as promised, but that every error
is heard exactly if no stream has one, and the child at most one. -/
theorem collected_iff (config : Config) (spawned : Except Str Unit) {events : List Event}
    {s : Collection} (hrun : run (step config) (start config spawned) events = some s) :
    Collected config spawned events s ↔ ErrorsSpared config spawned events := by
  have hinv := run_inv hrun
  refine ⟨fun h => hinv.unheard.mp h.heard, fun hspared => ?_⟩
  have hbuffers := hinv.verdict.buffers
  have hconcat (stream : OutputStream) :
      (s.retained stream).concat = (s.retained stream).chunks.flatten :=
    (hbuffers.sound stream).concat
  have hlength (stream : OutputStream) :
      (s.retained stream).concat.length = (s.retained stream).bytes := by
    rw [hconcat]
    exact (hbuffers.sound stream).symm
  refine ⟨fun stream => ?_, fun stream => ?_, fun combined hcombined => ?_, fun outcome houtcome => ?_,
    fun outcome houtcome => (hinv.verdict.resumed outcome houtcome).1, ?_, fun hresumed => ?_,
    fun hreleased => ?_, hinv.unheard.mpr hspared⟩
  · rw [hconcat]
    exact hbuffers.prefixes stream
  · rw [hlength]
    exact hbuffers.limits stream
  · rw [hlength, hlength]
    exact hbuffers.combined combined hcombined
  · exact (hinv.verdict.resumed outcome houtcome).2.1
  · exact hinv.verdict.once.trans_le (Bool.toNat_le _)
  · obtain ⟨outcome, houtcome⟩ := List.exists_mem_of_ne_nil _ hresumed
    exact (hinv.verdict.resumed outcome houtcome).2.2.imp_left hinv.tracked.started
  · exact (hinv.tracked.released hreleased).imp hinv.tracked.started hinv.tracked.exited

/-- Three bytes of each stream, and four of both. -/
def fourBytes : Config where
  command := lit "cat"
  preserveExit := false
  timeoutMs := 1000
  stdoutLimit := 3
  stderrLimit := 3
  combinedOutputLimitBytes := some 4
  killGraceMs := 1000
  stdin := some [97]

/-- The chunk of `stderr` exceeds the limit of both streams. -/
def fiveBytes : List Event :=
  [.data .stdout [97, 98], .data .stderr [99, 100, 101], .exit, .close none (some (lit "SIGTERM")),
    .terminated, .fail]

theorem fiveBytes_spared : ErrorsSpared fourBytes (.ok ()) fiveBytes := by
  intro before event rest s hevents _ _
  have hmem : event ∈ fiveBytes := hevents ▸ List.mem_append_right _ List.mem_cons_self
  constructor
  · rintro stream cause rfl
    exact absurd hmem (by simp [fiveBytes])
  · rintro cause rfl
    exact absurd hmem (by simp [fiveBytes])

theorem collected_iff_fiveBytes : ∃ s,
    run (step fourBytes) (start fourBytes (.ok ())) fiveBytes = some s ∧
      s.resumed.map outputLimited = [true] ∧ Collected fourBytes (.ok ()) fiveBytes s := by
  obtain ⟨s, hs⟩ := Option.isSome_iff_exists.mp
    (show (run (step fourBytes) (start fourBytes (.ok ())) fiveBytes).isSome = true from rfl)
  refine ⟨s, hs, ?_, (collected_iff fourBytes (.ok ()) hs).mpr fiveBytes_spared⟩
  have hresumed : (run (step fourBytes) (start fourBytes (.ok ())) fiveBytes).map
      (·.resumed.map outputLimited) = some [true] := rfl
  rw [hs] at hresumed
  exact Option.some.inj hresumed

/-- A child that ends without having read its input. -/
def unread : List Event := [.streamError .stdin (lit "write EPIPE"), .exit, .close (some 0) none]

/-- Nothing listens to the error of its `stdin`. -/
theorem unread_unheard : ∃ s, run (step fourBytes) (start fourBytes (.ok ())) unread = some s ∧
    ¬ Collected fourBytes (.ok ()) unread s := by
  obtain ⟨s, hs⟩ := Option.isSome_iff_exists.mp
    (show (run (step fourBytes) (start fourBytes (.ok ())) unread).isSome = true from rfl)
  refine ⟨s, hs, fun h => ?_⟩
  have hunheard : (run (step fourBytes) (start fourBytes (.ok ())) unread).map (·.unheard) =
      some [lit "write EPIPE"] := rfl
  rw [hs] at hunheard
  exact List.cons_ne_nil _ _ ((Option.some.inj hunheard).symm.trans h.heard)

end PiEnv.Process
