import PiEnv.DevTools.BackendInvariants

/-!
# Requests and their answers

What settles the requests of a backend. The ids of requests that a server makes
are its own, and a message is matched to a pending request by its id alone.
-/

namespace PiEnv.DevTools.Backend

open Js
open Transitions (run AllMeet)

/-- A result or an error, and no method. -/
def LspMessage.IsResponse (message : LspMessage) : Prop :=
  message.method = none ∧ (message.result.isSome = true ∨ message.error.isSome = true)

/-- A step keeps requests and answers together. -/
structure Correlated (config : Config) (s : State) (event : Event) (s' : State) : Prop where
  /-- Every request is pending, or settled once. -/
  once : ∀ id g, s'.generationOf id = some g →
    (s'.pendingLsp.has id = true ∧ s'.settlements id = []) ∨
      (s'.pendingLsp.has id = false ∧ ∃ outcome, s'.settlements id = [outcome])
  /-- Its timer settles a request that is pending. -/
  timed : ∀ id pending, s'.pendingLsp.get id = some pending →
    ∃ t, step config s' (.timeout id) = some t ∧
      t.settlements id = [.error pending.timeoutError]
  /-- A message settles a request, or takes it from the pending ones, only as a
  response to it, from its generation. -/
  answered : ∀ g message, event = .message g message → ∀ id,
    (s'.settlements id ≠ s.settlements id ∨ s'.pendingLsp.get id ≠ s.pendingLsp.get id) →
      message.IsResponse ∧ message.idKey = some id ∧ s.generationOf id = some g
  /-- Nothing but a message completes a request. -/
  completed : ∀ id answer, Except.ok answer ∈ s'.settlements id →
    Except.ok answer ∈ s.settlements id ∨ ∃ g, event = .message g answer

/-- A message with the id of a pending request of its generation is a response. -/
def AnswersOwn (s : State) : Event → Prop
  | .message g message =>
    s.isLive g = true → message.isPublishDiagnostics = false →
      ∀ id pending, message.idKey = some id → s.pendingLsp.get id = some pending →
        pending.generation = g → message.IsResponse
  | _ => True

variable {config : Config} {s s' : State} {event : Event} {g : Generation}

theorem Tracked.once (h : Tracked s) {id : Nat} (hg : s.generationOf id = some g) :
    (s.pendingLsp.has id = true ∧ s.settlements id = []) ∨
      (s.pendingLsp.has id = false ∧ ∃ outcome, s.settlements id = [outcome]) := by
  rcases h.asked id g hg with ⟨pending, hpending, -, hnone⟩ | ⟨hpending, hsettled⟩
  · exact .inl ⟨by rw [JsMap.has, hpending]; rfl, hnone⟩
  · exact .inr ⟨by rw [JsMap.has, hpending]; rfl, hsettled⟩

theorem Tracked.timed (h : Tracked s) {id : Nat} {pending : Pending}
    (hpending : s.pendingLsp.get id = some pending) :
    ∃ t, step config s (.timeout id) = some t ∧
      t.settlements id = [.error pending.timeoutError] := by
  refine ⟨s.completePending id pending.generation (.error pending.timeoutError), ?_, ?_⟩
  · simp [step, hpending]
  · simp [State.completePending, hpending, State.settle, (h.pending hpending).2]

theorem RequestStep.completed_by (hstep : RequestStep event s s') {id : Nat} {answer : LspMessage}
    (hok : Except.ok answer ∈ s'.settlements id) :
    Except.ok answer ∈ s.settlements id ∨ ∃ g, event = .message g answer := by
  cases hstep with
  | kept next pending settlements requests => exact .inl (settlements ▸ hok)
  | added request error next pending settlements requests => exact .inl (settlements ▸ hok)
  | completed other pending outcome found cause next deleted settlements requests =>
    rw [settlements] at hok
    by_cases hid : id = other
    · subst hid
      rw [Function.update_self, List.mem_append, List.mem_singleton] at hok
      rcases hok with hok | hok
      · exact .inl hok
      · exact .inr (cause answer hok.symm)
    · rw [Function.update_of_ne hid] at hok
      exact .inl hok
  | failed error generation next pending settlements requests =>
    rw [settlements, List.mem_append] at hok
    rcases hok with hok | hok
    · exact .inl hok
    · unfold failedWith at hok
      split at hok
      · split at hok
        · exact absurd (List.mem_singleton.mp hok) nofun
        · exact absurd hok nofun
      · exact absurd hok nofun

/-- What a message settles is the pending request of its id and generation. -/
theorem onLspMessage_settles {message : LspMessage} {id : Nat} (h : Tracked s)
    (hchanged : (s.onLspMessage config g message).settlements id ≠ s.settlements id ∨
      (s.onLspMessage config g message).pendingLsp.get id ≠ s.pendingLsp.get id) :
    s.isLive g = true ∧ message.isPublishDiagnostics = false ∧ message.idKey = some id ∧
      ∃ pending, s.pendingLsp.get id = some pending ∧ pending.generation = g ∧
        s.generationOf id = some g := by
  rcases s.onLspMessage_cases config g message with hsame | ⟨key, outcome, hlive, hpublish, hkey, hs, -⟩
  · rw [hsame] at hchanged
    simp at hchanged
  · rw [hs] at hchanged
    unfold State.completePending at hchanged
    split at hchanged
    · simp at hchanged
    case h_2 pending hpending =>
      split at hchanged
      case isTrue hgeneration =>
        by_cases hid : id = key
        · subst hid
          exact ⟨hlive, hpublish, hkey, pending, hpending, hgeneration,
            hgeneration ▸ (h.pending hpending).1⟩
        · simp [State.settle, hid, JsMap.get_delete] at hchanged
      case isFalse => simp at hchanged

theorem completePending_takes {id : Nat} {pending : Pending}
    {outcome : Except LspBackendError LspMessage} (hpending : s.pendingLsp.get id = some pending)
    (hgeneration : pending.generation = g) :
    (s.completePending id g outcome).pendingLsp.get id = none := by
  simp [State.completePending, hpending, hgeneration, State.settle, JsMap.get_delete]

theorem onLspMessage_takes {message : LspMessage} {id : Nat} {pending : Pending}
    (hlive : s.isLive g = true) (hpublish : message.isPublishDiagnostics = false)
    (hkey : message.idKey = some id) (hpending : s.pendingLsp.get id = some pending)
    (hgeneration : pending.generation = g) :
    (s.onLspMessage config g message).pendingLsp.get id = none := by
  unfold State.onLspMessage
  simp only [hlive, hpublish, hkey, Bool.not_true, Bool.false_eq_true, if_false]
  split
  · split <;> exact completePending_takes hpending hgeneration
  · exact completePending_takes hpending hgeneration

theorem step_message {message : LspMessage} (hstep : step config s (.message g message) = some s') :
    s' = s.onLspMessage config g message := by
  simp only [step] at hstep
  split at hstep
  · exact (Option.some.inj hstep).symm
  · cases hstep

/-- In every run, a step keeps requests and answers together exactly when a
message that settles a request is a response. -/
theorem requests_correlated {events : List Event}
    (hrun : run (step config) State.initial events = some s)
    (hstep : step config s event = some s') :
    Correlated config s event s' ↔ AnswersOwn s event := by
  have htracked : Tracked s := run_tracked hrun
  have hrequest : RequestStep event s s' := step_request hstep
  have htracked' : Tracked s' := hrequest.tracked htracked
  constructor
  · intro hcorrelated
    cases event with
    | message g message =>
      intro hlive hpublish id pending hkey hpending hgeneration
      refine (hcorrelated.answered g message rfl id (.inr ?_)).1
      rw [step_message hstep, onLspMessage_takes hlive hpublish hkey hpending hgeneration, hpending]
      exact nofun
    | _ => trivial
  · intro hanswers
    refine ⟨fun id g hg => htracked'.once hg, fun id pending hp => htracked'.timed hp, ?_,
      fun id answer hok => hrequest.completed_by hok⟩
    rintro g message rfl id hchanged
    obtain rfl := step_message hstep
    obtain ⟨hlive, hpublish, hkey, pending, hpending, hgeneration, hasked⟩ :=
      onLspMessage_settles htracked hchanged
    exact ⟨hanswers hlive hpublish id pending hkey hpending hgeneration, hkey, hasked⟩

-- -----
-- A server with ids of its own
-- -----

def typescript : Config where
  name := lit "typescript"
  binaryName := lit "tsserver"
  extension := lit "ts"
  looksUp := true
  documents := ⟨lit "/", fun path => lit "file://" ++ path, fun _ => lit "typescript"⟩
  describeError := fun _ => []

/-- An answer with an empty result. -/
def emptyResult (id : Nat) : LspMessage :=
  ⟨some (.num (.ofInt id)), none, none, some (.obj []), none⟩

/-- The first server, up to its `initialize`, and then running. -/
def startedOnce : List Event := [.ensureStarted, .lookedUp 1 .found, .spawned 1 none]

def runningOnce : List Event := startedOnce ++ [.message 1 (emptyResult 1), .initialized 1]

theorem requests_correlated_initialize :
    ∃ s s', run (step typescript) State.initial startedOnce = some s ∧
      step typescript s (.message 1 (emptyResult 1)) = some s' ∧
      Correlated typescript s (.message 1 (emptyResult 1)) s' := by
  obtain ⟨s, hrun⟩ : ∃ s, run (step typescript) State.initial startedOnce = some s :=
    Option.isSome_iff_exists.mp (by decide +kernel)
  have hattached : (run (step typescript) State.initial startedOnce).all (·.attached 1) = true := by
    decide +kernel
  rw [hrun, Option.all_some] at hattached
  have hstep : step typescript s (.message 1 (emptyResult 1)) =
      some (s.onLspMessage typescript 1 (emptyResult 1)) := if_pos hattached
  exact ⟨s, _, hrun, hstep,
    (requests_correlated hrun hstep).mpr fun _ _ _ _ _ _ _ => ⟨rfl, .inl rfl⟩⟩

/-- A request for the configuration that the server makes under the id of the
request it was asked. -/
def configurationRequest : LspMessage :=
  ⟨some (.num (.ofInt 2)), some (.str (lit "workspace/configuration")), some (.obj []), none, none⟩

theorem configurationRequest_completes :
    ¬ ∀ (config : Config) (events : List Event) (event : Event) (s s' : State),
      run (step config) State.initial events = some s → step config s event = some s' →
        Correlated config s event s' := by
  intro h
  let events := runningOnce ++ [.lspRequest (lit "textDocument/hover")]
  obtain ⟨s, hrun⟩ : ∃ s, run (step typescript) State.initial events = some s :=
    Option.isSome_iff_exists.mp (by decide +kernel)
  have hbefore : (run (step typescript) State.initial events).all fun s =>
      s.attached 1 && (s.settlements 2).isEmpty &&
        !((s.onLspMessage typescript 1 configurationRequest).settlements 2).isEmpty := by
    decide +kernel
  rw [hrun, Option.all_some, Bool.and_eq_true, Bool.and_eq_true] at hbefore
  obtain ⟨⟨hattached, hnone⟩, hsettled⟩ := hbefore
  have hchanged : (s.onLspMessage typescript 1 configurationRequest).settlements 2 ≠
      s.settlements 2 := by
    intro hsame
    rw [hsame, hnone] at hsettled
    exact absurd hsettled (by decide)
  have hstep : step typescript s (.message 1 configurationRequest) =
      some (s.onLspMessage typescript 1 configurationRequest) := if_pos hattached
  have hanswered := (h typescript events _ s _ hrun hstep).answered 1 configurationRequest rfl 2
    (.inl hchanged)
  exact absurd hanswered.1.1 nofun

end PiEnv.DevTools.Backend
