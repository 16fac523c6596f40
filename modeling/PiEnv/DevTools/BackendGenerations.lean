import PiEnv.DevTools.BackendRequests

/-!
# Generations of a server

What an event of one generation may change while a newer one is current: the
handlers that look at the generation before they do anything change nothing.
-/

namespace PiEnv.DevTools.Backend

open Js
open Transitions (run AllMeet)

/-- The generation an event belongs to, where it belongs to one. -/
def owner (s : State) : Event → Option Generation
  | .lookedUp g _ | .spawned g _ | .initialized g | .failStartup g | .message g _ | .stderr g _
  | .processExit g _ _ | .processError g _ | .destroyStdin g => some g
  | .cleaned i => (s.cleanups[i]?).map (·.generation)
  | .timeout id => (s.pendingLsp.get id).map (·.generation)
  | .finishRequest id => s.generationOf id
  | _ => none

/-- A newer generation has begun. The one after `g` in the numbering is that of
the end of `g` itself. -/
def Late (s : State) (g : Generation) : Prop := g + 1 < s.lifecycle.generation

def StatusKept (s s' : State) : Prop :=
  s'.semanticAvailable = s.semanticAvailable ∧
    s'.startupFailureDetail = s.startupFailureDetail ∧ s'.lifecycle = s.lifecycle

def PendingKept (g : Generation) (s s' : State) : Prop :=
  ∀ id pending, g < pending.generation →
    (s'.pendingLsp.get id = some pending ↔ s.pendingLsp.get id = some pending)

/-- A step of a generation leaves newer ones alone. -/
structure Isolated (g : Generation) (s s' : State) : Prop where
  status : Late s g → StatusKept s s'
  pending : PendingKept g s s'

def processFailed (config : Config) (detail : Str) : LspBackendError :=
  backendErrorFromCause .processExit (config.name ++ lit " LSP process failed") detail

/-- What a failed start, a process error and a failed request report is handled
before a newer generation begins, or is what is reported already. -/
def Timely (config : Config) (s : State) : Event → Prop
  | .failStartup g => ∀ error, s.startups g = some (.failing error) → Late s g →
      s.semanticAvailable = false ∧
        s.startupFailureDetail = some (compactStatusDetail error.message)
  | .processError g detail => Late s g →
      s.semanticAvailable = false ∧ ∀ generation resource,
        s.lifecycle = .starting generation resource →
          s.startupFailureDetail =
            some (compactStatusDetail (processFailed config detail).message)
  | .finishRequest id => ∀ g error rest, s.generationOf id = some g →
      s.settlements id = .error error :: rest → Late s g → s.semanticAvailable = false
  | _ => True

variable {config : Config} {s s' : State} {event : Event} {g : Generation}

-- -----
-- Status
-- -----

theorem Late.not_live (h : Late s g) {resource : Resource}
    (hlive : s.lifecycle = .starting g resource ∨ s.lifecycle = .running g resource) : False := by
  unfold Late at h
  rcases hlive with hlive | hlive <;> rw [hlive] at h <;> exact absurd h (by simp [Lifecycle.generation])

theorem Late.isLive (h : Late s g) : s.isLive g = false := by
  unfold State.isLive
  split
  case h_1 generation resource hstarting =>
    refine decide_eq_false fun hg => ?_
    exact h.not_live (.inl (hg ▸ hstarting))
  case h_2 generation resource hrunning =>
    refine decide_eq_false fun hg => ?_
    exact h.not_live (.inr (hg ▸ hrunning))
  case h_3 => rfl

theorem StatusKept.of_eq (h : s' = s) : StatusKept s s' := h ▸ ⟨rfl, rfl, rfl⟩

theorem failStartup_status {error : LspBackendError} (hlate : Late s g) :
    StatusKept s (s.failStartup g error) ↔
      s.semanticAvailable = false ∧
        s.startupFailureDetail = some (compactStatusDetail error.message) := by
  obtain ⟨t, h, ht⟩ := s.failStartup_cases g error
  rcases ht with ⟨rfl, -⟩ | ⟨resource, unavailable, hstarting, -⟩
  · obtain ⟨pendingLsp, settlements, hfail⟩ :=
      (s.reportFailure error).failAllPending_frame error (some g)
    rw [hfail] at h
    rw [h]
    exact ⟨fun hkept => ⟨hkept.1.symm, hkept.2.1.symm⟩,
      fun hsame => ⟨hsame.1.symm, hsame.2.symm, rfl⟩⟩
  · exact (hlate.not_live (.inl hstarting)).elim

theorem failAndReset_late {error : LspBackendError} (hlate : Late s g) :
    s.failAndReset g error = s.reportReset error := by
  rcases s.failAndReset_cases g error with ⟨resource, hstarting, -⟩ | ⟨resource, hrunning, -⟩ | ⟨-, h⟩
  · exact (hlate.not_live (.inl hstarting)).elim
  · exact (hlate.not_live (.inr hrunning)).elim
  · exact h

theorem reportReset_status {error : LspBackendError} :
    StatusKept s (s.reportReset error) ↔
      s.semanticAvailable = false ∧ ∀ generation resource,
        s.lifecycle = .starting generation resource →
          s.startupFailureDetail = some (compactStatusDetail error.message) := by
  unfold State.reportReset
  split
  case h_1 generation resource hstarting =>
    refine ⟨fun hkept => ⟨hkept.1.symm, fun _ _ _ => hkept.2.1.symm⟩, fun hsame => ?_⟩
    exact ⟨hsame.1.symm, (hsame.2 generation resource hstarting).symm, rfl⟩
  case h_2 hother =>
    refine ⟨fun hkept => ⟨hkept.1.symm, fun generation resource h => ?_⟩, fun hsame => ?_⟩
    · exact absurd h (hother generation resource)
    · exact ⟨hsame.1.symm, rfl, rfl⟩

theorem step_status (hcleaning : Cleaning s) (hstep : step config s event = some s')
    (howner : owner s event = some g) (hlate : Late s g) :
    StatusKept s s' ↔ Timely config s event := by
  have hkept {t : State} (h : StatusKept s t) : StatusKept s t ↔ True := ⟨fun _ => trivial, fun _ => h⟩
  cases event with
  | lookedUp e result =>
    obtain rfl : e = g := Option.some.inj howner
    simp only [step] at hstep
    split at hstep
    · cases result with
      | found =>
        rw [← Option.some.inj hstep]
        rcases s.spawn_cases config e with ⟨resource, _, _, hstarting, _⟩ | ⟨startups, h⟩
        · exact (hlate.not_live (.inl hstarting)).elim
        · exact hkept (h ▸ ⟨rfl, rfl, rfl⟩)
      | missing | failed detail => exact hkept (Option.some.inj hstep ▸ ⟨rfl, rfl, rfl⟩)
    · cases hstep
  | spawned e failure =>
    obtain rfl : e = g := Option.some.inj howner
    simp only [step] at hstep
    split at hstep
    · cases failure with
      | none =>
        rw [← Option.some.inj hstep]
        rcases s.initializeServer_cases config e with ⟨resource, _, _, _, _, hstarting, _⟩ | ⟨_, h⟩
        · exact (hlate.not_live (.inl hstarting)).elim
        · exact hkept (h ▸ ⟨rfl, rfl, rfl⟩)
      | some detail => exact hkept (Option.some.inj hstep ▸ ⟨rfl, rfl, rfl⟩)
    · cases hstep
  | initialized e =>
    obtain rfl : e = g := Option.some.inj howner
    simp only [step] at hstep
    split at hstep
    · split at hstep
      · rw [← Option.some.inj hstep]
        rcases s.publishRunning_cases config e with ⟨resource, _, _, _, hstarting, _⟩ | ⟨_, h⟩
        · exact (hlate.not_live (.inl hstarting)).elim
        · exact hkept (h ▸ ⟨rfl, rfl, rfl⟩)
      · exact hkept (Option.some.inj hstep ▸ ⟨rfl, rfl, rfl⟩)
      · cases hstep
    · cases hstep
  | failStartup e =>
    obtain rfl : e = g := Option.some.inj howner
    simp only [step] at hstep
    split at hstep
    case h_1 error hfailing =>
      rw [← Option.some.inj hstep, failStartup_status hlate]
      refine ⟨fun hsame other hother _ => ?_, fun htimely => htimely error hfailing hlate⟩
      obtain rfl : error = other := Startup.failing.inj (Option.some.inj (hfailing.symm.trans hother))
      exact hsame
    case h_2 => cases hstep
  | cleaned i =>
    obtain ⟨cleanup, hfound, rfl⟩ := Option.map_eq_some_iff.mp howner
    obtain ⟨resource, startup, hstopping, -, -⟩ := hcleaning.own hfound
    unfold Late at hlate
    rw [hstopping] at hlate
    exact absurd hlate (Nat.lt_irrefl _)
  | message e message =>
    simp only [step] at hstep
    split at hstep
    · rw [← Option.some.inj hstep]
      refine hkept ?_
      rcases s.onLspMessage_cases config e message with h | ⟨id, outcome, -, -, -, h, -⟩
      · exact .of_eq h
      · obtain ⟨pendingLsp, settlements, hcomplete⟩ := s.completePending_frame id e outcome
        rw [h, hcomplete]
        exact ⟨rfl, rfl, rfl⟩
    · cases hstep
  | stderr e chunk =>
    obtain rfl : e = g := Option.some.inj howner
    simp only [step] at hstep
    split at hstep
    · rw [← Option.some.inj hstep]
      rcases s.appendStderr_cases e chunk with ⟨r, _, hstarting, _⟩ | ⟨r, _, hrunning, _⟩ | h
      · exact (hlate.not_live (.inl hstarting)).elim
      · exact (hlate.not_live (.inr hrunning)).elim
      · exact hkept (.of_eq h)
    · cases hstep
  | processExit e code signal =>
    obtain rfl : e = g := Option.some.inj howner
    simp only [step] at hstep
    split at hstep
    · rw [← Option.some.inj hstep]
      rcases s.onProcessExit_cases config e code signal with ⟨hlive, -⟩ | ⟨-, h⟩
      · cases hlive.symm.trans hlate.isLive
      · exact hkept (.of_eq h)
    · cases hstep
  | processError e detail =>
    obtain rfl : e = g := Option.some.inj howner
    simp only [step] at hstep
    split at hstep
    · rw [← Option.some.inj hstep, failAndReset_late hlate, reportReset_status]
      exact ⟨fun hsame _ => hsame, fun htimely => htimely hlate⟩
    · cases hstep
  | destroyStdin e => exact hkept (Option.some.inj hstep ▸ ⟨rfl, rfl, rfl⟩)
  | timeout id =>
    simp only [step] at hstep
    split at hstep
    case h_1 pending hpending =>
      obtain ⟨pendingLsp, settlements, h⟩ :=
        s.completePending_frame id pending.generation (.error pending.timeoutError)
      rw [← Option.some.inj hstep, h]
      exact hkept ⟨rfl, rfl, rfl⟩
    case h_2 => cases hstep
  | finishRequest id =>
    simp only [step] at hstep
    split at hstep
    · split at hstep
      case h_1 answer rest hsettled =>
        refine ⟨fun _ g error rest' _ herror _ => ?_, fun _ => Option.some.inj hstep ▸ ⟨rfl, rfl, rfl⟩⟩
        cases hsettled.symm.trans herror
      case h_2 error rest hsettled =>
        rw [← Option.some.inj hstep]
        refine ⟨fun hsame _ _ _ _ _ _ => hsame.1.symm, fun htimely => ?_⟩
        exact ⟨(htimely g error rest howner hsettled hlate).symm, rfl, rfl⟩
      case h_3 => cases hstep
    · cases hstep
  | _ => cases howner

-- -----
-- Pending requests
-- -----

theorem PendingKept.of_eq (h : s'.pendingLsp = s.pendingLsp) : PendingKept g s s' := by
  intro id pending _
  rw [h]

theorem PendingKept.trans {t : State} (h : PendingKept g s s') (h' : PendingKept g s' t) :
    PendingKept g s t :=
  fun id pending hnewer => (h' id pending hnewer).trans (h id pending hnewer)

theorem addPending_kept (htracked : Tracked s) {method : Option Str} {finished : Bool}
    {error : LspBackendError} : PendingKept g s (s.addPending ⟨g, method, finished⟩ error) := by
  intro id pending hnewer
  show (s.pendingLsp.set s.nextLspId ⟨g, error⟩).get id = some pending ↔ _
  rw [JsMap.get_set]
  by_cases hid : id = s.nextLspId
  · subst hid
    rw [if_pos rfl, (htracked.unasked _ (htracked.fresh _ (Nat.le_refl _))).1]
    refine ⟨fun h => ?_, nofun⟩
    obtain rfl := Option.some.inj h
    exact absurd hnewer (Nat.lt_irrefl _)
  · rw [if_neg hid]

theorem completePending_kept {id : Nat} {outcome : Except LspBackendError LspMessage} :
    PendingKept g s (s.completePending id g outcome) := by
  intro other pending hnewer
  unfold State.completePending
  split
  · exact Iff.rfl
  case h_2 own hown =>
    split
    case isTrue hgeneration =>
      show (s.pendingLsp.delete id).get other = some pending ↔ _
      rw [JsMap.get_delete]
      by_cases hid : other = id
      · subst hid
        rw [if_pos rfl, hown]
        refine ⟨by simp, fun h => ?_⟩
        obtain rfl := Option.some.inj h
        exact absurd (hgeneration ▸ hnewer) (Nat.lt_irrefl _)
      · rw [if_neg hid]
    case isFalse => exact Iff.rfl

theorem failAllPending_kept {error : LspBackendError} :
    PendingKept g s (s.failAllPending error (some g)) := by
  intro id pending hnewer
  rw [State.failAllPending_get]
  refine ⟨fun h => h.1, fun h => ⟨h, nofun, fun hg => ?_⟩⟩
  exact absurd (Option.some.inj hg ▸ hnewer) (Nat.lt_irrefl _)

theorem failStartup_kept {error : LspBackendError} : PendingKept g s (s.failStartup g error) := by
  obtain ⟨t, h, ht⟩ := s.failStartup_cases g error
  have hbefore : t.pendingLsp = s.pendingLsp := by
    rcases ht with ⟨rfl, -⟩ | ⟨_, _, -, rfl⟩ <;> rfl
  rw [h]
  exact (PendingKept.of_eq hbefore).trans failAllPending_kept

theorem failAndReset_kept {error : LspBackendError} : PendingKept g s (s.failAndReset g error) := by
  obtain ⟨detail, hreport⟩ := reportReset_eq s error
  rcases s.failAndReset_cases g error with ⟨_, -, h⟩ | ⟨_, -, h⟩ | ⟨-, h⟩
  all_goals rw [h, hreport]
  · exact (PendingKept.of_eq rfl).trans failAllPending_kept
  · exact (PendingKept.of_eq rfl).trans failAllPending_kept
  · exact .of_eq rfl

theorem step_pending (htracked : Tracked s) (hstep : step config s event = some s')
    (howner : owner s event = some g) : PendingKept g s s' := by
  cases event with
  | lookedUp e result =>
    simp only [step] at hstep
    split at hstep
    · cases result with
      | found =>
        rw [← Option.some.inj hstep]
        rcases s.spawn_cases config e with ⟨_, _, _, _, h⟩ | ⟨_, h⟩
        · exact .of_eq (h ▸ rfl)
        · exact .of_eq (h ▸ rfl)
      | missing | failed detail => exact .of_eq (Option.some.inj hstep ▸ rfl)
    · cases hstep
  | spawned e failure =>
    obtain rfl : e = g := Option.some.inj howner
    simp only [step] at hstep
    split at hstep
    · cases failure with
      | none =>
        rw [← Option.some.inj hstep]
        rcases s.initializeServer_cases config e with ⟨_, _, _, _, _, _, h, _⟩ | ⟨_, h⟩
        · rw [h]
          exact (addPending_kept htracked).trans (.of_eq rfl)
        · exact .of_eq (h ▸ rfl)
      | some detail => exact .of_eq (Option.some.inj hstep ▸ rfl)
    · cases hstep
  | initialized e =>
    simp only [step] at hstep
    split at hstep
    · split at hstep
      · rw [← Option.some.inj hstep]
        rcases s.publishRunning_cases config e with ⟨_, _, _, _, _, h, _⟩ | ⟨_, h⟩
        · exact .of_eq (h ▸ rfl)
        · exact .of_eq (h ▸ rfl)
      · exact .of_eq (Option.some.inj hstep ▸ rfl)
      · cases hstep
    · cases hstep
  | failStartup e =>
    obtain rfl : e = g := Option.some.inj howner
    simp only [step] at hstep
    split at hstep
    · exact Option.some.inj hstep ▸ failStartup_kept
    · cases hstep
  | cleaned i =>
    simp only [step] at hstep
    split at hstep
    case h_1 cleanup hfound =>
      obtain ⟨_, _, _, _, hreset⟩ :=
        State.resetBy_frame { s with cleanups := s.cleanups.eraseIdx i } cleanup
      rw [← Option.some.inj hstep]
      rcases State.finishCleanup_cases { s with cleanups := s.cleanups.eraseIdx i } cleanup with
        ⟨_, _, _, _, _, _, h⟩ | ⟨_, h⟩
      · rw [hreset] at h
        exact .of_eq (h ▸ rfl)
      · rw [hreset] at h
        exact .of_eq (h ▸ rfl)
    case h_2 => cases hstep
  | message e message =>
    obtain rfl : e = g := Option.some.inj howner
    simp only [step] at hstep
    split at hstep
    · rw [← Option.some.inj hstep]
      rcases s.onLspMessage_cases config e message with h | ⟨id, outcome, -, -, -, h, -⟩
      · exact .of_eq (congrArg State.pendingLsp h)
      · exact h ▸ completePending_kept
    · cases hstep
  | stderr e chunk =>
    simp only [step] at hstep
    split at hstep
    · rw [← Option.some.inj hstep]
      rcases s.appendStderr_cases e chunk with ⟨_, _, _, h⟩ | ⟨_, _, _, h⟩ | h
      · exact .of_eq (h ▸ rfl)
      · exact .of_eq (h ▸ rfl)
      · exact .of_eq (congrArg State.pendingLsp h)
    · cases hstep
  | processExit e code signal =>
    obtain rfl : e = g := Option.some.inj howner
    simp only [step] at hstep
    split at hstep
    · rw [← Option.some.inj hstep]
      rcases s.onProcessExit_cases config e code signal with ⟨-, error, h⟩ | ⟨-, h⟩
      · exact h ▸ failAndReset_kept
      · exact .of_eq (congrArg State.pendingLsp h)
    · cases hstep
  | processError e detail =>
    obtain rfl : e = g := Option.some.inj howner
    simp only [step] at hstep
    split at hstep
    · exact Option.some.inj hstep ▸ failAndReset_kept
    · cases hstep
  | destroyStdin e => exact .of_eq (Option.some.inj hstep ▸ rfl)
  | timeout id =>
    obtain ⟨pending, hpending, rfl⟩ := Option.map_eq_some_iff.mp howner
    simp only [step, hpending] at hstep
    exact Option.some.inj hstep ▸ completePending_kept
  | finishRequest id =>
    simp only [step] at hstep
    split at hstep
    · split at hstep
      · exact .of_eq (Option.some.inj hstep ▸ rfl)
      · exact .of_eq (Option.some.inj hstep ▸ rfl)
      · cases hstep
    · cases hstep
  | _ => cases howner

-- -----
-- Runs
-- -----

theorem timely_of_not_late (howner : owner s event = some g) (hlate : ¬ Late s g) :
    Timely config s event := by
  cases event with
  | failStartup e =>
    obtain rfl : e = g := Option.some.inj howner
    exact fun _ _ h => absurd h hlate
  | processError e detail =>
    obtain rfl : e = g := Option.some.inj howner
    exact fun h => absurd h hlate
  | finishRequest id =>
    intro e error rest he _ h
    obtain rfl : e = g := Option.some.inj (he.symm.trans howner)
    exact absurd h hlate
  | _ => trivial

/-- The first start is shut down in its lookup, and ends when the second runs. -/
def lateLookup : List Event :=
  [.ensureStarted, .shutdown, .cleaned 0, .ensureStarted, .lookedUp 3 .found, .spawned 3 none,
    .message 3 (emptyResult 1), .initialized 3, .lookedUp 1 .found]

end PiEnv.DevTools.Backend
