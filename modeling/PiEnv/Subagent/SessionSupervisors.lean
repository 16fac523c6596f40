import PiEnv.Subagent.Admission
import PiEnv.Subagent.SessionTransitions

/-!
# The supervisor of a started session

A start takes the supervisor that the registry has under its session id, or
makes one. It is open as long as none was left there that had been shut down.
-/

namespace PiEnv.Subagent.SessionRuntime

open Js

/-- After a start that resolved to `true`, with no call since, its supervisor
rejects no request for being closed. -/
def Usable (s : State) : Prop :=
  ∀ t, s.transitions.getLast? = some t → t.phase = .settled (.resolved true) →
    ∃ n v, s.supervisor = some n ∧ s.supervisors[n]? = some v ∧
      ∀ request, v.state.rejection v.config request ≠ some .closed

/-- What is installed is not a supervisor that has been shut down and was left in
the registry. -/
def fresh (s : State) : Event → Bool
  | .turn i _ =>
    match s.transitions[i]? with
    | some ⟨some ctx, generation, _, .created _, _, _⟩ =>
      generation ≠ s.lifecycleGeneration ||
        (s.registry.get ctx.sessionId).all fun n => s.supervisors[n]?.any (!·.state.closed)
    | _ => true
  | _ => true

abbrev Fresh (s : State) (event : Event) : Prop := fresh s event = true

/-- An active session has an open supervisor. -/
def Open (s : State) : Prop :=
  s.sessionState = .active →
    ∃ n v, s.supervisor = some n ∧ s.supervisors[n]? = some v ∧ v.state.closed = false

variable {s s' : State} {i : Nat} {t : Transition}

theorem Open.usable (hs : Inv s) (hopen : Open s) : Usable s := by
  intro t hlast hphase
  have hsound := hs.sound _ t (List.getLast?_eq_getElem? ▸ hlast)
  simp only [Transition.Sound, hphase] at hsound
  obtain ⟨ctx, hkind⟩ := Option.isSome_iff_exists.mp hsound.1
  have hactive : s.sessionState = .active := by
    rw [hs.state, hlast]
    simp [stateAfter, hkind, hphase]
  obtain ⟨n, v, hn, hv, hclosed⟩ := hopen hactive
  exact ⟨n, v, hn, hv, Control.rejection_open hclosed⟩

theorem stateAfter_active {last : Option Transition} (h : stateAfter last = .active) :
    ∃ t, last = some t ∧ t.phase = .settled (.resolved true) := by
  unfold stateAfter at h
  split at h
  · cases h
  · rename_i t
    split at h
    · rename_i hphase
      exact ⟨t, rfl, hphase⟩
    all_goals cases h

/-- No body is on its way in an active session. -/
theorem Inv.not_active (hs : Inv s) (ht : s.transitions[i]? = some t)
    (hunsettled : t.phase.isSettled = false) : s.sessionState ≠ .active := by
  intro hactive
  obtain ⟨last, hlast, hphase⟩ := stateAfter_active (hs.state.symm.trans hactive)
  rw [List.getLast?_eq_getElem?] at hlast
  have hlt := (List.getElem?_eq_some_iff.mp ht).1
  have hsettled : s.settled i = true := by
    by_cases hi : i = s.transitions.length - 1
    · rw [hi]
      exact settled_iff.mpr ⟨last, hlast, by rw [hphase]; rfl⟩
    · exact hs.ordered _ last hlast (by rw [hphase]; nofun) i (by omega)
  obtain ⟨u, hu, husettled⟩ := settled_iff.mp hsettled
  obtain rfl := Option.some.inj (ht.symm.trans hu)
  rw [hunsettled] at husettled
  cases husettled

/-- Where a body leads: the session is active only where it installs. -/
theorem turn_active {succeeded : Bool} (hturn : s.turn i t succeeded = some s')
    (hbefore : s.sessionState ≠ .active) (hactive : s'.sessionState = .active) :
    ∃ n ctx, t.phase = .created n ∧ t.kind = some ctx ∧ t.generation = s.lifecycleGeneration ∧
      s' = s.install i t ctx n := by
  unfold State.turn at hturn
  split at hturn
  case h_1 =>
    obtain ⟨-, heq⟩ := Option.ite_none_right_eq_some.mp hturn
    obtain rfl := Option.some.inj heq
    exact absurd hactive hbefore
  case h_2 resources hphase =>
    obtain rfl := Option.some.inj hturn
    refine absurd hactive ?_
    unfold State.callDispose
    split
    · exact hbefore
    split
    · exact hbefore
    split
    · exact hbefore
    · exact hbefore
  case h_3 =>
    obtain rfl := Option.some.inj hturn
    exact absurd hactive hbefore
  case h_4 resources n hphase =>
    split at hturn
    · cases hturn
    · obtain rfl := Option.some.inj hturn
      exact absurd hactive hbefore
    · obtain rfl := Option.some.inj hturn
      refine absurd hactive ?_
      unfold State.unregister
      split
      · exact hbefore
      split
      · exact hbefore
      · exact hbefore
  case h_5 resources hphase =>
    obtain rfl := Option.some.inj hturn
    refine absurd hactive ?_
    unfold State.afterDisposal
    split
    · unfold State.finishShutdown
      simp only
      split
      · intro h; cases h
      · exact hbefore
    split
    · exact hbefore
    split
    · exact hbefore
    · exact hbefore
  case h_6 hphase =>
    split at hturn
    · obtain rfl := Option.some.inj hturn
      exact absurd hactive hbefore
    · obtain rfl := Option.some.inj hturn
      exact absurd hactive hbefore
  case h_7 n hphase =>
    obtain ⟨ctx, hkind, rfl⟩ := Option.map_eq_some_iff.mp hturn
    unfold State.afterCreation at hactive ⊢
    split at hactive
    · exact absurd hactive hbefore
    · rename_i hcurrent
      exact ⟨n, ctx, hphase, hkind, not_not.mp hcurrent, by rw [if_neg hcurrent]⟩
  case h_8 n hphase =>
    obtain rfl := Option.some.inj hturn
    refine absurd hactive ?_
    split
    · exact hbefore
    · exact hbefore
  case h_9 => cases hturn

/-- What a start installs is open where what it finds is. -/
theorem install_open {ctx : Context} {n : Nat}
    (hfresh : ((s.registry.get ctx.sessionId).all fun n =>
      s.supervisors[n]?.any (!·.state.closed)) = true) : Open (s.install i t ctx n) := by
  intro _
  unfold State.install State.getOrCreate
  cases hregistered : s.registry.get ctx.sessionId with
  | none => exact ⟨_, ⟨ctx.sessionId, ctx.config, Control.initial⟩, rfl, List.getElem?_concat_length, rfl⟩
  | some m =>
    rw [hregistered] at hfresh
    obtain ⟨v, hv, hclosed⟩ := (Option.any_eq_true _ _).mp hfresh
    exact ⟨m, v, rfl, hv, by simpa using hclosed⟩

theorem turn_open (hs : Inv s) (ht : s.transitions[i]? = some t) {succeeded : Bool}
    (hfresh : Fresh s (.turn i succeeded)) (hturn : s.turn i t succeeded = some s') : Open s' := by
  intro hactive
  have hunsettled : t.phase.isSettled = false := by
    cases hphase : t.phase with
    | settled outcome =>
      rw [State.turn, hphase] at hturn
      cases hturn
    | _ => rfl
  obtain ⟨n, ctx, hphase, hkind, hcurrent, rfl⟩ :=
    turn_active hturn (hs.not_active ht hunsettled) hactive
  refine install_open ?_ hactive
  obtain ⟨kind, generation, after, phase, failed, superseded⟩ := t
  simp only at hphase hkind hcurrent
  subst hphase hkind hcurrent
  simpa [Fresh, fresh, ht] using hfresh

theorem step_open (hs : Inv s) (hopen : Open s) {event : Event} (hfresh : Fresh s event)
    (hstep : step s event = some s') : Open s' := by
  cases event with
  | startSession ctx =>
    obtain rfl := Option.some.inj hstep
    nofun
  | shutdownSession =>
    obtain rfl := Option.some.inj hstep
    nofun
  | turn i succeeded =>
    obtain ⟨t, ht, hturn⟩ := Option.bind_eq_some_iff.mp hstep
    exact turn_open hs ht hfresh hturn
  | supervisor m event =>
    obtain ⟨hevent, hbind⟩ := Option.ite_none_left_eq_some.mp hstep
    obtain ⟨v, hv, hmap⟩ := Option.bind_eq_some_iff.mp hbind
    obtain ⟨state, hstate, rfl⟩ := Option.map_eq_some_iff.mp hmap
    intro hactive
    obtain ⟨n, w, hn, hw, hclosed⟩ := hopen hactive
    by_cases hmn : m = n
    · subst hmn
      obtain rfl := Option.some.inj (hv.symm.trans hw)
      have hlt := (List.getElem?_eq_some_iff.mp hv).1
      refine ⟨m, { v with state }, hn, List.getElem?_set_self hlt, ?_⟩
      refine (Control.step_closed ?_ hstate).trans hclosed
      rintro rfl
      exact hevent rfl
    · exact ⟨n, w, hn, (List.getElem?_set_ne hmn).trans hw, hclosed⟩
  | getOrCreate ctx =>
    obtain rfl := Option.some.inj hstep
    unfold State.getOrCreate
    split
    · exact hopen
    · intro hactive
      obtain ⟨n, w, hn, hw, hclosed⟩ := hopen hactive
      have hlt := (List.getElem?_eq_some_iff.mp hw).1
      exact ⟨n, w, hn, (List.getElem?_append_left hlt).trans hw, hclosed⟩

/-- A session is started again after a shutdown in which all went well. -/
def startedAgain : List Event :=
  .startSession session :: through 0 ++
    .startSession session :: .replicate 2 (.turn 1 true) ++
    .supervisor 0 (.shutdownCompleted false) :: .replicate 4 (.turn 1 true)

/-- A child does not close in the shutdown before a start; the start rejects, and
the next one finds the supervisor that was left. -/
def failedClose : List Event :=
  .startSession session :: through 0 ++
    .startSession session :: .replicate 2 (.turn 1 true) ++
    .supervisor 0 (.shutdownCompleted true) :: .replicate 2 (.turn 1 true) ++
    .startSession session :: through 2

end PiEnv.Subagent.SessionRuntime
