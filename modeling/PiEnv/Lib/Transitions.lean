import Mathlib.Logic.Basic

/-!
# Runs of a step function

A step function that may refuse an event, the runs it allows, and what holds
after every run whose events meet a condition.
-/

namespace Transitions

variable {σ ε : Type} (step : σ → ε → Option σ)

def run (s : σ) : List ε → Option σ
  | [] => some s
  | event :: rest => (step s event).bind (run · rest)

/-- Every event of a run meets a condition in the state it happens in. -/
def AllMeet (ok : σ → ε → Prop) : σ → List ε → Prop
  | _, [] => True
  | s, event :: rest => ok s event ∧ ∀ s', step s event = some s' → AllMeet ok s' rest

variable {step}

/-- What a start has and every step that meets the condition keeps. -/
theorem invariant {ok : σ → ε → Prop} {inv : σ → Prop}
    (hstep : ∀ s event s', inv s → ok s event → step s event = some s' → inv s') {events : List ε} :
    ∀ {s s' : σ}, inv s → AllMeet step ok s events → run step s events = some s' → inv s' := by
  induction events with
  | nil =>
    intro s s' hs _ hrun
    rw [← Option.some.inj hrun]
    exact hs
  | cons event rest ih =>
    intro s s' hs hok hrun
    obtain ⟨between, hone, hrest⟩ := Option.bind_eq_some_iff.mp hrun
    exact ih (hstep s event between hs hok.1 hone) (hok.2 between hone) hrest

/-- A property that a step keeps as it is where the condition is met, and that
is lost for good where it is not: it holds after a run exactly if it held before
and every event met the condition. -/
theorem exactly {ok : σ → ε → Prop} {inv P : σ → Prop}
    (hinv : ∀ s event s', inv s → step s event = some s' → inv s')
    (hmet : ∀ s event s', inv s → ok s event → step s event = some s' → (P s' ↔ P s))
    (hnot : ∀ s event s', inv s → ¬ ok s event → step s event = some s' → ¬ P s')
    {events : List ε} :
    ∀ {s s' : σ}, inv s → run step s events = some s' → (P s' ↔ P s ∧ AllMeet step ok s events) := by
  induction events with
  | nil =>
    intro s s' _ hrun
    rw [← Option.some.inj hrun]
    exact ⟨fun h => ⟨h, trivial⟩, fun h => h.1⟩
  | cons event rest ih =>
    intro s s' hs hrun
    obtain ⟨between, hone, hrest⟩ := Option.bind_eq_some_iff.mp hrun
    rw [ih (hinv s event between hs hone) hrest]
    constructor
    · rintro ⟨hbetween, hall⟩
      have hok : ok s event :=
        Classical.not_not.mp fun hno => hnot s event between hs hno hone hbetween
      refine ⟨(hmet s event between hs hok hone).mp hbetween, hok, fun s'' h => ?_⟩
      rwa [Option.some.inj (hone.symm.trans h)] at hall
    · rintro ⟨hbefore, hok, hall⟩
      exact ⟨(hmet s event between hs hok hone).mpr hbefore, hall between hone⟩

theorem AllMeet.nil {ok : σ → ε → Prop} {s : σ} : AllMeet step ok s [] := trivial

theorem AllMeet.cons {ok : σ → ε → Prop} {event : ε} {rest : List ε} {s s' : σ}
    (hok : ok s event) (hone : step s event = some s') (hrest : AllMeet step ok s' rest) :
    AllMeet step ok s (event :: rest) :=
  ⟨hok, fun _ h => Option.some.inj (hone.symm.trans h) ▸ hrest⟩

theorem allMeet_true {events : List ε} {s : σ} : AllMeet step (fun _ _ => True) s events := by
  induction events generalizing s with
  | nil => trivial
  | cons event rest ih => exact ⟨trivial, fun _ _ => ih⟩

/-- What a start has and every step keeps. -/
theorem always {inv : σ → Prop} (hstep : ∀ s event s', inv s → step s event = some s' → inv s')
    {events : List ε} {s s' : σ} (hs : inv s) (hrun : run step s events = some s') : inv s' :=
  invariant (fun s event s' hs (_ : True) h => hstep s event s' hs h) hs allMeet_true hrun

/-- What the empty run has of a start, and every step keeps of a run and its end. -/
theorem along {inv : List ε → σ → Prop}
    (hstep : ∀ seen s event s', inv seen s → step s event = some s' → inv (seen ++ [event]) s')
    {events : List ε} {start s' : σ} (hs : inv [] start) (hrun : run step start events = some s') :
    inv events s' := by
  suffices h : ∀ (events seen : List ε) (s : σ), inv seen s → run step s events = some s' →
      inv (seen ++ events) s' from h events [] start hs hrun
  intro events
  induction events with
  | nil =>
    intro seen s hseen hrun
    rw [← Option.some.inj hrun, List.append_nil]
    exact hseen
  | cons event rest ih =>
    intro seen s hseen hrun
    obtain ⟨between, hone, hrest⟩ := Option.bind_eq_some_iff.mp hrun
    have hall := ih (seen ++ [event]) between (hstep seen s event between hseen hone) hrest
    rwa [List.append_assoc, List.singleton_append] at hall

theorem run_append {events later : List ε} {s s' : σ} (hrun : run step s events = some s') :
    run step s (events ++ later) = run step s' later := by
  induction events generalizing s with
  | nil => rw [← Option.some.inj hrun, List.nil_append]
  | cons event rest ih =>
    obtain ⟨between, hone, hrest⟩ := Option.bind_eq_some_iff.mp hrun
    rw [List.cons_append, run, hone, Option.bind_some]
    exact ih hrest

variable (step) in
/-- Every event of a run meets a condition on what came before it and on the state it
happens in. -/
def EachMeets (ok : List ε → σ → ε → Prop) (start : σ) (events : List ε) : Prop :=
  ∀ before event rest s, events = before ++ event :: rest → run step start before = some s →
    ok before s event

theorem eachMeets_nil {ok : List ε → σ → ε → Prop} {start : σ} : EachMeets step ok start [] := by
  intro before event rest s hevents _
  cases before with
  | nil => cases hevents
  | cons => cases hevents

theorem eachMeets_concat {ok : List ε → σ → ε → Prop} {start s : σ} {events : List ε} {event : ε}
    (hrun : run step start events = some s) :
    EachMeets step ok start (events ++ [event]) ↔ EachMeets step ok start events ∧ ok events s event := by
  constructor
  · intro h
    refine ⟨fun before earlier rest s' hevents hbefore => ?_, h events event [] s rfl hrun⟩
    refine h before earlier (rest ++ [event]) s' ?_ hbefore
    rw [hevents, List.append_assoc, List.cons_append]
  · rintro ⟨h, hok⟩ before earlier rest s' hevents hbefore
    rcases List.eq_nil_or_concat rest with rfl | ⟨rest, last, rfl⟩
    · obtain ⟨rfl, hlast⟩ := List.append_inj' hevents rfl
      obtain rfl := List.singleton_inj.mp hlast
      obtain rfl := Option.some.inj (hrun.symm.trans hbefore)
      exact hok
    · refine h before earlier rest s' ?_ hbefore
      rw [List.concat_eq_append, ← List.cons_append, ← List.append_assoc] at hevents
      exact (List.append_inj' hevents rfl).1

theorem AllMeet.reached {ok : σ → ε → Prop} {event : ε} {before rest : List ε} {s s' : σ}
    (h : AllMeet step ok s (before ++ event :: rest)) (hrun : run step s before = some s') :
    ok s' event := by
  induction before generalizing s with
  | nil =>
    rw [← Option.some.inj hrun]
    exact h.1
  | cons first before ih =>
    obtain ⟨between, hone, hbefore⟩ := Option.bind_eq_some_iff.mp hrun
    exact ih (h.2 between hone) hbefore

instance AllMeet.decidable {ok : σ → ε → Prop} [∀ s event, Decidable (ok s event)] :
    ∀ (s : σ) (events : List ε), Decidable (AllMeet step ok s events)
  | _, [] => .isTrue trivial
  | s, event :: rest =>
    match hstep : step s event with
    | none => decidable_of_iff (ok s event)
        ⟨fun h => ⟨h, fun _ hsome => nomatch hstep.symm.trans hsome⟩, fun h => h.1⟩
    | some s' =>
      have : Decidable (AllMeet step ok s' rest) := AllMeet.decidable s' rest
      decidable_of_iff (ok s event ∧ AllMeet step ok s' rest)
        ⟨fun h => AllMeet.cons h.1 hstep h.2, fun h => ⟨h.1, h.2 s' hstep⟩⟩

end Transitions
