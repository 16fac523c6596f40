import PiEnv.Subagent.SessionRuntime

/-!
# Transitions of a session

Bodies run one behind the other, so that what is settled, what runs and what
waits are told apart by the order of the calls. From that: what a superseded
start leaves, where every telemetry runtime is, and which state follows.
-/

namespace PiEnv.Subagent.SessionRuntime

open Js

-- -----
-- What is promised
-- -----

/-- The factory has answered the running start, which has not yet looked. -/
def Held (s : State) (n : Nat) : Prop :=
  ∃ (i : Nat) (t : Transition), s.transitions[i]? = some t ∧ t.phase = .created n

/-- A superseded start has installed nothing, and is settled with `false` or, where
something that it waited for has failed, rejected. -/
def Transition.Withdrawn (t : Transition) : Prop :=
  ∀ outcome, t.phase = .settled outcome →
    outcome = if t.failed then .rejected else .resolved false

structure Orderly (s : State) : Prop where
  one : ∀ (i j : Nat) (t u : Transition), s.transitions[i]? = some t → s.transitions[j]? = some u →
    t.phase.isRunning = true → u.phase.isRunning = true → i = j
  superseded : ∀ (i : Nat) (t : Transition), s.transitions[i]? = some t → t.kind.isSome = true →
    t.superseded = true → s.installer ≠ some i ∧ t.Withdrawn
  installed : ∀ n, s.telemetryRuntime = some n → s.disposed.count n = 0 ∧ ¬ Held s n
  held : ∀ n, Held s n → s.disposed.count n = 0
  disposed : ∀ n < s.telemetryRuntimes, s.telemetryRuntime ≠ some n → ¬ Held s n →
    s.disposed.count n = 1
  atRest : (∀ (i : Nat) (t : Transition), s.transitions[i]? = some t →
      ∃ outcome, t.phase = .settled outcome ∧ outcome ≠ .rejected) →
    (s.sessionState = .active ↔ ∃ t, s.transitions.getLast? = some t ∧ t.kind.isSome = true)

-- -----
-- Invariant
-- -----

/-- The session state that the last call leads to. -/
def stateAfter : Option Transition → SubagentSessionState
  | none => .inactive
  | some t =>
    match t.kind, t.phase with
    | some _, .settled (.resolved true) => .active
    | none, .settled _ => .inactive
    | _, _ => .shuttingDown

/-- A phase is one of the body's, and has come about with or without a failure. -/
def Transition.Sound (t : Transition) : Prop :=
  match t.phase with
  | .queued => t.failed = false
  | .disposing _ _ => True
  | .creating | .created _ => t.kind.isSome = true ∧ t.failed = false
  | .discarding _ | .settled (.resolved false) =>
    t.kind.isSome = true ∧ t.failed = false ∧ t.superseded = true
  | .settled (.resolved true) => t.kind.isSome = true ∧ t.failed = false
  | .settled .finished => t.kind = none ∧ t.failed = false
  | .settled .rejected => t.failed = true

/-- The runtime that a body disposes of is still the installed one, or nothing is. -/
def Phase.Fits (telemetryRuntime installer : Option Nat) : Phase → Prop
  | .disposing resources .manager | .disposing resources (.supervisor _) =>
    resources.runtime = telemetryRuntime
  | .disposing _ .telemetry | .creating | .created _ | .discarding _ =>
    telemetryRuntime = none ∧ installer = none
  | .queued | .settled _ => True

/-- Something has been counted once, or not at all. -/
def Once (p : Prop) (count : Nat) : Prop := (p → count = 1) ∧ (¬ p → count = 0)

theorem Once.congr {p q : Prop} {count : Nat} (h : p ↔ q) (hp : Once p count) : Once q count :=
  ⟨fun hq => hp.1 (h.mpr hq), fun hq => hp.2 (fun hp => hq (h.mp hp))⟩

structure Inv (s : State) : Prop where
  generation : s.lifecycleGeneration = s.transitions.length
  tail : ∀ j, s.transitionTail = some j ↔ j + 1 = s.transitions.length
  numbered : ∀ (i : Nat) (t : Transition), s.transitions[i]? = some t →
    t.generation = i + 1 ∧ ∀ j, t.after = some j ↔ j + 1 = i
  ordered : ∀ (i : Nat) (t : Transition), s.transitions[i]? = some t → t.phase ≠ .queued →
    ∀ j < i, s.settled j = true
  superseded : ∀ (i : Nat) (t : Transition), s.transitions[i]? = some t → t.superseded = true →
    i + 1 < s.transitions.length ∧ t.phase ≠ .settled (.resolved true)
  passed : ∀ (i : Nat) (t : Transition), s.transitions[i]? = some t → i + 1 < s.transitions.length →
    t.phase.isSettled = false → t.superseded = true
  sound : ∀ (i : Nat) (t : Transition), s.transitions[i]? = some t → t.Sound
  fits : ∀ (i : Nat) (t : Transition), s.transitions[i]? = some t →
    t.phase.Fits s.telemetryRuntime s.installer
  installer : ∀ i, s.installer = some i →
    ∃ t, s.transitions[i]? = some t ∧ t.phase = .settled (.resolved true)
  bounded : ∀ n, s.telemetryRuntime = some n ∨ Held s n → n < s.telemetryRuntimes
  counted : ∀ n, Once (n < s.telemetryRuntimes ∧ s.telemetryRuntime ≠ some n ∧ ¬ Held s n)
    (s.disposed.count n)
  state : s.sessionState = stateAfter s.transitions.getLast?

variable {s s' : State} {i : Nat} {t : Transition}

theorem initial_inv (supervisors : List Supervisor) (registry : JsMap Str Nat) :
    Inv (initial supervisors registry) where
  generation := rfl
  tail _ := ⟨nofun, nofun⟩
  numbered _ _ := nofun
  ordered _ _ := nofun
  superseded _ _ := nofun
  passed _ _ := nofun
  sound _ _ := nofun
  fits _ _ := nofun
  installer _ := nofun
  bounded n h := by
    rcases h with h | ⟨i, t, ht, -⟩
    · cases h
    · cases ht
  counted n := ⟨fun h => absurd h.1 (Nat.not_lt_zero n), fun _ => rfl⟩
  state := rfl

theorem settled_iff : s.settled i = true ↔
    ∃ t, s.transitions[i]? = some t ∧ t.phase.isSettled = true := by
  rw [State.settled, Option.any_eq_true]

/-- Where one body has begun and is not over, no other has. -/
theorem Inv.alone (hs : Inv s) (ht : s.transitions[i]? = some t)
    (hunsettled : t.phase.isSettled = false) (hbegun : ∀ j < i, s.settled j = true) {j : Nat}
    {u : Transition} (hu : s.transitions[j]? = some u) (hne : j ≠ i) :
    u.phase = .queued ∨ u.phase.isSettled = true := by
  rcases Nat.lt_or_gt_of_ne hne with hlt | hgt
  · obtain ⟨u', hu', hsettled⟩ := settled_iff.mp (hbegun j hlt)
    obtain rfl := Option.some.inj (hu.symm.trans hu')
    exact .inr hsettled
  · by_contra hnot
    obtain ⟨hqueued, -⟩ := not_or.mp hnot
    obtain ⟨t', ht', hsettled⟩ := settled_iff.mp (hs.ordered j u hu hqueued i hgt)
    obtain rfl := Option.some.inj (ht.symm.trans ht')
    rw [hunsettled] at hsettled
    cases hsettled

theorem Inv.one (hs : Inv s) {j : Nat} {u : Transition} (ht : s.transitions[i]? = some t)
    (hu : s.transitions[j]? = some u) (htrun : t.phase.isRunning = true)
    (hurun : u.phase.isRunning = true) : i = j := by
  by_contra hne
  have hunsettled : t.phase.isSettled = false := by
    cases h : t.phase <;> simp_all [Phase.isRunning, Phase.isSettled]
  have hqueued : t.phase ≠ .queued := by
    rintro h
    rw [h] at htrun
    cases htrun
  rcases hs.alone ht hunsettled (hs.ordered i t ht hqueued) hu (Ne.symm hne) with h | h
  · rw [h] at hurun
    cases hurun
  · cases hphase : u.phase <;> simp_all [Phase.isRunning, Phase.isSettled]

theorem Inv.held_iff (hs : Inv s) (ht : s.transitions[i]? = some t)
    (hunsettled : t.phase.isSettled = false) (hbegun : ∀ j < i, s.settled j = true) (n : Nat) :
    Held s n ↔ t.phase = .created n := by
  constructor
  · rintro ⟨j, u, hu, hcreated⟩
    by_cases hj : j = i
    · subst hj
      obtain rfl := Option.some.inj (ht.symm.trans hu)
      exact hcreated
    · rcases hs.alone ht hunsettled hbegun hu hj with h | h
      · rw [hcreated] at h
        cases h
      · rw [hcreated] at h
        cases h
  · exact fun h => ⟨i, t, ht, h⟩

theorem Inv.orderly (hs : Inv s) : Orderly s where
  one i j t u ht hu htrun hurun := hs.one ht hu htrun hurun
  superseded i t ht hkind hsuperseded := by
    have hnot := (hs.superseded i t ht hsuperseded).2
    refine ⟨fun hinstaller => ?_, fun outcome houtcome => ?_⟩
    · obtain ⟨t', ht', hphase⟩ := hs.installer i hinstaller
      obtain rfl := Option.some.inj (ht.symm.trans ht')
      exact hnot hphase
    · have hsound := hs.sound i t ht
      rw [houtcome] at hnot
      simp only [Transition.Sound, houtcome] at hsound
      rcases outcome with (_ | _) | _ | _
      · rw [hsound.2.1]
        rfl
      · exact absurd rfl hnot
      · rw [hsound.1] at hkind
        cases hkind
      · rw [hsound]
        rfl
  installed n hn := by
    refine ⟨?_, ?_⟩
    · exact (hs.counted n).2 (fun h => h.2.1 hn)
    · rintro ⟨i, t, ht, hcreated⟩
      have hfits := hs.fits i t ht
      rw [hcreated] at hfits
      rw [hfits.1] at hn
      cases hn
  held n hn := (hs.counted n).2 (fun h => h.2.2 hn)
  disposed n hlt hne hnot := (hs.counted n).1 ⟨hlt, hne, hnot⟩
  atRest hall := by
    rw [hs.state]
    cases hlast : s.transitions.getLast? with
    | none => simp [stateAfter]
    | some t =>
      rw [List.getLast?_eq_getElem?] at hlast
      obtain ⟨outcome, hphase, houtcome⟩ := hall _ t hlast
      have hsound := hs.sound _ t hlast
      simp only [Transition.Sound, hphase] at hsound
      have hsuperseded : t.superseded = false := by
        by_contra h
        have hlt := (hs.superseded _ t hlast (Bool.not_eq_false _ ▸ h)).1
        omega
      rcases outcome with (_ | _) | _ | _
      · rw [hsound.2.2] at hsuperseded
        cases hsuperseded
      · obtain ⟨ctx, hkind⟩ := Option.isSome_iff_exists.mp hsound.1
        simp [stateAfter, hkind, hphase]
      · simp [stateAfter, hsound.1, hphase]
      · exact absurd rfl houtcome

-- -----
-- One body goes on
-- -----

/-- How often the disposal of a runtime was called for, by where it is. -/
def Counted (s : State) (phase : Phase) : Prop :=
  ∀ n, Once (n < s.telemetryRuntimes ∧ s.telemetryRuntime ≠ some n ∧ phase ≠ .created n)
    (s.disposed.count n)

theorem Inv.counts (hs : Inv s) (ht : s.transitions[i]? = some t)
    (hunsettled : t.phase.isSettled = false) (hbegun : ∀ j < i, s.settled j = true) :
    Counted s t.phase := by
  intro n
  have hheld := hs.held_iff ht hunsettled hbegun n
  exact (hs.counted n).congr (and_congr_right' (and_congr_right' (not_congr hheld)))

/-- What a body that goes on keeps of its transition. -/
structure Transition.Continues (t t' : Transition) : Prop where
  kind : t'.kind = t.kind
  generation : t'.generation = t.generation
  after : t'.after = t.after
  superseded : t'.superseded = t.superseded

theorem getElem?_set_cases {ts : List Transition} {t' u : Transition} {j : Nat}
    (h : (ts.set i t')[j]? = some u) : (j = i ∧ u = t') ∨ (j ≠ i ∧ ts[j]? = some u) := by
  rw [List.getElem?_set] at h
  split at h
  · rename_i hij
    split at h
    · exact .inl ⟨hij.symm, (Option.some.inj h).symm⟩
    · cases h
  · rename_i hij
    exact .inr ⟨Ne.symm hij, h⟩

/-- One body goes on, and with it the fields may change. -/
theorem Inv.move (hs : Inv s) (ht : s.transitions[i]? = some t)
    (hunsettled : t.phase.isSettled = false) (hbegun : ∀ j < i, s.settled j = true)
    {t' : Transition} (htransitions : s'.transitions = s.transitions.set i t')
    (hgeneration : s'.lifecycleGeneration = s.lifecycleGeneration)
    (htail : s'.transitionTail = s.transitionTail) (hcontinues : t.Continues t')
    (hsound : t'.Sound) (hlast : t'.phase = .settled (.resolved true) → i + 1 = s.transitions.length)
    (hfits : t'.phase.Fits s'.telemetryRuntime s'.installer)
    (hinstaller : ∀ j, s'.installer = some j →
      (j = i ∧ t'.phase = .settled (.resolved true)) ∨ (j ≠ i ∧ s.installer = some j))
    (hbounded : ∀ n, s'.telemetryRuntime = some n ∨ t'.phase = .created n →
      n < s'.telemetryRuntimes)
    (hcounted : Counted s' t'.phase)
    (hstate : s'.sessionState =
      if i + 1 = s.transitions.length then stateAfter (some t') else s.sessionState) :
    Inv s' := by
  have hlt : i < s.transitions.length := (List.getElem?_eq_some_iff.mp ht).1
  have hlength : s'.transitions.length = s.transitions.length := by
    rw [htransitions, List.length_set]
  have hself : s'.transitions[i]? = some t' := by
    rw [htransitions, List.getElem?_set_self hlt]
  have hother {j : Nat} (hj : j ≠ i) : s'.transitions[j]? = s.transitions[j]? := by
    rw [htransitions, List.getElem?_set_ne (Ne.symm hj)]
  have hcases {j : Nat} {u : Transition} (hu : s'.transitions[j]? = some u) :
      (j = i ∧ u = t') ∨ (j ≠ i ∧ s.transitions[j]? = some u) :=
    getElem?_set_cases (htransitions ▸ hu)
  have hstays {j : Nat} (hj : j ≠ i) : s'.settled j = s.settled j := by
    rw [State.settled, State.settled, hother hj]
  have hheld (n : Nat) : Held s' n ↔ t'.phase = .created n := by
    constructor
    · rintro ⟨j, u, hu, hcreated⟩
      rcases hcases hu with ⟨rfl, rfl⟩ | ⟨hj, hu⟩
      · exact hcreated
      · rcases hs.alone ht hunsettled hbegun hu hj with h | h
        · rw [hcreated] at h
          cases h
        · rw [hcreated] at h
          cases h
    · exact fun h => ⟨i, t', hself, h⟩
  refine ⟨?_, ?_, ?_, ?_, ?_, ?_, ?_, ?_, ?_, ?_, ?_, ?_⟩
  · rw [hgeneration, hlength, hs.generation]
  · intro j
    rw [htail, hlength, hs.tail]
  · intro j u hu
    rcases hcases hu with ⟨rfl, rfl⟩ | ⟨-, hu⟩
    · rw [hcontinues.generation, hcontinues.after]
      exact hs.numbered _ t ht
    · exact hs.numbered j u hu
  · intro j u hu hqueued k hk
    rcases hcases hu with ⟨rfl, rfl⟩ | ⟨-, hu⟩
    · rw [hstays (Nat.ne_of_lt hk)]
      exact hbegun k hk
    · have hbefore := hs.ordered j u hu hqueued k hk
      by_cases hki : k = i
      · subst hki
        obtain ⟨t'', ht'', hsettled⟩ := settled_iff.mp hbefore
        obtain rfl := Option.some.inj (ht.symm.trans ht'')
        rw [hunsettled] at hsettled
        cases hsettled
      · rw [hstays hki]
        exact hbefore
  · intro j u hu hsuperseded
    rw [hlength]
    rcases hcases hu with ⟨rfl, rfl⟩ | ⟨-, hu⟩
    · rw [hcontinues.superseded] at hsuperseded
      have hearlier := (hs.superseded _ t ht hsuperseded).1
      exact ⟨hearlier, fun h => Nat.ne_of_lt hearlier (hlast h)⟩
    · exact hs.superseded j u hu hsuperseded
  · intro j u hu hearlier hopen
    rw [hlength] at hearlier
    rcases hcases hu with ⟨rfl, rfl⟩ | ⟨-, hu⟩
    · rw [hcontinues.superseded]
      exact hs.passed _ t ht hearlier hunsettled
    · exact hs.passed j u hu hearlier hopen
  · intro j u hu
    rcases hcases hu with ⟨rfl, rfl⟩ | ⟨-, hu⟩
    · exact hsound
    · exact hs.sound j u hu
  · intro j u hu
    rcases hcases hu with ⟨rfl, rfl⟩ | ⟨hj, hu⟩
    · exact hfits
    · rcases hs.alone ht hunsettled hbegun hu hj with h | h
      · rw [h]
        trivial
      · cases hphase : u.phase with
        | settled outcome => trivial
        | _ => simp [hphase, Phase.isSettled] at h
  · intro j hj
    rcases hinstaller j hj with ⟨rfl, hphase⟩ | ⟨hne, hold⟩
    · exact ⟨t', hself, hphase⟩
    · obtain ⟨u, hu, hphase⟩ := hs.installer j hold
      exact ⟨u, (hother hne).trans hu, hphase⟩
  · intro n hn
    rw [hheld] at hn
    exact hbounded n hn
  · intro n
    exact (hcounted n).congr (and_congr_right' (and_congr_right' (not_congr (hheld n).symm)))
  · rw [hstate, List.getLast?_eq_getElem?, hlength]
    split
    · rename_i hlastIndex
      rw [show s.transitions.length - 1 = i by omega, hself]
    · rename_i hnot
      rw [hother (by omega), hs.state, List.getLast?_eq_getElem?]

-- -----
-- The steps of a body
-- -----

theorem stateAfter_open {t : Transition} (h : t.phase.isSettled = false) :
    stateAfter (some t) = .shuttingDown := by
  unfold stateAfter
  cases t with
  | mk kind generation after phase failed superseded =>
    cases phase <;> cases kind <;> first | rfl | cases h

/-- A body that has not settled, and does not, leaves the session state. -/
theorem Inv.state_open (hs : Inv s) (ht : s.transitions[i]? = some t)
    (hunsettled : t.phase.isSettled = false) {t' : Transition} (h : t'.phase.isSettled = false) :
    s.sessionState =
      if i + 1 = s.transitions.length then stateAfter (some t') else s.sessionState := by
  split
  · rename_i hlast
    rw [hs.state, List.getLast?_eq_getElem?, ← hlast, Nat.add_sub_cancel, ht,
      stateAfter_open hunsettled, stateAfter_open h]
  · rfl

/-- A settled start is no body's that goes on. -/
theorem Inv.not_installer (hs : Inv s) (ht : s.transitions[i]? = some t)
    (hunsettled : t.phase.isSettled = false) : s.installer ≠ some i := by
  intro hi
  obtain ⟨u, hu, hphase⟩ := hs.installer i hi
  obtain rfl := Option.some.inj (ht.symm.trans hu)
  rw [hphase] at hunsettled
  cases hunsettled

/-- One body goes on without changing the fields. -/
theorem Inv.still (hs : Inv s) (ht : s.transitions[i]? = some t)
    (hunsettled : t.phase.isSettled = false) (hbegun : ∀ j < i, s.settled j = true)
    {t' : Transition} (hcontinues : t.Continues t') (hsound : t'.Sound)
    (hnot : t'.phase ≠ .settled (.resolved true))
    (hfits : t'.phase.Fits s.telemetryRuntime s.installer)
    (hinHand : ∀ n, t.phase = .created n ↔ t'.phase = .created n)
    (hstate : s.sessionState =
      if i + 1 = s.transitions.length then stateAfter (some t') else s.sessionState) :
    Inv { s with transitions := s.transitions.set i t' } := by
  refine hs.move ht hunsettled hbegun rfl rfl rfl hcontinues hsound (absurd · hnot) hfits ?_ ?_ ?_
    hstate
  · intro j hj
    refine .inr ⟨?_, hj⟩
    rintro rfl
    exact hs.not_installer ht hunsettled hj
  · intro n hn
    rw [← hinHand, ← hs.held_iff ht hunsettled hbegun] at hn
    exact hs.bounded n hn
  · intro n
    exact (hs.counts ht hunsettled hbegun n).congr
      (and_congr_right' (and_congr_right' (not_congr (hinHand n))))

/-- One body goes on to its next await. -/
theorem Inv.pass (hs : Inv s) (ht : s.transitions[i]? = some t)
    (hunsettled : t.phase.isSettled = false) (hbegun : ∀ j < i, s.settled j = true)
    {t' : Transition} (hcontinues : t.Continues t') (hopen : t'.phase.isSettled = false)
    (hsound : t'.Sound) (hfits : t'.phase.Fits s.telemetryRuntime s.installer)
    (hinHand : ∀ n, t.phase = .created n ↔ t'.phase = .created n) :
    Inv { s with transitions := s.transitions.set i t' } := by
  refine hs.still ht hunsettled hbegun hcontinues hsound ?_ hfits hinHand
    (hs.state_open ht hunsettled hopen)
  intro h
  rw [h] at hopen
  cases hopen

/-- A start is settled without having installed anything. -/
theorem Inv.withdraw (hs : Inv s) (ht : s.transitions[i]? = some t)
    (hunsettled : t.phase.isSettled = false) (hbegun : ∀ j < i, s.settled j = true)
    (hnotHeld : ∀ n, t.phase ≠ .created n) {t' : Transition} (hcontinues : t.Continues t')
    {outcome : Outcome} (hphase : t'.phase = .settled outcome) (hnot : outcome ≠ .resolved true)
    (hkind : t.kind.isSome = true) (hsound : t'.Sound) :
    Inv { s with transitions := s.transitions.set i t' } := by
  have hstate : stateAfter (some t') = .shuttingDown := by
    obtain ⟨ctx, hctx⟩ := Option.isSome_iff_exists.mp (hcontinues.kind ▸ hkind)
    rcases outcome with (_ | _) | _ | _
    · simp [stateAfter, hctx, hphase]
    · exact absurd rfl hnot
    · simp [stateAfter, hctx, hphase]
    · simp [stateAfter, hctx, hphase]
  refine hs.still ht hunsettled hbegun hcontinues hsound ?_ ?_ ?_ ?_
  · rw [hphase]
    exact fun h => hnot (Phase.settled.inj h)
  · rw [hphase]
    trivial
  · intro n
    rw [hphase]
    exact ⟨fun h => absurd h (hnotHeld n), nofun⟩
  · rw [hstate, ← stateAfter_open hunsettled]
    exact hs.state_open ht hunsettled hunsettled

theorem begin_inv (hs : Inv s) (ht : s.transitions[i]? = some t) (hqueued : t.phase = .queued)
    (hready : t.after.all s.settled = true) : Inv (s.begin i t) := by
  have hunsettled : t.phase.isSettled = false := by rw [hqueued]; rfl
  have hbegun : ∀ j < i, s.settled j = true := by
    intro j hj
    obtain ⟨k, rfl⟩ : ∃ k, i = k + 1 := ⟨i - 1, by omega⟩
    have hafter : t.after = some k := ((hs.numbered _ t ht).2 k).mpr rfl
    rw [hafter] at hready
    have hk : s.settled k = true := hready
    by_cases hjk : j = k
    · rw [hjk]
      exact hk
    · obtain ⟨u, hu, husettled⟩ := settled_iff.mp hk
      refine hs.ordered k u hu ?_ j (by omega)
      rintro h
      rw [h] at husettled
      cases husettled
  refine hs.pass ht hunsettled hbegun ⟨rfl, rfl, rfl, rfl⟩ rfl trivial rfl ?_
  intro n
  rw [hqueued]
  exact ⟨nofun, nofun⟩

/-- What supervisors there are is nothing to the transitions. -/
theorem Inv.aside (hs : Inv s) {supervisors : List Supervisor} {registry : JsMap Str Nat} :
    Inv { s with supervisors, registry } :=
  ⟨hs.generation, hs.tail, hs.numbered, hs.ordered, hs.superseded, hs.passed, hs.sound, hs.fits,
    hs.installer, hs.bounded, hs.counted, hs.state⟩

theorem callDispose_inv (hs : Inv s) (ht : s.transitions[i]? = some t) {resources : Resources}
    (hphase : t.phase = .disposing resources .manager) (failed : Bool) :
    Inv (s.callDispose i { t with failed } resources) := by
  have hunsettled : t.phase.isSettled = false := by rw [hphase]; rfl
  have hbegun := hs.ordered i t ht (by rw [hphase]; nofun)
  have hfits := hs.fits i t ht
  rw [hphase] at hfits
  have hnext (registered : Option Nat) :
      Inv (s.goto i { t with failed } (.disposing resources (.supervisor registered))) := by
    refine hs.pass ht hunsettled hbegun ⟨rfl, rfl, rfl, rfl⟩ rfl trivial hfits ?_
    intro n
    rw [hphase]
    exact ⟨nofun, nofun⟩
  unfold State.callDispose
  split
  · exact hnext none
  split
  · exact hnext none
  split
  · exact hnext none
  · exact (hnext _).aside

theorem clear_inv (hs : Inv s) (ht : s.transitions[i]? = some t) {resources : Resources}
    {registered : Option Nat} (hphase : t.phase = .disposing resources (.supervisor registered))
    (failed : Bool) : Inv (s.clear i { t with failed } resources) := by
  have hunsettled : t.phase.isSettled = false := by rw [hphase]; rfl
  have hbegun := hs.ordered i t ht (by rw [hphase]; nofun)
  have hruntime := hs.fits i t ht
  rw [hphase] at hruntime
  replace hruntime : resources.runtime = s.telemetryRuntime := hruntime
  refine hs.move ht hunsettled hbegun rfl rfl rfl ⟨rfl, rfl, rfl, rfl⟩ trivial nofun ⟨rfl, rfl⟩ nofun
    ?_ ?_ (hs.state_open ht hunsettled rfl)
  · intro n hn
    rcases hn with hn | hn <;> cases hn
  · intro n
    have hcounts := hs.counts ht hunsettled hbegun n
    rw [hphase] at hcounts
    have happend : (resources.runtime.toList ++ s.disposed).count n =
        (if s.telemetryRuntime = some n then 1 else 0) + s.disposed.count n := by
      rw [List.count_append, hruntime]
      cases s.telemetryRuntime with
      | none => rfl
      | some m => by_cases hm : m = n <;> simp [hm]
    simp only [State.clear, State.goto]
    rw [happend]
    by_cases hinstalled : s.telemetryRuntime = some n
    · rw [if_pos hinstalled, hcounts.2 (fun h => h.2.1 hinstalled)]
      exact ⟨fun _ => rfl, fun hnot => absurd ⟨hs.bounded n (.inl hinstalled), nofun, nofun⟩ hnot⟩
    · rw [if_neg hinstalled, Nat.zero_add]
      refine hcounts.congr ?_
      simp [hinstalled]

theorem finishShutdown_inv (hs : Inv s) (ht : s.transitions[i]? = some t) {resources : Resources}
    (hphase : t.phase = .disposing resources .telemetry) (hkind : t.kind = none) {failed : Bool} :
    Inv (s.finishShutdown i { t with failed } (if failed then .rejected else .finished)) := by
  have hunsettled : t.phase.isSettled = false := by rw [hphase]; rfl
  have hbegun := hs.ordered i t ht (by rw [hphase]; nofun)
  have hfits := hs.fits i t ht
  rw [hphase] at hfits
  obtain ⟨hruntime, hinstaller⟩ : s.telemetryRuntime = none ∧ s.installer = none := hfits
  have hlast : t.generation = s.lifecycleGeneration ↔ i + 1 = s.transitions.length := by
    rw [(hs.numbered i t ht).1, hs.generation]
  have hmove (sessionState : SubagentSessionState)
      (hstate : sessionState = if i + 1 = s.transitions.length then .inactive else s.sessionState) :
      Inv ({ s with sessionState }.settle i { t with failed }
        (if failed then .rejected else .finished)) := by
    refine hs.move ht hunsettled hbegun rfl rfl rfl ⟨rfl, rfl, rfl, rfl⟩ ?_ ?_ ?_ ?_ ?_ ?_ ?_
    · cases failed with
      | false => exact ⟨hkind, rfl⟩
      | true => exact rfl
    · cases failed <;> nofun
    · cases failed <;> trivial
    · intro j hj
      replace hj : s.installer = some j := hj
      rw [hinstaller] at hj
      cases hj
    · intro n hn
      rcases hn with hn | hn
      · replace hn : s.telemetryRuntime = some n := hn
        rw [hruntime] at hn
        cases hn
      · cases failed <;> cases hn
    · intro n
      have hcounts := hs.counts ht hunsettled hbegun n
      rw [hphase] at hcounts
      refine hcounts.congr (and_congr_right' (and_congr_right' (not_congr ?_)))
      cases failed <;> exact ⟨nofun, nofun⟩
    · refine hstate.trans ?_
      cases failed <;> simp [stateAfter, hkind]
  unfold State.finishShutdown
  simp only
  split
  · rename_i hsame
    exact hmove .inactive (by rw [if_pos (hlast.mp hsame)])
  · rename_i hstale
    exact hmove s.sessionState (by rw [if_neg (fun h => hstale (hlast.mpr h))])

theorem afterDisposal_inv (hs : Inv s) (ht : s.transitions[i]? = some t) {resources : Resources}
    (hphase : t.phase = .disposing resources .telemetry) (failed : Bool) :
    Inv (s.afterDisposal i { t with failed }) := by
  have hunsettled : t.phase.isSettled = false := by rw [hphase]; rfl
  have hbegun := hs.ordered i t ht (by rw [hphase]; nofun)
  have hnotHeld (n : Nat) : t.phase ≠ .created n := by rw [hphase]; nofun
  have hfits := hs.fits i t ht
  rw [hphase] at hfits
  have hgeneration : t.generation = i + 1 := (hs.numbered i t ht).1
  unfold State.afterDisposal
  split
  · rename_i hkind
    exact finishShutdown_inv hs ht hphase hkind
  · rename_i ctx hkind
    replace hkind : t.kind = some ctx := hkind
    have hisStart : t.kind.isSome = true := by rw [hkind]; rfl
    split
    · rename_i hfailed
      replace hfailed : failed = true := hfailed
      exact hs.withdraw ht hunsettled hbegun hnotHeld ⟨rfl, rfl, rfl, rfl⟩ rfl nofun hisStart hfailed
    rename_i hsucceeded
    replace hsucceeded : failed = false := Bool.eq_false_iff.mpr hsucceeded
    split
    · rename_i hstale
      replace hstale : t.generation ≠ s.lifecycleGeneration := hstale
      have hlt := (List.getElem?_eq_some_iff.mp ht).1
      rw [hgeneration, hs.generation] at hstale
      have hsuperseded := hs.passed i t ht (by omega) hunsettled
      exact hs.withdraw ht hunsettled hbegun hnotHeld ⟨rfl, rfl, rfl, rfl⟩ rfl nofun hisStart
        ⟨hisStart, hsucceeded, hsuperseded⟩
    · refine hs.pass ht hunsettled hbegun ⟨rfl, rfl, rfl, rfl⟩ rfl ⟨hisStart, hsucceeded⟩ hfits ?_
      exact fun n => ⟨fun h => absurd h (hnotHeld n), nofun⟩

theorem create_inv (hs : Inv s) (ht : s.transitions[i]? = some t) (hphase : t.phase = .creating) :
    Inv ({ s with telemetryRuntimes := s.telemetryRuntimes + 1 }.goto i t
      (.created s.telemetryRuntimes)) := by
  have hunsettled : t.phase.isSettled = false := by rw [hphase]; rfl
  have hbegun := hs.ordered i t ht (by rw [hphase]; nofun)
  have hfits := hs.fits i t ht
  have hsound := hs.sound i t ht
  simp only [Transition.Sound, hphase] at hsound
  rw [hphase] at hfits
  obtain ⟨hruntime, hinstaller⟩ : s.telemetryRuntime = none ∧ s.installer = none := hfits
  refine hs.move ht hunsettled hbegun rfl rfl rfl ⟨rfl, rfl, rfl, rfl⟩ hsound nofun
    ⟨hruntime, hinstaller⟩ ?_ ?_ ?_ (hs.state_open ht hunsettled rfl)
  · intro j hj
    replace hj : s.installer = some j := hj
    rw [hinstaller] at hj
    cases hj
  · intro n hn
    rcases hn with hn | hn
    · exact Nat.lt_succ_of_lt (hs.bounded n (.inl hn))
    · obtain rfl := Phase.created.inj hn
      exact Nat.lt_succ_self _
  · intro n
    have hcounts := hs.counts ht hunsettled hbegun n
    rw [hphase] at hcounts
    refine hcounts.congr ?_
    simp only [State.goto, hruntime, ne_eq, Phase.created.injEq, reduceCtorEq, not_false_eq_true,
      true_and, and_true]
    omega

/-- What is at hand of a body that has a new runtime. -/
theorem Inv.at_created (hs : Inv s) (ht : s.transitions[i]? = some t) {n : Nat}
    (hphase : t.phase = .created n) :
    s.telemetryRuntime = none ∧ s.installer = none ∧ n < s.telemetryRuntimes ∧
      s.disposed.count n = 0 := by
  have hfits := hs.fits i t ht
  rw [hphase] at hfits
  have hheld : Held s n := ⟨i, t, ht, hphase⟩
  exact ⟨hfits.1, hfits.2, hs.bounded n (.inr hheld), (hs.counted n).2 (fun h => h.2.2 hheld)⟩

theorem discard_inv (hs : Inv s) (ht : s.transitions[i]? = some t) {n : Nat}
    (hphase : t.phase = .created n) (hstale : t.generation ≠ s.lifecycleGeneration) :
    Inv ({ s with disposed := n :: s.disposed }.goto i t (.discarding n)) := by
  have hunsettled : t.phase.isSettled = false := by rw [hphase]; rfl
  have hbegun := hs.ordered i t ht (by rw [hphase]; nofun)
  have hsound := hs.sound i t ht
  simp only [Transition.Sound, hphase] at hsound
  obtain ⟨hruntime, hinstaller, hlt, hzero⟩ := hs.at_created ht hphase
  have hin := (List.getElem?_eq_some_iff.mp ht).1
  rw [(hs.numbered i t ht).1, hs.generation] at hstale
  have hsuperseded := hs.passed i t ht (by omega) hunsettled
  refine hs.move ht hunsettled hbegun rfl rfl rfl ⟨rfl, rfl, rfl, rfl⟩
    ⟨hsound.1, hsound.2, hsuperseded⟩ nofun ⟨hruntime, hinstaller⟩ ?_ ?_ ?_
    (hs.state_open ht hunsettled rfl)
  · intro j hj
    replace hj : s.installer = some j := hj
    rw [hinstaller] at hj
    cases hj
  · intro m hm
    rcases hm with hm | hm
    · exact hs.bounded m (.inl hm)
    · cases hm
  · intro m
    have hcounts := hs.counts ht hunsettled hbegun m
    rw [hphase] at hcounts
    simp only [State.goto, List.count_cons]
    by_cases hm : n = m
    · subst hm
      rw [hzero]
      simp [Once, hlt, hruntime]
    · simp only [beq_eq_false_iff_ne.mpr hm]
      refine hcounts.congr ?_
      simp [hm]

theorem install_inv (hs : Inv s) (ht : s.transitions[i]? = some t) {n : Nat} {ctx : Context}
    (hphase : t.phase = .created n) (hkind : t.kind = some ctx)
    (hcurrent : t.generation = s.lifecycleGeneration) : Inv (s.install i t ctx n) := by
  have hunsettled : t.phase.isSettled = false := by rw [hphase]; rfl
  have hbegun := hs.ordered i t ht (by rw [hphase]; nofun)
  have hsound := hs.sound i t ht
  simp only [Transition.Sound, hphase] at hsound
  obtain ⟨hruntime, -, hlt, hzero⟩ := hs.at_created ht hphase
  rw [(hs.numbered i t ht).1, hs.generation] at hcurrent
  have hmove (supervisor managers : Option Nat) (made : Nat) (supervisors : List Supervisor)
      (registry : JsMap Str Nat) :
      Inv ({ s with
        supervisors, registry, supervisor
        managers := made
        telemetryRuntime := some n
        supervisorSessionId := some ctx.sessionId
        jobs := managers
        installer := some i
        sessionState := .active }.settle i t (.resolved true)) := by
    refine hs.move ht hunsettled hbegun rfl rfl rfl ⟨rfl, rfl, rfl, rfl⟩ hsound (fun _ => hcurrent)
      trivial ?_ ?_ ?_ ?_
    · rintro _ ⟨⟩
      exact .inl ⟨rfl, rfl⟩
    · rintro m (⟨⟨⟩⟩ | hm)
      · exact hlt
      · cases hm
    · intro m
      have hcounts := hs.counts ht hunsettled hbegun m
      rw [hphase] at hcounts
      refine hcounts.congr ?_
      simp [State.settle, State.goto, hruntime]
    · rw [if_pos hcurrent]
      simp [stateAfter, hkind, State.settle, State.goto]
  unfold State.install State.getOrCreate
  split
  rename_i s₁ m heq
  split at heq
  · obtain ⟨rfl, rfl⟩ := Prod.mk.inj heq
    exact hmove _ _ _ _ _
  · obtain ⟨rfl, rfl⟩ := Prod.mk.inj heq
    exact hmove _ _ _ _ _

-- -----
-- Steps and runs
-- -----

theorem turn_inv (hs : Inv s) (ht : s.transitions[i]? = some t) {succeeded : Bool}
    (hturn : s.turn i t succeeded = some s') : Inv s' := by
  have hsound := hs.sound i t ht
  unfold State.turn at hturn
  split at hturn
  case h_1 hphase =>
    obtain ⟨hready, heq⟩ := Option.ite_none_right_eq_some.mp hturn
    obtain rfl := Option.some.inj heq
    exact begin_inv hs ht hphase hready
  case h_2 resources hphase =>
    obtain rfl := Option.some.inj hturn
    exact callDispose_inv hs ht hphase _
  case h_3 resources hphase =>
    obtain rfl := Option.some.inj hturn
    exact clear_inv hs ht hphase t.failed
  case h_4 resources n hphase =>
    split at hturn
    · cases hturn
    · obtain rfl := Option.some.inj hturn
      exact clear_inv hs ht hphase true
    · obtain rfl := Option.some.inj hturn
      unfold State.unregister
      split
      · exact clear_inv hs ht hphase t.failed
      split
      · rename_i sessionId _ _
        have haside : Inv { s with registry := s.registry.delete sessionId } := hs.aside
        exact clear_inv haside ht hphase t.failed
      · exact clear_inv hs ht hphase t.failed
  case h_5 resources hphase =>
    obtain rfl := Option.some.inj hturn
    exact afterDisposal_inv hs ht hphase _
  case h_6 hphase =>
    simp only [Transition.Sound, hphase] at hsound
    have hbegun := hs.ordered i t ht (by rw [hphase]; simp)
    split at hturn
    · obtain rfl := Option.some.inj hturn
      exact create_inv hs ht hphase
    · obtain rfl := Option.some.inj hturn
      exact hs.withdraw ht (by rw [hphase]; rfl) hbegun (by rw [hphase]; simp)
        ⟨rfl, rfl, rfl, rfl⟩ rfl (by simp) hsound.1 rfl
  case h_7 n hphase =>
    obtain ⟨ctx, hkind, rfl⟩ := Option.map_eq_some_iff.mp hturn
    unfold State.afterCreation
    split
    · rename_i hstale
      exact discard_inv hs ht hphase hstale
    · rename_i hcurrent
      exact install_inv hs ht hphase hkind (not_not.mp hcurrent)
  case h_8 n hphase =>
    simp only [Transition.Sound, hphase] at hsound
    have hbegun := hs.ordered i t ht (by rw [hphase]; simp)
    obtain rfl := Option.some.inj hturn
    split
    · exact hs.withdraw ht (by rw [hphase]; rfl) hbegun (by rw [hphase]; simp)
        ⟨rfl, rfl, rfl, rfl⟩ rfl (by simp) hsound.1 hsound
    · exact hs.withdraw ht (by rw [hphase]; rfl) hbegun (by rw [hphase]; simp)
        ⟨rfl, rfl, rfl, rfl⟩ rfl (by simp) hsound.1 rfl
  case h_9 => cases hturn

/-- What a later call makes of a transition. -/
def Transition.pass (t : Transition) : Transition :=
  { t with superseded := t.superseded || !t.phase.isSettled }

theorem Transition.pass_sound (h : t.Sound) : t.pass.Sound := by
  unfold Transition.Sound at h ⊢
  rw [show t.pass.phase = t.phase from rfl]
  cases hphase : t.phase with
  | settled outcome =>
    rw [hphase] at h
    rcases outcome with (_ | _) | _ | _
    · exact ⟨h.1, h.2.1, by simp [Transition.pass, h.2.2]⟩
    · exact h
    · exact h
    · exact h
  | discarding n =>
    rw [hphase] at h
    exact ⟨h.1, h.2.1, by simp [Transition.pass, h.2.2]⟩
  | _ =>
    rw [hphase] at h
    exact h

/-- The transitions after a call: those before it, passed, and the new one. -/
theorem enqueueTransition_cases (kind : Kind) {j : Nat} {u : Transition}
    (hu : (s.enqueueTransition kind).transitions[j]? = some u) :
    (∃ t, s.transitions[j]? = some t ∧ u = t.pass) ∨
      (j = s.transitions.length ∧
        u = ⟨kind, s.lifecycleGeneration + 1, s.transitionTail, .queued, false, false⟩) := by
  replace hu : (s.transitions.map Transition.pass ++
      [⟨kind, s.lifecycleGeneration + 1, s.transitionTail, .queued, false, false⟩])[j]? = some u := hu
  rw [List.getElem?_append] at hu
  split at hu
  · rw [List.getElem?_map] at hu
    obtain ⟨t, ht, rfl⟩ := Option.map_eq_some_iff.mp hu
    exact .inl ⟨t, ht, rfl⟩
  · rename_i hge
    rw [List.length_map] at hge hu
    obtain ⟨hlt, heq⟩ := List.getElem?_eq_some_iff.mp hu
    rw [List.length_singleton] at hlt
    refine .inr ⟨by omega, ?_⟩
    rw [← heq, List.getElem_singleton]

theorem enqueueTransition_old (kind : Kind) (ht : s.transitions[i]? = some t) :
    (s.enqueueTransition kind).transitions[i]? = some t.pass := by
  have hlt := (List.getElem?_eq_some_iff.mp ht).1
  refine (List.getElem?_append_left (by rwa [List.length_map])).trans ?_
  rw [List.getElem?_map, ht]
  rfl

/-- A call comes behind all others. -/
theorem enqueueTransition_inv (hs : Inv s) (kind : Kind) : Inv (s.enqueueTransition kind) := by
  have hlength : (s.enqueueTransition kind).transitions.length = s.transitions.length + 1 := by
    simp [State.enqueueTransition]
  have hheld (n : Nat) : Held (s.enqueueTransition kind) n ↔ Held s n := by
    constructor
    · rintro ⟨j, u, hu, hcreated⟩
      rcases enqueueTransition_cases kind hu with ⟨t, ht, rfl⟩ | ⟨-, rfl⟩
      · exact ⟨j, t, ht, hcreated⟩
      · cases hcreated
    · rintro ⟨j, t, ht, hcreated⟩
      exact ⟨j, t.pass, enqueueTransition_old kind ht, hcreated⟩
  have hin {j : Nat} {t : Transition} (ht : s.transitions[j]? = some t) : j < s.transitions.length :=
    (List.getElem?_eq_some_iff.mp ht).1
  refine ⟨?_, ?_, ?_, ?_, ?_, ?_, ?_, ?_, ?_, ?_, ?_, ?_⟩
  · rw [hlength, ← hs.generation]
    rfl
  · intro j
    rw [hlength, State.enqueueTransition]
    simp only [Option.some.injEq]
    omega
  · intro j u hu
    rcases enqueueTransition_cases kind hu with ⟨t, ht, rfl⟩ | ⟨rfl, rfl⟩
    · exact hs.numbered j t ht
    · exact ⟨congrArg (· + 1) hs.generation, hs.tail⟩
  · intro j u hu hqueued k hk
    rcases enqueueTransition_cases kind hu with ⟨t, ht, rfl⟩ | ⟨rfl, rfl⟩
    · obtain ⟨v, hv, hsettled⟩ := settled_iff.mp (hs.ordered j t ht hqueued k hk)
      exact settled_iff.mpr ⟨v.pass, enqueueTransition_old kind hv, hsettled⟩
    · exact absurd rfl hqueued
  · intro j u hu hsuperseded
    rcases enqueueTransition_cases kind hu with ⟨t, ht, rfl⟩ | ⟨rfl, rfl⟩
    · refine ⟨by rw [hlength]; exact Nat.succ_lt_succ (hin ht), fun hphase => ?_⟩
      rcases Bool.or_eq_true_iff.mp hsuperseded with hold | hunsettled
      · exact (hs.superseded j t ht hold).2 hphase
      · rw [show t.phase = _ from hphase] at hunsettled
        cases hunsettled
    · cases hsuperseded
  · intro j u hu hearlier hunsettled
    rcases enqueueTransition_cases kind hu with ⟨t, ht, rfl⟩ | ⟨rfl, rfl⟩
    · replace hunsettled : t.phase.isSettled = false := hunsettled
      simp [Transition.pass, hunsettled]
    · rw [hlength] at hearlier
      exact absurd hearlier (Nat.lt_irrefl _)
  · intro j u hu
    rcases enqueueTransition_cases kind hu with ⟨t, ht, rfl⟩ | ⟨rfl, rfl⟩
    · exact Transition.pass_sound (hs.sound j t ht)
    · exact rfl
  · intro j u hu
    rcases enqueueTransition_cases kind hu with ⟨t, ht, rfl⟩ | ⟨rfl, rfl⟩
    · exact hs.fits j t ht
    · trivial
  · intro j hj
    obtain ⟨t, ht, hphase⟩ := hs.installer j hj
    exact ⟨t.pass, enqueueTransition_old kind ht, hphase⟩
  · intro n hn
    rw [hheld] at hn
    exact hs.bounded n hn
  · intro n
    exact (hs.counted n).congr (and_congr_right' (and_congr_right' (not_congr (hheld n).symm)))
  · rw [State.enqueueTransition]
    simp only [List.getLast?_append, List.getLast?_singleton, Option.some_or]
    cases kind <;> rfl

theorem step_inv (hs : Inv s) {event : Event} (hstep : step s event = some s') : Inv s' := by
  cases event with
  | startSession ctx =>
    obtain rfl := Option.some.inj hstep
    exact enqueueTransition_inv hs _
  | shutdownSession =>
    obtain rfl := Option.some.inj hstep
    exact enqueueTransition_inv hs _
  | turn i succeeded =>
    obtain ⟨t, ht, hturn⟩ := Option.bind_eq_some_iff.mp hstep
    exact turn_inv hs ht hturn
  | supervisor n event =>
    obtain ⟨-, hbind⟩ := Option.ite_none_left_eq_some.mp hstep
    obtain ⟨v, -, hmap⟩ := Option.bind_eq_some_iff.mp hbind
    obtain ⟨state, -, rfl⟩ := Option.map_eq_some_iff.mp hmap
    exact hs.aside
  | getOrCreate ctx =>
    obtain rfl := Option.some.inj hstep
    unfold State.getOrCreate
    split
    · exact hs
    · exact hs.aside

/-- The bodies of a session's transitions are in order in every run. -/
theorem transitions_orderly {supervisors : List Supervisor} {registry : JsMap Str Nat}
    {events : List Event}
    (hrun : Transitions.run step (initial supervisors registry) events = some s) : Orderly s :=
  (Transitions.always (fun _ _ _ hs hstep => step_inv hs hstep) (initial_inv supervisors registry)
    hrun).orderly

def session : Context := ⟨lit "parent", ⟨1, 1⟩⟩

/-- A body that waits for nothing that fails, from its begin to its sixth await. -/
def through (i : Nat) : List Event := .replicate 6 (.turn i true)

/-- A start is superseded while its telemetry runtime is being created. -/
def supersededStart : List Event :=
  .startSession session :: .replicate 5 (.turn 0 true) ++
    [.shutdownSession, .turn 0 true, .turn 0 true] ++ .replicate 4 (.turn 1 true) ++
    .startSession session :: through 2

theorem supersededStart_orderly :
    ∃ s, Transitions.run step (initial [] .empty) supersededStart = some s ∧
      s.disposed = [0] ∧ s.telemetryRuntime = some 1 ∧ Orderly s := by
  have hmap : (Transitions.run step (initial [] .empty) supersededStart).map
      (fun s => (s.disposed, s.telemetryRuntime)) = some ([0], some 1) := by decide +kernel
  obtain ⟨s, hrun, hs⟩ := Option.map_eq_some_iff.mp hmap
  obtain ⟨hdisposed, hruntime⟩ := Prod.mk.inj hs
  exact ⟨s, hrun, hdisposed, hruntime, transitions_orderly hrun⟩

/-- A start is superseded, and the shutdown of the jobs before it fails. -/
def failedDisposal : List Event :=
  .startSession session :: through 0 ++
    [.startSession session, .turn 1 true, .shutdownSession, .turn 1 false,
      .supervisor 0 (.shutdownCompleted false), .turn 1 true, .turn 1 true]

theorem failedDisposal_rejected :
    ¬ ∀ (events : List Event) (s : State),
      Transitions.run step (initial [] .empty) events = some s →
      ∀ (i : Nat) (t : Transition), s.transitions[i]? = some t → t.kind.isSome = true →
        t.superseded = true → ∀ outcome, t.phase = .settled outcome →
          outcome = .resolved false := by
  intro hclaim
  have hmap : (Transitions.run step (initial [] .empty) failedDisposal).map
      (fun s => s.transitions[1]?.map fun t => (t.kind.isSome, t.superseded, t.phase)) =
      some (some (true, true, .settled .rejected)) := by decide +kernel
  obtain ⟨s, hrun, hs⟩ := Option.map_eq_some_iff.mp hmap
  obtain ⟨t, ht, hfields⟩ := Option.map_eq_some_iff.mp hs
  simp only [Prod.mk.injEq] at hfields
  obtain ⟨hkind, hsuperseded, hphase⟩ := hfields
  exact absurd (hclaim failedDisposal s hrun 1 t ht hkind hsuperseded _ hphase) nofun

end PiEnv.Subagent.SessionRuntime
