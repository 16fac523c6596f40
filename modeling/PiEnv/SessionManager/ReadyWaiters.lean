import Mathlib.Data.List.Nodup
import PiEnv.Lib.JsMap
import PiEnv.Lib.Transitions
import PiEnv.SessionManager.RuntimeFrames

/-!
# Waiting for a session to be ready

The coordinator is told that a session is ready, and waits for that. Each wait
has a timer; a publication resolves the waits of its session that have no other
launch in mind, and forgets the rest with them.
-/

namespace PiEnv.SessionManager.Reconciler

open Js
open RuntimeBus (ReadyPublication)
open Transitions (run)

-- -----
-- Steps
-- -----

/-- A call of `awaitReady`, and what its promise is resolved with. -/
structure Wait where
  sessionId : Str
  launchId : Option Str
  timer : Bool
  resolved : List Bool
  deriving DecidableEq, Repr

structure State where
  ready : JsMap Str (ReadyPublication × Int)
  waiters : JsMap Str (List Nat)
  waits : List Wait

def State.initial : State := ⟨.empty, .empty, []⟩

/-- `!launchId || publication.launchId === launchId` -/
def matchesLaunch (launchId : Option Str) (publication : ReadyPublication) : Bool :=
  match launchId with
  | none => true
  | some id => id = [] || publication.launchId = id

def Wait.onReady (publication : ReadyPublication) (wait : Wait) : Wait :=
  if matchesLaunch wait.launchId publication then
    { wait with timer := false, resolved := wait.resolved ++ [true] }
  else wait

def Wait.onTimeout (wait : Wait) : Wait :=
  { wait with timer := false, resolved := wait.resolved ++ [false] }

/-- A publication that is recent enough resolves a wait at once. -/
def State.present (s : State) (sessionId : Str) (launchId : Option Str) (now : Int) : Bool :=
  match s.ready.get sessionId with
  | none => false
  | some (publication, receivedAt) =>
    now - receivedAt ≤ 15000 && matchesLaunch launchId publication

def State.listeners (s : State) (sessionId : Str) : List Nat := (s.waiters.get sessionId).getD []

def State.publishReady (s : State) (publication : ReadyPublication) (now : Int) : State where
  ready := s.ready.set publication.sessionId (publication, now)
  waiters := s.waiters.delete publication.sessionId
  waits := s.waits.mapIdx fun i wait =>
    if i ∈ s.listeners publication.sessionId then wait.onReady publication else wait

def State.awaitReady (s : State) (sessionId : Str) (launchId : Option Str) (now : Int) : State :=
  if s.present sessionId launchId now then
    { s with waits := s.waits ++ [⟨sessionId, launchId, false, [true]⟩] }
  else
    { s with
      waiters := s.waiters.set sessionId (s.listeners sessionId ++ [s.waits.length])
      waits := s.waits ++ [⟨sessionId, launchId, true, []⟩] }

/-- The listener is deleted from its set, which the map may no longer hold. -/
def State.timeout (s : State) (i : Nat) (wait : Wait) : State :=
  { s with
    waiters :=
      match s.waiters.get wait.sessionId with
      | some listeners => s.waiters.set wait.sessionId (listeners.filter (· ≠ i))
      | none => s.waiters
    waits := s.waits.set i wait.onTimeout }

inductive Event where
  | publishReady (publication : ReadyPublication) (now : Int)
  | awaitReady (sessionId : Str) (launchId : Option Str) (now : Int)
  | timeout (i : Nat)
  deriving DecidableEq

def step (s : State) : Event → Option State
  | .publishReady publication now => some (s.publishReady publication now)
  | .awaitReady sessionId launchId now => some (s.awaitReady sessionId launchId now)
  | .timeout i =>
    match s.waits[i]? with
    | some wait => if wait.timer then some (s.timeout i wait) else none
    | none => none

variable {s s' : State} {event : Event} {publication : ReadyPublication} {now : Int} {i : Nat}
  {wait : Wait} {sessionId : Str} {launchId : Option Str}

-- -----
-- Every wait settles once
-- -----

/-- A wait is resolved, or its timer runs. -/
def Wait.Sound (wait : Wait) : Prop :=
  (wait.timer = true ∧ wait.resolved = []) ∨ (wait.timer = false ∧ wait.resolved.length = 1)

/-- The listeners of a session are waits for it that are not resolved. -/
structure Sound (s : State) : Prop where
  waits : ∀ wait ∈ s.waits, wait.Sound
  listed : ∀ (sessionId : Str) (i : Nat), i ∈ s.listeners sessionId →
    ∃ wait, s.waits[i]? = some wait ∧ wait.sessionId = sessionId ∧ wait.timer = true

theorem sound_initial : Sound State.initial := ⟨nofun, nofun⟩

theorem Wait.Sound.onReady (h : wait.Sound) (htimer : wait.timer = true) :
    (wait.onReady publication).Sound := by
  unfold Wait.onReady
  split
  · rcases h with ⟨-, hresolved⟩ | ⟨hstopped, -⟩
    · exact .inr ⟨rfl, by rw [hresolved]; rfl⟩
    · exact absurd (htimer.symm.trans hstopped) nofun
  · exact h

theorem Wait.Sound.onTimeout (h : wait.Sound) (htimer : wait.timer = true) : wait.onTimeout.Sound := by
  rcases h with ⟨-, hresolved⟩ | ⟨hstopped, -⟩
  · exact .inr ⟨rfl, by rw [Wait.onTimeout, hresolved]; rfl⟩
  · exact absurd (htimer.symm.trans hstopped) nofun

theorem listeners_publishReady : (s.publishReady publication now).listeners sessionId =
    if sessionId = publication.sessionId then [] else s.listeners sessionId := by
  unfold State.publishReady State.listeners
  rw [JsMap.get_delete]
  split <;> rfl

theorem listeners_timeout : (s.timeout i wait).listeners sessionId =
    if sessionId = wait.sessionId then (s.listeners sessionId).filter (· ≠ i)
    else s.listeners sessionId := by
  unfold State.timeout State.listeners
  cases hget : s.waiters.get wait.sessionId with
  | some listeners =>
    simp only [JsMap.get_set]
    split
    case isTrue h => rw [h, hget]; rfl
    case isFalse => rfl
  | none =>
    simp only
    split
    case isTrue h => rw [h, hget]; rfl
    case isFalse => rfl

/-- The wait `i` is looked at again after a publication. -/
theorem waits_publishReady (hi : s.waits[i]? = some wait) :
    (s.publishReady publication now).waits[i]? =
      some (if i ∈ s.listeners publication.sessionId then wait.onReady publication else wait) := by
  unfold State.publishReady
  rw [List.getElem?_mapIdx, hi]
  rfl

theorem Sound.publishReady (h : Sound s) : Sound (s.publishReady publication now) := by
  refine ⟨fun wait' hmem => ?_, fun sessionId i hi => ?_⟩
  · obtain ⟨i, hlt, rfl⟩ := List.mem_mapIdx.mp hmem
    have hsound := h.waits _ (List.getElem_mem hlt)
    split
    case isTrue hlisted =>
      obtain ⟨wait, hwait, -, htimer⟩ := h.listed _ i hlisted
      obtain rfl := Option.some.inj ((List.getElem?_eq_getElem hlt).symm.trans hwait)
      exact hsound.onReady htimer
    case isFalse => exact hsound
  · rw [listeners_publishReady] at hi
    split at hi
    · exact absurd hi List.not_mem_nil
    case isFalse hne =>
      obtain ⟨wait, hwait, hsession, htimer⟩ := h.listed sessionId i hi
      refine ⟨wait, ?_, hsession, htimer⟩
      have hnot : i ∉ s.listeners publication.sessionId := by
        intro hother
        obtain ⟨wait', hwait', hsession', -⟩ := h.listed _ i hother
        obtain rfl : wait = wait' := Option.some.inj (hwait.symm.trans hwait')
        exact hne (hsession.symm.trans hsession')
      rw [waits_publishReady hwait, if_neg hnot]

theorem waits_awaitReady (hi : s.waits[i]? = some wait) :
    (s.awaitReady sessionId launchId now).waits[i]? = some wait := by
  unfold State.awaitReady
  split <;> rw [List.getElem?_append_left (List.getElem?_eq_some_iff.mp hi).1, hi]

theorem listeners_awaitReady (hpresent : s.present sessionId launchId now = false) (other : Str) :
    (s.awaitReady sessionId launchId now).listeners other =
      if other = sessionId then s.listeners sessionId ++ [s.waits.length] else s.listeners other := by
  unfold State.awaitReady State.listeners
  rw [if_neg (by simp [hpresent])]
  simp only [JsMap.get_set]
  split <;> rfl

theorem Sound.awaitReady (h : Sound s) : Sound (s.awaitReady sessionId launchId now) := by
  have hold : ∀ (other : Str) (i : Nat), i ∈ s.listeners other →
      ∃ wait, (s.awaitReady sessionId launchId now).waits[i]? = some wait ∧
        wait.sessionId = other ∧ wait.timer = true := by
    intro other i hi
    obtain ⟨wait, hwait, hrest⟩ := h.listed other i hi
    exact ⟨wait, waits_awaitReady hwait, hrest⟩
  by_cases hpresent : s.present sessionId launchId now = true
  · have hstate : s.awaitReady sessionId launchId now =
        { s with waits := s.waits ++ [⟨sessionId, launchId, false, [true]⟩] } := if_pos hpresent
    refine ⟨fun wait hmem => ?_, fun other i hi => hold other i ?_⟩
    · rw [hstate] at hmem
      rcases List.mem_append.mp hmem with hmem | hnew
      · exact h.waits wait hmem
      · rw [List.mem_singleton.mp hnew]
        exact .inr ⟨rfl, rfl⟩
    · rw [hstate] at hi
      exact hi
  · have hstate : (s.awaitReady sessionId launchId now).waits =
        s.waits ++ [⟨sessionId, launchId, true, []⟩] := by rw [State.awaitReady, if_neg hpresent]
    refine ⟨fun wait hmem => ?_, fun other i hi => ?_⟩
    · rw [hstate] at hmem
      rcases List.mem_append.mp hmem with hmem | hnew
      · exact h.waits wait hmem
      · rw [List.mem_singleton.mp hnew]
        exact .inl ⟨rfl, rfl⟩
    · rw [listeners_awaitReady (by simpa using hpresent)] at hi
      split at hi
      case isFalse => exact hold other i hi
      case isTrue hother =>
        subst hother
        rcases List.mem_append.mp hi with hi | hnew
        · exact hold other i hi
        · rw [List.mem_singleton.mp hnew, hstate]
          exact ⟨_, List.getElem?_concat_length, rfl, rfl⟩

theorem Sound.timeout (h : Sound s) (hi : s.waits[i]? = some wait) (htimer : wait.timer = true) :
    Sound (s.timeout i wait) := by
  refine ⟨fun other hmem => ?_, fun session k hk => ?_⟩
  · rcases List.mem_or_eq_of_mem_set hmem with hmem | rfl
    · exact h.waits other hmem
    · exact (h.waits wait (List.mem_of_getElem? hi)).onTimeout htimer
  · have hlisted : k ∈ s.listeners session ∧ k ≠ i := by
      rw [listeners_timeout] at hk
      split at hk
      · simpa using hk
      case isFalse hne =>
        refine ⟨hk, fun heq => ?_⟩
        obtain ⟨found, hfound, hsession, -⟩ := h.listed session k hk
        obtain rfl : wait = found := Option.some.inj (hi.symm.trans (heq ▸ hfound))
        exact hne hsession.symm
    obtain ⟨found, hfound, hrest⟩ := h.listed session k hlisted.1
    refine ⟨found, ?_, hrest⟩
    show (s.waits.set i _)[k]? = _
    rw [List.getElem?_set_ne hlisted.2.symm, hfound]

theorem step_timeout (hstep : step s (.timeout i) = some s') :
    ∃ wait, s.waits[i]? = some wait ∧ wait.timer = true ∧ s' = s.timeout i wait := by
  unfold step at hstep
  simp only at hstep
  split at hstep
  case h_1 wait hwait =>
    split at hstep
    case isTrue htimer =>
      cases hstep
      exact ⟨wait, hwait, htimer, rfl⟩
    case isFalse => exact absurd hstep nofun
  case h_2 => exact absurd hstep nofun

theorem step_sound (h : Sound s) (hstep : step s event = some s') : Sound s' := by
  cases event with
  | publishReady publication now =>
    cases hstep
    exact h.publishReady
  | awaitReady sessionId launchId now =>
    cases hstep
    exact h.awaitReady
  | timeout i =>
    obtain ⟨wait, hi, htimer, rfl⟩ := step_timeout hstep
    exact h.timeout hi htimer

theorem run_sound {events : List Event} (hrun : run step State.initial events = some s) : Sound s :=
  Transitions.always (fun _ _ _ => step_sound) sound_initial hrun

-- -----
-- A wait from its registration on
-- -----

/-- Where a wait stands that has not timed out. -/
inductive Standing where
  | listed
  /-- Its timer runs, and nobody listens. -/
  | forgotten
  | ready
  deriving DecidableEq

/-- What a publication makes of a wait. -/
def Standing.publish (sessionId : Str) (launchId : Option Str) (publication : ReadyPublication) :
    Standing → Standing
  | .listed =>
    if publication.sessionId = sessionId then
      if matchesLaunch launchId publication then .ready else .forgotten
    else .listed
  | .forgotten => .forgotten
  | .ready => .ready

def Standing.step (sessionId : Str) (launchId : Option Str) (standing : Standing) : Event → Standing
  | .publishReady publication _ => standing.publish sessionId launchId publication
  | _ => standing

def Stands (s : State) (i : Nat) (sessionId : Str) (launchId : Option Str) : Standing → Prop
  | .listed => s.waits[i]? = some ⟨sessionId, launchId, true, []⟩ ∧ i ∈ s.listeners sessionId
  | .forgotten => s.waits[i]? = some ⟨sessionId, launchId, true, []⟩ ∧ i ∉ s.listeners sessionId
  | .ready => s.waits[i]? = some ⟨sessionId, launchId, false, [true]⟩

theorem mem_listeners_awaitReady (hlt : i < s.waits.length) (other : Str) :
    i ∈ (s.awaitReady sessionId launchId now).listeners other ↔ i ∈ s.listeners other := by
  by_cases hpresent : s.present sessionId launchId now = true
  · unfold State.awaitReady
    rw [if_pos hpresent]
    exact Iff.rfl
  · rw [listeners_awaitReady (by simpa using hpresent)]
    split
    case isTrue hother =>
      subst hother
      simp [Nat.ne_of_lt hlt]
    case isFalse => exact Iff.rfl

theorem mem_listeners_timeout {k : Nat} (hne : i ≠ k) (other : Str) :
    i ∈ (s.timeout k wait).listeners other ↔ i ∈ s.listeners other := by
  rw [listeners_timeout]
  split
  · simp [hne]
  · exact Iff.rfl

/-- A step that neither publishes nor times out the wait leaves it where it stands. -/
theorem Stands.keep {standing : Standing} (h : Stands s i sessionId launchId standing)
    (hwaits : ∀ wait, s.waits[i]? = some wait → s'.waits[i]? = some wait)
    (hlisteners : i ∈ s'.listeners sessionId ↔ i ∈ s.listeners sessionId) :
    Stands s' i sessionId launchId standing := by
  cases standing with
  | listed => exact ⟨hwaits _ h.1, hlisteners.mpr h.2⟩
  | forgotten => exact ⟨hwaits _ h.1, fun hmem => h.2 (hlisteners.mp hmem)⟩
  | ready => exact hwaits _ h

theorem Stands.publishReady {standing : Standing} (hsound : Sound s)
    (h : Stands s i sessionId launchId standing) :
    Stands (s.publishReady publication now) i sessionId launchId
      (standing.publish sessionId launchId publication) := by
  -- a wait is listed for its own session only
  have hown : ∀ wait, s.waits[i]? = some wait → i ∈ s.listeners publication.sessionId →
      wait.sessionId = publication.sessionId ∧ wait.timer = true := by
    intro wait hwait hlisted
    obtain ⟨found, hfound, hsession, htimer⟩ := hsound.listed _ i hlisted
    obtain rfl : wait = found := Option.some.inj (hwait.symm.trans hfound)
    exact ⟨hsession, htimer⟩
  cases standing with
  | listed =>
    obtain ⟨hwait, hlisted⟩ := h
    by_cases hsession : publication.sessionId = sessionId
    · have hwaits := @waits_publishReady _ publication now _ _ hwait
      rw [if_pos (hsession ▸ hlisted)] at hwaits
      have hgone : i ∉ (s.publishReady publication now).listeners sessionId := by
        rw [listeners_publishReady, if_pos hsession.symm]
        exact List.not_mem_nil
      simp only [Standing.publish, hsession, if_true]
      by_cases hlaunch : matchesLaunch launchId publication = true
      · rw [if_pos hlaunch]
        simpa [Stands, Wait.onReady, hlaunch] using hwaits
      · rw [if_neg hlaunch]
        exact ⟨by simpa [Wait.onReady, hlaunch] using hwaits, hgone⟩
    · simp only [Standing.publish, hsession, if_false]
      have hnot : i ∉ s.listeners publication.sessionId :=
        fun hmem => hsession (hown _ hwait hmem).1.symm
      refine ⟨?_, ?_⟩
      · rw [waits_publishReady hwait, if_neg hnot]
      · rw [listeners_publishReady, if_neg (Ne.symm hsession)]
        exact hlisted
  | forgotten =>
    obtain ⟨hwait, hunlisted⟩ := h
    have hnot : i ∉ s.listeners publication.sessionId := by
      intro hmem
      have hsession : sessionId = publication.sessionId := (hown _ hwait hmem).1
      exact hunlisted (hsession ▸ hmem)
    refine ⟨?_, ?_⟩
    · rw [waits_publishReady hwait, if_neg hnot]
    · rw [listeners_publishReady]
      split
      · exact List.not_mem_nil
      · exact hunlisted
  | ready =>
    have hnot : i ∉ s.listeners publication.sessionId :=
      fun hmem => absurd (hown _ h hmem).2 nofun
    show (s.publishReady publication now).waits[i]? = _
    rw [waits_publishReady h, if_neg hnot]

theorem Stands.lt {standing : Standing} (h : Stands s i sessionId launchId standing) :
    i < s.waits.length := by
  cases standing with
  | listed => exact (List.getElem?_eq_some_iff.mp h.1).1
  | forgotten => exact (List.getElem?_eq_some_iff.mp h.1).1
  | ready => exact (List.getElem?_eq_some_iff.mp h).1

theorem step_stands {standing : Standing} (hsound : Sound s)
    (h : Stands s i sessionId launchId standing) (hne : event ≠ .timeout i)
    (hstep : step s event = some s') :
    Stands s' i sessionId launchId (standing.step sessionId launchId event) := by
  cases event with
  | publishReady publication now =>
    cases hstep
    exact h.publishReady hsound
  | awaitReady other otherLaunch now =>
    cases hstep
    exact h.keep (fun _ hwait => waits_awaitReady hwait) (mem_listeners_awaitReady h.lt sessionId)
  | timeout k =>
    have hik : i ≠ k := fun heq => hne (heq ▸ rfl)
    obtain ⟨wait, -, -, rfl⟩ := step_timeout hstep
    refine h.keep (fun found hfound => ?_) (mem_listeners_timeout hik sessionId)
    show (s.waits.set k _)[i]? = _
    rw [List.getElem?_set_ne hik.symm, hfound]

theorem run_stands {standing : Standing} {events : List Event} (hsound : Sound s)
    (h : Stands s i sessionId launchId standing) (htimeout : .timeout i ∉ events)
    (hrun : run step s events = some s') :
    Stands s' i sessionId launchId (events.foldl (Standing.step sessionId launchId) standing) := by
  induction events generalizing s standing with
  | nil =>
    cases hrun
    exact h
  | cons event rest ih =>
    obtain ⟨between, hone, hrest⟩ := Option.bind_eq_some_iff.mp hrun
    have hne : event ≠ .timeout i := fun heq => htimeout (heq ▸ List.mem_cons_self)
    exact ih (step_sound hsound hone) (step_stands hsound h hne hone)
      (fun hmem => htimeout (List.mem_cons_of_mem _ hmem)) hrest

-- -----
-- The first publication
-- -----

/-- The first publication of a session among some events. -/
def firstPublication (sessionId : Str) : List Event → Option ReadyPublication
  | [] => none
  | .publishReady publication _ :: rest =>
    if publication.sessionId = sessionId then some publication else firstPublication sessionId rest
  | _ :: rest => firstPublication sessionId rest

/-- A wait that is not listed stays where it is. -/
theorem foldl_unlisted {standing : Standing} (h : standing ≠ .listed) (events : List Event) :
    events.foldl (Standing.step sessionId launchId) standing = standing := by
  induction events with
  | nil => rfl
  | cons event rest ih =>
    have hone : standing.step sessionId launchId event = standing := by
      cases standing <;> cases event <;> first | rfl | exact absurd rfl h
    rw [List.foldl_cons, hone, ih]

/-- Only the first publication decides about a wait. -/
theorem foldl_listed (events : List Event) :
    events.foldl (Standing.step sessionId launchId) .listed =
      match firstPublication sessionId events with
      | none => .listed
      | some publication => if matchesLaunch launchId publication then .ready else .forgotten := by
  induction events with
  | nil => rfl
  | cons event rest ih =>
    cases event with
    | awaitReady => exact ih
    | timeout => exact ih
    | publishReady publication now =>
      rw [List.foldl_cons]
      by_cases hsession : publication.sessionId = sessionId
      · simp only [Standing.step, Standing.publish, firstPublication, hsession, if_true]
        by_cases hlaunch : matchesLaunch launchId publication = true
        · rw [if_pos hlaunch]
          exact foldl_unlisted (by decide : Standing.ready ≠ .listed) rest
        · rw [if_neg hlaunch]
          exact foldl_unlisted (by decide : Standing.forgotten ≠ .listed) rest
      · simpa only [Standing.step, Standing.publish, firstPublication, hsession, if_false] using ih

theorem firstPublication_isSome {events : List Event}
    (h : ∃ publication now, .publishReady publication now ∈ events ∧
      publication.sessionId = sessionId) : (firstPublication sessionId events).isSome = true := by
  obtain ⟨publication, now, hmem, hsession⟩ := h
  induction events with
  | nil => exact absurd hmem List.not_mem_nil
  | cons event rest ih =>
    have hlater : event ≠ .publishReady publication now →
        (firstPublication sessionId rest).isSome = true := by
      intro hne
      rcases List.mem_cons.mp hmem with heq | hrest
      · exact absurd heq.symm hne
      · exact ih hrest
    cases event with
    | awaitReady => exact hlater nofun
    | timeout => exact hlater nofun
    | publishReady other _ =>
      unfold firstPublication
      split
      · rfl
      case isFalse hother =>
        refine hlater fun heq => hother ?_
        cases heq
        exact hsession

-- -----
-- Runs
-- -----

def WokenUp (s : State) (i : Nat) : Prop :=
  ∃ wait, s.waits[i]? = some wait ∧ wait.resolved = [true]

/-- A wait that is not resolved can time out, and one that is stays as it is. -/
structure SettlesOnce (s : State) : Prop where
  pending : ∀ (i : Nat) wait, s.waits[i]? = some wait → wait.resolved = [] →
    ∃ s', step s (.timeout i) = some s'
  settled : ∀ (i : Nat) wait, s.waits[i]? = some wait → wait.resolved ≠ [] →
    wait.resolved.length = 1 ∧
      ∀ events s', run step s events = some s' → s'.waits[i]? = some wait

/-- A wait whose timer is stopped is not touched any more. -/
theorem step_stopped (hsound : Sound s) (hi : s.waits[i]? = some wait) (htimer : wait.timer = false)
    (hstep : step s event = some s') : s'.waits[i]? = some wait := by
  cases event with
  | publishReady publication now =>
    cases hstep
    have hnot : i ∉ s.listeners publication.sessionId := by
      intro hmem
      obtain ⟨found, hfound, -, hruns⟩ := hsound.listed _ i hmem
      obtain rfl : wait = found := Option.some.inj (hi.symm.trans hfound)
      exact absurd (htimer.symm.trans hruns) nofun
    rw [waits_publishReady hi, if_neg hnot]
  | awaitReady other otherLaunch now =>
    cases hstep
    exact waits_awaitReady hi
  | timeout k =>
    obtain ⟨found, hk, hruns, rfl⟩ := step_timeout hstep
    have hne : k ≠ i := by
      rintro rfl
      obtain rfl : wait = found := Option.some.inj (hi.symm.trans hk)
      exact absurd (htimer.symm.trans hruns) nofun
    show (s.waits.set k _)[i]? = _
    rw [List.getElem?_set_ne hne, hi]

theorem run_stopped {events : List Event} (hsound : Sound s) (hi : s.waits[i]? = some wait)
    (htimer : wait.timer = false) (hrun : run step s events = some s') : s'.waits[i]? = some wait := by
  have hkeep : ∀ s event s', (Sound s ∧ s.waits[i]? = some wait) → step s event = some s' →
      Sound s' ∧ s'.waits[i]? = some wait :=
    fun s event s' h hstep => ⟨step_sound h.1 hstep, step_stopped h.1 h.2 htimer hstep⟩
  exact (Transitions.always hkeep ⟨hsound, hi⟩ hrun).2

theorem Sound.settlesOnce (h : Sound s) : SettlesOnce s := by
  refine ⟨fun i wait hi hnone => ?_, fun i wait hi hsome => ?_⟩
  · rcases h.waits wait (List.mem_of_getElem? hi) with ⟨htimer, -⟩ | ⟨-, hlength⟩
    · exact ⟨s.timeout i wait, by simp only [step, hi, htimer, if_true]⟩
    · rw [hnone] at hlength
      exact absurd hlength nofun
  · rcases h.waits wait (List.mem_of_getElem? hi) with ⟨-, hnone⟩ | ⟨htimer, hlength⟩
    · exact absurd hnone hsome
    · exact ⟨hlength, fun events s' hrun => run_stopped h hi htimer hrun⟩

theorem awaitReady_stands : Stands (s.awaitReady sessionId launchId now) s.waits.length sessionId launchId
    (if s.present sessionId launchId now then .ready else .listed) := by
  by_cases hpresent : s.present sessionId launchId now = true
  · rw [if_pos hpresent]
    show (s.awaitReady sessionId launchId now).waits[s.waits.length]? = _
    rw [State.awaitReady, if_pos hpresent]
    exact List.getElem?_concat_length
  · rw [if_neg hpresent]
    refine ⟨?_, ?_⟩
    · rw [State.awaitReady, if_neg hpresent]
      exact List.getElem?_concat_length
    · rw [listeners_awaitReady (by simpa using hpresent), if_pos rfl]
      exact List.mem_append_right _ List.mem_cons_self

theorem wokenUp_iff {standing : Standing} (h : Stands s i sessionId launchId standing) :
    WokenUp s i ↔ standing = .ready := by
  constructor
  · rintro ⟨wait, hwait, hresolved⟩
    cases standing with
    | ready => rfl
    | listed =>
      rw [← Option.some.inj (h.1.symm.trans hwait)] at hresolved
      exact absurd hresolved nofun
    | forgotten =>
      rw [← Option.some.inj (h.1.symm.trans hwait)] at hresolved
      exact absurd hresolved nofun
  · rintro rfl
    exact ⟨_, h, rfl⟩

/-- A wait that a publication matches before it times out is woken up if and
only if it was resolved at once, or the first publication of its session matches. -/
theorem ready_wakesUp {before rest : List Event} {registered : State}
    (hbefore : run step State.initial before = some s)
    (hawait : step s (.awaitReady sessionId launchId now) = some registered)
    (hrest : run step registered rest = some s') (htimeout : .timeout s.waits.length ∉ rest)
    (hpublished : ∃ publication received, .publishReady publication received ∈ rest ∧
      publication.sessionId = sessionId ∧ matchesLaunch launchId publication = true) :
    (WokenUp s' s.waits.length ∧ SettlesOnce s') ↔
      (s.present sessionId launchId now = true ∨ ∃ publication,
        firstPublication sessionId rest = some publication ∧
          matchesLaunch launchId publication = true) := by
  cases hawait
  have hsound : Sound (s.awaitReady sessionId launchId now) := (run_sound hbefore).awaitReady
  have hsettles : SettlesOnce s' :=
    (Transitions.always (fun _ _ _ => step_sound) hsound hrest : Sound s').settlesOnce
  have hstands := run_stands hsound awaitReady_stands htimeout hrest
  rw [and_iff_left hsettles, wokenUp_iff hstands]
  by_cases hpresent : s.present sessionId launchId now = true
  · refine iff_of_true ?_ (.inl hpresent)
    rw [if_pos hpresent]
    exact foldl_unlisted (by decide : Standing.ready ≠ .listed) rest
  · obtain ⟨first, hfirst⟩ := Option.isSome_iff_exists.mp (firstPublication_isSome
      (hpublished.imp fun _ h => h.imp fun _ h => ⟨h.1, h.2.1⟩))
    rw [if_neg hpresent, foldl_listed, hfirst]
    simp [hpresent]

def examplePublication (launchId : String) : ReadyPublication :=
  ⟨lit "session", lit "runtime", lit launchId, lit "window"⟩

def exampleWait : State := State.initial.awaitReady (lit "session") (some (lit "launch")) 0

theorem ready_wakesUp_firstMatches :
    ∃ s, run step exampleWait [.publishReady (examplePublication "launch") 1] = some s ∧
      WokenUp s 0 ∧ SettlesOnce s := by
  have hbefore : run step State.initial [] = some State.initial := rfl
  have hawait : step State.initial (.awaitReady (lit "session") (some (lit "launch")) 0) =
      some exampleWait := rfl
  have hrest : run step exampleWait [.publishReady (examplePublication "launch") 1] =
      some (exampleWait.publishReady (examplePublication "launch") 1) := rfl
  refine ⟨_, hrest, (ready_wakesUp hbefore hawait hrest (by decide) ?_).mpr (.inr ?_)⟩
  · exact ⟨examplePublication "launch", 1, List.mem_cons_self, rfl, by decide⟩
  · exact ⟨examplePublication "launch", by decide, by decide⟩

/-- The publication of another launch comes first. -/
def foreignFirst : List Event :=
  [.publishReady (examplePublication "other") 1, .publishReady (examplePublication "launch") 2]

theorem foreignFirst_lost :
    ¬ ∀ (before rest : List Event) (s registered s' : State) (sessionId : Str) (launchId : Option Str)
      (now : Int), run step State.initial before = some s →
      step s (.awaitReady sessionId launchId now) = some registered →
      run step registered rest = some s' → .timeout s.waits.length ∉ rest →
      (∃ publication received, .publishReady publication received ∈ rest ∧
        publication.sessionId = sessionId ∧ matchesLaunch launchId publication = true) →
      WokenUp s' s.waits.length ∧ SettlesOnce s' := by
  intro hclaim
  have hend : (run step exampleWait foreignFirst).map (fun s => (s.waits[0]?).map (·.resolved)) =
      some (some []) := by decide +kernel
  obtain ⟨s, hrest, hs⟩ := Option.map_eq_some_iff.mp hend
  obtain ⟨⟨wait, hwait, hresolved⟩, -⟩ := hclaim [] foreignFirst State.initial exampleWait s
    (lit "session") (some (lit "launch")) 0 rfl rfl hrest (by decide)
    ⟨examplePublication "launch", 2, by decide, rfl, by decide⟩
  rw [show s.waits[0]? = some wait from hwait, Option.map_some, hresolved] at hs
  exact absurd hs (by decide)

end PiEnv.SessionManager.Reconciler
