import PiEnv.Playwright.Actions

/-!
# Who owns a connection

Every connection that was opened is the one cached for its target or was
closed, exactly as long as no attempt to connect completes over another one and
no event of a connection comes in while a newer one is in use.

A `Ledger` keeps what this is about. Each operation of the client leaves it as
it is, evicts a target, or records a new connection.
-/

namespace PiEnv.Playwright

open Js
open Effects
open Transitions

-- -----
-- Ledgers
-- -----

/-- It drops a newer connection, that is healthy, because of an earlier one. -/
def Eviction.Wrong (e : Eviction) : Prop :=
  ∃ earlier dropped, e.cause.browser = some earlier ∧ e.dropped = some dropped ∧ e.healthy = true ∧
    earlier < dropped

structure Ledger where
  cached : Str → Option BrowserId
  /-- For each connection its target, and whether it was closed. -/
  opened : List (Str × Bool)
  evictions : List Eviction

namespace Ledger

variable {l : Ledger} {target : Str} {cause : Cause} {healthy : Bool}

def evict (l : Ledger) (target : Str) (cause : Cause) (healthy : Bool) : Ledger where
  cached := Function.update l.cached target none
  opened := match l.cached target with
    | some browser => l.opened.modify browser fun entry => (entry.1, true)
    | none => l.opened
  evictions := ⟨target, cause, l.cached target, healthy⟩ :: l.evictions

def connect (l : Ledger) (target : Str) : Ledger :=
  { l with
    cached := Function.update l.cached target (some l.opened.length)
    opened := l.opened ++ [(target, false)] }

/-- What is cached is open, for the target it is cached for. -/
def WellFormed (l : Ledger) : Prop :=
  ∀ target browser, l.cached target = some browser → l.opened[browser]? = some (target, false)

structure Owned (l : Ledger) : Prop where
  accounted : ∀ browser target, l.opened[browser]? = some (target, false) →
    l.cached target = some browser
  evictions : ∀ e ∈ l.evictions, ¬ Eviction.Wrong e

theorem connect_wellFormed (h : l.WellFormed) : (l.connect target).WellFormed := by
  intro other browser hcached
  simp only [connect, Function.update_apply] at hcached ⊢
  split at hcached
  case isTrue hsame =>
    rw [← Option.some.inj hcached, List.getElem?_concat_length, hsame]
  case isFalse hother =>
    have hopen := h other browser hcached
    rw [List.getElem?_append_left (List.getElem?_eq_some_iff.mp hopen).1]
    exact hopen

theorem evict_opened (h : l.WellFormed) (browser : BrowserId) (other : Str) :
    (l.evict target cause healthy).opened[browser]? = some (other, false) ↔
      l.opened[browser]? = some (other, false) ∧ l.cached target ≠ some browser := by
  simp only [evict]
  split
  case h_1 dropped hdropped =>
    rw [List.getElem?_modify]
    by_cases hsame : dropped = browser
    · subst hsame
      simp [h target dropped hdropped, hdropped]
    · simp [hsame, hdropped]
  case h_2 hnone => simp [hnone]

theorem evict_wellFormed (h : l.WellFormed) : (l.evict target cause healthy).WellFormed := by
  intro other browser hcached
  rw [evict_opened h]
  simp only [evict, Function.update_apply] at hcached
  split at hcached
  case isTrue => cases hcached
  case isFalse hother =>
    have hopen := h other browser hcached
    refine ⟨hopen, fun hsame => hother ?_⟩
    have := hopen.symm.trans (h target browser hsame)
    simpa using this

theorem connect_owned (hnone : l.cached target = none) :
    (l.connect target).Owned ↔ l.Owned := by
  constructor
  · rintro ⟨haccounted, hevictions⟩
    refine ⟨fun browser other hopen => ?_, hevictions⟩
    have hlt := (List.getElem?_eq_some_iff.mp hopen).1
    have hcached := haccounted browser other
      (by simpa only [connect, List.getElem?_append_left hlt] using hopen)
    simp only [connect, Function.update_apply] at hcached
    split at hcached
    case isTrue => exact absurd (Option.some.inj hcached) (Nat.ne_of_gt hlt)
    case isFalse => exact hcached
  · rintro ⟨haccounted, hevictions⟩
    refine ⟨fun browser other hopen => ?_, hevictions⟩
    simp only [connect, Function.update_apply] at hopen ⊢
    rcases Nat.lt_or_ge browser l.opened.length with hlt | hge
    · rw [List.getElem?_append_left hlt] at hopen
      have hcached := haccounted browser other hopen
      rw [if_neg (fun hsame => by simp [hsame, hnone] at hcached)]
      exact hcached
    · rw [List.getElem?_append_right hge] at hopen
      obtain ⟨hlast, hentry⟩ := List.getElem?_eq_some_iff.mp hopen
      simp only [List.length_singleton] at hlast
      simp only [List.getElem_singleton, Prod.mk.injEq, and_true] at hentry
      rw [if_pos hentry.symm]
      exact congrArg some
        (Nat.le_antisymm hge (Nat.sub_eq_zero_iff_le.mp (Nat.lt_one_iff.mp hlast)))

theorem connect_over (h : l.WellFormed) {browser : BrowserId} (hsome : l.cached target = some browser) :
    ¬ (l.connect target).Owned := by
  rintro ⟨haccounted, -⟩
  have hopen := h target browser hsome
  have hlt := (List.getElem?_eq_some_iff.mp hopen).1
  have hcached := haccounted browser target
    (by simpa only [connect, List.getElem?_append_left hlt] using hopen)
  simp only [connect, Function.update_self] at hcached
  exact absurd (Option.some.inj hcached) (Nat.ne_of_gt hlt)

theorem evict_owned (h : l.WellFormed)
    (hright : ¬ Eviction.Wrong ⟨target, cause, l.cached target, healthy⟩) :
    (l.evict target cause healthy).Owned ↔ l.Owned := by
  constructor
  · rintro ⟨haccounted, hevictions⟩
    refine ⟨fun browser other hopen => ?_, fun e he => hevictions e (List.mem_cons_of_mem _ he)⟩
    by_cases hdropped : l.cached target = some browser
    · have hsame := hopen.symm.trans (h target browser hdropped)
      simp only [Option.some.injEq, Prod.mk.injEq, and_true] at hsame
      rw [hsame, hdropped]
    · have hcached := haccounted browser other ((evict_opened h browser other).mpr ⟨hopen, hdropped⟩)
      simp only [evict, Function.update_apply] at hcached
      split at hcached
      case isTrue => cases hcached
      case isFalse => exact hcached
  · rintro ⟨haccounted, hevictions⟩
    refine ⟨fun browser other hopen => ?_, fun e he => ?_⟩
    · obtain ⟨hbefore, hkept⟩ := (evict_opened h browser other).mp hopen
      have hcached := haccounted browser other hbefore
      simp only [evict, Function.update_apply]
      rw [if_neg (fun hsame : other = target => hkept (hsame ▸ hcached))]
      exact hcached
    · rcases List.mem_cons.mp he with rfl | hold
      · exact hright
      · exact hevictions e hold

theorem evict_wrong (hwrong : Eviction.Wrong ⟨target, cause, l.cached target, healthy⟩) :
    ¬ (l.evict target cause healthy).Owned :=
  fun howned => howned.evictions _ List.mem_cons_self hwrong

end Ledger

-- -----
-- The ledger of a client
-- -----

variable {s s' : State} {target : Str} {cause : Cause}

def State.ledger (s : State) : Ledger :=
  ⟨s.cached, s.browsers.map fun b => (b.target, b.closed), s.evictions⟩

theorem map_modify {α β : Type} {f : α → α} {g : α → β} {f' : β → β} {xs : List α} {i : Nat}
    (h : ∀ a, g (f a) = f' (g a)) : (xs.modify i f).map g = (xs.map g).modify i f' := by
  refine List.ext_getElem? fun j => ?_
  rw [List.getElem?_map, List.getElem?_modify, List.getElem?_modify, List.getElem?_map]
  split
  case isTrue => cases xs[j]? <;> simp [h]
  case isFalse => cases xs[j]? <;> simp

theorem ledger_evictConnection : (s.evictConnection target cause).2.ledger =
    s.ledger.evict target cause ((s.cached target).any s.healthy) := by
  unfold State.evictConnection State.ledger Ledger.evict
  congr 1
  · funext other
    simp only [State.cached, JsMap.get_delete, Function.update_apply]
    split <;> rfl
  · dsimp only
    cases s.cached target with
    | some dropped => exact map_modify fun _ => rfl
    | none => rfl

theorem ledger_connect {connected : Connected} :
    (s.connect target connected).ledger = s.ledger.connect target := by
  unfold State.connect State.ledger Ledger.connect
  congr 1
  · funext other
    simp only [State.cached, JsMap.get_set, Function.update_apply, List.length_map]
    split <;> rfl
  · rw [List.map_append]
    rfl

theorem ledger_touch : (s.touch target).ledger = s.ledger := by
  unfold State.touch
  split
  case h_1 connection hsome =>
    unfold State.ledger
    congr 1
    funext other
    simp only [State.cached, JsMap.get_set]
    split
    case isTrue hsame => rw [hsame, hsome]; rfl
    case isFalse => rfl
  case h_2 => rfl

/-- Operations that are not awaited do no more to the ledger than to evict what
is stale. -/
theorem answer_ledger {o : Op} {r : Res o} (h : answer s o = some (r, s')) :
    s'.ledger = s.ledger ∨ ∃ target reason, s' = (s.evictConnection target (.stale reason)).2 := by
  cases o with
  | evict target reason =>
    right
    exact ⟨target, reason, (congrArg Prod.snd (Option.some.inj h)).symm⟩
  | touch target =>
    left
    obtain ⟨-, rfl⟩ := Prod.mk.inj (Option.some.inj h)
    exact ledger_touch
  | _ =>
    left
    first
      | cases h; rfl
      | cases h

-- -----
-- The condition
-- -----

variable (setup : Setup)

/-- An eviction for this cause does not drop a newer connection that is healthy. -/
def harmless (s : State) (target : Str) (cause : Cause) : Bool :=
  match cause.browser, s.cached target with
  | some earlier, some dropped => !s.healthy dropped || dropped ≤ earlier
  | _, _ => true

def answersInOrder (s : State) : (o : Op) → Res o → Bool
  | .connectOverCDP target, .ok _ => (s.cached target.name).isNone
  | .caught target error, _ =>
    match brokenTarget setup target error with
    | some target => harmless s target (.failed error.browser)
    | none => true
  | _, _ => true

/-- No attempt to connect completes while a connection of the target is cached,
and neither a disconnect nor a failure of an earlier connection comes in while a
newer one is cached and healthy. -/
def orderly (w : World) : Event → Bool
  | .resume fiber reply =>
    match (w.fibers[fiber]?).bind Fibers.awaited with
    | some o => answersInOrder setup w.shared o (reply o)
    | none => true
  | .disconnected browser =>
    match w.shared.browsers[browser]? with
    | some b => harmless w.shared b.target (.disconnected browser)
    | none => true
  | _ => true

theorem harmless_iff : harmless s target cause = true ↔
    ¬ Eviction.Wrong ⟨target, cause, s.cached target, (s.cached target).any s.healthy⟩ := by
  unfold harmless Eviction.Wrong
  dsimp only
  cases hcause : cause.browser with
  | none => simp
  | some earlier =>
    cases hcached : s.cached target with
    | none => simp
    | some dropped =>
      cases hhealthy : s.healthy dropped with
      | false => simp [hhealthy]
      | true => simp [hhealthy]

-- -----
-- Steps
-- -----

/-- The ledger is in order, and everything is owned in it as far as it was. -/
def ownership (q : Prop) : Assertion Op Res State where
  guard _ _ := True
  shared s := s.ledger.WellFormed ∧ (s.ledger.Owned ↔ q)
  running _ _ := True
  waiting _ _ _ := True

theorem evict_stale {q : Prop} {reason : Stale} (h : (ownership q).shared s) :
    (ownership q).shared (s.evictConnection target (.stale reason)).2 := by
  show Ledger.WellFormed _ ∧ (Ledger.Owned _ ↔ q)
  rw [ledger_evictConnection]
  refine ⟨Ledger.evict_wellFormed h.1, (Ledger.evict_owned h.1 ?_).trans h.2⟩
  rintro ⟨earlier, dropped, hcause, -⟩
  cases hcause

theorem ownership_kept {q : Prop} : Kept (client setup) (ownership q) where
  answer {s s' h o r} hanswer hs _ _ := by
    refine ⟨?_, trivial, fun _ _ _ => trivial⟩
    rcases answer_ledger hanswer with hsame | ⟨target, reason, rfl⟩
    · show Ledger.WellFormed _ ∧ (Ledger.Owned _ ↔ q)
      rw [hsame]
      exact hs
    · exact evict_stale hs
  pause _ _ := trivial

/-- A turn keeps the ledger in order, and what is owned in it. -/
theorem turn_owned {p : Prog Op Res Unit} {h : History Op Res} (hs : s.ledger.WellFormed) :
    let s' := (p.turn (client setup) s h).1
    s'.ledger.WellFormed ∧ (s'.ledger.Owned ↔ s.ledger.Owned) :=
  ((ownership_kept setup).turn (Guarded.trivial fun _ _ => trivial) ⟨hs, Iff.rfl⟩ trivial).1

/-- What a step does to a ledger in order, by whether it meets the condition. -/
structure Outcome (ok : Bool) (l l' : Ledger) : Prop where
  wellFormed : l'.WellFormed
  met : ok = true → (l'.Owned ↔ l.Owned)
  not : ok = false → ¬ l'.Owned

variable {l : Ledger} {ok : Bool} {w w' : World}

theorem Outcome.same (hl : l.WellFormed) : Outcome true l l := ⟨hl, fun _ => Iff.rfl, nofun⟩

theorem Outcome.turn {p : Prog Op Res Unit} {h : History Op Res} (houtcome : Outcome ok l s.ledger) :
    Outcome ok l (p.turn (client setup) s h).1.ledger :=
  have hturn := turn_owned setup houtcome.wellFormed
  ⟨hturn.1, fun hok => hturn.2.trans (houtcome.met hok), fun hok => hturn.2.not.mpr (houtcome.not hok)⟩

theorem Outcome.evict (hs : s.ledger.WellFormed) : Outcome (harmless s target cause) s.ledger
    (s.evictConnection target cause).2.ledger := by
  rw [ledger_evictConnection]
  refine ⟨Ledger.evict_wellFormed hs, fun hok => Ledger.evict_owned hs (harmless_iff.mp hok),
    fun hok => Ledger.evict_wrong ?_⟩
  have hwrong := mt harmless_iff.mpr (Bool.not_eq_true _ ▸ hok)
  exact Classical.not_not.mp hwrong

theorem Outcome.connect {connected : Connected} (hs : s.ledger.WellFormed) :
    Outcome (s.cached target).isNone s.ledger (s.connect target connected).ledger := by
  rw [ledger_connect]
  refine ⟨Ledger.connect_wellFormed hs, fun hok => Ledger.connect_owned (Option.isNone_iff_eq_none.mp hok),
    fun hok => ?_⟩
  obtain ⟨browser, hsome⟩ := Option.isSome_iff_exists.mp (Option.isNone_eq_false_iff.mp hok)
  exact Ledger.connect_over hs hsome

theorem Outcome.deliver {o : Op} {reply r : Res o} (hs : s.ledger.WellFormed)
    (h : deliver setup s o reply = some (r, s')) :
    Outcome (answersInOrder setup s o reply) s.ledger s'.ledger := by
  cases o with
  | connectOverCDP target =>
    cases reply with
    | ok connected =>
      cases h
      exact Outcome.connect hs
    | error e =>
      cases h
      exact Outcome.same hs
  | caught target error =>
    obtain ⟨-, rfl⟩ := Prod.mk.inj (Option.some.inj h)
    simp only [answersInOrder]
    cases brokenTarget setup target error with
    | some target => exact Outcome.evict hs
    | none => exact Outcome.same hs
  | newPage browser =>
    cases reply with
    | ok page =>
      simp only [Playwright.deliver] at h
      split at h
      · cases h
        exact Outcome.same hs
      · cases h
    | error e =>
      cases h
      exact Outcome.same hs
  | _ =>
    first
      | cases h; exact Outcome.same hs
      | cases h

theorem ledger_changes {browser : BrowserId} {isConnected : Option Bool}
    {contexts : List (List PageId)} {failing : Option Str}
    (h : s.changes browser isConnected contexts failing = some s') :
    s'.ledger = s.ledger := by
  obtain ⟨b, b', hb, hchange, rfl⟩ := State.changes_eq_some h
  have hsame : (b'.target, b'.closed) = (b.target, b.closed) := by
    rw [(Browser.change_eq_some hchange).1]
  unfold State.ledger
  simp only [List.map_set, hsame]
  congr 1
  obtain ⟨hlt, hget⟩ := List.getElem?_eq_some_iff.mp hb
  rw [← hget]
  refine List.ext_getElem? fun i => ?_
  rw [List.getElem?_set, List.getElem?_map]
  split
  case isTrue hi => simp [← hi, hlt]
  case isFalse => rfl

theorem ledger_loses {browser : BrowserId} : (s.loses browser).ledger = s.ledger := by
  unfold State.ledger State.loses
  congr 1
  have hid : ∀ entries : List (Str × Bool), entries.modify browser id = entries :=
    List.modify_id browser
  rw [← hid (s.browsers.map _)]
  exact map_modify fun _ => rfl

theorem Outcome.step {event : Event} (hs : w.shared.ledger.WellFormed)
    (hstep : step setup w event = some w') :
    Outcome (orderly setup w event) w.shared.ledger w'.shared.ledger := by
  cases event with
  | passes time =>
    simp only [Playwright.step] at hstep
    split at hstep
    · rw [← Option.some.inj hstep]
      exact Outcome.same hs
    · cases hstep
  | execute request rounds =>
    rw [← Option.some.inj hstep]
    exact Outcome.turn setup (Outcome.same hs)
  | resume fiber reply =>
    simp only [Playwright.step] at hstep
    split at hstep
    case isFalse => cases hstep
    obtain ⟨h, o, k, r, s, hfiber, hgiven, rfl⟩ := Fibers.resume_eq_some.mp hstep
    simp only [orderly, hfiber, Option.bind_some, Fibers.awaited]
    exact Outcome.turn setup (Outcome.deliver setup hs hgiven)
  | setControlState state =>
    rw [← Option.some.inj hstep]
    exact Outcome.same hs
  | changes browser isConnected contexts failing =>
    simp only [Playwright.step] at hstep
    split at hstep
    · obtain ⟨shared, hchanges, rfl⟩ := Option.map_eq_some_iff.mp hstep
      rw [ledger_changes hchanges]
      exact Outcome.same hs
    · cases hstep
  | loses browser =>
    rw [← Option.some.inj hstep, ledger_loses]
    exact Outcome.same hs
  | disconnected browser =>
    simp only [Playwright.step] at hstep
    split at hstep
    case h_1 => cases hstep
    case h_2 b hb =>
      split at hstep
      · rw [← Option.some.inj hstep]
        simp only [orderly, hb]
        exact Outcome.turn setup (Outcome.evict hs)
      · cases hstep

-- -----
-- Runs
-- -----

theorem start_wellFormed : start.shared.ledger.WellFormed := nofun

theorem start_owned : start.shared.ledger.Owned := ⟨nofun, nofun⟩

/-- Every connection is owned after a run exactly if the run was orderly. -/
theorem connections_owned (events : List Event) (w : World)
    (hrun : run (step setup) start events = some w) :
    w.shared.ledger.Owned ↔ AllMeet (step setup) (fun w event => orderly setup w event) start events := by
  have hexact := @exactly _ _ (step setup) (fun w event => orderly setup w event)
    (fun w => w.shared.ledger.WellFormed) (fun w => w.shared.ledger.Owned)
    (fun w event w' hw hstep => (Outcome.step setup hw hstep).wellFormed)
    (fun w event w' hw hok hstep => (Outcome.step setup hw hstep).met hok)
    (fun w event w' hw hok hstep => (Outcome.step setup hw hstep).not (Bool.not_eq_true _ ▸ hok))
    _ _ _ start_wellFormed hrun
  exact hexact.trans (and_iff_right start_owned)

/-- One action, whose connection is lost and then reports it. -/
def lostAndReported : List Event :=
  [calls .snapshot] ++ resumed [0, 0] ++ [.loses 0, .disconnected 0] ++ resumed [1, 0]

theorem lostAndReported_owned : ∃ w, run (step home) start lostAndReported = some w ∧
    w.shared.ledger.Owned := by
  obtain ⟨w, hw⟩ : ∃ w, run (step home) start lostAndReported = some w :=
    Option.isSome_iff_exists.mp (by decide +kernel)
  exact ⟨w, hw, (connections_owned home lostAndReported w hw).mpr (by decide +kernel)⟩

/-- Two actions connect at once. -/
def overlapping : List Event := [calls .snapshot, calls .snapshot] ++ resumed [0, 1, 0, 0, 0, 0, 1]

/-- A connection is evicted when it is idle, and reports only after the next one. -/
def reportedLate : List Event :=
  [calls .snapshot] ++ resumed (List.replicate 14 0) ++ [.passes 600001, calls .status] ++
    resumed (List.replicate 6 1) ++ [.disconnected 0]

/-- Two connections can be open for one target of which only one is cached, and
the disconnect of an earlier connection can drop a healthy one. -/
theorem connection_dropped :
    (∃ w, run (step home) start overlapping = some w ∧
      w.shared.ledger.opened = [(lit "local", false), (lit "local", false)] ∧
      w.shared.cached (lit "local") = some 1) ∧
    (∃ w, run (step home) start reportedLate = some w ∧
      ∃ e ∈ w.shared.evictions, Eviction.Wrong e) := by
  constructor
  · have hrun : (run (step home) start overlapping).map (fun w =>
        (w.shared.ledger.opened, w.shared.cached (lit "local"))) =
          some ([(lit "local", false), (lit "local", false)], some 1) := by decide +kernel
    obtain ⟨w, hw, hfacts⟩ := Option.map_eq_some_iff.mp hrun
    obtain ⟨hopened, hcached⟩ := Prod.mk.inj hfacts
    exact ⟨w, hw, hopened, hcached⟩
  · have hrun : (run (step home) start reportedLate).map (·.shared.evictions) =
        some [⟨lit "local", .disconnected 0, some 1, true⟩,
          ⟨lit "local", .stale .idle, some 0, true⟩] := by decide +kernel
    obtain ⟨w, hw, hevictions⟩ := Option.map_eq_some_iff.mp hrun
    exact ⟨w, hw, _, hevictions ▸ List.mem_cons_self, 0, 1, rfl, rfl, rfl, Nat.zero_lt_one⟩

end PiEnv.Playwright
