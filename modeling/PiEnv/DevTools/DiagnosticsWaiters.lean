import PiEnv.DevTools.DiagnosticsCache
import Mathlib.Tactic.Linarith

/-!
# The waiters of the diagnostics cache

The fibers of `waitForFirstEffect`, in the steps between which other code may
run. A deferred that succeeds may resume its fiber at once, in the middle of
`settleWaiters`, and an await that has ended is released in a step of its own;
so publications, deletes and clears come between any two of them.
-/

namespace PiEnv.DevTools.DiagnosticsCache.Waiters

open Js

/-- How the await of a fiber ended. -/
inductive Exit where
  | published | timedOut | interrupted
  /-- There was nothing to wait for. -/
  | cached
  deriving DecidableEq, Repr

structure Fiber where
  uri : Str
  registered : Bool
  /-- Calls of `Deferred.succeed` on its deferred. -/
  succeeded : Nat
  exit : Option Exit
  released : Bool
  deriving DecidableEq, Repr

structure WaiterState where
  cache : JsMap Str (List DiagnosticItem)
  waiters : JsMap Str (List Nat)
  waiterCount : Int
  /-- Waiters that a running `settleWaiters` has taken out and not yet resumed. -/
  owed : List Nat
  /-- The fibers by their numbers. -/
  fibers : List Fiber

def start : WaiterState := ⟨.empty, .empty, 0, [], []⟩

namespace WaiterState

def setFiber (s : WaiterState) (i : Nat) (fiber : Fiber) : WaiterState :=
  { s with fibers := s.fibers.set i fiber }

/-- `settleWaiters`, up to its loop over the waiters. -/
def settleWaiters (s : WaiterState) (uri : Str) : WaiterState :=
  match s.waiters.get uri with
  | none => s
  | some pending =>
    { s with
      waiters := s.waiters.delete uri
      waiterCount := s.waiterCount - pending.length
      owed := s.owed ++ pending }

def addWaiter (s : WaiterState) (uri : Str) (i : Nat) : WaiterState :=
  { s with
    waiters := s.waiters.set uri ((s.waiters.get uri).getD [] ++ [i])
    waiterCount := s.waiterCount + 1 }

def removeWaiter (s : WaiterState) (uri : Str) (i : Nat) : WaiterState :=
  match s.waiters.get uri with
  | none => s
  | some pending =>
    if i ∉ pending then s
    else
      let left := pending.erase i
      { s with
        waiterCount := s.waiterCount - 1
        waiters := if left.isEmpty then s.waiters.delete uri else s.waiters.set uri left }

def addFiber (s : WaiterState) (fiber : Fiber) : WaiterState :=
  { s with fibers := s.fibers ++ [fiber] }

/-- The acquisition of `waitForFirstEffect`. -/
def wait (s : WaiterState) (uri : Str) : WaiterState :=
  if s.cache.has uri then s.addFiber ⟨uri, false, 0, some .cached, false⟩
  else (s.addFiber ⟨uri, true, 0, none, false⟩).addWaiter uri s.fibers.length

end WaiterState

inductive Event where
  | publish (uri : Str) (items : List DiagnosticItem)
  | delete (uri : Str)
  /-- A clear visits the uris that have waiters one after the other, and then
  empties the cache. -/
  | clearVisit (uri : Str)
  | clearCache
  /-- The loop of `settleWaiters` comes to the waiter. -/
  | succeed (i : Nat)
  | wait (uri : Str)
  /-- The await ends with the deferred, its timer or an interruption. -/
  | resume (i : Nat)
  | timeout (i : Nat)
  | interrupt (i : Nat)
  /-- The release of a fiber, with which it completes. -/
  | release (i : Nat)
  deriving DecidableEq

def endAwait (s : WaiterState) (i : Nat) (exit : Exit) (ends : Fiber → Bool) : Option WaiterState :=
  match s.fibers[i]? with
  | some fiber =>
    if fiber.exit = none ∧ ends fiber = true then
      some (s.setFiber i { fiber with exit := some exit })
    else none
  | none => none

def step (s : WaiterState) : Event → Option WaiterState
  | .publish uri items =>
    some ({ s with cache := s.cache.set uri items }.settleWaiters uri)
  | .delete uri => some ({ s with cache := s.cache.delete uri }.settleWaiters uri)
  | .clearVisit uri => some (s.settleWaiters uri)
  | .clearCache => some { s with cache := .empty }
  | .succeed i =>
    match s.fibers[i]? with
    | some fiber =>
      if i ∈ s.owed then
        some ({ s with owed := s.owed.erase i }.setFiber i
          { fiber with succeeded := fiber.succeeded + 1 })
      else none
    | none => none
  | .wait uri => some (s.wait uri)
  | .resume i => endAwait s i .published (fun fiber => 0 < fiber.succeeded)
  | .timeout i => endAwait s i .timedOut (·.registered)
  | .interrupt i => endAwait s i .interrupted (fun _ => true)
  | .release i =>
    match s.fibers[i]? with
    | some fiber =>
      if fiber.exit ≠ none ∧ fiber.released = false then
        some ((if fiber.registered then s.removeWaiter fiber.uri i else s).setFiber i
          { fiber with released := true })
      else none
    | none => none

-- -----
-- Sizes
-- -----

/-- The number of registered waiters, over all uris. -/
def registered (waiters : JsMap Str (List Nat)) : Nat := (waiters.values.map List.length).sum

section
variable {waiters : JsMap Str (List Nat)} {uri : Str} {pending : List Nat}

theorem registered_eq (waiters : JsMap Str (List Nat)) :
    registered waiters = (waiters.entries.map (·.2.length)).sum := by
  rw [registered, JsMap.values, List.map_map]
  rfl

theorem registered_delete (h : waiters.get uri = some pending) :
    registered (waiters.delete uri) + pending.length = registered waiters := by
  obtain ⟨before, after, hentries, hdelete, -⟩ := JsMap.split_get h
  rw [registered_eq, registered_eq, hentries, hdelete]
  simp only [List.map_append, List.map_cons, List.sum_append, List.sum_cons]
  omega

theorem registered_set_new (next : List Nat) (h : waiters.get uri = none) :
    registered (waiters.set uri next) = registered waiters + next.length := by
  rw [registered_eq, registered_eq, JsMap.entries_set h]
  simp

theorem registered_set (next : List Nat) (h : waiters.get uri = some pending) :
    registered (waiters.set uri next) + pending.length = registered waiters + next.length := by
  obtain ⟨before, after, hentries, -, hset⟩ := JsMap.split_get h
  rw [registered_eq, registered_eq, hentries, hset]
  simp only [List.map_append, List.map_cons, List.sum_append, List.sum_cons]
  omega

end

-- -----
-- The invariant
-- -----

/-- A fiber whose deferred is in the set of the uri. -/
structure Fiber.Awaits (fiber : Fiber) (uri : Str) : Prop where
  uri : fiber.uri = uri
  registered : fiber.registered = true
  succeeded : fiber.succeeded = 0
  released : fiber.released = false

structure Fiber.Sound (fiber : Fiber) : Prop where
  succeeded : fiber.succeeded ≤ 1
  released : fiber.released = true → fiber.exit ≠ none
  unregistered : fiber.registered = false → fiber.exit ≠ none

/-- The parts of the invariant that do not look at the cache. -/
structure Counted (s : WaiterState) : Prop where
  count : s.waiterCount = registered s.waiters
  nonempty : ∀ uri pending, s.waiters.get uri = some pending → pending ≠ []
  distinct : ∀ uri pending, s.waiters.get uri = some pending → pending.Nodup
  pending : ∀ uri pending i, s.waiters.get uri = some pending → i ∈ pending →
    i ∉ s.owed ∧ ∃ fiber, s.fibers[i]? = some fiber ∧ fiber.Awaits uri
  owedOnce : s.owed.Nodup
  owed : ∀ i ∈ s.owed, ∃ fiber, s.fibers[i]? = some fiber ∧ fiber.succeeded = 0 ∧
    fiber.registered = true
  fibers : ∀ (i : Nat) (fiber : Fiber), s.fibers[i]? = some fiber → fiber.Sound

structure Inv (s : WaiterState) : Prop extends Counted s where
  uncached : ∀ uri, s.cache.has uri = true → s.waiters.get uri = none

variable {s s' : WaiterState} {uri : Str} {i : Nat} {fiber : Fiber}

theorem start_inv : Inv start where
  count := rfl
  nonempty := nofun
  distinct := nofun
  pending := nofun
  owedOnce := List.nodup_nil
  owed := nofun
  fibers := nofun
  uncached _ _ := rfl

/-- The sets of different uris are disjoint. -/
theorem Counted.disjoint (hs : Counted s) {other : Str} {pending pending' : List Nat}
    (h : s.waiters.get uri = some pending) (h' : s.waiters.get other = some pending')
    (hmem : i ∈ pending) (hmem' : i ∈ pending') : uri = other := by
  obtain ⟨-, fiber, hfiber, hawaits⟩ := hs.pending uri pending i h hmem
  obtain ⟨-, fiber', hfiber', hawaits'⟩ := hs.pending other pending' i h' hmem'
  obtain rfl := Option.some.inj (hfiber.symm.trans hfiber')
  exact hawaits.uri.symm.trans hawaits'.uri

-- -----
-- The operations
-- -----

theorem settleWaiters_get : (s.settleWaiters uri).waiters.get uri = none := by
  unfold WaiterState.settleWaiters
  cases h : s.waiters.get uri with
  | none => exact h
  | some pending => exact JsMap.get_delete.trans (if_pos rfl)

theorem settleWaiters_get_none {other : Str} (h : s.waiters.get other = none) :
    (s.settleWaiters uri).waiters.get other = none := by
  unfold WaiterState.settleWaiters
  cases s.waiters.get uri with
  | none => exact h
  | some pending =>
    refine JsMap.get_delete.trans ?_
    split
    · rfl
    · exact h

theorem settleWaiters_cache : (s.settleWaiters uri).cache = s.cache := by
  unfold WaiterState.settleWaiters
  split
  · rfl
  · rfl

theorem settleWaiters_counted (hs : Counted s) : Counted (s.settleWaiters uri) := by
  unfold WaiterState.settleWaiters
  cases h : s.waiters.get uri with
  | none => exact hs
  | some pending =>
    have hkept {other : Str} {pending' : List Nat}
        (hget : (s.waiters.delete uri).get other = some pending') :
        other ≠ uri ∧ s.waiters.get other = some pending' := by
      rw [JsMap.get_delete] at hget
      split at hget
      · cases hget
      case isFalse hne => exact ⟨hne, hget⟩
    constructor
    case count =>
      have := registered_delete h
      show s.waiterCount - pending.length = registered (s.waiters.delete uri)
      rw [hs.count]
      omega
    case nonempty => exact fun other pending' hget => hs.nonempty other pending' (hkept hget).2
    case distinct => exact fun other pending' hget => hs.distinct other pending' (hkept hget).2
    case pending =>
      intro other pending' i hget hmem
      obtain ⟨hne, hget⟩ := hkept hget
      obtain ⟨howed, hfiber⟩ := hs.pending other pending' i hget hmem
      refine ⟨fun hboth => ?_, hfiber⟩
      rcases List.mem_append.mp hboth with hbefore | htaken
      · exact howed hbefore
      · exact hne (hs.disjoint hget h hmem htaken)
    case owedOnce =>
      refine List.nodup_append.mpr ⟨hs.owedOnce, hs.distinct uri pending h, fun i hi j hj hij => ?_⟩
      exact (hs.pending uri pending j h hj).1 (hij ▸ hi)
    case owed =>
      intro i hmem
      rcases List.mem_append.mp hmem with hmem | hmem
      · exact hs.owed i hmem
      · obtain ⟨-, fiber, hfiber, hawaits⟩ := hs.pending uri pending i h hmem
        exact ⟨fiber, hfiber, hawaits.succeeded, hawaits.registered⟩
    case fibers => exact hs.fibers

/-- A change of the cache for a uri whose waiters are settled. -/
theorem settle_inv (hs : Inv s) (cache : JsMap Str (List DiagnosticItem))
    (hcache : ∀ other, other ≠ uri → cache.has other = true → s.cache.has other = true) :
    Inv ({ s with cache := cache }.settleWaiters uri) where
  toCounted := settleWaiters_counted
    ⟨hs.count, hs.nonempty, hs.distinct, hs.pending, hs.owedOnce, hs.owed, hs.fibers⟩
  uncached := by
    intro other hhas
    rw [settleWaiters_cache] at hhas
    by_cases hother : other = uri
    · exact hother ▸ settleWaiters_get
    · exact settleWaiters_get_none (hs.uncached other (hcache other hother hhas))

/-- A fiber that changes keeps what its sets and the running loops say of it. -/
theorem setFiber_counted {fiber' : Fiber} (hs : Counted s) (hsound : fiber'.Sound)
    (hawaits : ∀ uri pending, s.waiters.get uri = some pending → i ∈ pending → fiber'.Awaits uri)
    (howed : i ∈ s.owed → fiber'.succeeded = 0 ∧ fiber'.registered = true) :
    Counted (s.setFiber i fiber') where
  count := hs.count
  nonempty := hs.nonempty
  distinct := hs.distinct
  pending := by
    intro uri pending j hget hmem
    obtain ⟨hnot, fiber, hfiber, hfiberAwaits⟩ := hs.pending uri pending j hget hmem
    refine ⟨hnot, ?_⟩
    by_cases hij : i = j
    · subst hij
      have hlt := (List.getElem?_eq_some_iff.mp hfiber).1
      exact ⟨fiber', List.getElem?_set_self hlt, hawaits uri pending hget hmem⟩
    · exact ⟨fiber, (List.getElem?_set_ne hij).trans hfiber, hfiberAwaits⟩
  owedOnce := hs.owedOnce
  owed := by
    intro j hmem
    obtain ⟨fiber, hfiber, hsucceeded⟩ := hs.owed j hmem
    by_cases hij : i = j
    · subst hij
      have hlt := (List.getElem?_eq_some_iff.mp hfiber).1
      exact ⟨fiber', List.getElem?_set_self hlt, howed hmem⟩
    · exact ⟨fiber, (List.getElem?_set_ne hij).trans hfiber, hsucceeded⟩
  fibers := by
    intro j fiber hfiber
    rcases List.mem_or_eq_of_mem_set (List.mem_of_getElem? hfiber) with hmem | rfl
    · obtain ⟨n, hn⟩ := List.mem_iff_getElem?.mp hmem
      exact hs.fibers n fiber hn
    · exact hsound

theorem addFiber_counted (hs : Counted s) (hsound : fiber.Sound) : Counted (s.addFiber fiber) := by
  have hkept {j : Nat} {other : Fiber} (h : s.fibers[j]? = some other) :
      (s.fibers ++ [fiber])[j]? = some other :=
    (List.getElem?_append_left (List.getElem?_eq_some_iff.mp h).1).trans h
  constructor
  case count => exact hs.count
  case nonempty => exact hs.nonempty
  case distinct => exact hs.distinct
  case pending =>
    intro uri pending j hget hmem
    obtain ⟨hnot, other, hother, hawaits⟩ := hs.pending uri pending j hget hmem
    exact ⟨hnot, other, hkept hother, hawaits⟩
  case owedOnce => exact hs.owedOnce
  case owed =>
    intro j hmem
    obtain ⟨other, hother, hrest⟩ := hs.owed j hmem
    exact ⟨other, hkept hother, hrest⟩
  case fibers =>
    intro j other hother
    rcases List.mem_append.mp (List.mem_of_getElem? hother) with hmem | hmem
    · obtain ⟨n, hn⟩ := List.mem_iff_getElem?.mp hmem
      exact hs.fibers n other hn
    · rw [List.mem_singleton.mp hmem]
      exact hsound

theorem addWaiter_get {other : Str} {pending : List Nat}
    (h : (s.addWaiter uri i).waiters.get other = some pending) :
    (other = uri ∧ pending = (s.waiters.get uri).getD [] ++ [i]) ∨
      (other ≠ uri ∧ s.waiters.get other = some pending) := by
  have hget : (if other = uri then some ((s.waiters.get uri).getD [] ++ [i])
      else s.waiters.get other) = some pending := JsMap.get_set.symm.trans h
  split at hget
  case isTrue hother => exact .inl ⟨hother, (Option.some.inj hget).symm⟩
  case isFalse hother => exact .inr ⟨hother, hget⟩

/-- A fiber that no set and no loop knows is added to the set of its uri. -/
theorem addWaiter_counted (hs : Counted s) (hfiber : s.fibers[i]? = some fiber)
    (hawaits : fiber.Awaits uri) (howed : i ∉ s.owed)
    (hfresh : ∀ uri pending, s.waiters.get uri = some pending → i ∉ pending) :
    Counted (s.addWaiter uri i) := by
  constructor
  case count =>
    show s.waiterCount + 1 = registered (s.waiters.set uri ((s.waiters.get uri).getD [] ++ [i]))
    rw [hs.count]
    cases h : s.waiters.get uri with
    | none =>
      have := registered_set_new [i] h
      simp only [Option.getD_none, List.nil_append, List.length_singleton] at this ⊢
      omega
    | some pending =>
      have := registered_set (pending ++ [i]) h
      simp only [Option.getD_some, List.length_append, List.length_singleton] at this ⊢
      omega
  case nonempty =>
    intro other pending hget
    rcases addWaiter_get hget with ⟨-, rfl⟩ | ⟨-, hget⟩
    · simp
    · exact hs.nonempty other pending hget
  case distinct =>
    intro other pending hget
    rcases addWaiter_get hget with ⟨-, rfl⟩ | ⟨-, hget⟩
    · cases h : s.waiters.get uri with
      | none => simp
      | some pending =>
        refine List.nodup_append.mpr ⟨hs.distinct uri pending h, by simp, fun a ha b hb hab => ?_⟩
        exact hfresh uri pending h (List.mem_singleton.mp hb ▸ hab ▸ ha)
    · exact hs.distinct other pending hget
  case pending =>
    intro other pending j hget hmem
    rcases addWaiter_get hget with ⟨rfl, rfl⟩ | ⟨-, hget⟩
    · rcases List.mem_append.mp hmem with hbefore | hnew
      · cases h : s.waiters.get other with
        | none => simp [h] at hbefore
        | some pending => exact hs.pending other pending j h (by simpa [h] using hbefore)
      · rw [List.mem_singleton.mp hnew]
        exact ⟨howed, fiber, hfiber, hawaits⟩
    · exact hs.pending other pending j hget hmem
  case owedOnce => exact hs.owedOnce
  case owed => exact hs.owed
  case fibers => exact hs.fibers

theorem wait_inv (hs : Inv s) : Inv (s.wait uri) := by
  unfold WaiterState.wait
  split
  case isTrue => exact { addFiber_counted hs.toCounted ⟨by simp, by simp, by simp⟩ with
    uncached := hs.uncached }
  case isFalse huncached =>
    have hbound {j : Nat} {other : Fiber} (h : s.fibers[j]? = some other) : j < s.fibers.length :=
      (List.getElem?_eq_some_iff.mp h).1
    have hnew : (s.fibers ++ [⟨uri, true, 0, none, false⟩])[s.fibers.length]? =
        some (⟨uri, true, 0, none, false⟩ : Fiber) := List.getElem?_concat_length
    refine { addWaiter_counted (addFiber_counted hs.toCounted ⟨by simp, by simp, by simp⟩) hnew
      ⟨rfl, rfl, rfl, rfl⟩ ?_ ?_ with uncached := ?_ }
    · intro hmem
      obtain ⟨other, hother, -⟩ := hs.owed _ hmem
      exact absurd (hbound hother) (Nat.lt_irrefl _)
    · intro other pending hget hmem
      obtain ⟨-, fiber, hfiber, -⟩ := hs.pending other pending _ hget hmem
      exact absurd (hbound hfiber) (Nat.lt_irrefl _)
    · intro other hhas
      have hne : other ≠ uri := fun hsame => huncached (hsame ▸ hhas)
      exact JsMap.get_set.trans ((if_neg hne).trans (hs.uncached other hhas))

theorem removeWaiter_get {other : Str} {pending : List Nat} (hs : Counted s)
    (h : (s.removeWaiter uri i).waiters.get other = some pending) :
    ∃ before, s.waiters.get other = some before ∧ pending.Sublist before ∧ pending ≠ [] ∧
      (other = uri → i ∉ pending) := by
  unfold WaiterState.removeWaiter at h
  cases hget : s.waiters.get uri with
  | none =>
    simp only [hget] at h
    refine ⟨pending, h, List.Sublist.refl _, hs.nonempty other pending h, ?_⟩
    rintro rfl
    rw [hget] at h
    cases h
  | some set =>
    simp only [hget] at h
    have hnotin : i ∉ set.erase i := (hs.distinct uri set hget).not_mem_erase
    split at h
    case isTrue hnot =>
      refine ⟨pending, h, List.Sublist.refl _, hs.nonempty other pending h, ?_⟩
      rintro rfl
      rw [hget] at h
      exact Option.some.inj h ▸ hnot
    case isFalse =>
      dsimp only at h
      split at h
      case isTrue =>
        rw [JsMap.get_delete] at h
        split at h
        · cases h
        case isFalse hother =>
          exact ⟨pending, h, List.Sublist.refl _, hs.nonempty other pending h,
            fun hsame => absurd hsame hother⟩
      case isFalse hleft =>
        rw [JsMap.get_set] at h
        split at h
        case isTrue hother =>
          subst hother
          obtain rfl := Option.some.inj h
          exact ⟨set, hget, List.erase_sublist, by simpa using hleft, fun _ => hnotin⟩
        case isFalse hother =>
          exact ⟨pending, h, List.Sublist.refl _, hs.nonempty other pending h,
            fun hsame => absurd hsame hother⟩

theorem removeWaiter_count (hs : Counted s) :
    (s.removeWaiter uri i).waiterCount = registered (s.removeWaiter uri i).waiters := by
  unfold WaiterState.removeWaiter
  cases hget : s.waiters.get uri with
  | none => exact hs.count
  | some set =>
    dsimp only
    split
    · exact hs.count
    case isFalse hmem =>
      have hlength := List.length_erase_of_mem (not_not.mp hmem)
      have hpos := List.length_pos_of_mem (not_not.mp hmem)
      rw [hs.count]
      split
      case isTrue hleft =>
        have hempty : (set.erase i).length = 0 := by simpa using hleft
        have := registered_delete hget
        dsimp only
        omega
      case isFalse =>
        have := registered_set (set.erase i) hget
        dsimp only
        omega

theorem removeWaiter_fields (s : WaiterState) (uri : Str) (i : Nat) :
    (s.removeWaiter uri i).fibers = s.fibers ∧
    (s.removeWaiter uri i).owed = s.owed ∧ (s.removeWaiter uri i).cache = s.cache := by
  unfold WaiterState.removeWaiter
  split
  · exact ⟨rfl, rfl, rfl⟩
  · dsimp only
    split
    · exact ⟨rfl, rfl, rfl⟩
    · exact ⟨rfl, rfl, rfl⟩

theorem removeWaiter_counted (hs : Counted s) : Counted (s.removeWaiter uri i) := by
  obtain ⟨hfibers, howed, -⟩ := removeWaiter_fields s uri i
  constructor
  case count => exact removeWaiter_count hs
  case nonempty =>
    intro other pending hget
    obtain ⟨-, -, -, hne, -⟩ := removeWaiter_get hs hget
    exact hne
  case distinct =>
    intro other pending hget
    obtain ⟨before, hbefore, hsub, -⟩ := removeWaiter_get hs hget
    exact (hs.distinct other before hbefore).sublist hsub
  case pending =>
    intro other pending j hget hmem
    obtain ⟨before, hbefore, hsub, -⟩ := removeWaiter_get hs hget
    rw [hfibers, howed]
    exact hs.pending other before j hbefore (hsub.subset hmem)
  case owedOnce => exact howed ▸ hs.owedOnce
  case owed =>
    rw [hfibers, howed]
    exact hs.owed
  case fibers =>
    rw [hfibers]
    exact hs.fibers

theorem removeWaiter_inv (hs : Inv s) : Inv (s.removeWaiter uri i) where
  toCounted := removeWaiter_counted hs.toCounted
  uncached := by
    intro other hhas
    rw [(removeWaiter_fields s uri i).2.2] at hhas
    by_contra hset
    obtain ⟨pending, hget⟩ := Option.ne_none_iff_exists'.mp hset
    obtain ⟨before, hbefore, -⟩ := removeWaiter_get hs.toCounted hget
    rw [hs.uncached other hhas] at hbefore
    cases hbefore

-- -----
-- Steps
-- -----

theorem setFiber_inv {fiber' : Fiber} (hs : Inv s) (hsound : fiber'.Sound)
    (hawaits : ∀ uri pending, s.waiters.get uri = some pending → i ∈ pending → fiber'.Awaits uri)
    (howed : i ∈ s.owed → fiber'.succeeded = 0 ∧ fiber'.registered = true) :
    Inv (s.setFiber i fiber') where
  toCounted := setFiber_counted hs.toCounted hsound hawaits howed
  uncached := hs.uncached

theorem Counted.awaits (hs : Counted s) (hfiber : s.fibers[i]? = some fiber) {pending : List Nat}
    (hget : s.waiters.get uri = some pending) (hmem : i ∈ pending) : fiber.Awaits uri := by
  obtain ⟨-, other, hother, hawaits⟩ := hs.pending uri pending i hget hmem
  exact Option.some.inj (hother.symm.trans hfiber) ▸ hawaits

theorem Counted.unsucceeded (hs : Counted s) (hfiber : s.fibers[i]? = some fiber)
    (howed : i ∈ s.owed) : fiber.succeeded = 0 ∧ fiber.registered = true := by
  obtain ⟨other, hother, hrest⟩ := hs.owed i howed
  exact Option.some.inj (hother.symm.trans hfiber) ▸ hrest

theorem endAwait_eq {exit : Exit} {ends : Fiber → Bool} (h : endAwait s i exit ends = some s') :
    ∃ fiber, s.fibers[i]? = some fiber ∧ fiber.exit = none ∧
      s' = s.setFiber i { fiber with exit := some exit } := by
  unfold endAwait at h
  split at h
  case h_1 fiber hfiber =>
    obtain ⟨hends, hsome⟩ := Option.ite_none_right_eq_some.mp h
    exact ⟨fiber, hfiber, hends.1, (Option.some.inj hsome).symm⟩
  case h_2 => cases h

theorem endAwait_inv {exit : Exit} {ends : Fiber → Bool} (hs : Inv s)
    (h : endAwait s i exit ends = some s') : Inv s' := by
  obtain ⟨fiber, hfiber, -, rfl⟩ := endAwait_eq h
  have hsound := hs.fibers i fiber hfiber
  have hunsucceeded := fun howed => hs.unsucceeded hfiber howed
  refine setFiber_inv hs ⟨hsound.succeeded, by simp, by simp⟩ (fun uri pending hget hmem => ?_)
    hunsucceeded
  have hawaits := hs.awaits hfiber hget hmem
  exact ⟨hawaits.uri, hawaits.registered, hawaits.succeeded, hawaits.released⟩

theorem succeed_inv (hs : Inv s) (hfiber : s.fibers[i]? = some fiber) (howed : i ∈ s.owed) :
    Inv ({ s with owed := s.owed.erase i }.setFiber i
      { fiber with succeeded := fiber.succeeded + 1 }) := by
  have hsound := hs.fibers i fiber hfiber
  have hzero := (hs.unsucceeded hfiber howed).1
  have hless : Inv { s with owed := s.owed.erase i } := { hs with
    pending := fun uri pending j hget hmem =>
      let ⟨hnot, hrest⟩ := hs.pending uri pending j hget hmem
      ⟨fun hj => hnot (List.mem_of_mem_erase hj), hrest⟩
    owedOnce := hs.owedOnce.erase i
    owed := fun j hmem => hs.owed j (List.mem_of_mem_erase hmem) }
  refine setFiber_inv hless ⟨by simp [hzero], hsound.released, hsound.unregistered⟩
    (fun uri pending hget hmem => ?_) (fun hmem => ?_)
  · exact absurd howed (hs.pending uri pending i hget hmem).1
  · exact absurd hmem hs.owedOnce.not_mem_erase

theorem release_inv (hs : Inv s) (hfiber : s.fibers[i]? = some fiber) (hexit : fiber.exit ≠ none) :
    Inv ((if fiber.registered then s.removeWaiter fiber.uri i else s).setFiber i
      { fiber with released := true }) := by
  have hsound := hs.fibers i fiber hfiber
  have hunsucceeded := fun howed => hs.unsucceeded hfiber howed
  have hreleased : ({ fiber with released := true } : Fiber).Sound :=
    ⟨hsound.succeeded, fun _ => hexit, hsound.unregistered⟩
  split
  case isTrue hregistered =>
    refine setFiber_inv (removeWaiter_inv hs) hreleased (fun uri pending hget hmem => ?_) ?_
    · obtain ⟨before, hbefore, hsub, -, hnot⟩ := removeWaiter_get hs.toCounted hget
      have hawaits := hs.awaits hfiber hbefore (hsub.subset hmem)
      exact absurd hmem (hnot hawaits.uri.symm)
    · rw [(removeWaiter_fields s fiber.uri i).2.1]
      exact hunsucceeded
  case isFalse hregistered =>
    refine setFiber_inv hs hreleased (fun uri pending hget hmem => ?_) hunsucceeded
    exact absurd (hs.awaits hfiber hget hmem).registered hregistered

theorem step_inv (hs : Inv s) {event : Event} (hstep : step s event = some s') : Inv s' := by
  cases event with
  | publish uri items =>
    obtain rfl := Option.some.inj hstep
    refine settle_inv hs _ fun other hother hhas => ?_
    rwa [JsMap.has, JsMap.get_set, if_neg hother] at hhas
  | delete uri =>
    obtain rfl := Option.some.inj hstep
    refine settle_inv hs _ fun other hother hhas => ?_
    rwa [JsMap.has, JsMap.get_delete, if_neg hother] at hhas
  | clearVisit uri =>
    obtain rfl := Option.some.inj hstep
    exact settle_inv hs s.cache fun _ _ hhas => hhas
  | clearCache =>
    obtain rfl := Option.some.inj hstep
    exact { hs with uncached := nofun }
  | succeed i =>
    simp only [step] at hstep
    split at hstep
    case h_1 fiber hfiber =>
      obtain ⟨howed, hsome⟩ := Option.ite_none_right_eq_some.mp hstep
      exact Option.some.inj hsome ▸ succeed_inv hs hfiber howed
    case h_2 => cases hstep
  | wait uri =>
    obtain rfl := Option.some.inj hstep
    exact wait_inv hs
  | resume i => exact endAwait_inv hs hstep
  | timeout i => exact endAwait_inv hs hstep
  | interrupt i => exact endAwait_inv hs hstep
  | release i =>
    simp only [step] at hstep
    split at hstep
    case h_1 fiber hfiber =>
      obtain ⟨hexit, hsome⟩ := Option.ite_none_right_eq_some.mp hstep
      exact Option.some.inj hsome ▸ release_inv hs hfiber hexit.1
    case h_2 => cases hstep

-- -----
-- Completions
-- -----

/-- Whether the fiber has completed. -/
def WaiterState.completed (s : WaiterState) (i : Nat) : Bool := (s.fibers[i]?).any (·.released)

theorem completed_of (hfiber : s.fibers[i]? = some fiber) : s.completed i = fiber.released := by
  rw [WaiterState.completed, hfiber, Option.any_some]

theorem completed_setFiber {fiber' : Fiber} (hfiber : s.fibers[i]? = some fiber) (j : Nat) :
    (s.setFiber i fiber').completed j = if i = j then fiber'.released else s.completed j := by
  have hlt := (List.getElem?_eq_some_iff.mp hfiber).1
  split
  case isTrue hij =>
    subst hij
    exact completed_of (List.getElem?_set_self hlt)
  case isFalse hij =>
    simp only [WaiterState.completed, WaiterState.setFiber, List.getElem?_set_ne hij]

theorem completed_settleWaiters (s : WaiterState) (uri : Str) (j : Nat) :
    (s.settleWaiters uri).completed j = s.completed j := by
  unfold WaiterState.settleWaiters
  split
  · rfl
  · rfl

theorem completed_addFiber (h : fiber.released = false) (j : Nat) :
    (s.addFiber fiber).completed j = s.completed j := by
  simp only [WaiterState.completed, WaiterState.addFiber, List.getElem?_append]
  split
  · rfl
  case isFalse hlength =>
    rw [List.getElem?_eq_none (Nat.le_of_not_lt hlength)]
    cases hnew : [fiber][j - s.fibers.length]? with
    | none => rfl
    | some other =>
      rw [List.mem_singleton.mp (List.mem_of_getElem? hnew)]
      simp [h]

/-- Only its release completes a fiber. -/
theorem step_completed {event : Event} (hstep : step s event = some s') (j : Nat)
    (hother : event ≠ .release j) : s'.completed j = s.completed j := by
  have hends {i : Nat} {exit : Exit} {ends : Fiber → Bool} (h : endAwait s i exit ends = some s') :
      s'.completed j = s.completed j := by
    obtain ⟨fiber, hfiber, -, rfl⟩ := endAwait_eq h
    rw [completed_setFiber hfiber]
    split
    case isTrue hij => exact hij ▸ (completed_of hfiber).symm
    case isFalse => rfl
  cases event with
  | publish uri items => exact Option.some.inj hstep ▸ completed_settleWaiters ..
  | delete uri => exact Option.some.inj hstep ▸ completed_settleWaiters ..
  | clearVisit uri => exact Option.some.inj hstep ▸ completed_settleWaiters ..
  | clearCache => exact Option.some.inj hstep ▸ rfl
  | succeed i =>
    simp only [step] at hstep
    split at hstep
    case h_1 fiber hfiber =>
      obtain ⟨-, hsome⟩ := Option.ite_none_right_eq_some.mp hstep
      obtain rfl := Option.some.inj hsome
      rw [completed_setFiber (s := { s with owed := s.owed.erase i }) hfiber]
      split
      case isTrue hij => exact hij ▸ (completed_of hfiber).symm
      case isFalse => rfl
    case h_2 => cases hstep
  | wait uri =>
    obtain rfl := Option.some.inj hstep
    unfold WaiterState.wait
    split
    · exact completed_addFiber rfl j
    · exact completed_addFiber rfl j
  | resume i => exact hends hstep
  | timeout i => exact hends hstep
  | interrupt i => exact hends hstep
  | release i =>
    simp only [step] at hstep
    split at hstep
    case h_1 fiber hfiber =>
      obtain ⟨-, hsome⟩ := Option.ite_none_right_eq_some.mp hstep
      obtain rfl := Option.some.inj hsome
      have hij : i ≠ j := fun hij => hother (hij ▸ rfl)
      simp only [WaiterState.completed, WaiterState.setFiber, List.getElem?_set_ne hij]
      split
      · rw [(removeWaiter_fields s fiber.uri i).1]
      · rfl
    case h_2 => cases hstep

theorem release_completes (hstep : step s (.release i) = some s') :
    s.completed i = false ∧ s'.completed i = true := by
  simp only [step] at hstep
  split at hstep
  case h_1 fiber hfiber =>
    obtain ⟨hopen, hsome⟩ := Option.ite_none_right_eq_some.mp hstep
    obtain rfl := Option.some.inj hsome
    refine ⟨(completed_of hfiber).trans hopen.2, ?_⟩
    have hsame : (if fiber.registered then s.removeWaiter fiber.uri i else s).fibers[i]? =
        some fiber := by
      split
      · rw [(removeWaiter_fields s fiber.uri i).1, hfiber]
      · exact hfiber
    rw [completed_setFiber hsame, if_pos rfl]
  case h_2 => cases hstep

/-- The releases of a run are the fibers that have completed, each once. -/
theorem releases_completed {events : List Event} (hrun : Transitions.run step start events = some s)
    (i : Nat) : events.count (.release i) = if s.completed i then 1 else 0 := by
  have hone (seen : List Event) (s : WaiterState) (event : Event) (s' : WaiterState)
      (hseen : seen.count (.release i) = if s.completed i then 1 else 0)
      (hstep : step s event = some s') :
      (seen ++ [event]).count (.release i) = if s'.completed i then 1 else 0 := by
    rw [List.count_append, hseen, List.count_singleton]
    by_cases hrelease : event = .release i
    · subst hrelease
      obtain ⟨hbefore, hafter⟩ := release_completes hstep
      simp [hbefore, hafter]
    · simp [step_completed hstep i hrelease, hrelease]
  exact Transitions.along hone rfl hrun

/-- A fiber that waits ends with its timer, and is then released. -/
theorem can_complete (hs : Inv s) (hfiber : s.fibers[i]? = some fiber)
    (hopen : fiber.released = false) : ∃ more s', Transitions.run step s more = some s' ∧
      more.count (.release i) = 1 := by
  have hrelease {s : WaiterState} {fiber : Fiber} (hfiber : s.fibers[i]? = some fiber)
      (hexit : fiber.exit ≠ none) (hopen : fiber.released = false) :
      ∃ s', step s (.release i) = some s' := by
    simp only [step, hfiber]
    exact ⟨_, if_pos ⟨hexit, hopen⟩⟩
  by_cases hexit : fiber.exit = none
  · have hregistered : fiber.registered = true := by
      by_contra hnot
      exact (hs.fibers i fiber hfiber).unregistered (Bool.eq_false_iff.mpr hnot) hexit
    have htimeout : step s (.timeout i) =
        some (s.setFiber i { fiber with exit := some .timedOut }) := by
      simp only [step, endAwait, hfiber]
      exact if_pos ⟨hexit, hregistered⟩
    have hlt := (List.getElem?_eq_some_iff.mp hfiber).1
    have hended : (s.setFiber i { fiber with exit := some .timedOut }).fibers[i]? =
        some { fiber with exit := some .timedOut } := List.getElem?_set_self hlt
    obtain ⟨s', hs'⟩ := hrelease hended nofun hopen
    refine ⟨[.timeout i, .release i], s', ?_, by simp⟩
    simp only [Transitions.run, htimeout, Option.bind_some, hs']
  · obtain ⟨s', hs'⟩ := hrelease hfiber hexit hopen
    refine ⟨[.release i], s', ?_, by simp⟩
    simp only [Transitions.run, hs', Option.bind_some]

structure Bookkept (events : List Event) (s : WaiterState) : Prop where
  count : s.waiterCount = registered s.waiters
  uncached : ∀ uri, s.cache.has uri = true → s.waiters.get uri = none
  nonempty : ∀ uri pending, s.waiters.get uri = some pending → pending ≠ []
  /-- The deferred of a waiter succeeds at most once. -/
  succeeded : ∀ (i : Nat) (fiber : Fiber), s.fibers[i]? = some fiber → fiber.succeeded ≤ 1
  /-- What is registered has not completed. -/
  waiting : ∀ uri pending (i : Nat), s.waiters.get uri = some pending → i ∈ pending →
    events.count (.release i) = 0
  /-- A fiber completes at most once, and one that has not can complete. -/
  completes : ∀ (i : Nat) (fiber : Fiber), s.fibers[i]? = some fiber →
    events.count (.release i) ≤ 1 ∧ ∃ more s', Transitions.run step s more = some s' ∧ (events ++ more).count (.release i) = 1

/-- The bookkeeping of the waiters, after every run. -/
theorem waiters_bookkept {events : List Event}
    (hrun : Transitions.run step start events = some s) : Bookkept events s := by
  have hs : Inv s := Transitions.always (fun _ _ _ hs hstep => step_inv hs hstep) start_inv hrun
  refine ⟨hs.count, hs.uncached, hs.nonempty, fun i fiber hfiber => (hs.fibers i fiber hfiber).succeeded,
    fun uri pending i hget hmem => ?_, fun i fiber hfiber => ?_⟩
  · obtain ⟨-, fiber, hfiber, hawaits⟩ := hs.pending uri pending i hget hmem
    rw [releases_completed hrun, completed_of hfiber, hawaits.released]
    rfl
  · have hreleases := releases_completed hrun i
    rw [completed_of hfiber] at hreleases
    cases hopen : fiber.released with
    | true =>
      rw [hopen, if_pos rfl] at hreleases
      exact ⟨hreleases.le, [], s, rfl, by rw [List.append_nil, hreleases]⟩
    | false =>
      rw [hopen] at hreleases
      obtain ⟨more, s', hmore, hcount⟩ := can_complete hs hfiber hopen
      have hzero : events.count (.release i) = 0 := hreleases
      exact ⟨by omega, more, s', hmore, by rw [List.count_append, hzero, hcount]⟩

/-- A publication takes out two waiters, and the timer of one fires before it is resumed. -/
def timedOutWhileSettling : List Event :=
  [.wait (lit "u"), .wait (lit "u"), .publish (lit "u") [], .succeed 0, .resume 0, .timeout 1,
    .release 1, .succeed 1, .delete (lit "u"), .wait (lit "u"), .release 0, .interrupt 2, .release 2]

theorem timedOutWhileSettling_bookkept :
    ∃ s, Transitions.run step start timedOutWhileSettling = some s ∧
      Bookkept timedOutWhileSettling s := by
  have hsome : (Transitions.run step start timedOutWhileSettling).isSome = true := by decide +kernel
  obtain ⟨s, hrun⟩ := Option.isSome_iff_exists.mp hsome
  exact ⟨s, hrun, waiters_bookkept hrun⟩

end PiEnv.DevTools.DiagnosticsCache.Waiters
