import PiEnv.DevTools.LspClient

/-!
# Correlation of responses

Whatever the order of events, a request settles once, with a response of its own
id from the socket it was written to or without one, and what is pending when a
socket is torn down fails.
-/

namespace PiEnv.DevTools.LspClient

open Js
open Transitions (run AllMeet)
open PiEnv.DevTools.ClientRequests (LspAction Attempt CallId)

namespace State

variable {s : State} {c c' : CallId} {call : Call} {attempt : Attempt} {id : Nat}
  {completion : Completion} {error : LspClientError} {settlement : Settlement}

-- -----
-- Failing what is pending
-- -----

def completeAll (completion : Completion) (c : CallId) (entries : List (Nat × CallId)) (call : Call) :
    Call :=
  entries.foldl (fun call entry => if entry.2 = c then complete completion entry.1 call else call) call

theorem completeDeferred_foldl (entries : List (Nat × CallId)) (s : State) :
    entries.foldl (fun s entry => s.completeDeferred completion entry.1 entry.2) s =
      { s with calls := fun c => completeAll completion c entries (s.calls c) } := by
  induction entries generalizing s with
  | nil => rfl
  | cons entry entries ih =>
    rw [List.foldl_cons, ih]
    have hcalls : ∀ c, (s.completeDeferred completion entry.1 entry.2).calls c =
        if entry.2 = c then complete completion entry.1 (s.calls c) else s.calls c := by
      intro c
      by_cases hc : entry.2 = c
      · subst hc
        simp [completeDeferred, setCall]
      · rw [if_neg hc]
        exact Function.update_of_ne (Ne.symm hc) _ _
    simp only [hcalls]
    rfl

theorem completeAll_other (entries : List (Nat × CallId))
    (h : ∀ attempt id, call ≠ .waiting attempt id none) :
    completeAll completion c entries call = call := by
  induction entries with
  | nil => rfl
  | cons entry entries ih =>
    have hsame : complete completion entry.1 call = call := by
      unfold complete
      split
      case h_1 attempt id => exact absurd rfl (h attempt id)
      case h_2 => rfl
    rw [completeAll, List.foldl_cons, hsame, ite_self]
    exact ih

theorem completeAll_waiting {entries : List (Nat × CallId)} (h : (id, c) ∈ entries) :
    completeAll completion c entries (.waiting attempt id none) =
      .waiting attempt id (some completion) := by
  induction entries with
  | nil => cases h
  | cons entry entries ih =>
    rw [completeAll, List.foldl_cons]
    by_cases hentry : entry = (id, c)
    · rw [hentry, if_pos rfl, complete, if_pos rfl]
      exact completeAll_other entries nofun
    · have hlater : (id, c) ∈ entries := (List.mem_cons.mp h).resolve_left (Ne.symm hentry)
      have hsame : (if entry.2 = c then complete completion entry.1 (.waiting attempt id none)
          else .waiting attempt id none) = Call.waiting attempt id none := by
        split
        case isTrue hc =>
          have hid : id ≠ entry.1 := fun hid => hentry (Prod.ext hid.symm hc)
          rw [complete, if_neg hid]
        case isFalse => rfl
      rw [hsame]
      exact ih hlater

/-- The deferred of every pending request fails; nothing else is changed. -/
theorem settlePending_eq : s.settlePending error =
    { s with
      pendingRequests := JsMap.empty
      calls := fun c =>
        completeAll (.failure error) c s.pendingRequests.entries (s.calls c) } :=
  completeDeferred_foldl _ _

-- -----
-- The invariant
-- -----

/-- A response has the id of the request, and came from where that was written. -/
def Genuine (s : State) (id : Nat) (completion : Completion) : Prop :=
  ∀ socket value, completion = .response socket value →
    responseId value = some id ∧ (socket, id) ∈ s.written

def Waits (s : State) (id : Nat) : Prop := ∃ c attempt deferred, s.calls c = .waiting attempt id deferred

def settledIds (s : State) : List Nat := s.settlements.map (·.1)

structure Inv (s : State) : Prop where
  /-- What is pending was written to the current socket, and a call is there for it. -/
  pending : ∀ id c, s.pendingRequests.get id = some c →
    (∃ socket, s.socket = some socket ∧ (socket, id) ∈ s.written) ∧
    ∃ attempt, s.calls c = .waiting attempt id none ∨
      ∃ settlement, s.calls c = .releasing attempt id settlement
  waiting : ∀ c attempt id deferred, s.calls c = .waiting attempt id deferred →
    id < s.nextId ∧ id ∉ s.settledIds ∧ (deferred = none → s.pendingRequests.get id = some c) ∧
    ∀ completion, deferred = some completion → s.Genuine id completion
  unique : ∀ c c' attempt attempt' id deferred deferred',
    s.calls c = .waiting attempt id deferred → s.calls c' = .waiting attempt' id deferred' → c = c'
  once : s.settledIds.Nodup
  settled : ∀ id settlement, (id, settlement) ∈ s.settlements → id < s.nextId ∧
    ∀ completion, settlement = .completed completion → s.Genuine id completion
  issued : ∀ id, 0 < id → id < s.nextId → id ∈ s.settledIds ∨ s.Waits id
  written : (s.written.map (·.2)).Nodup ∧ ∀ entry ∈ s.written, entry.2 < s.nextId
  closed : s.closed = true → s.socket = none
  reading : ∀ socket lines, s.reading = some (socket, lines) →
    s.socket = none ∨ s.socket = some socket

theorem initial_inv : Inv initial where
  pending := nofun
  waiting := nofun
  unique := nofun
  once := List.nodup_nil
  settled := nofun
  issued := fun _ hpos hlt => absurd hlt (Nat.not_lt.mpr hpos)
  written := ⟨List.nodup_nil, nofun⟩
  closed := nofun
  reading := nofun

theorem Inv.empty_of_none (h : Inv s) (hsocket : s.socket = none) (id : Nat) :
    s.pendingRequests.get id = none := by
  cases hget : s.pendingRequests.get id with
  | none => rfl
  | some c =>
    obtain ⟨⟨socket, hsome, -⟩, -⟩ := h.pending id c hget
    exact absurd (hsocket.symm.trans hsome) nofun

/-- A call that waits for a deferred sees it fail. -/
theorem Inv.completeAll_waiting (h : Inv s) (hcall : s.calls c = .waiting attempt id none) :
    completeAll completion c s.pendingRequests.entries (s.calls c) =
      .waiting attempt id (some completion) := by
  rw [hcall]
  exact State.completeAll_waiting (JsMap.mem_of_get ((h.waiting _ _ _ _ hcall).2.2.1 rfl))

/-- What a call that waits afterwards was before. -/
theorem Inv.waiting_of_completeAll {deferred : Option Completion} (h : Inv s)
    (hcall : completeAll completion c s.pendingRequests.entries (s.calls c) =
      .waiting attempt id deferred) :
    s.calls c = .waiting attempt id deferred ∧ deferred ≠ none ∨
      s.calls c = .waiting attempt id none ∧ deferred = some completion := by
  by_cases hnone : ∃ attempt id, s.calls c = .waiting attempt id none
  · obtain ⟨attempt', id', hwaits⟩ := hnone
    rw [h.completeAll_waiting hwaits] at hcall
    injection hcall with hattempt hid hdeferred
    subst hattempt hid
    exact .inr ⟨hwaits, hdeferred.symm⟩
  · have hother : ∀ attempt id, s.calls c ≠ .waiting attempt id none := fun attempt id hwaits =>
      hnone ⟨attempt, id, hwaits⟩
    rw [completeAll_other _ hother] at hcall
    exact .inl ⟨hcall, fun hdeferred => hother attempt id (hdeferred ▸ hcall)⟩

/-- The client without a socket, when what was pending has failed. -/
theorem Inv.cleared (h : Inv s) {buf : Str} {destroyed : List Socket} {closed : Bool} :
    Inv ({ s with socket := none, buf, destroyed, closed }.settlePending error) := by
  rw [settlePending_eq]
  refine ⟨nofun, fun c attempt id deferred hcall => ?_, ?_, h.once, h.settled,
    fun id hpos hlt => ?_, h.written, fun _ => rfl, fun _ _ _ => .inl rfl⟩
  · rcases h.waiting_of_completeAll hcall with ⟨hwaits, hsome⟩ | ⟨hwaits, hsome⟩
    · obtain ⟨hlt, hunsettled, -, hgenuine⟩ := h.waiting _ _ _ _ hwaits
      exact ⟨hlt, hunsettled, fun hnone => absurd hnone hsome, hgenuine⟩
    · obtain ⟨hlt, hunsettled, -, -⟩ := h.waiting _ _ _ _ hwaits
      refine ⟨hlt, hunsettled, fun hnone => absurd (hnone.symm.trans hsome) nofun, ?_⟩
      rintro completion hcompletion socket value rfl
      exact absurd (hcompletion.symm.trans hsome) nofun
  · intro c c' attempt attempt' id deferred deferred' hcall hcall'
    have hwas : ∀ {c attempt deferred}, completeAll (.failure error) c s.pendingRequests.entries
        (s.calls c) = .waiting attempt id deferred → ∃ deferred, s.calls c = .waiting attempt id deferred := by
      intro c attempt deferred hcall
      rcases h.waiting_of_completeAll hcall with ⟨hwaits, -⟩ | ⟨hwaits, -⟩
      · exact ⟨_, hwaits⟩
      · exact ⟨_, hwaits⟩
    obtain ⟨_, hwaits⟩ := hwas hcall
    obtain ⟨_, hwaits'⟩ := hwas hcall'
    exact h.unique _ _ _ _ _ _ _ hwaits hwaits'
  · refine (h.issued id hpos hlt).imp_right fun ⟨c, attempt, deferred, hwaits⟩ => ?_
    cases deferred with
    | none => exact ⟨c, attempt, _, h.completeAll_waiting hwaits⟩
    | some completion =>
      refine ⟨c, attempt, some completion, ?_⟩
      show completeAll _ _ _ (s.calls c) = _
      rw [completeAll_other _ (by rw [hwaits]; nofun), hwaits]

theorem Inv.teardownSocket (h : Inv s) (socket : Socket) (destroy : Bool) :
    Inv (s.teardownSocket socket error destroy) := by
  unfold State.teardownSocket
  split
  · cases destroy with
    | true => exact h.cleared
    | false => exact h.cleared
  · exact h

theorem Inv.discardStaleSocket (h : Inv s) : Inv (s.discardStaleSocket error) := by
  unfold State.discardStaleSocket
  split
  · exact h.teardownSocket _ _
  · exact h

theorem Inv.close (h : Inv s) : Inv s.close := by
  unfold State.close
  split
  · exact h
  · dsimp only
    split
    case h_1 socket hsocket =>
      unfold State.teardownSocket
      rw [if_pos hsocket]
      exact h.cleared
    case h_2 hsocket =>
      have hsame : { s with closed := true } = { s with closed := true, socket := none } := by
        rw [← hsocket]
      rw [hsame]
      exact h.cleared

-- -----
-- Calls
-- -----

/-- Nothing of the table is for the call. -/
structure Free (s : State) (c : CallId) : Prop where
  waiting : ∀ attempt id deferred, s.calls c ≠ .waiting attempt id deferred
  pending : ∀ id, s.pendingRequests.get id ≠ some c

theorem Inv.free (h : Inv s) (hwaiting : ∀ attempt id deferred, s.calls c ≠ .waiting attempt id deferred)
    (hreleasing : ∀ attempt id settlement, s.calls c ≠ .releasing attempt id settlement) :
    s.Free c where
  waiting := hwaiting
  pending := fun id hget => by
    obtain ⟨-, attempt, hcall | ⟨settlement, hcall⟩⟩ := h.pending id c hget
    · exact hwaiting _ _ _ hcall
    · exact hreleasing _ _ _ hcall

theorem setCall_other (hne : c' ≠ c) : (s.setCall c call).calls c' = s.calls c' :=
  Function.update_of_ne hne _ _

theorem setCall_self : (s.setCall c call).calls c = call := Function.update_self ..

/-- A call outside the table may do as it likes outside the table. -/
theorem Inv.setCall (h : Inv s) (hfree : s.Free c)
    (hcall : ∀ attempt id deferred, call ≠ .waiting attempt id deferred) :
    Inv (s.setCall c call) := by
  have hwas : ∀ {c' attempt id deferred}, (s.setCall c call).calls c' = .waiting attempt id deferred →
      s.calls c' = .waiting attempt id deferred := by
    intro c' attempt id deferred hwaits
    by_cases hc : c' = c
    · subst hc
      exact absurd (setCall_self.symm.trans hwaits) (hcall _ _ _)
    · exact (setCall_other hc).symm.trans hwaits
  refine ⟨fun id c' hget => ?_, fun c' attempt id deferred hwaits => h.waiting _ _ _ _ (hwas hwaits),
    fun c' c'' _ _ _ _ _ hwaits hwaits' => h.unique _ _ _ _ _ _ _ (hwas hwaits) (hwas hwaits'),
    h.once, h.settled, fun id hpos hlt => ?_, h.written, h.closed, h.reading⟩
  · obtain ⟨hsocket, attempt, hcall'⟩ := h.pending id c' hget
    have hc : c' ≠ c := fun hc => hfree.pending id (hc ▸ hget)
    exact ⟨hsocket, attempt, by rwa [setCall_other hc]⟩
  · refine (h.issued id hpos hlt).imp_right fun ⟨c', attempt, deferred, hwaits⟩ => ?_
    have hc : c' ≠ c := fun hc => hfree.waiting _ _ _ (hc ▸ hwaits)
    exact ⟨c', attempt, deferred, (setCall_other hc).trans hwaits⟩

theorem Inv.failAttempt (h : Inv s) (hfree : s.Free c) (removes : Bool) :
    Inv (s.failAttempt c attempt error removes) := by
  unfold State.failAttempt
  split
  · exact h.setCall hfree nofun
  · split
    · exact (h.setCall hfree (by nofun)).discardStaleSocket
    · exact h.setCall hfree (by nofun)
  · exact h.setCall hfree (by nofun)

/-- The race of a call that waits is decided. -/
theorem Inv.settle {deferred : Option Completion} (h : Inv s)
    (hcall : s.calls c = .waiting attempt id deferred)
    (hsettlement : ∀ completion, settlement = .completed completion → s.Genuine id completion) :
    Inv (s.settle c attempt id settlement) := by
  obtain ⟨hlt, hunsettled, hpending, -⟩ := h.waiting _ _ _ _ hcall
  have hids : (s.settle c attempt id settlement).settledIds = s.settledIds ++ [id] := by
    simp [State.settle, settledIds, State.setCall]
  have hself : (s.settle c attempt id settlement).calls c = .releasing attempt id settlement :=
    setCall_self
  have hother : ∀ {c'}, c' ≠ c → (s.settle c attempt id settlement).calls c' = s.calls c' :=
    fun hc => setCall_other hc
  have hwas : ∀ {c' attempt' id' deferred'},
      (s.settle c attempt id settlement).calls c' = .waiting attempt' id' deferred' →
        c' ≠ c ∧ s.calls c' = .waiting attempt' id' deferred' := by
    intro c' attempt' id' deferred' hwaits
    have hc : c' ≠ c := by
      rintro rfl
      exact absurd (hself.symm.trans hwaits) nofun
    exact ⟨hc, (hother hc).symm.trans hwaits⟩
  refine ⟨fun id' c' hget => ?_, fun c' attempt' id' deferred' hwaits => ?_,
    fun c' c'' _ _ _ _ _ hwaits hwaits' => h.unique _ _ _ _ _ _ _ (hwas hwaits).2 (hwas hwaits').2,
    ?_, fun id' settlement' hmem => ?_, fun id' hpos hlt' => ?_, h.written, h.closed, h.reading⟩
  · obtain ⟨hsocket, attempt', hcall'⟩ := h.pending id' c' hget
    refine ⟨hsocket, ?_⟩
    by_cases hc : c' = c
    · subst hc
      rcases hcall' with hcall' | ⟨_, hcall'⟩
      · rw [hcall] at hcall'
        injection hcall' with _ hid _
        exact ⟨attempt, .inr ⟨settlement, hid ▸ hself⟩⟩
      · exact absurd (hcall.symm.trans hcall') nofun
    · exact ⟨attempt', by rwa [hother hc]⟩
  · obtain ⟨hc, hbefore⟩ := hwas hwaits
    obtain ⟨hlt', hunsettled', hrest⟩ := h.waiting _ _ _ _ hbefore
    refine ⟨hlt', ?_, hrest⟩
    rw [hids, List.mem_append, List.mem_singleton]
    rintro (hmem | rfl)
    · exact hunsettled' hmem
    · exact hc (h.unique _ _ _ _ _ _ _ hbefore hcall)
  · rw [hids]
    exact List.nodup_append.mpr ⟨h.once, List.nodup_singleton id, by
      rintro other hmem _ hid rfl
      exact hunsettled (List.mem_singleton.mp hid ▸ hmem)⟩
  · rcases List.mem_append.mp hmem with hmem | hmem
    · exact h.settled _ _ hmem
    · obtain ⟨rfl, rfl⟩ := Prod.mk.inj (List.mem_singleton.mp hmem)
      exact ⟨hlt, hsettlement⟩
  · rw [hids, List.mem_append, List.mem_singleton]
    by_cases hid : id' = id
    · exact .inl (.inr hid)
    · refine (h.issued id' hpos hlt').imp .inl fun ⟨c', attempt', deferred', hwaits⟩ => ?_
      have hc : c' ≠ c := by
        rintro rfl
        rw [hcall] at hwaits
        injection hwaits with _ hsame _
        exact hid hsame.symm
      exact ⟨c', attempt', deferred', (hother hc).trans hwaits⟩

/-- What is pending no more, of a call that does not wait for it. -/
theorem Inv.delete (h : Inv s) (hcall : s.calls c = .releasing attempt id settlement)
    (hget : s.pendingRequests.get id = some c) :
    Inv { s with pendingRequests := s.pendingRequests.delete id } := by
  refine ⟨fun id' c' hget' => ?_, fun c' attempt' id' deferred hwaits => ?_, h.unique, h.once,
    h.settled, h.issued, h.written, h.closed, h.reading⟩
  · rw [JsMap.get_delete] at hget'
    split at hget'
    · cases hget'
    · exact h.pending id' c' hget'
  · obtain ⟨hlt, hunsettled, hpending, hgenuine⟩ := h.waiting _ _ _ _ hwaits
    refine ⟨hlt, hunsettled, fun hnone => ?_, hgenuine⟩
    have hid : id' ≠ id := by
      rintro rfl
      have hc : c' = c := Option.some.inj ((hpending hnone).symm.trans hget)
      subst hc
      cases hcall.symm.trans hwaits
    rw [JsMap.get_delete, if_neg hid]
    exact hpending hnone

theorem Inv.releaseRequest (h : Inv s) (hcall : s.calls c = .releasing attempt id settlement) :
    Inv (s.releaseRequest c id) ∧ (s.releaseRequest c id).Free c := by
  have hid : ∀ id', s.pendingRequests.get id' = some c → id' = id := by
    intro id' hget
    obtain ⟨-, attempt', hcall' | ⟨settlement', hcall'⟩⟩ := h.pending id' c hget
    · cases hcall.symm.trans hcall'
    · rw [hcall] at hcall'
      injection hcall' with _ hsame _
      exact hsame.symm
  unfold State.releaseRequest
  split
  case isTrue hget =>
    refine ⟨h.delete hcall hget, fun attempt' id' deferred hwaits => ?_, fun id' hget' => ?_⟩
    · cases hcall.symm.trans hwaits
    · rw [JsMap.get_delete] at hget'
      split at hget'
      case isTrue => cases hget'
      case isFalse hne => exact hne (hid id' hget')
  case isFalse hget =>
    refine ⟨h, fun attempt' id' deferred hwaits => ?_, fun id' hget' => ?_⟩
    · cases hcall.symm.trans hwaits
    · exact hget (hid id' hget' ▸ hget')

theorem Inv.proceed {actionOf : CallId → LspAction} (h : Inv s) (hfree : s.Free c)
    (removes : Bool) : Inv (s.proceed actionOf c attempt settlement removes) := by
  unfold State.proceed
  split
  · exact h.setCall hfree nofun
  · exact h.failAttempt hfree removes
  · exact h.failAttempt hfree removes
  · exact h.setCall hfree nofun
  · exact h.failAttempt hfree removes

-- -----
-- Registration
-- -----

theorem Genuine.mono {written : List (Socket × Nat)} {s' : State} (h : s.Genuine id completion)
    (hwritten : s'.written = s.written ++ written) : s'.Genuine id completion :=
  fun socket value hcompletion =>
    ⟨(h socket value hcompletion).1, hwritten ▸ List.mem_append_left _ (h socket value hcompletion).2⟩

theorem Inv.notSettled (h : Inv s) : s.nextId ∉ s.settledIds := by
  intro hmem
  obtain ⟨⟨id, settlement⟩, hentry, rfl⟩ := List.mem_map.mp hmem
  exact absurd (h.settled _ _ hentry).1 (Nat.lt_irrefl _)

/-- An id that was not written is settled at once. -/
theorem Inv.notWritten (h : Inv s) :
    Inv { s with
      nextId := s.nextId + 1
      settlements := s.settlements ++ [(s.nextId, .notWritten error)] } := by
  have hids : (s.settlements ++ [(s.nextId, Settlement.notWritten error)]).map (·.1) =
      s.settledIds ++ [s.nextId] := by simp [settledIds]
  refine ⟨h.pending, fun c attempt id deferred hwaits => ?_, h.unique, ?_,
    fun id settlement hmem => ?_, fun id hpos hlt => ?_,
    ⟨h.written.1, fun entry hmem => Nat.lt_succ_of_lt (h.written.2 _ hmem)⟩, h.closed, h.reading⟩
  · obtain ⟨hlt, hunsettled, hrest⟩ := h.waiting _ _ _ _ hwaits
    refine ⟨Nat.lt_succ_of_lt hlt, ?_, hrest⟩
    rw [settledIds, hids, List.mem_append, List.mem_singleton]
    exact fun hmem => hmem.elim hunsettled (Nat.ne_of_lt hlt)
  · rw [settledIds, hids]
    exact List.nodup_append.mpr ⟨h.once, List.nodup_singleton _, by
      rintro other hmem _ hid rfl
      exact h.notSettled (List.mem_singleton.mp hid ▸ hmem)⟩
  · rcases List.mem_append.mp hmem with hmem | hmem
    · exact ⟨Nat.lt_succ_of_lt (h.settled _ _ hmem).1, (h.settled _ _ hmem).2⟩
    · obtain ⟨rfl, rfl⟩ := Prod.mk.inj (List.mem_singleton.mp hmem)
      exact ⟨Nat.lt_succ_self _, nofun⟩
  · rw [settledIds, hids, List.mem_append, List.mem_singleton]
    rcases Nat.lt_succ_iff_lt_or_eq.mp hlt with hlt | hid
    · exact (h.issued id hpos hlt).imp_left .inl
    · exact .inl (.inr hid)

theorem Inv.registered {socket : Socket} (h : Inv s) (hfree : s.Free c)
    (hsocket : s.socket = some socket) :
    Inv ({ s with
      nextId := s.nextId + 1
      pendingRequests := s.pendingRequests.set s.nextId c
      written := s.written ++ [(socket, s.nextId)] }.setCall c (.waiting attempt s.nextId none)) := by
  let s' := { s with
    nextId := s.nextId + 1
    pendingRequests := s.pendingRequests.set s.nextId c
    written := s.written ++ [(socket, s.nextId)] }.setCall c (.waiting attempt s.nextId none)
  have hself : s'.calls c = .waiting attempt s.nextId none := setCall_self
  have hother : ∀ {c'}, c' ≠ c → s'.calls c' = s.calls c' := fun hc => setCall_other hc
  have hgenuine : ∀ {id completion}, s.Genuine id completion → s'.Genuine id completion :=
    fun hgenuine => hgenuine.mono rfl
  have hget : ∀ id, s'.pendingRequests.get id =
      if id = s.nextId then some c else s.pendingRequests.get id := fun id => JsMap.get_set
  refine ⟨fun id c' hget' => ?_, fun c' attempt' id deferred hwaits => ?_,
    fun c' c'' attempt' attempt'' id deferred deferred' hwaits hwaits' => ?_, h.once,
    fun id settlement hmem => ?_, fun id hpos hlt => ?_, ⟨?_, fun entry hmem => ?_⟩, h.closed,
    h.reading⟩
  · rw [hget] at hget'
    split at hget'
    case isTrue hid =>
      subst hid
      obtain rfl := Option.some.inj hget'
      exact ⟨⟨socket, hsocket, List.mem_append_right _ (List.mem_singleton.mpr rfl)⟩, attempt,
        .inl hself⟩
    case isFalse =>
      have hc : c' ≠ c := fun hc => hfree.pending id (hc ▸ hget')
      obtain ⟨⟨socket', hsocket', hwritten⟩, attempt', hcall⟩ := h.pending id c' hget'
      refine ⟨⟨socket', hsocket', List.mem_append_left _ hwritten⟩, attempt', ?_⟩
      exact (hother hc).symm ▸ hcall
  · by_cases hc : c' = c
    · subst hc
      injection hself.symm.trans hwaits with _ hid hdeferred
      subst hid hdeferred
      exact ⟨Nat.lt_succ_self _, h.notSettled, fun _ => (hget _).trans (if_pos rfl), by simp⟩
    · obtain ⟨hlt, hunsettled, hpending, hcompletion⟩ :=
        h.waiting _ _ _ _ ((hother hc).symm.trans hwaits)
      refine ⟨Nat.lt_succ_of_lt hlt, hunsettled, fun hnone => ?_, fun completion hsome =>
        hgenuine (hcompletion completion hsome)⟩
      exact (hget id).trans ((if_neg (Nat.ne_of_lt hlt)).trans (hpending hnone))
  · have hid : ∀ {c' attempt deferred}, s'.calls c' = .waiting attempt id deferred → c' ≠ c →
        id < s.nextId ∧ s.calls c' = .waiting attempt id deferred := by
      intro c' attempt deferred hwaits hc
      have hbefore := (hother hc).symm.trans hwaits
      exact ⟨(h.waiting _ _ _ _ hbefore).1, hbefore⟩
    by_cases hc : c' = c
    · by_cases hc' : c'' = c
      · exact hc.trans hc'.symm
      · subst hc
        injection hself.symm.trans hwaits with _ hsame _
        exact absurd (hid hwaits' hc').1 (by omega)
    · by_cases hc' : c'' = c
      · subst hc'
        injection hself.symm.trans hwaits' with _ hsame _
        exact absurd (hid hwaits hc).1 (by omega)
      · exact h.unique _ _ _ _ _ _ _ (hid hwaits hc).2 (hid hwaits' hc').2
  · exact ⟨Nat.lt_succ_of_lt (h.settled _ _ hmem).1, fun completion hcompletion =>
      hgenuine ((h.settled _ _ hmem).2 completion hcompletion)⟩
  · rcases Nat.lt_succ_iff_lt_or_eq.mp hlt with hlt | hid
    · refine (h.issued id hpos hlt).imp_right ?_
      rintro ⟨c', attempt', deferred, hwaits⟩
      have hc : c' ≠ c := fun hc => hfree.waiting _ _ _ (hc ▸ hwaits)
      exact ⟨c', attempt', deferred, (hother hc).trans hwaits⟩
    · subst hid
      exact .inr ⟨c, attempt, none, hself⟩
  · show ((s.written ++ [(socket, s.nextId)]).map (·.2)).Nodup
    rw [List.map_append, List.nodup_append]
    refine ⟨h.written.1, List.nodup_singleton _, ?_⟩
    rintro other hmem _ hid rfl
    obtain ⟨entry, hentry, rfl⟩ := List.mem_map.mp hmem
    exact absurd (h.written.2 _ hentry) (by simp [List.mem_singleton.mp hid])
  · rcases List.mem_append.mp hmem with hmem | hmem
    · exact Nat.lt_succ_of_lt (h.written.2 _ hmem)
    · obtain rfl := List.mem_singleton.mp hmem
      exact Nat.lt_succ_self _

theorem Inv.registerRequest {writes : Bool} (h : Inv s) (hfree : s.Free c) :
    Inv (s.registerRequest c attempt writes error) := by
  unfold State.registerRequest
  split
  · exact h.failAttempt hfree true
  · split
    · exact h.failAttempt hfree true
    · split
      · exact h.failAttempt hfree true
      · dsimp only
        split
        case isTrue hsocket _ _ => exact h.registered hfree hsocket
        case isFalse => exact h.notWritten.failAttempt ⟨hfree.waiting, hfree.pending⟩ true

-- -----
-- Responses
-- -----

/-- A deferred that is done is pending no more. -/
theorem Inv.completed (h : Inv s) (hget : s.pendingRequests.get id = some c)
    (hgenuine : s.Genuine id completion) :
    Inv ({ s with pendingRequests := s.pendingRequests.delete id }.completeDeferred completion id
      c) := by
  obtain ⟨-, attempt, hcall | ⟨settlement, hcall⟩⟩ := h.pending id c hget
  · let s' := { s with pendingRequests := s.pendingRequests.delete id }.completeDeferred completion id c
    have hself : s'.calls c = .waiting attempt id (some completion) := by
      refine setCall_self.trans ?_
      show complete completion id (s.calls c) = _
      rw [hcall, complete, if_pos rfl]
    have hother : ∀ {c'}, c' ≠ c → s'.calls c' = s.calls c' := fun hc => setCall_other hc
    have hid : ∀ {c' attempt' id' deferred'}, s'.calls c' = .waiting attempt' id' deferred' →
        ∃ deferred, s.calls c' = .waiting attempt' id' deferred := by
      intro c' attempt' id' deferred' hwaits
      by_cases hc : c' = c
      · subst hc
        injection hself.symm.trans hwaits with hattempt hid _
        subst hattempt hid
        exact ⟨_, hcall⟩
      · exact ⟨_, (hother hc).symm.trans hwaits⟩
    have hdelete : ∀ id', s'.pendingRequests.get id' =
        if id' = id then none else s.pendingRequests.get id' := fun _ => JsMap.get_delete
    refine ⟨fun id' c' hget' => ?_, fun c' attempt' id' deferred hwaits => ?_,
      fun c' c'' _ _ _ _ _ hwaits hwaits' => ?_, h.once, h.settled, fun id' hpos hlt => ?_,
      h.written, h.closed, h.reading⟩
    · rw [hdelete] at hget'
      split at hget'
      case isTrue => cases hget'
      case isFalse hne =>
        obtain ⟨hsocket, attempt', hcall'⟩ := h.pending id' c' hget'
        have hc : c' ≠ c := by
          rintro rfl
          rcases hcall' with hcall' | ⟨_, hcall'⟩
          · injection hcall.symm.trans hcall' with _ hsame _
            exact hne hsame.symm
          · cases hcall.symm.trans hcall'
        exact ⟨hsocket, attempt', (hother hc).symm ▸ hcall'⟩
    · by_cases hc : c' = c
      · subst hc
        injection hself.symm.trans hwaits with _ hsame hdeferred
        subst hsame hdeferred
        obtain ⟨hlt, hunsettled, -⟩ := h.waiting _ _ _ _ hcall
        exact ⟨hlt, hunsettled, by simp, fun completion hsome => Option.some.inj hsome ▸ hgenuine⟩
      · obtain ⟨hlt, hunsettled, hpending, hrest⟩ :=
          h.waiting _ _ _ _ ((hother hc).symm.trans hwaits)
        refine ⟨hlt, hunsettled, fun hnone => ?_, hrest⟩
        have hne : id' ≠ id := by
          rintro rfl
          exact hc (Option.some.inj ((hpending hnone).symm.trans hget))
        exact (hdelete id').trans ((if_neg hne).trans (hpending hnone))
    · obtain ⟨_, hwaits⟩ := hid hwaits
      obtain ⟨_, hwaits'⟩ := hid hwaits'
      exact h.unique _ _ _ _ _ _ _ hwaits hwaits'
    · refine (h.issued id' hpos hlt).imp_right ?_
      rintro ⟨c', attempt', deferred, hwaits⟩
      by_cases hc : c' = c
      · subst hc
        injection hcall.symm.trans hwaits with _ hsame _
        exact ⟨c', attempt, _, hsame ▸ hself⟩
      · exact ⟨c', attempt', deferred, (hother hc).trans hwaits⟩
  · have hsame : complete completion id (s.calls c) = s.calls c := by rw [hcall]; rfl
    have hcalls : Function.update s.calls c (complete completion id (s.calls c)) = s.calls := by
      rw [hsame, Function.update_eq_self]
    have := h.delete hcall hget
    simpa [completeDeferred, State.setCall, hcalls] using this

theorem responseId_bind {line : Str} {value : Json}
    (h : (parseResponse line).bind (fun value => (responseId value).map (·, value)) = some (id, value)) :
    responseId value = some id := by
  obtain ⟨value', -, hvalue⟩ := Option.bind_eq_some_iff.mp h
  obtain ⟨id', hid, hpair⟩ := Option.map_eq_some_iff.mp hvalue
  obtain ⟨rfl, rfl⟩ := Prod.mk.inj hpair
  exact hid

/-- The line is of the current socket, or nothing is pending. -/
theorem Inv.dispatch {socket : Socket} (h : Inv s)
    (hsocket : s.socket = none ∨ s.socket = some socket) (line : Str) :
    Inv (s.dispatch socket line) := by
  unfold State.dispatch
  split
  case h_1 => exact h
  case h_2 id value hline =>
    split
    case h_1 => exact h
    case h_2 c hget =>
      refine h.completed hget ?_
      rintro socket' value' hcompletion
      obtain ⟨rfl, rfl⟩ := Completion.response.inj hcompletion
      obtain ⟨⟨current, hcurrent, hwritten⟩, -⟩ := h.pending id c hget
      rcases hsocket with hnone | hsome
      · exact absurd (hnone.symm.trans hcurrent) nofun
      · exact ⟨responseId_bind hline, Option.some.inj (hcurrent.symm.trans hsome) ▸ hwritten⟩

-- -----
-- Steps
-- -----

theorem Inv.read (h : Inv s) {buf : Str} {socket : Socket} {lines : List Str}
    (hsocket : s.socket = none ∨ s.socket = some socket) :
    Inv { s with buf, reading := some (socket, lines) } :=
  ⟨h.pending, h.waiting, h.unique, h.once, h.settled, h.issued, h.written, h.closed,
    fun socket' lines' hreading => by
      obtain ⟨rfl, rfl⟩ := Prod.mk.inj (Option.some.inj hreading)
      exact hsocket⟩

theorem Inv.onSocketData (h : Inv s) (socket : Socket) (chunk : Str) :
    Inv (s.onSocketData socket chunk) := by
  unfold State.onSocketData
  split
  case isTrue hsocket => exact h.read (.inr hsocket)
  case isFalse => exact h

theorem Inv.line {socket : Socket} {line : Str} {lines : List Str} (h : Inv s)
    (hreading : s.reading = some (socket, line :: lines)) :
    Inv ({ s with reading := some (socket, lines) }.dispatch socket line) := by
  have hsocket := h.reading _ _ hreading
  have hread : Inv { s with buf := s.buf, reading := some (socket, lines) } := h.read hsocket
  exact hread.dispatch hsocket line

theorem teardownSocket_none {socket : Socket} (hsocket : s.socket = some socket)
    (error : LspClientError) (destroy : Bool) :
    (s.teardownSocket socket error destroy).socket = none ∧
      (s.teardownSocket socket error destroy).pendingRequests = JsMap.empty ∧
      (s.teardownSocket socket error destroy).calls =
        fun c => completeAll (.failure error) c s.pendingRequests.entries (s.calls c) := by
  unfold State.teardownSocket
  rw [if_pos hsocket]
  dsimp only
  rw [settlePending_eq]
  cases destroy <;> exact ⟨rfl, rfl, rfl⟩

/-- A socket that is set up has nothing pending but what was written to it. -/
theorem Inv.setupSocket (h : Inv s) (socket : Socket) (hopen : s.closed = false)
    (hreading : s.reading = none) : Inv (s.setupSocket socket) := by
  have hset : ∀ s : State, Inv s → s.closed = false → s.reading = none →
      s.socket = none ∨ s.socket = some socket → Inv { s with socket := some socket, buf := [] } := by
    intro s h hopen hreading hsocket
    refine ⟨fun id c hget => ?_, h.waiting, h.unique, h.once, h.settled, h.issued, h.written,
      fun hclosed => absurd (hopen.symm.trans hclosed) nofun,
      fun _ _ hread => absurd (hreading.symm.trans hread) nofun⟩
    obtain ⟨⟨current, hcurrent, hwritten⟩, hcall⟩ := h.pending id c hget
    rcases hsocket with hnone | hsome
    · exact absurd (hnone.symm.trans hcurrent) nofun
    · obtain rfl := Option.some.inj (hcurrent.symm.trans hsome)
      exact ⟨⟨current, rfl, hwritten⟩, hcall⟩
  unfold State.setupSocket
  split
  case h_1 other hother =>
    split
    case isTrue hsame => exact hset s h hopen hreading (.inr (hsame ▸ hother))
    case isFalse =>
      refine hset _ (h.teardownSocket other true) ?_ ?_ (.inl (teardownSocket_none hother _ _).1)
      · rw [State.teardownSocket, if_pos hother, settlePending_eq]
        exact hopen
      · rw [State.teardownSocket, if_pos hother, settlePending_eq]
        exact hreading
  case h_2 hnone => exact hset s h hopen hreading (.inl hnone)

theorem Inv.destroy (h : Inv s) (socket : Socket) : Inv (s.destroy socket) :=
  ⟨h.pending, h.waiting, h.unique, h.once, h.settled, h.issued, h.written, h.closed, h.reading⟩

theorem Inv.onConnect (h : Inv s) (socket : Socket) (hreading : s.reading = none) :
    Inv (s.onConnect socket) := by
  unfold State.onConnect
  split
  case isTrue => exact h.destroy socket
  case isFalse hopen => exact h.setupSocket socket (by simpa using hopen) hreading

theorem whenIdle_eq_some {next s' : State} (h : s.whenIdle next = some s') :
    s.reading = none ∧ next = s' := by
  unfold State.whenIdle at h
  split at h
  case isTrue hidle => exact ⟨Option.isNone_iff_eq_none.mp hidle, Option.some.inj h⟩
  case isFalse => cases h

theorem step_inv {actionOf : CallId → LspAction} {event : Event} {s' : State} (h : Inv s)
    (hstep : step actionOf s event = some s') : Inv s' := by
  cases event with
  | requestEffect c =>
    simp only [step] at hstep
    split at hstep
    case h_1 hcall =>
      rw [← Option.some.inj hstep]
      exact h.setCall (h.free (by rw [hcall]; nofun) (by rw [hcall]; nofun)) nofun
    case h_2 => cases hstep
  | failConnection c error =>
    simp only [step] at hstep
    split at hstep
    case h_1 hcall =>
      rw [← Option.some.inj hstep]
      exact h.failAttempt (h.free (by rw [hcall]; nofun) (by rw [hcall]; nofun)) true
    case h_2 => cases hstep
  | register c writes cause =>
    simp only [step] at hstep
    split at hstep
    case h_1 hcall =>
      rw [← Option.some.inj hstep]
      exact h.registerRequest (h.free (by rw [hcall]; nofun) (by rw [hcall]; nofun))
    case h_2 => cases hstep
  | resume c =>
    simp only [step] at hstep
    split at hstep
    case h_1 attempt id completion hcall =>
      rw [← Option.some.inj hstep]
      refine h.settle hcall fun completion' hsame => ?_
      exact Settlement.completed.inj hsame ▸ (h.waiting _ _ _ _ hcall).2.2.2 completion rfl
    case h_2 => cases hstep
  | timeout c =>
    simp only [step] at hstep
    split at hstep
    case h_1 hcall =>
      rw [← (whenIdle_eq_some hstep).2]
      exact h.settle hcall nofun
    case h_2 => cases hstep
  | interrupt c =>
    simp only [step] at hstep
    split at hstep
    case h_1 hcall =>
      rw [← Option.some.inj hstep]
      exact h.setCall (h.free (by rw [hcall]; nofun) (by rw [hcall]; nofun)) nofun
    case h_2 hcall =>
      rw [← Option.some.inj hstep]
      exact h.settle hcall nofun
    case h_3 => cases hstep
  | release c removes =>
    simp only [step] at hstep
    split at hstep
    case h_1 hcall =>
      rw [← Option.some.inj hstep]
      obtain ⟨hinv, hfree⟩ := h.releaseRequest hcall
      exact hinv.proceed hfree removes
    case h_2 => cases hstep
  | connect socket =>
    obtain ⟨hreading, rfl⟩ := whenIdle_eq_some hstep
    exact h.onConnect socket hreading
  | data socket chunk =>
    obtain ⟨-, rfl⟩ := whenIdle_eq_some hstep
    exact h.onSocketData socket chunk
  | line =>
    simp only [step] at hstep
    split at hstep
    case h_1 hreading =>
      rw [← Option.some.inj hstep]
      exact h.line hreading
    case h_2 =>
      rw [← Option.some.inj hstep]
      exact ⟨h.pending, h.waiting, h.unique, h.once, h.settled, h.issued, h.written, h.closed, nofun⟩
    case h_3 => cases hstep
  | socketError socket error =>
    obtain ⟨-, rfl⟩ := whenIdle_eq_some hstep
    exact h.teardownSocket socket true
  | socketClose socket =>
    obtain ⟨-, rfl⟩ := whenIdle_eq_some hstep
    exact h.teardownSocket socket false
  | destroy socket =>
    obtain ⟨-, rfl⟩ := whenIdle_eq_some hstep
    exact h.destroy socket
  | close =>
    rw [← Option.some.inj hstep]
    exact h.close

-- -----
-- Runs
-- -----

def timesSettled (s : State) (id : Nat) : Nat := s.settledIds.count id

/-- Nothing is pending after a step, and what a call waited for without knowing
how it ends has failed. -/
def Fails (s s' : State) (error : LspClientError) : Prop :=
  s'.pendingRequests.entries = [] ∧
    ∀ c attempt id, s.calls c = .waiting attempt id none →
      s'.calls c = .waiting attempt id (some (.failure error))

structure Correlated (actionOf : CallId → LspAction) (s : State) : Prop where
  /-- A request that has been issued is settled once, or a call waits for it. -/
  settled : ∀ id, 0 < id → id < s.nextId → s.timesSettled id = 1 ∨ s.timesSettled id = 0 ∧ s.Waits id
  once : ∀ id, s.timesSettled id ≤ 1
  /-- The timer of a call that waits settles its request. -/
  timer : ∀ c attempt id deferred, s.calls c = .waiting attempt id deferred → s.reading = none →
    ∃ s', step actionOf s (.timeout c) = some s' ∧ s'.timesSettled id = 1 ∧ ¬ s'.Waits id
  fulfilled : ∀ id socket value, (id, .completed (.response socket value)) ∈ s.settlements →
    responseId value = some id ∧ (socket, id) ∈ s.written
  ids : (s.written.map (·.2)).Nodup
  /-- Whatever is not settled is in the table until its deferred is done. -/
  listed : ∀ c attempt id, s.calls c = .waiting attempt id none → s.pendingRequests.get id = some c
  cleared : s.closed = true ∨ s.socket = none → s.pendingRequests.entries = []
  teardown : ∀ socket error destroy, s.socket = some socket →
    Fails s (s.teardownSocket socket error destroy) error
  close : s.closed = false → Fails s s.close closeError

theorem Inv.timesSettled_of_mem (h : Inv s) (hid : id ∈ s.settledIds) : s.timesSettled id = 1 :=
  List.count_eq_one_of_mem h.once hid

theorem Inv.settled_or_waits (h : Inv s) (hpos : 0 < id) (hlt : id < s.nextId) :
    s.timesSettled id = 1 ∨ s.timesSettled id = 0 ∧ s.Waits id := by
  by_cases hid : id ∈ s.settledIds
  · exact .inl (h.timesSettled_of_mem hid)
  · exact .inr ⟨List.count_eq_zero.mpr hid, (h.issued id hpos hlt).resolve_left hid⟩

theorem Inv.timer {actionOf : CallId → LspAction} {deferred : Option Completion} (h : Inv s)
    (hcall : s.calls c = .waiting attempt id deferred) (hreading : s.reading = none) :
    ∃ s', step actionOf s (.timeout c) = some s' ∧ s'.timesSettled id = 1 ∧ ¬ s'.Waits id := by
  have hinv : Inv (s.settle c attempt id .timedOut) := h.settle hcall nofun
  have hmem : id ∈ (s.settle c attempt id .timedOut).settledIds :=
    List.mem_map.mpr ⟨(id, .timedOut), List.mem_append_right _ (List.mem_singleton.mpr rfl), rfl⟩
  refine ⟨s.settle c attempt id .timedOut, ?_, hinv.timesSettled_of_mem hmem, ?_⟩
  · simp [step, hcall, State.whenIdle, hreading]
  · rintro ⟨c', attempt', deferred', hwaits⟩
    exact (hinv.waiting _ _ _ _ hwaits).2.1 hmem

theorem Inv.fails_teardown {socket : Socket} {destroy : Bool} (h : Inv s)
    (hsocket : s.socket = some socket) : Fails s (s.teardownSocket socket error destroy) error := by
  obtain ⟨-, hpending, hcalls⟩ := teardownSocket_none hsocket error destroy
  refine ⟨hpending ▸ rfl, fun c attempt id hcall => ?_⟩
  rw [hcalls]
  exact h.completeAll_waiting hcall

theorem Inv.entries_of_none (h : Inv s) (hsocket : s.socket = none) :
    s.pendingRequests.entries = [] := by
  refine List.eq_nil_iff_forall_not_mem.mpr fun entry hmem => ?_
  have hget := JsMap.get_of_mem (k := entry.1) (v := entry.2) hmem
  exact absurd (hget.symm.trans (h.empty_of_none hsocket entry.1)) nofun

theorem Inv.fails_close (h : Inv s) (hopen : s.closed = false) : Fails s s.close closeError := by
  unfold State.close
  rw [if_neg (by simp [hopen])]
  dsimp only
  split
  case h_1 socket hsocket =>
    have hclosing : Fails { s with closed := true }
        ({ s with closed := true }.teardownSocket socket closeError true) closeError := by
      have hclosing : { s with closed := true }.socket = some socket := hsocket
      obtain ⟨-, hpending, hcalls⟩ := teardownSocket_none hclosing closeError true
      refine ⟨hpending ▸ rfl, fun c attempt id hcall => ?_⟩
      rw [hcalls]
      exact h.completeAll_waiting hcall
    exact hclosing
  case h_2 =>
    rw [settlePending_eq]
    exact ⟨rfl, fun c attempt id hcall => h.completeAll_waiting hcall⟩

theorem Inv.correlated {actionOf : CallId → LspAction} (h : Inv s) : Correlated actionOf s where
  settled := fun _ hpos hlt => h.settled_or_waits hpos hlt
  once := fun id => List.nodup_iff_count_le_one.mp h.once id
  timer := fun _ _ _ _ hcall hreading => h.timer hcall hreading
  fulfilled := fun _ _ _ hmem => (h.settled _ _ hmem).2 _ rfl _ _ rfl
  ids := h.written.1
  listed := fun _ _ _ hcall => (h.waiting _ _ _ _ hcall).2.2.1 rfl
  cleared := fun hdone => h.entries_of_none (hdone.elim h.closed id)
  teardown := fun _ _ _ hsocket => h.fails_teardown hsocket
  close := h.fails_close

theorem calls_correlated {actionOf : CallId → LspAction} {events : List Event}
    (hrun : run (step actionOf) initial events = some s) : Correlated actionOf s :=
  (Transitions.always (fun _ _ _ h hstep => step_inv h hstep) initial_inv hrun).correlated

/-- Two responses in three chunks, a call that goes on between their lines, and a
socket that is replaced. -/
def twoResponses : List Event :=
  [.requestEffect 0, .requestEffect 1, .connect 7, .register 0 true closeError,
    .register 1 true closeError, .data 7 (lit "\x7b\"id\":2,"), .line,
    .data 7 (lit "\"ok\":true\x7d\n\x7b\"id\":9\x7d"), .line, .resume 1, .release 1 true, .line,
    .connect 8, .data 7 (lit "\n\x7b\"id\":1\x7d\n"), .resume 0, .release 0 true, .close]

theorem twoResponses_correlated :
    ∃ s, run (step fun _ => .hover) initial twoResponses = some s ∧ s.settledIds = [2, 1] ∧
      Correlated (fun _ => .hover) s := by
  have hrun : (run (step fun _ => .hover) initial twoResponses).map settledIds = some [2, 1] := by
    decide +kernel
  obtain ⟨s, hs, hids⟩ := Option.map_eq_some_iff.mp hrun
  exact ⟨s, hs, hids, calls_correlated hs⟩

end State

end PiEnv.DevTools.LspClient
