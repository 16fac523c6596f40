import PiEnv.Subagent.NativeChild

/-!
# What a native child owns

One operation at a time, a lease for each that has been admitted, and one
teardown of the native session.
-/

namespace PiEnv.Subagent.NativeChild

open Transitions

-- -----
-- The promise
-- -----

structure Owned (s : State) : Prop where
  single : ∀ (i j : Nat) (op op' : Operation), s.operations[i]? = some op → s.operations[j]? = some op' →
    op.phase ≠ .finished → op'.phase ≠ .finished → i = j
  released : ∀ op ∈ s.operations, op.acquired = true →
    op.releases = if op.phase.isOver then 1 else 0
  settled : ∀ op ∈ s.operations, 0 < op.releases → s.inputsSettled op.awaited = true
  teardown : s.teardowns ≤ 1
  closed : ∀ n ∈ s.heldAtClose, n = 0

/-- The wait for the idle session at the end of an operation does not fail, and no
close is called on a child that is torn down and still holds its lease. -/
def orderly (s : State) : Event → Bool
  | .turn i false => s.operations[i]?.all fun op => op.phase != .idling || !s.session
  | .close => s.closing.isSome || s.teardown != some (.settled true) || s.held == 0
  | _ => true

abbrev Orderly (s : State) (event : Event) : Prop := orderly s event = true

-- -----
-- The invariant
-- -----

def NativeChildState.isEnding : NativeChildState → Bool
  | .closing | .closed => true
  | _ => false

/-- Behind the body of an operation, or in the teardown that ends it. -/
def Phase.isEnding : Phase → Bool
  | .tearing | .draining | .idling | .settled | .finished => true
  | _ => false

def Closing.isPast : Closing → Bool
  | .operation _ => false
  | _ => true

structure Operation.Sound (s : State) (op : Operation) : Prop where
  released : op.releases = if op.acquired && op.phase.isOver then 1 else 0
  acquired : op.phase.isOver = false → op.acquired = (op.phase != .acquiring)
  awaited : op.phase ≠ .draining → s.inputsSettled op.awaited = true
  aborting : op.phase = .aborting → s.state.isEnding = true

/-- No operation is on its way and none can be scheduled. -/
structure Shut (s : State) : Prop where
  ending : s.state.isEnding = true
  ended : ∀ op ∈ s.operations, op.phase.isOver = true

structure Inv (s : State) : Prop where
  sound : ∀ op ∈ s.operations, op.Sound s
  single : ∀ (i : Nat) (op : Operation), s.operations[i]? = some op → op.phase ≠ .finished → s.operation = some i
  idle : s.state = .idle → ∀ op ∈ s.operations, op.phase = .finished
  closed : s.state = .closed ↔ ∃ succeeded, s.teardown = some (.settled succeeded)
  torn : s.teardown.isSome → s.state.isEnding = true ∧ ∀ op ∈ s.operations, op.phase.isEnding = true
  counted : s.teardowns = if s.teardown.isSome then 1 else 0
  closing : s.closing.isSome → s.state.isEnding = true
  waiting : ∀ pending, s.closing = some (.operation pending) →
    ∀ (i : Nat) (op : Operation), s.operations[i]? = some op → op.phase ≠ .finished →
      pending = some i
  past : s.closing.any (·.isPast) → ∀ op ∈ s.operations, op.phase.isOver = true
  returned : .teardown ∈ s.closes → s.state = .closed
  closes : ∀ returned ∈ s.closes, s.resolves returned = true → Shut s
  held : ∀ n ∈ s.heldAtClose, n = 0

variable {s s' : State} {i : Nat} {op op' : Operation}

theorem Phase.isOver_ending : ∀ {phase : Phase}, phase.isOver = true → phase.isEnding = true
  | .settled, _ | .finished, _ => rfl

theorem Phase.not_over {phase : Phase} (h : phase.isEnding = false) : phase.isOver = false := by
  cases phase <;> first | rfl | cases h

theorem Phase.not_finished {phase : Phase} (h : phase.isOver = false) : phase ≠ .finished := by
  rintro rfl
  cases h

theorem Shut.held_zero (hs : Inv s) (hshut : Shut s) : s.held = 0 := by
  refine List.countP_eq_zero.mpr fun op hop => ?_
  have hreleased := (hs.sound op hop).released
  rw [hshut.ended op hop, Bool.and_true] at hreleased
  cases hacquired : op.acquired
  · simp [Operation.held, hacquired]
  · simp [Operation.held, hreleased, hacquired]

theorem Inv.owned (hs : Inv s) : Owned s where
  single i j op op' hi hj hop hop' :=
    Option.some.inj ((hs.single i op hi hop).symm.trans (hs.single j op' hj hop'))
  released op hop hacquired := by
    rw [(hs.sound op hop).released, hacquired, Bool.true_and]
  settled op hop hreleases := by
    have hsound := hs.sound op hop
    refine hsound.awaited fun hphase => ?_
    rw [hsound.released, hphase] at hreleases
    simp [Phase.isOver] at hreleases
  teardown := by
    rw [hs.counted]
    split <;> omega
  closed := hs.held

/-- An operation before its end finds nothing torn down. -/
theorem Inv.not_torn (hs : Inv s) (hop : s.operations[i]? = some op)
    (hending : op.phase.isEnding = false) : s.teardown = none := by
  rcases hteardown : s.teardown with _ | teardown
  · rfl
  · have h := (hs.torn (by rw [hteardown]; rfl)).2 op (List.mem_of_getElem? hop)
    rw [hending] at h
    cases h

theorem Inv.not_closed (hs : Inv s) (hnone : s.teardown = none) : s.state ≠ .closed := by
  intro hclosed
  obtain ⟨_, h⟩ := hs.closed.mp hclosed
  rw [hnone] at h
  cases h

-- -----
-- Changes of the state and of one operation
-- -----

theorem Operation.Sound.transfer (h : op.Sound s) (hinputs : s'.inputs = s.inputs)
    (hending : s.state.isEnding = true → s'.state.isEnding = true) : op.Sound s' where
  released := h.released
  acquired := h.acquired
  awaited hphase := by
    have := h.awaited hphase
    rwa [State.inputsSettled, hinputs]
  aborting hphase := hending (h.aborting hphase)

/-- The state becomes one that is neither idle nor closed. -/
theorem Inv.become (hs : Inv s) (hclosed : s.state ≠ .closed) {state : NativeChildState}
    (hidle : state ≠ .idle) (hnot : state ≠ .closed)
    (hending : s.state.isEnding = true → state.isEnding = true) : Inv { s with state } where
  sound op hop := (hs.sound op hop).transfer rfl hending
  single := hs.single
  idle h := absurd h hidle
  closed := ⟨fun h => absurd h hnot, fun h => absurd (hs.closed.mpr h) hclosed⟩
  torn h := ⟨hending (hs.torn h).1, (hs.torn h).2⟩
  counted := hs.counted
  closing h := hending (hs.closing h)
  waiting := hs.waiting
  past := hs.past
  returned h := absurd (hs.returned h) hclosed
  closes returned h hresolves :=
    have hshut := hs.closes returned h hresolves
    ⟨hending hshut.ending, hshut.ended⟩
  held := hs.held

/-- Where an operation may go, as far as others look at its phase. -/
structure Advances (phase phase' : Phase) : Prop where
  finished : phase = .finished → phase' = .finished
  ending : phase.isEnding = true → phase'.isEnding = true
  ended : phase.isOver = true → phase'.isOver = true

theorem Advances.of_not_over {phase phase' : Phase} (h : phase.isOver = false)
    (hending : phase.isEnding = true → phase'.isEnding = true) : Advances phase phase' where
  finished hphase := absurd hphase (Phase.not_finished h)
  ending := hending
  ended hover := by
    rw [h] at hover
    cases hover

theorem put_mem (h : op ∈ (s.put i op').operations) : op ∈ s.operations ∨ op = op' :=
  List.mem_or_eq_of_mem_set h

theorem put_get {j : Nat} (h : (s.put i op').operations[j]? = some op) :
    s.operations[j]? = some op ∨ j = i ∧ op = op' := by
  rw [State.put, List.getElem?_set] at h
  split at h
  · rename_i hj
    split at h
    · exact Or.inr ⟨hj.symm, (Option.some.inj h).symm⟩
    · cases h
  · exact Or.inl h

theorem Inv.put (hs : Inv s) (hop : s.operations[i]? = some op)
    (hadvances : Advances op.phase op'.phase) (hsound : op'.Sound s) : Inv (s.put i op') := by
  have hmem := List.mem_of_getElem? hop
  have hover : (∀ o ∈ s.operations, o.phase.isOver = true) →
      ∀ o ∈ (s.put i op').operations, o.phase.isOver = true := by
    intro h o ho
    rcases put_mem ho with ho | rfl
    · exact h o ho
    · exact hadvances.ended (h op hmem)
  have hsingle : ∀ (p : Nat → Prop), (∀ j o, s.operations[j]? = some o → o.phase ≠ .finished → p j) →
      ∀ j o, (s.put i op').operations[j]? = some o → o.phase ≠ .finished → p j := by
    intro p h j o ho hphase
    rcases put_get ho with ho | ⟨rfl, rfl⟩
    · exact h j o ho hphase
    · exact h j op hop fun hfinished => hphase (hadvances.finished hfinished)
  exact {
    sound := fun o ho => by
      rcases put_mem ho with ho | rfl
      · exact (hs.sound o ho).transfer rfl id
      · exact hsound.transfer rfl id
    single := hsingle _ hs.single
    idle := fun hidle o ho => by
      rcases put_mem ho with ho | rfl
      · exact hs.idle hidle o ho
      · exact hadvances.finished (hs.idle hidle op hmem)
    closed := hs.closed
    torn := fun htorn => ⟨(hs.torn htorn).1, fun o ho => by
      rcases put_mem ho with ho | rfl
      · exact (hs.torn htorn).2 o ho
      · exact hadvances.ending ((hs.torn htorn).2 op hmem)⟩
    counted := hs.counted
    closing := hs.closing
    waiting := fun pending hpending => hsingle _ (hs.waiting pending hpending)
    past := fun hpast => hover (hs.past hpast)
    returned := hs.returned
    closes := fun returned hreturned hresolves =>
      have hshut := hs.closes returned hreturned hresolves
      ⟨hshut.ending, hover hshut.ended⟩
    held := hs.held }

-- -----
-- Scheduled operations
-- -----

theorem schedule_inv (hs : Inv s) (initial : Bool) : Inv (s.schedule initial) := by
  unfold State.schedule
  split
  · exact hs
  rename_i hstate
  have hidle : s.state = .idle := not_not.mp hstate
  have hending : s.state.isEnding = true → False := by
    rw [hidle]
    nofun
  have hnone : s.teardown = none := by
    rcases hteardown : s.teardown with _ | _
    · rfl
    · exact (hending (hs.torn (by rw [hteardown]; rfl)).1).elim
  have hclosing : s.closing = none := by
    rcases hclosing : s.closing with _ | _
    · rfl
    · exact (hending (hs.closing (by rw [hclosing]; rfl))).elim
  exact {
    sound := fun op hop => by
      rcases List.mem_append.mp hop with hop | hop
      · exact (hs.sound op hop).transfer rfl (fun h => (hending h).elim)
      · obtain rfl := List.mem_singleton.mp hop
        exact ⟨rfl, fun _ => rfl, fun _ => rfl, nofun⟩
    single := fun i op hop hphase => by
      rcases Nat.lt_trichotomy i s.operations.length with hi | hi | hi
      · rw [List.getElem?_append_left hi] at hop
        exact absurd (hs.idle hidle op (List.mem_of_getElem? hop)) hphase
      · rw [hi]
      · rw [List.getElem?_eq_none (by simp; omega)] at hop
        cases hop
    idle := nofun
    closed := ⟨nofun, fun h => by rw [hnone] at h; obtain ⟨_, h⟩ := h; cases h⟩
    torn := fun h => by rw [hnone] at h; cases h
    counted := hs.counted
    closing := fun h => by rw [hclosing] at h; cases h
    waiting := fun pending h => by rw [hclosing] at h; cases h
    past := fun h => by rw [hclosing] at h; cases h
    returned := fun h => absurd (hs.returned h) (hs.not_closed hnone)
    closes := fun returned hreturned hresolves =>
      (hending (hs.closes returned hreturned hresolves).ending).elim
    held := hs.held }

/-- An admitted operation that has not ended. -/
structure Operation.Admitted (s : State) (op : Operation) : Prop where
  acquired : op.acquired = true
  releases : op.releases = 0
  awaited : s.inputsSettled op.awaited = true

theorem Operation.Sound.admitted (h : op.Sound s) (hover : op.phase.isOver = false)
    (hacquiring : op.phase ≠ .acquiring) (hdraining : op.phase ≠ .draining) : op.Admitted s where
  acquired := by
    rw [h.acquired hover]
    simpa using hacquiring
  releases := by
    rw [h.released, hover, Bool.and_false]
    rfl
  awaited := h.awaited hdraining

theorem Operation.Admitted.sound (h : op.Admitted s) (phase : Phase) (hover : phase.isOver = false)
    (hacquiring : phase ≠ .acquiring) (haborting : phase = .aborting → s.state.isEnding = true) :
    { op with phase }.Sound s where
  released := by
    simp only [hover, Bool.and_false]
    exact h.releases
  acquired _ := by
    simpa [h.acquired] using hacquiring
  awaited _ := h.awaited
  aborting := haborting

theorem drain_inv (hs : Inv s) (hop : s.operations[i]? = some op) (hover : op.phase.isOver = false)
    (hadmitted : op'.Admitted s) : Inv (s.drain i op') := by
  refine hs.put hop (Advances.of_not_over hover fun _ => rfl) ?_
  exact ⟨by simpa [Phase.isOver] using hadmitted.releases, fun _ => hadmitted.acquired,
    fun h => absurd rfl h, nofun⟩

theorem throw_inv (hs : Inv s) (hop : s.operations[i]? = some op)
    (hending : op.phase.isEnding = false) (hadmitted : op'.Admitted s) : Inv (s.throw i op') := by
  have hover := Phase.not_over hending
  unfold State.throw
  split
  · have hclosed := hs.not_closed (hs.not_torn hop hending)
    have hclosing : op'.Admitted { s with state := .closing } :=
      ⟨hadmitted.acquired, hadmitted.releases, hadmitted.awaited⟩
    refine (hs.become hclosed (by decide) (by decide) fun _ => rfl).put hop ?_ ?_
    · exact Advances.of_not_over hover fun h => by rw [hending] at h; cases h
    · exact hclosing.sound .aborting rfl (by decide) fun _ => rfl
  · exact drain_inv hs hop hover hadmitted

theorem operate_inv (hs : Inv s) (hop : s.operations[i]? = some op)
    (hending : op.phase.isEnding = false) (hadmitted : op'.Admitted s) :
    Inv (s.operate i op') := by
  unfold State.operate
  split
  · exact throw_inv hs hop hending hadmitted
  · rename_i hcancelled
    have hclosed := hs.not_closed (hs.not_torn hop hending)
    refine (hs.become hclosed (by decide) (by decide) fun h => ?_).put hop ?_ ?_
    · cases hstate : s.state with
      | closing => exact absurd (Or.inr hstate) hcancelled
      | closed => exact absurd hstate hclosed
      | _ =>
        rw [hstate] at h
        cases h
    · exact Advances.of_not_over (Phase.not_over hending) fun h => by rw [hending] at h; cases h
    · have hrunning : op'.Admitted { s with state := .running } :=
        ⟨hadmitted.acquired, hadmitted.releases, hadmitted.awaited⟩
      exact hrunning.sound .operating rfl (by decide) nofun

theorem finish_inv (hs : Inv s) (hop : s.operations[i]? = some op) (hphase : op.phase = .settled) :
    Inv (s.finish i op) := by
  have hsound := hs.sound op (List.mem_of_getElem? hop)
  have hput : Inv (s.put i { op with phase := .finished }) := by
    refine hs.put hop ⟨fun _ => rfl, fun _ => rfl, fun _ => rfl⟩ ?_
    exact ⟨by simpa [hphase, Phase.isOver] using hsound.released, nofun,
      fun _ => hsound.awaited (by simp [hphase]), nofun⟩
  have hall : ∀ o ∈ (s.put i { op with phase := .finished }).operations, o.phase = .finished := by
    intro o ho
    obtain ⟨j, hj⟩ := List.mem_iff_getElem?.mp ho
    rcases put_get hj with hj' | ⟨-, rfl⟩
    · by_contra hnot
      have hi := hs.single i op hop (by simp [hphase])
      obtain rfl := Option.some.inj (hi.symm.trans (hs.single j o hj' hnot))
      rw [State.put, List.getElem?_set_self (List.getElem?_eq_some_iff.mp hop).1] at hj
      exact hnot (by rw [← Option.some.inj hj])
    · rfl
  have hending : s.state.isEnding = true → (s.finish i op).state.isEnding = true := by
    intro h
    unfold State.finish
    simp only [State.put]
    cases hstate : s.state <;> rw [hstate] at h <;> first | rfl | cases h
  exact {
    sound := fun o ho => (hput.sound o ho).transfer rfl hending
    single := fun j o hj hnot => absurd (hall o (List.mem_of_getElem? hj)) hnot
    idle := fun _ => hall
    closed := by
      rw [show (s.finish i op).teardown = s.teardown from rfl, ← hs.closed]
      unfold State.finish
      simp only [State.put]
      cases s.state <;> decide
    torn := fun h => ⟨hending (hs.torn h).1, (hput.torn h).2⟩
    counted := hs.counted
    closing := fun h => hending (hs.closing h)
    waiting := fun pending hpending j o hj hnot => absurd (hall o (List.mem_of_getElem? hj)) hnot
    past := hput.past
    returned := fun h => by
      have hclosed := hs.returned h
      unfold State.finish
      simp only [State.put, hclosed]
      rfl
    closes := fun returned hreturned hresolves =>
      have hshut := hput.closes returned hreturned hresolves
      ⟨hending hshut.ending, hshut.ended⟩
    held := hs.held }

-- -----
-- Teardown
-- -----

theorem teardownNative_put : (s.teardownNative).put i op = (s.put i op).teardownNative := by
  cases hteardown : s.teardown with
  | some _ => simp [State.teardownNative, State.put, hteardown]
  | none =>
    simp only [State.teardownNative, State.put, hteardown]
    split <;> rfl

theorem teardownNative_inv (hs : Inv s) (hstate : s.state.isEnding = true)
    (hops : ∀ op ∈ s.operations, op.phase.isEnding = true) : Inv s.teardownNative := by
  unfold State.teardownNative
  split
  · exact hs
  rename_i hnone
  have hclosed := hs.not_closed hnone
  have hcounted : s.teardowns = 0 := by
    rw [hs.counted, hnone]
    rfl
  have hcloses : ∀ returned ∈ s.closes, returned ≠ .teardown := fun returned h heq =>
    hclosed (hs.returned (heq ▸ h))
  dsimp only
  split
  · exact {
      sound := fun op hop => (hs.sound op hop).transfer rfl id
      single := hs.single
      idle := hs.idle
      closed := ⟨fun h => absurd h hclosed, nofun⟩
      torn := fun _ => ⟨hstate, hops⟩
      counted := by simp [hcounted]
      closing := hs.closing
      waiting := hs.waiting
      past := hs.past
      returned := hs.returned
      closes := fun returned h hresolves => by
        cases returned with
        | teardown => exact absurd rfl (hcloses _ h)
        | _ =>
          have hshut := hs.closes _ h hresolves
          exact ⟨hshut.ending, hshut.ended⟩
      held := hs.held }
  · exact {
      sound := fun op hop => (hs.sound op hop).transfer rfl fun _ => rfl
      single := hs.single
      idle := nofun
      closed := ⟨fun _ => ⟨true, rfl⟩, fun _ => rfl⟩
      torn := fun _ => ⟨rfl, hops⟩
      counted := by simp [hcounted]
      closing := fun _ => rfl
      waiting := hs.waiting
      past := hs.past
      returned := fun _ => rfl
      closes := fun returned h hresolves => by
        cases returned with
        | teardown => exact absurd rfl (hcloses _ h)
        | _ => exact ⟨rfl, (hs.closes _ h hresolves).ended⟩
      held := hs.held }

theorem teardownNative_kept :
    s.teardownNative.operations = s.operations ∧ s.teardownNative.closing = s.closing := by
  unfold State.teardownNative
  split
  · exact ⟨rfl, rfl⟩
  · dsimp only
    split <;> exact ⟨rfl, rfl⟩

theorem teardownDone_inv (hs : Inv s) {succeeded : Bool}
    (hdone : s.teardownDone succeeded = some s') : Inv s' := by
  unfold State.teardownDone at hdone
  split at hdone
  case h_2 => cases hdone
  rename_i hrunning
  obtain rfl := Option.some.inj hdone
  have hclosed : s.state ≠ .closed := by
    intro h
    obtain ⟨_, h⟩ := hs.closed.mp h
    rw [hrunning] at h
    cases h
  have hsome : s.teardown.isSome := by
    rw [hrunning]
    rfl
  exact {
    sound := fun op hop => (hs.sound op hop).transfer rfl fun _ => rfl
    single := hs.single
    idle := nofun
    closed := ⟨fun _ => ⟨succeeded, rfl⟩, fun _ => rfl⟩
    torn := fun _ => ⟨rfl, (hs.torn hsome).2⟩
    counted := by rw [hs.counted, hrunning]; rfl
    closing := fun _ => rfl
    waiting := hs.waiting
    past := hs.past
    returned := fun _ => rfl
    closes := fun returned h hresolves => by
      cases returned with
      | teardown => exact absurd (hs.returned h) hclosed
      | _ => exact ⟨rfl, (hs.closes _ h hresolves).ended⟩
    held := hs.held }

theorem turn_inv (hs : Inv s) (hop : s.operations[i]? = some op) {succeeded : Bool}
    (horderly : Orderly s (.turn i succeeded)) (hturn : s.turn i op succeeded = some s') :
    Inv s' := by
  have hsound := hs.sound op (List.mem_of_getElem? hop)
  unfold State.turn at hturn
  split at hturn
  case h_1 hphase =>
    have hreleases : op.releases = 0 := by simpa [hphase, Phase.isOver] using hsound.released
    have hawaited := hsound.awaited (by simp [hphase])
    have hadmitted : { op with acquired := true }.Admitted s := ⟨rfl, hreleases, hawaited⟩
    split at hturn
    · dsimp only at hturn
      split at hturn
      · obtain rfl := Option.some.inj hturn
        refine hs.put hop (Advances.of_not_over (by rw [hphase]; rfl) (by rw [hphase]; nofun)) ?_
        exact hadmitted.sound .starting rfl (by decide) nofun
      · obtain rfl := Option.some.inj hturn
        exact operate_inv hs hop (by rw [hphase]; rfl) hadmitted
    · obtain rfl := Option.some.inj hturn
      refine hs.put hop (Advances.of_not_over (by rw [hphase]; rfl) fun _ => rfl) ?_
      have hacquired := hsound.acquired (by rw [hphase]; rfl)
      rw [hphase] at hacquired
      exact ⟨by simp [hreleases, hacquired], nofun, fun _ => hawaited, nofun⟩
  case h_2 hphase =>
    have hadmitted := hsound.admitted (by rw [hphase]; rfl) (by simp [hphase]) (by simp [hphase])
    obtain rfl := Option.some.inj hturn
    split
    · exact operate_inv hs hop (by rw [hphase]; rfl) hadmitted
    · exact throw_inv hs hop (by rw [hphase]; rfl) hadmitted
  case h_3 hphase =>
    have hadmitted := hsound.admitted (by rw [hphase]; rfl) (by simp [hphase]) (by simp [hphase])
    obtain rfl := Option.some.inj hturn
    split
    · exact drain_inv hs hop (by rw [hphase]; rfl) hadmitted
    · exact throw_inv hs hop (by rw [hphase]; rfl) hadmitted
  case h_4 hphase =>
    have hover : op.phase.isOver = false := by
      rw [hphase]
      rfl
    have hadmitted := hsound.admitted hover (by simp [hphase]) (by simp [hphase])
    have hending := hsound.aborting hphase
    split at hturn
    · obtain rfl := Option.some.inj hturn
      rw [teardownNative_put]
      have hput : Inv (s.put i { op with phase := .tearing }) :=
        hs.put hop (Advances.of_not_over hover fun _ => rfl)
          (hadmitted.sound .tearing rfl (by decide) nofun)
      refine teardownNative_inv hput hending fun o ho => ?_
      obtain ⟨j, hj⟩ := List.mem_iff_getElem?.mp ho
      -- the operations that are not finished are this one
      by_contra hnot
      have hunfinished : o.phase ≠ .finished := by
        intro h
        rw [h] at hnot
        exact hnot rfl
      rcases put_get hj with hj' | ⟨-, rfl⟩
      · have hi := hs.single i op hop (by simp [hphase])
        obtain rfl := Option.some.inj (hi.symm.trans (hs.single j o hj' hunfinished))
        rw [State.put, List.getElem?_set_self (List.getElem?_eq_some_iff.mp hop).1] at hj
        exact hnot (by rw [← Option.some.inj hj]; rfl)
      · exact hnot rfl
    · obtain rfl := Option.some.inj hturn
      exact drain_inv hs hop hover hadmitted
  case h_5 hphase =>
    have hadmitted := hsound.admitted (by rw [hphase]; rfl) (by simp [hphase]) (by simp [hphase])
    split at hturn
    · obtain rfl := Option.some.inj hturn
      exact drain_inv hs hop (by rw [hphase]; rfl) hadmitted
    · cases hturn
  case h_6 hphase =>
    obtain ⟨hsettled, heq⟩ := Option.ite_none_right_eq_some.mp hturn
    obtain rfl := Option.some.inj heq
    have hreleases : op.releases = 0 := by simpa [hphase, Phase.isOver] using hsound.released
    have hacquired : op.acquired = true := by
      rw [hsound.acquired (by rw [hphase]; rfl), hphase]
      rfl
    refine hs.put hop (Advances.of_not_over (by rw [hphase]; rfl) fun _ => rfl) ?_
    exact Operation.Admitted.sound ⟨hacquired, hreleases, hsettled⟩ .idling rfl (by decide) nofun
  case h_7 hphase =>
    have hadmitted := hsound.admitted (by rw [hphase]; rfl) (by simp [hphase]) (by simp [hphase])
    have hsucceeded : (succeeded || !s.session) = true := by
      cases succeeded with
      | true => rfl
      | false => simpa [Orderly, orderly, hop, hphase] using horderly
    rw [if_pos hsucceeded] at hturn
    obtain rfl := Option.some.inj hturn
    refine hs.put hop (Advances.of_not_over (by rw [hphase]; rfl) fun _ => rfl) ?_
    exact ⟨by simp [hadmitted.releases, hadmitted.acquired, Phase.isOver], nofun,
      fun _ => hadmitted.awaited, nofun⟩
  case h_8 hphase =>
    obtain rfl := Option.some.inj hturn
    exact finish_inv hs hop hphase
  case h_9 => cases hturn

-- -----
-- The session, the inputs and the signals
-- -----

theorem starting_inv (hs : Inv s) {session : Bool} (hstarting : s.starting i session = some s') :
    Inv s' := by
  obtain ⟨op, hop, hstarting⟩ := Option.bind_eq_some_iff.mp hstarting
  obtain ⟨-, heq⟩ := Option.ite_none_right_eq_some.mp hstarting
  obtain rfl := Option.some.inj heq
  exact {
    sound := fun op hop => (hs.sound op hop).transfer rfl id
    single := hs.single
    idle := hs.idle
    closed := hs.closed
    torn := hs.torn
    counted := hs.counted
    closing := hs.closing
    waiting := hs.waiting
    past := hs.past
    returned := hs.returned
    closes := fun returned h hresolves =>
      have hshut := hs.closes returned h hresolves
      ⟨hshut.ending, hshut.ended⟩
    held := hs.held }

theorem abort_inv (hs : Inv s) (i : Nat) : Inv (s.abort i) := by
  unfold State.abort
  split
  · exact hs
  · rename_i op hop
    have hsound := hs.sound op (List.mem_of_getElem? hop)
    exact hs.put hop ⟨id, id, id⟩
      ⟨hsound.released, hsound.acquired, hsound.awaited, hsound.aborting⟩

theorem abortController_inv (hs : Inv s) : Inv s.abortController := by
  unfold State.abortController
  split
  · exact hs
  · exact abort_inv hs _

/-- Settled inputs stay settled. -/
theorem Inv.withInputs (hs : Inv s) {inputs : List Bool}
    (hinputs : ∀ i : Nat, s.inputs[i]? = some true → inputs[i]? = some true) :
    Inv { s with inputs } where
  sound op hop := by
    have hsound := hs.sound op hop
    refine ⟨hsound.released, hsound.acquired, fun hphase => ?_, hsound.aborting⟩
    refine List.all_eq_true.mpr fun i hi => ?_
    have hsettled := List.all_eq_true.mp (hsound.awaited hphase) i hi
    exact beq_iff_eq.mpr (hinputs i (beq_iff_eq.mp hsettled))
  single := hs.single
  idle := hs.idle
  closed := hs.closed
  torn := hs.torn
  counted := hs.counted
  closing := hs.closing
  waiting := hs.waiting
  past := hs.past
  returned := hs.returned
  closes returned h hresolves :=
    have hshut := hs.closes returned h hresolves
    ⟨hshut.ending, hshut.ended⟩
  held := hs.held

theorem input_inv (hs : Inv s) (streaming : Bool) : Inv (s.input streaming) := by
  unfold State.input
  split
  · refine hs.withInputs fun i hi => ?_
    rw [List.getElem?_append_left (List.getElem?_eq_some_iff.mp hi).1]
    exact hi
  · exact hs

theorem inputSettled_inv (hs : Inv s) (i : Nat) : Inv { s with inputs := s.inputs.set i true } := by
  refine hs.withInputs fun j hj => ?_
  rw [List.getElem?_set]
  split
  · rename_i hij
    rw [if_pos (hij ▸ (List.getElem?_eq_some_iff.mp hj).1)]
  · exact hj

-- -----
-- Closing
-- -----

theorem abortController_get {j : Nat} (h : s.abortController.operations[j]? = some op) :
    ∃ o, s.operations[j]? = some o ∧ op.phase = o.phase := by
  unfold State.abortController State.abort at h
  split at h
  · exact ⟨op, h, rfl⟩
  split at h
  · exact ⟨op, h, rfl⟩
  · rename_i o ho
    rcases put_get h with h | ⟨rfl, rfl⟩
    · exact ⟨op, h, rfl⟩
    · exact ⟨o, ho, rfl⟩

theorem abortController_state : s.abortController.state = s.state ∧
    s.abortController.operation = s.operation ∧ s.abortController.closing = s.closing := by
  unfold State.abortController State.abort
  split
  · exact ⟨rfl, rfl, rfl⟩
  split <;> exact ⟨rfl, rfl, rfl⟩

theorem close_inv (hs : Inv s) (horderly : Orderly s .close) : Inv s.close := by
  unfold State.close
  split
  · rename_i closing hclosing
    exact {
      sound := fun op hop => (hs.sound op hop).transfer rfl id
      single := hs.single
      idle := hs.idle
      closed := hs.closed
      torn := hs.torn
      counted := hs.counted
      closing := hs.closing
      waiting := hs.waiting
      past := hs.past
      returned := fun h => by
        rcases List.mem_append.mp h with h | h
        · exact hs.returned h
        · cases List.mem_singleton.mp h
      closes := fun returned h hresolves => by
        rcases List.mem_append.mp h with h | h
        · have hshut := hs.closes returned h hresolves
          exact ⟨hshut.ending, hshut.ended⟩
        · obtain rfl := List.mem_singleton.mp h
          have hsettled : s.closing = some (.settled true) := beq_iff_eq.mp hresolves
          exact ⟨hs.closing (by rw [hsettled]; rfl), hs.past (by rw [hsettled]; rfl)⟩
      held := hs.held }
  rename_i hnone
  split
  · rename_i hstate
    obtain ⟨succeeded, hteardown⟩ := hs.closed.mp hstate
    have hsome : s.teardown.isSome = true := by
      rw [hteardown]
      rfl
    exact {
      sound := fun op hop => (hs.sound op hop).transfer rfl id
      single := hs.single
      idle := hs.idle
      closed := hs.closed
      torn := hs.torn
      counted := hs.counted
      closing := hs.closing
      waiting := hs.waiting
      past := hs.past
      returned := fun _ => hstate
      closes := fun returned h hresolves => by
        rcases List.mem_append.mp h with h | h
        · have hshut := hs.closes returned h hresolves
          exact ⟨hshut.ending, hshut.ended⟩
        · obtain rfl := List.mem_singleton.mp h
          rw [if_pos hsome] at hresolves
          have hsucceeded : s.teardown = some (.settled true) := beq_iff_eq.mp hresolves
          have hheld : s.held = 0 := by
            simpa [Orderly, orderly, hnone, hsucceeded] using horderly
          refine ⟨by rw [hstate]; rfl, fun op hop => ?_⟩
          -- an admitted operation that is not over holds its lease
          by_contra hover
          have hnot : op.phase.isOver = false := Bool.not_eq_true _ ▸ hover
          have hsound := hs.sound op hop
          have hending := (hs.torn hsome).2 op hop
          have hacquired : op.acquired = true := by
            rw [hsound.acquired hnot, bne_iff_ne]
            intro hphase
            rw [hphase] at hending
            cases hending
          refine List.countP_eq_zero.mp hheld op hop ?_
          simp [Operation.held, hsound.released, hacquired, hnot]
      held := hs.held }
  · rename_i hstate
    obtain ⟨hsame, hoperation, hclosing⟩ := abortController_state (s := s)
    have hbecome := (abortController_inv hs).become (by rw [hsame]; exact hstate)
      (by decide : NativeChildState.closing ≠ .idle) (by decide) fun _ => rfl
    exact {
      sound := fun op hop => (hbecome.sound op hop).transfer rfl id
      single := hbecome.single
      idle := nofun
      closed := hbecome.closed
      torn := hbecome.torn
      counted := hbecome.counted
      closing := fun _ => rfl
      waiting := fun pending hpending j op hop hphase => by
        obtain ⟨o, ho, heq⟩ := abortController_get hop
        rw [← Closing.operation.inj (Option.some.inj hpending)]
        exact hs.single j o ho (heq ▸ hphase)
      past := nofun
      returned := fun h => by
        rcases List.mem_append.mp h with h | h
        · exact absurd (hs.returned h) hstate
        · cases List.mem_singleton.mp h
      closes := fun returned h hresolves => by
        cases returned with
        | closing => cases hresolves
        | teardown =>
          rcases List.mem_append.mp h with h | h
          · exact absurd (hs.returned h) hstate
          · cases List.mem_singleton.mp h
        | resolved =>
          rcases List.mem_append.mp h with h | h
          · have hshut := hs.closes _ h rfl
            refine ⟨rfl, fun op hop => ?_⟩
            obtain ⟨j, hj⟩ := List.mem_iff_getElem?.mp hop
            obtain ⟨o, ho, heq⟩ := abortController_get hj
            rw [heq]
            exact hshut.ended o (List.mem_of_getElem? ho)
          · cases List.mem_singleton.mp h
      held := hbecome.held }

/-- A close that is past its operation goes on. -/
theorem Inv.withClosing (hs : Inv s) (hclosing : s.closing.isSome)
    (hover : ∀ op ∈ s.operations, op.phase.isOver = true) {closing : Closing}
    (hpast : closing.isPast = true) : Inv { s with closing := some closing } where
  sound op hop := (hs.sound op hop).transfer rfl id
  single := hs.single
  idle := hs.idle
  closed := hs.closed
  torn := hs.torn
  counted := hs.counted
  closing _ := hs.closing hclosing
  waiting pending hpending := by
    rw [Option.some.inj hpending] at hpast
    cases hpast
  past _ := hover
  returned := hs.returned
  closes returned h hresolves := by
    cases returned with
    | closing => exact ⟨hs.closing hclosing, hover⟩
    | _ =>
      have hshut := hs.closes _ h hresolves
      exact ⟨hshut.ending, hshut.ended⟩
  held := hs.held

theorem closingTurn_inv (hs : Inv s) {succeeded : Bool}
    (hturn : s.closingTurn succeeded = some s') : Inv s' := by
  unfold State.closingTurn at hturn
  split at hturn
  case h_1 pending hclosing =>
    obtain ⟨hpending, heq⟩ := Option.ite_none_right_eq_some.mp hturn
    obtain rfl := Option.some.inj heq
    refine hs.withClosing (by rw [hclosing]; rfl) (fun op hop => ?_) rfl
    obtain ⟨i, hi⟩ := List.mem_iff_getElem?.mp hop
    by_cases hphase : op.phase = .finished
    · rw [hphase]
      rfl
    · rw [hs.waiting pending hclosing i op hi hphase] at hpending
      simpa [hi] using hpending
  case h_2 pending hclosing =>
    obtain ⟨-, heq⟩ := Option.ite_none_right_eq_some.mp hturn
    obtain rfl := Option.some.inj heq
    exact hs.withClosing (by rw [hclosing]; rfl) (hs.past (by rw [hclosing]; rfl)) rfl
  case h_3 hclosing =>
    have hsome : s.closing.isSome := by
      rw [hclosing]
      rfl
    have hover := hs.past (by rw [hclosing]; rfl)
    split at hturn
    · obtain rfl := Option.some.inj hturn
      have htorn := teardownNative_inv hs (hs.closing hsome) fun op hop =>
        Phase.isOver_ending (hover op hop)
      obtain ⟨hoperations, hkept⟩ := teardownNative_kept (s := s)
      exact htorn.withClosing (hkept ▸ hsome) (hoperations ▸ hover) rfl
    · obtain rfl := Option.some.inj hturn
      exact hs.withClosing hsome hover rfl
  case h_4 hclosing =>
    split at hturn
    · obtain rfl := Option.some.inj hturn
      exact hs.withClosing (by rw [hclosing]; rfl) (hs.past (by rw [hclosing]; rfl)) rfl
    · cases hturn
  case h_5 => cases hturn
  case h_6 => cases hturn

theorem closeResolved_inv (hs : Inv s) {returned : Returned} (hreturned : returned ∈ s.closes)
    (hresolves : s.resolves returned = true) :
    Inv { s with heldAtClose := s.held :: s.heldAtClose } where
  sound op hop := (hs.sound op hop).transfer rfl id
  single := hs.single
  idle := hs.idle
  closed := hs.closed
  torn := hs.torn
  counted := hs.counted
  closing := hs.closing
  waiting := hs.waiting
  past := hs.past
  returned := hs.returned
  closes returned h hresolves :=
    have hshut := hs.closes returned h hresolves
    ⟨hshut.ending, hshut.ended⟩
  held n hn := by
    rcases List.mem_cons.mp hn with rfl | hn
    · exact (hs.closes returned hreturned hresolves).held_zero hs
    · exact hs.held n hn

-- -----
-- Runs
-- -----

theorem step_inv (hs : Inv s) {event : Event} (horderly : Orderly s event)
    (hstep : step s event = some s') : Inv s' := by
  cases event with
  | schedule initial =>
    obtain rfl := Option.some.inj hstep
    exact schedule_inv hs initial
  | input streaming =>
    obtain rfl := Option.some.inj hstep
    exact input_inv hs streaming
  | inputSettled i =>
    obtain rfl := Option.some.inj hstep
    exact inputSettled_inv hs i
  | turn i succeeded =>
    obtain ⟨op, hop, hturn⟩ := Option.bind_eq_some_iff.mp hstep
    exact turn_inv hs hop horderly hturn
  | servicesCreated i => exact starting_inv hs hstep
  | sessionCreated i => exact starting_inv hs hstep
  | aborted i =>
    obtain rfl := Option.some.inj hstep
    exact abort_inv hs i
  | cancel =>
    obtain rfl := Option.some.inj hstep
    exact abortController_inv hs
  | close =>
    obtain rfl := Option.some.inj hstep
    exact close_inv hs horderly
  | closingTurn succeeded => exact closingTurn_inv hs hstep
  | teardownDone succeeded => exact teardownDone_inv hs hstep
  | closeResolved call =>
    obtain ⟨returned, hreturned, heq⟩ := Option.bind_eq_some_iff.mp hstep
    obtain ⟨hresolves, heq⟩ := Option.ite_none_right_eq_some.mp heq
    obtain rfl := Option.some.inj heq
    exact closeResolved_inv hs (List.mem_of_getElem? hreturned) hresolves

theorem initial_inv : Inv initial where
  sound := nofun
  single i op hop := by
    rw [initial, List.getElem?_nil] at hop
    cases hop
  idle _ := nofun
  closed := ⟨nofun, nofun⟩
  torn := nofun
  counted := rfl
  closing := nofun
  waiting := nofun
  past := nofun
  returned := nofun
  closes := nofun
  held := nofun

def TornDown (s : State) : Prop := ∃ succeeded, s.teardown = some (.settled succeeded)

theorem teardownNative_settled (h : TornDown s) : s.teardownNative = s := by
  obtain ⟨succeeded, h⟩ := h
  rw [State.teardownNative, h]

theorem throw_settled (h : TornDown s) : TornDown (s.throw i op) := by
  unfold State.throw
  split <;> exact h

theorem operate_settled (h : TornDown s) : TornDown (s.operate i op) := by
  unfold State.operate
  split
  · exact throw_settled h
  · exact h

theorem turn_settled {succeeded : Bool} (h : TornDown s)
    (hturn : s.turn i op succeeded = some s') : TornDown s' := by
  unfold State.turn at hturn
  split at hturn
  case h_1 =>
    split at hturn
    · dsimp only at hturn
      split at hturn <;> obtain rfl := Option.some.inj hturn
      · exact h
      · exact operate_settled h
    · obtain rfl := Option.some.inj hturn
      exact h
  case h_2 =>
    obtain rfl := Option.some.inj hturn
    split
    · exact operate_settled h
    · exact throw_settled h
  case h_3 =>
    obtain rfl := Option.some.inj hturn
    split
    · exact h
    · exact throw_settled h
  case h_4 =>
    rw [teardownNative_settled h] at hturn
    split at hturn <;> obtain rfl := Option.some.inj hturn <;> exact h
  case h_5 =>
    split at hturn
    · obtain rfl := Option.some.inj hturn
      exact h
    · cases hturn
  case h_6 =>
    obtain ⟨-, heq⟩ := Option.ite_none_right_eq_some.mp hturn
    obtain rfl := Option.some.inj heq
    exact h
  case h_7 => split at hturn <;> obtain rfl := Option.some.inj hturn <;> exact h
  case h_8 =>
    obtain rfl := Option.some.inj hturn
    exact h
  case h_9 => cases hturn

theorem abort_settled (h : TornDown s) : TornDown (s.abort i) := by
  unfold State.abort
  split <;> exact h

theorem abortController_settled (h : TornDown s) : TornDown s.abortController := by
  unfold State.abortController
  split
  · exact h
  · exact abort_settled h

theorem starting_settled {session : Bool} (h : TornDown s)
    (hstarting : s.starting i session = some s') : TornDown s' := by
  obtain ⟨op, hop, hstarting⟩ := Option.bind_eq_some_iff.mp hstarting
  obtain ⟨-, heq⟩ := Option.ite_none_right_eq_some.mp hstarting
  obtain rfl := Option.some.inj heq
  exact h

/-- No step takes back a teardown that is over. -/
theorem step_settled (h : TornDown s) {event : Event} (hstep : step s event = some s') :
    TornDown s' := by
  cases event with
  | schedule initial =>
    obtain rfl := Option.some.inj hstep
    unfold State.schedule
    split <;> exact h
  | input streaming =>
    obtain rfl := Option.some.inj hstep
    unfold State.input
    split <;> exact h
  | inputSettled i =>
    obtain rfl := Option.some.inj hstep
    exact h
  | turn i succeeded =>
    obtain ⟨op, hop, hturn⟩ := Option.bind_eq_some_iff.mp hstep
    exact turn_settled h hturn
  | servicesCreated i => exact starting_settled h hstep
  | sessionCreated i => exact starting_settled h hstep
  | aborted i =>
    obtain rfl := Option.some.inj hstep
    exact abort_settled h
  | cancel =>
    obtain rfl := Option.some.inj hstep
    exact abortController_settled h
  | close =>
    obtain rfl := Option.some.inj hstep
    unfold State.close
    split
    · exact h
    split
    · exact h
    · exact abortController_settled h
  | closingTurn succeeded =>
    simp only [step, State.closingTurn, teardownNative_settled h] at hstep
    split at hstep
    case h_3 => split at hstep <;> obtain rfl := Option.some.inj hstep <;> exact h
    case h_4 =>
      split at hstep
      · obtain rfl := Option.some.inj hstep
        exact h
      · cases hstep
    case h_5 => cases hstep
    case h_6 => cases hstep
    all_goals
      obtain ⟨-, heq⟩ := Option.ite_none_right_eq_some.mp hstep
      obtain rfl := Option.some.inj heq
      exact h
  | teardownDone succeeded =>
    obtain ⟨_, h⟩ := h
    simp [step, State.teardownDone, h] at hstep
  | closeResolved call =>
    obtain ⟨returned, hreturned, heq⟩ := Option.bind_eq_some_iff.mp hstep
    obtain ⟨-, heq⟩ := Option.ite_none_right_eq_some.mp heq
    obtain rfl := Option.some.inj heq
    exact h

theorem child_owned {events : List Event} (hrun : run step initial events = some s)
    (horderly : AllMeet step Orderly initial events) :
    Owned s ∧ ∀ more s', run step s more = some s' → AllMeet step Orderly s more →
      s.state = .closed → s'.state = .closed := by
  have hkeep (s : State) (event : Event) (s' : State) (hs : Inv s) (hok : Orderly s event)
      (hstep : step s event = some s') : Inv s' := step_inv hs hok hstep
  have hs := Transitions.invariant hkeep initial_inv horderly hrun
  refine ⟨hs.owned, fun more s' hmore hmeet hclosed => ?_⟩
  have hboth (s : State) (event : Event) (s' : State) (h : Inv s ∧ TornDown s)
      (hok : Orderly s event) (hstep : step s event = some s') : Inv s' ∧ TornDown s' :=
    ⟨step_inv h.1 hok hstep, step_settled h.2 hstep⟩
  obtain ⟨hinv, htorn⟩ := Transitions.invariant hboth ⟨hs, hs.closed.mp hclosed⟩ hmeet hmore
  exact hinv.closed.mpr htorn

/-- An initial run up to its operation, with an input on its way. -/
def streamed : List Event :=
  [.schedule true, .turn 0 true, .servicesCreated 0, .sessionCreated 0, .turn 0 true, .input true]

/-- The initial run fails and is torn down; a close waits for its end. -/
def closedInTime : List Event :=
  streamed ++ [.turn 0 false, .close, .turn 0 true, .teardownDone true, .turn 0 true,
    .inputSettled 0, .turn 0 true, .turn 0 true, .closingTurn true, .turn 0 true, .closingTurn true,
    .closingTurn true, .closingTurn true, .closeResolved 0]

theorem closedInTime_owned :
    ∃ s, run step initial closedInTime = some s ∧ s.heldAtClose = [0] ∧ s.teardowns = 1 ∧
      Owned s := by
  have hmap : (run step initial closedInTime).map (fun s => (s.heldAtClose, s.teardowns)) =
      some ([0], 1) := by decide +kernel
  obtain ⟨s, hrun, hs⟩ := Option.map_eq_some_iff.mp hmap
  obtain ⟨hheld, hteardowns⟩ := Prod.mk.inj hs
  exact ⟨s, hrun, hheld, hteardowns, (child_owned hrun (by decide +kernel)).1⟩

/-- The close comes when the teardown is over and the input is still on its way. -/
def closedEarly : List Event :=
  streamed ++ [.turn 0 false, .turn 0 true, .teardownDone true, .turn 0 true, .close,
    .closeResolved 0]

theorem closedEarly_notOwned :
    ¬ ∀ (events : List Event) (s : State), run step initial events = some s → Owned s := by
  intro hclaim
  have hmap : (run step initial closedEarly).map (·.heldAtClose) = some [1] := by decide +kernel
  obtain ⟨s, hrun, hheld⟩ := Option.map_eq_some_iff.mp hmap
  have hzero := (hclaim closedEarly s hrun).closed 1 (by rw [hheld]; exact List.mem_singleton_self 1)
  cases hzero

end PiEnv.Subagent.NativeChild
