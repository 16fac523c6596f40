import PiEnv.DevTools.DiagnosticsCache
import Mathlib.Tactic.Linarith

/-!
# Settled revisions and quiet uris

When a wait returns because a revision is settled, and nothing was published for
its uri during the last settle interval.
-/

namespace PiEnv.DevTools.DiagnosticsCache

open Js

-- -----
-- Histories
-- -----

namespace Observation

def publishes (uri : Str) : Observation → Bool
  | .published u _ => u == uri
  | _ => false

/-- Whether the revisions of the uri start again. -/
def resets (uri : Str) : Observation → Bool
  | .deleted u => u == uri
  | .cleared => true
  | _ => false

end Observation

/-- The publications since the uri was last deleted or cleared. -/
def published (uri : Str) : List Observation → Nat
  | [] => 0
  | o :: earlier =>
    if o.resets uri then 0
    else if o.publishes uri then published uri earlier + 1
    else published uri earlier

/-- The last record of a settled revision that the cache still has: its time, and
how long it was quiet before. -/
def lastRecord (uri : Str) : List Observation → Option (Rat × Rat)
  | [] => none
  | .recorded u time quietFor :: earlier => if u = uri then some (time, quietFor) else lastRecord uri earlier
  | o :: earlier => if o.resets uri then none else lastRecord uri earlier

/-- Nothing is published for the uri after a time. -/
def QuietSince (uri : Str) (time : Rat) (history : List Observation) : Prop :=
  ∀ at', .published uri at' ∈ history → at' ≤ time

/-- Every wait that returns before its deadline because of a settled revision
was preceded by a quiet settle interval. -/
def Quiet : List Observation → Prop
  | [] => True
  | .reported uri time settleMs deadline :: earlier =>
    (time < deadline → QuietSince uri (time - settleMs) earlier) ∧ Quiet earlier
  | _ :: earlier => Quiet earlier

/-- What happened during a sleep that began when the history was that long. -/
def since (begun : Nat) (history : List Observation) : List Observation :=
  history.take (history.length - begun)

/-- The uri was deleted or cleared during a sleep and got as many publications
afterwards as it had before. -/
def repeats (uri : Str) (revision begun : Nat) (history : List Observation) : Bool :=
  (since begun history).any (·.resets uri) && (since begun history).any (·.publishes uri) &&
    published uri history == revision

/-- Whether a record covers the settle interval of a wait that takes it over. -/
def covers (record : Option (Rat × Rat)) (settleMs now : Rat) : Bool :=
  match record with
  | some (time, quietFor) => settleMs ≤ quietFor + (now - time)
  | none => true

/-- What a step must meet: no sleep ends with a repeated revision, and no wait
takes over a record that does not cover its settle interval. -/
def covered (s : State) : Event → Bool
  | .wake i =>
    match s.waits[i]? with
    | some ⟨uri, _, _, .sleeping _ revision _ begun⟩ => !repeats uri revision begun s.history
    | _ => true
  | .resume i =>
    match s.waits[i]? with
    | some ⟨uri, settleMs, _, .resumed⟩ =>
      s.settledRevisions.get uri != some (s.revision uri) ||
        covers (lastRecord uri s.history) settleMs s.now
    | _ => true
  | _ => true

abbrev Covered (s : State) (event : Event) : Prop := covered s event = true

-- -----
-- Before and since
-- -----

variable {uri : Str} {history : List Observation}

/-- What happened before a sleep. -/
def before (begun : Nat) (history : List Observation) : List Observation :=
  history.drop (history.length - begun)

theorem since_before (begun : Nat) (history : List Observation) :
    since begun history ++ before begun history = history :=
  List.take_append_drop _ _

theorem before_cons {begun : Nat} {o : Observation} (h : begun ≤ history.length) :
    before begun (o :: history) = before begun history := by
  unfold before
  rw [List.length_cons, show history.length + 1 - begun = (history.length - begun) + 1 by omega,
    List.drop_succ_cons]

theorem before_now : before history.length history = history := by
  unfold before
  rw [Nat.sub_self, List.drop_zero]

theorem published_cons {o : Observation} (h : o.resets uri = false) (h' : o.publishes uri = false) :
    published uri (o :: history) = published uri history := by
  rw [published, if_neg (by simp [h]), if_neg (by simp [h'])]

theorem published_published (other uri : Str) (time : Rat) (history : List Observation) :
    published other (.published uri time :: history) =
      if other = uri then published other history + 1 else published other history := by
  by_cases h : other = uri
  · simp [published, Observation.resets, Observation.publishes, h]
  · simp [published, Observation.resets, Observation.publishes, h, Ne.symm h]

theorem published_deleted (other uri : Str) (history : List Observation) :
    published other (.deleted uri :: history) = if other = uri then 0 else published other history := by
  by_cases h : other = uri
  · simp [published, Observation.resets, h]
  · simp [published, Observation.resets, Observation.publishes, h, Ne.symm h]

theorem published_append (history : List Observation) {later : List Observation} (h : later.any (·.resets uri) = false) :
    published uri (later ++ history) = later.countP (·.publishes uri) + published uri history := by
  induction later with
  | nil => simp
  | cons o rest ih =>
    simp only [List.any_cons, Bool.or_eq_false_iff] at h
    rw [List.cons_append, published, if_neg (by simp [h.1]), ih h.2, List.countP_cons]
    split
    · omega
    · omega

theorem lastRecord_cons {o : Observation} (h : o.resets uri = false)
    (h' : ∀ time quietFor, o ≠ .recorded uri time quietFor) :
    lastRecord uri (o :: history) = lastRecord uri history := by
  cases o with
  | recorded u time quietFor =>
    have hne : u ≠ uri := fun heq => h' time quietFor (heq ▸ rfl)
    simp [lastRecord, hne]
  | _ => simp [lastRecord, h]

theorem QuietSince.mono {time later : Rat} (h : QuietSince uri time history) (hle : time ≤ later) :
    QuietSince uri later history := fun at' hmem => (h at' hmem).trans hle

theorem QuietSince.cons {time : Rat} {o : Observation} (h : QuietSince uri time history)
    (ho : o.publishes uri = false) : QuietSince uri time (o :: history) := by
  intro at' hmem
  rcases List.mem_cons.mp hmem with rfl | hmem
  · simp [Observation.publishes] at ho
  · exact h at' hmem

/-- A sleep that ends with the revision it began with was quiet, unless the
revision is a repeated one. -/
theorem quiet_sleep {begun : Nat} {time : Rat}
    (hsame : published uri (before begun history) = published uri history)
    (hnot : repeats uri (published uri history) begun history = false)
    (hbefore : QuietSince uri time (before begun history)) : QuietSince uri time history := by
  have hsilent : (since begun history).any (·.publishes uri) = false := by
    refine Bool.eq_false_iff.mpr fun hpublished => ?_
    by_cases hreset : (since begun history).any (·.resets uri) = true
    · simp [repeats, hreset, hpublished] at hnot
    · have hcount := published_append (before begun history)
        (Bool.eq_false_iff.mpr hreset)
      rw [since_before, ← hsame] at hcount
      have hzero : (since begun history).countP (·.publishes uri) = 0 := by omega
      rw [List.any_eq_true] at hpublished
      obtain ⟨o, hmem, ho⟩ := hpublished
      exact List.countP_eq_zero.mp hzero o hmem ho
  intro at' hmem
  rw [← since_before begun history] at hmem
  rcases List.mem_append.mp hmem with hmem | hmem
  · exact absurd (by simp [Observation.publishes]) (List.any_eq_false.mp hsilent _ hmem)
  · exact hbefore at' hmem

-- -----
-- The invariant
-- -----

/-- A wait that sleeps began to with the revision of that time, after which its
settle interval is over. -/
def Wait.Sound (w : Wait) (history : List Observation) : Prop :=
  ∀ deadline revision wakeAt begun, w.stage = .sleeping deadline revision wakeAt begun →
    begun ≤ history.length ∧ revision = published w.uri (before begun history) ∧
      QuietSince w.uri (wakeAt - w.settleMs) (before begun history)

/-- A revision that is set down was quiet when it was. -/
def RecordSound (s : State) (uri : Str) (revision : Nat) : Prop :=
  ∃ time quietFor, lastRecord uri s.history = some (time, quietFor) ∧
    revision ≤ published uri s.history ∧
      (revision = published uri s.history → QuietSince uri (time - quietFor) s.history)

structure Inv (s : State) : Prop where
  revisions : ∀ uri, s.revision uri = published uri s.history
  past : ∀ uri, QuietSince uri s.now s.history
  waits : ∀ w ∈ s.waits, w.Sound s.history
  settled : ∀ uri revision, s.settledRevisions.get uri = some revision → RecordSound s uri revision
  quiet : Quiet s.history

variable {s s' : State}

theorem initial_inv : Inv initial :=
  ⟨fun _ => rfl, fun _ _ h => absurd h List.not_mem_nil, fun _ h => absurd h List.not_mem_nil,
    fun _ _ h => absurd h nofun, trivial⟩

theorem Wait.Sound.cons {w : Wait} (h : w.Sound history) (o : Observation) : w.Sound (o :: history) := by
  intro deadline revision wakeAt begun hstage
  obtain ⟨hbegun, hrevision, hquiet⟩ := h deadline revision wakeAt begun hstage
  rw [before_cons hbegun]
  exact ⟨hbegun.trans (Nat.le_succ _), hrevision, hquiet⟩

theorem RecordSound.cons {revision : Nat} {o : Observation} {s' : State} (h : RecordSound s uri revision)
    (hhistory : s'.history = o :: s.history) (hreset : o.resets uri = false)
    (hrecord : ∀ time quietFor, o ≠ .recorded uri time quietFor) : RecordSound s' uri revision := by
  obtain ⟨time, quietFor, hlast, hle, hquiet⟩ := h
  rw [RecordSound, hhistory, lastRecord_cons hreset hrecord]
  refine ⟨time, quietFor, hlast, ?_, fun heq => ?_⟩
  · rw [published, if_neg (by simp [hreset])]
    split
    · omega
    · exact hle
  · by_cases hpublish : o.publishes uri = true
    · rw [published, if_neg (by simp [hreset]), if_pos hpublish] at heq
      omega
    · have hpublish := Bool.eq_false_iff.mpr hpublish
      rw [published_cons hreset hpublish] at heq
      exact (hquiet heq).cons hpublish

/-- A step that leaves the revisions and the sleeping waits alone. -/
structure Aside (s s' : State) : Prop where
  now : s'.now = s.now
  revisions : s'.revisions = s.revisions
  settledRevisions : s'.settledRevisions = s.settledRevisions
  history : s'.history = s.history
  waits : ∀ w ∈ s'.waits, w ∈ s.waits ∨ ∀ history, w.Sound history

theorem Aside.refl (s : State) : Aside s s := ⟨rfl, rfl, rfl, rfl, fun _ hmem => .inl hmem⟩

theorem Aside.trans {s'' : State} (h : Aside s s') (h' : Aside s' s'') : Aside s s'' := by
  refine ⟨h'.now.trans h.now, h'.revisions.trans h.revisions,
    h'.settledRevisions.trans h.settledRevisions, h'.history.trans h.history, fun w hmem => ?_⟩
  rcases h'.waits w hmem with hmem | hsound
  · exact h.waits w hmem
  · exact .inr hsound

theorem Aside.inv (h : Aside s s') (hs : Inv s) : Inv s' := by
  refine ⟨fun uri => ?_, fun uri => ?_, fun w hmem => ?_, fun uri revision hsome => ?_, ?_⟩
  · rw [State.revision, h.revisions, h.history]
    exact hs.revisions uri
  · rw [h.now, h.history]
    exact hs.past uri
  · rw [h.history]
    rcases h.waits w hmem with hmem | hsound
    · exact hs.waits w hmem
    · exact hsound _
  · rw [RecordSound, h.history]
    exact hs.settled uri revision (h.settledRevisions ▸ hsome)
  · rw [h.history]
    exact hs.quiet

theorem sound_of_stage {w : Wait} (h : ∀ deadline revision wakeAt begun,
    w.stage ≠ .sleeping deadline revision wakeAt begun) (history : List Observation) : w.Sound history :=
  fun _ _ _ _ hstage => absurd hstage (h _ _ _ _)

theorem settleWaiters_aside (s : State) (uri : Str) : Aside s (s.settleWaiters uri) := by
  unfold State.settleWaiters
  split
  case h_1 => exact .refl s
  case h_2 pending hpending =>
    refine ⟨rfl, rfl, rfl, rfl, fun w hmem => ?_⟩
    obtain ⟨i, hi, rfl⟩ := List.mem_mapIdx.mp hmem
    split
    · exact .inr (sound_of_stage nofun)
    · exact .inl (List.getElem_mem hi)

theorem settleAll_aside (uris : List Str) (s : State) : Aside s (uris.foldl State.settleWaiters s) := by
  induction uris generalizing s with
  | nil => exact .refl s
  | cons uri rest ih => exact (settleWaiters_aside s uri).trans (ih _)

theorem removeWaiter_aside (s : State) (uri : Str) (i : Nat) : Aside s (s.removeWaiter uri i) := by
  unfold State.removeWaiter
  split
  · exact .refl s
  · split
    · exact .refl s
    · exact ⟨rfl, rfl, rfl, rfl, fun _ hmem => .inl hmem⟩

theorem mem_modify {w : Wait} {waits : List Wait} {i : Nat} {f : Wait → Wait}
    (h : w ∈ waits.modify i f) : w ∈ waits ∨ ∃ v, waits[i]? = some v ∧ w = f v := by
  obtain ⟨j, hj, rfl⟩ := List.mem_iff_getElem.mp h
  rw [List.length_modify] at hj
  rw [List.getElem_modify]
  split
  case isTrue heq =>
    subst heq
    exact .inr ⟨waits[i], List.getElem?_eq_getElem hj, rfl⟩
  case isFalse => exact .inl (List.getElem_mem hj)

theorem setStage_aside (s : State) (i : Nat) {stage : Stage}
    (h : ∀ deadline revision wakeAt begun, stage ≠ .sleeping deadline revision wakeAt begun) :
    Aside s (s.setStage i stage) := by
  refine ⟨rfl, rfl, rfl, rfl, fun w hmem => ?_⟩
  rcases mem_modify hmem with hmem | ⟨v, -, rfl⟩
  · exact .inl hmem
  · exact .inr (sound_of_stage h)

-- -----
-- Publications, deletes and clears
-- -----

theorem Quiet.cons {o : Observation} (h : Quiet history)
    (ho : ∀ uri time settleMs deadline, o = .reported uri time settleMs deadline → time < deadline →
      QuietSince uri (time - settleMs) history) : Quiet (o :: history) := by
  cases o with
  | reported uri time settleMs deadline => exact ⟨ho uri time settleMs deadline rfl, h⟩
  | _ => exact h

theorem publish_inv (items : List DiagnosticItem) (hs : Inv s) : Inv (s.publish uri items) := by
  have haside := settleWaiters_aside { s with
    cache := s.cache.set uri items
    revisions := s.revisions.set uri (s.revision uri + 1) } uri
  show Inv (State.observe _ (.published uri (State.now _)))
  generalize State.settleWaiters _ uri = mid at haside ⊢
  obtain ⟨hnow, hrevisions, hsettled, hhistory, hwaits⟩ := haside
  refine ⟨fun other => ?_, fun other time hmem => ?_, fun w hmem => ?_, fun other revision hsome => ?_,
    ?_⟩
  · replace hrevisions : mid.revisions = s.revisions.set uri (s.revision uri + 1) := hrevisions
    replace hhistory : mid.history = s.history := hhistory
    show (mid.revisions.get other).getD 0 = published other (.published uri _ :: mid.history)
    rw [published_published, hrevisions, hhistory, JsMap.get_set, ← hs.revisions]
    split
    case isTrue hother => rw [hother, Option.getD_some]
    case isFalse => rfl
  · show time ≤ mid.now
    rw [hnow]
    rcases List.mem_cons.mp hmem with heq | hmem
    · exact (Observation.published.inj heq).2.le
    · exact hs.past other time (hhistory ▸ hmem)
  · rcases hwaits w hmem with hmem | hsound
    · exact (hhistory ▸ hs.waits w hmem : w.Sound mid.history).cons _
    · exact hsound _
  · exact (hs.settled other revision (hsettled ▸ hsome)).cons (congrArg (_ :: ·) hhistory) rfl (by simp)
  · exact (hhistory ▸ hs.quiet : Quiet mid.history).cons (by simp)

theorem delete_inv (hs : Inv s) : Inv (s.delete uri) := by
  have haside := settleWaiters_aside { s with cache := s.cache.delete uri } uri
  unfold State.delete
  generalize State.settleWaiters _ uri = mid at haside ⊢
  obtain ⟨hnow, hrevisions, hsettled, hhistory, hwaits⟩ := haside
  refine ⟨fun other => ?_, fun other time hmem => ?_, fun w hmem => ?_, fun other revision hsome => ?_,
    ?_⟩
  · replace hrevisions : mid.revisions = s.revisions := hrevisions
    replace hhistory : mid.history = s.history := hhistory
    show ((mid.revisions.delete uri).get other).getD 0 = published other (.deleted uri :: mid.history)
    rw [published_deleted, hrevisions, hhistory, JsMap.get_delete, ← hs.revisions]
    split
    · rfl
    · rfl
  · show time ≤ mid.now
    rw [hnow]
    rcases List.mem_cons.mp hmem with heq | hmem
    · cases heq
    · exact hs.past other time (hhistory ▸ hmem)
  · rcases hwaits w hmem with hmem | hsound
    · exact (hhistory ▸ hs.waits w hmem : w.Sound mid.history).cons _
    · exact hsound _
  · replace hsome : (mid.settledRevisions.delete uri).get other = some revision := hsome
    rw [hsettled, JsMap.get_delete] at hsome
    split at hsome
    · cases hsome
    case isFalse hother =>
      have hreset : (Observation.deleted uri).resets other = false := by
        simpa [Observation.resets] using Ne.symm hother
      exact (hs.settled other revision hsome).cons (congrArg (_ :: ·) hhistory) hreset (by simp)
  · exact (hhistory ▸ hs.quiet : Quiet mid.history).cons (by simp)

theorem clear_inv (hs : Inv s) : Inv s.clear := by
  have haside := settleAll_aside s.waiters.keys s
  unfold State.clear
  generalize List.foldl State.settleWaiters s _ = mid at haside ⊢
  obtain ⟨hnow, -, -, hhistory, hwaits⟩ := haside
  refine ⟨fun _ => rfl, fun other time hmem => ?_, fun w hmem => ?_,
    fun _ _ hsome => absurd hsome nofun, ?_⟩
  · show time ≤ mid.now
    rw [hnow]
    rcases List.mem_cons.mp hmem with heq | hmem
    · cases heq
    · exact hs.past other time (hhistory ▸ hmem)
  · rcases hwaits w hmem with hmem | hsound
    · exact (hhistory ▸ hs.waits w hmem : w.Sound mid.history).cons _
    · exact hsound _
  · exact (hhistory ▸ hs.quiet : Quiet mid.history).cons nofun

-- -----
-- Waits
-- -----

theorem record_inv {quietFor : Rat} (hs : Inv s)
    (hquiet : QuietSince uri (s.now - quietFor) s.history) : Inv (s.record uri quietFor) := by
  unfold State.record State.observe
  refine ⟨fun other => ?_, fun other => (hs.past other).cons rfl, fun w hmem => (hs.waits w hmem).cons _,
    fun other revision hsome => ?_, hs.quiet.cons nofun⟩
  · exact (hs.revisions other).trans (published_cons rfl rfl).symm
  · simp only [JsMap.get_set] at hsome
    split at hsome
    case isTrue hother =>
      subst hother
      obtain rfl := Option.some.inj hsome
      refine ⟨s.now, quietFor, if_pos rfl, ?_, fun _ => hquiet.cons rfl⟩
      exact (hs.revisions other).le.trans (published_cons rfl rfl).ge
    case isFalse hother =>
      refine (hs.settled other revision hsome).cons (o := .recorded uri s.now quietFor) rfl rfl ?_
      rintro time' quietFor' heq
      exact hother (Observation.recorded.inj heq).1.symm

theorem report_inv {settleMs deadline : Rat} (hs : Inv s)
    (hquiet : QuietSince uri (s.now - settleMs) s.history) :
    Inv (s.observe (.reported uri s.now settleMs deadline)) := by
  refine ⟨fun other => ?_, fun other => (hs.past other).cons rfl, fun w hmem => (hs.waits w hmem).cons _,
    fun other revision hsome => ?_, hs.quiet.cons ?_⟩
  · exact (hs.revisions other).trans (published_cons rfl rfl).symm
  · exact (hs.settled other revision hsome).cons (o := .reported uri s.now settleMs deadline) rfl rfl nofun
  · rintro other time settle deadline' heq -
    obtain ⟨rfl, rfl, rfl, -⟩ := Observation.reported.inj heq
    exact hquiet

theorem sleep_inv {w : Wait} {i : Nat} {deadline : Rat} {revision : Nat} (hs : Inv s)
    (hw : s.waits[i]? = some w) (hrevision : revision = s.revision w.uri) :
    Inv (s.setStage i (.sleeping deadline revision (s.now + w.settleMs) s.history.length)) := by
  refine ⟨hs.revisions, hs.past, fun v hmem => ?_, hs.settled, hs.quiet⟩
  rcases mem_modify hmem with hmem | ⟨w', hw', rfl⟩
  · exact hs.waits v hmem
  · obtain rfl := Option.some.inj (hw.symm.trans hw')
    rintro deadline' revision' wakeAt' begun' hstage
    obtain ⟨-, rfl, rfl, rfl⟩ := Stage.sleeping.inj hstage
    show s.history.length ≤ s.history.length ∧
      revision = published w.uri (before s.history.length s.history) ∧
        QuietSince w.uri (s.now + w.settleMs - w.settleMs) (before s.history.length s.history)
    rw [before_now, add_sub_cancel_right]
    exact ⟨le_refl _, hrevision.trans (hs.revisions w.uri), hs.past w.uri⟩

theorem loop_inv {w : Wait} {i : Nat} {deadline : Rat} {revision : Nat} (hs : Inv s)
    (hw : s.waits[i]? = some w) (hrevision : revision = s.revision w.uri) :
    Inv (s.loop i w deadline revision) := by
  unfold State.loop
  split
  · exact sleep_inv hs hw hrevision
  · refine (setStage_aside _ i (by nofun)).inv (record_inv hs ?_)
    rw [sub_zero]
    exact hs.past w.uri

theorem resume_inv {w : Wait} {i : Nat} (hs : Inv s) (hw : s.waits[i]? = some w)
    (hcovered : s.settledRevisions.get w.uri = some (s.revision w.uri) →
      covers (lastRecord w.uri s.history) w.settleMs s.now = true) :
    Inv (s.resume i w) := by
  unfold State.resume
  simp only
  split
  case isTrue hsettled =>
    refine (setStage_aside _ i (by simp)).inv (report_inv hs ?_)
    obtain ⟨time, quietFor, hlast, -, hquiet⟩ := hs.settled _ _ hsettled
    refine (hquiet (hs.revisions w.uri)).mono ?_
    have hcovers := hcovered hsettled
    rw [hlast] at hcovers
    linarith [of_decide_eq_true hcovers]
  case isFalse => exact loop_inv hs hw rfl

theorem wake_inv {w : Wait} {i : Nat} {deadline wakeAt : Rat} {revision begun : Nat} (hs : Inv s)
    (hw : s.waits[i]? = some w) (hstage : w.stage = .sleeping deadline revision wakeAt begun)
    (hnow : wakeAt ≤ s.now) (hnot : repeats w.uri revision begun s.history = false) :
    Inv (s.wake i w deadline revision) := by
  unfold State.wake
  simp only
  split
  case isTrue hsame =>
    obtain ⟨-, hbefore, hquiet⟩ :=
      hs.waits w (List.mem_of_getElem? hw) deadline revision wakeAt begun hstage
    rw [hs.revisions] at hsame
    have hslept : QuietSince w.uri (s.now - w.settleMs) s.history :=
      (quiet_sleep (hbefore.symm.trans hsame.symm) (hsame ▸ hnot) hquiet).mono (by linarith)
    refine (setStage_aside _ i (by nofun)).inv (report_inv (record_inv hs hslept) ?_)
    exact hslept.cons rfl
  case isFalse => exact loop_inv hs hw rfl

theorem wait_inv {settleMs timeoutMs : Rat} (hs : Inv s) : Inv (s.wait uri settleMs timeoutMs) := by
  have hfiber : ∀ stage : Stage,
      (∀ deadline revision wakeAt begun, stage ≠ .sleeping deadline revision wakeAt begun) →
        Aside s { s with waits := s.waits ++ [⟨uri, settleMs, timeoutMs, stage⟩] } := by
    intro stage hstage
    refine ⟨rfl, rfl, rfl, rfl, fun w hmem => ?_⟩
    rcases List.mem_append.mp hmem with hmem | hmem
    · exact .inl hmem
    · rw [List.mem_singleton.mp hmem]
      exact .inr (sound_of_stage hstage)
  unfold State.wait
  simp only
  split
  · exact (hfiber .resumed nofun).inv hs
  · refine ((hfiber (.first (s.now + timeoutMs)) nofun).trans ?_).inv hs
    exact ⟨rfl, rfl, rfl, rfl, fun _ hmem => .inl hmem⟩

-- -----
-- Runs
-- -----

theorem step_inv {event : Event} (hs : Inv s) (hcovered : Covered s event)
    (hstep : step s event = some s') : Inv s' := by
  cases event with
  | tick now =>
    simp only [step, Option.ite_none_right_eq_some] at hstep
    obtain ⟨hnow, hsome⟩ := hstep
    obtain rfl := Option.some.inj hsome
    exact ⟨hs.revisions, fun uri => (hs.past uri).mono hnow, hs.waits, hs.settled, hs.quiet⟩
  | publish uri items =>
    obtain rfl := Option.some.inj hstep
    exact publish_inv items hs
  | delete uri =>
    obtain rfl := Option.some.inj hstep
    exact delete_inv hs
  | clear =>
    obtain rfl := Option.some.inj hstep
    exact clear_inv hs
  | wait uri settleMs timeoutMs =>
    obtain rfl := Option.some.inj hstep
    exact wait_inv hs
  | timeout i =>
    simp only [step] at hstep
    split at hstep
    · simp only [Option.ite_none_right_eq_some] at hstep
      obtain rfl := Option.some.inj hstep.2
      exact ((removeWaiter_aside s _ i).trans (setStage_aside _ i (by simp))).inv hs
    · cases hstep
  | resume i =>
    simp only [step] at hstep
    split at hstep
    case h_1 uri settleMs timeoutMs hw =>
      obtain rfl := Option.some.inj hstep
      simp only [Covered, covered, hw, Bool.or_eq_true, bne_iff_ne, ne_eq] at hcovered
      exact resume_inv hs hw fun hsettled => hcovered.resolve_left (not_not_intro hsettled)
    case h_2 => cases hstep
  | wake i =>
    simp only [step] at hstep
    split at hstep
    case h_1 uri settleMs timeoutMs deadline revision wakeAt begun hw =>
      simp only [Option.ite_none_right_eq_some] at hstep
      obtain ⟨hnow, hsome⟩ := hstep
      obtain rfl := Option.some.inj hsome
      simp only [Covered, covered, hw, Bool.not_eq_true'] at hcovered
      exact wake_inv hs hw rfl hnow hcovered
    case h_2 => cases hstep
  | interrupt i =>
    simp only [step] at hstep
    split at hstep
    · obtain rfl := Option.some.inj hstep
      exact ((removeWaiter_aside s _ i).trans (setStage_aside _ i (by simp))).inv hs
    · cases hstep

/-- In every run in which no sleep ends with a repeated revision and no wait takes
over a record that does not cover its interval, what is reported was quiet. -/
theorem settled_quiet {events : List Event} (hrun : Transitions.run step initial events = some s)
    (hcovered : Transitions.AllMeet step Covered initial events) : Quiet s.history :=
  (Transitions.invariant (fun _ _ _ hs hok hstep => step_inv hs hok hstep) initial_inv hcovered
    hrun).quiet

/-- Two publications before a wait is over, and a second wait for the same revision. -/
def publishedTwice : List Event :=
  [.wait (lit "u") 10 100, .publish (lit "u") [], .resume 0, .tick 5, .publish (lit "u") [], .tick 10,
    .wake 0, .tick 20, .wake 0, .wait (lit "u") 10 100, .resume 1]

def afterPublishedTwice : List Observation :=
  [.reported (lit "u") 20 10 120, .reported (lit "u") 20 10 100, .recorded (lit "u") 20 10,
    .published (lit "u") 5, .published (lit "u") 0]

theorem publishedTwice_quiet :
    ∃ s, Transitions.run step initial publishedTwice = some s ∧ s.history = afterPublishedTwice ∧
      Quiet s.history := by
  have hmap : (Transitions.run step initial publishedTwice).map State.history =
      some afterPublishedTwice := by decide +kernel
  obtain ⟨s, hrun, hhistory⟩ := Option.map_eq_some_iff.mp hmap
  exact ⟨s, hrun, hhistory, settled_quiet hrun (by decide +kernel)⟩

/-- A uri that is deleted and published again has the revision it had. -/
def deletedAsleep : List Event :=
  [.publish (lit "u") [], .wait (lit "u") 10 100, .resume 0, .tick 9, .delete (lit "u"),
    .publish (lit "u") [], .tick 10, .wake 0]

def afterDeletedAsleep : List Observation :=
  [.reported (lit "u") 10 10 100, .recorded (lit "u") 10 10, .published (lit "u") 9, .deleted (lit "u"),
    .published (lit "u") 0]

theorem deletedAsleep_notQuiet :
    ¬ ∀ (events : List Event) (s : State), Transitions.run step initial events = some s →
      Quiet s.history := by
  intro hclaim
  have hmap : (Transitions.run step initial deletedAsleep).map State.history =
      some afterDeletedAsleep := by decide +kernel
  obtain ⟨s, hrun, hhistory⟩ := Option.map_eq_some_iff.mp hmap
  have hquiet := hclaim deletedAsleep s hrun
  rw [hhistory] at hquiet
  have hrecent : (9 : Rat) ≤ 10 - 10 := hquiet.1 (by decide +kernel) 9 (by decide +kernel)
  exact absurd hrecent (by decide +kernel)

end PiEnv.DevTools.DiagnosticsCache
