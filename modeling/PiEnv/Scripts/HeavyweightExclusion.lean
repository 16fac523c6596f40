import PiEnv.Scripts.HeavyweightLock
import Mathlib.Algebra.GroupWithZero.Nat

/-!
# Exclusion by the heavyweight lock

While no process is found gone whose owner file has been taken away since it was
read, a live call that made the lock directory still has it, and recovery takes
away only what a process that is gone has published.
-/

namespace PiEnv.Scripts.HeavyweightLock

open Js

section
variable {ι : Type}

-- -----
-- What is promised
-- -----

/-- What was taken away was the call's own, or published by a process that was gone. -/
def Change.Rightful (change : Change ι) : Prop :=
  match change.operation with
  | .cleanup | .release => change.dir.creator = change.call
  | .recovery => change.dir.owner ≠ none ∧ change.dir.owner = change.dir.published ∧
      change.ownerAlive = false
  | .discard => change.dir.published ≠ none ∧ change.ownerAlive = false

structure Excludes (settings : ι → Settings) (s : State ι) : Prop where
  exclusive : ∀ c d, s.alive (settings c).pid = true → s.alive (settings d).pid = true →
    s.stage c = .holding false → s.stage d = .holding false → c = d
  rightful : ∀ change ∈ s.log, change.Rightful

/-- Where the recoverer finds a process gone, the lock still has the owner file
that it read. -/
def confirmed (s : State ι) : Event ι → Bool
  | .turn c =>
    match s.stage c with
    | .recovering _ (.isPidAlive found) => s.alive found.pid || s.readOwner == some found
    | _ => true
  | _ => true

abbrev Confirmed (s : State ι) (event : Event ι) : Prop := confirmed s event = true

-- -----
-- Invariant
-- -----

/-- The call has made a directory and has neither published in it nor removed it. -/
def Stage.unpublished : Stage → Bool
  | .creating .writeFile | .creating .rename | .creating (.rm _) => true
  | _ => false

def Stage.published : Stage → Bool
  | .holding false | .releasing => true
  | _ => false

def Stage.removes : Stage → Bool
  | .removing _ => true
  | _ => false

def Stage.owns (stage : Stage) : Bool := stage.unpublished || stage.published || stage.removes

/-- The call has made the recovery guard. -/
def Stage.guards : Stage → Bool
  | .recovering _ .mkdir => false
  | .recovering _ _ => true
  | _ => false

def Stage.renames : Stage → Option Owner
  | .recovering _ (.rename found) => some found
  | _ => none

/-- What a stage says about the directory that the call has made. -/
structure Stage.Has (settings : ι → Settings) (c : ι) (stage : Stage) (lock : Option (LockDir ι)) :
    Prop where
  made : stage.owns = true → ∃ dir, lock = some dir ∧ dir.creator = c
  unpublished : stage.unpublished = true → ∀ dir, lock = some dir → dir.owner = none
  published : stage.published = true → ∀ dir, lock = some dir →
    dir.owner = some (settings c).owner

/-- What lies at a name of a stale lock was published by a process that is gone. -/
def Gone (alive : Nat → Bool) (dir : LockDir ι) : Prop :=
  ∃ owner, dir.published = some owner ∧ alive owner.pid = false

structure LockDir.Sound (settings : ι → Settings) (dir : LockDir ι) : Prop where
  owner : ∀ owner, dir.owner = some owner →
    dir.published = some owner ∧ owner = (settings dir.creator).owner

structure Inv (settings : ι → Settings) (s : State ι) : Prop where
  has : ∀ c, s.alive (settings c).pid = true → (s.stage c).Has settings c s.lock
  sound : ∀ dir, s.lock = some dir → dir.Sound settings
  guarded : ∀ c, (s.stage c).guards = true → s.recovery = some c
  renames : ∀ c found, (s.stage c).renames = some found →
    s.readOwner = some found ∧ s.alive found.pid = false
  gone : ∀ token dir, s.stale token = some dir → Gone s.alive dir
  rightful : ∀ change ∈ s.log, change.Rightful

variable {settings : ι → Settings} {s : State ι} {c : ι}

theorem initial_inv : Inv settings (initial : State ι) where
  has _ _ := ⟨nofun, nofun, nofun⟩
  sound := nofun
  guarded := nofun
  renames := nofun
  gone := nofun
  rightful := nofun

theorem Inv.excludes (hs : Inv settings s) : Excludes settings s where
  exclusive c d hc hd hholdsC hholdsD := by
    have hownsC : (s.stage c).owns = true := by rw [hholdsC]; rfl
    have hownsD : (s.stage d).owns = true := by rw [hholdsD]; rfl
    obtain ⟨dir, hdir, hmadeC⟩ := (hs.has c hc).made hownsC
    obtain ⟨dir', hdir', hmadeD⟩ := (hs.has d hd).made hownsD
    obtain rfl := Option.some.inj (hdir.symm.trans hdir')
    exact hmadeC.symm.trans hmadeD
  rightful := hs.rightful

/-- The lock is free, or the call is alive and has made it. -/
def Commands (settings : ι → Settings) (s : State ι) (c : ι) : Prop :=
  s.lock = none ∨ (s.alive (settings c).pid = true ∧ (s.stage c).owns = true)

/-- Whoever may change the lock is not disturbed by a rename. -/
theorem Inv.no_rename (hs : Inv settings s) (hc : Commands settings s c) (d : ι) :
    (s.stage d).renames = none := by
  by_contra hne
  obtain ⟨found, hfound⟩ := Option.ne_none_iff_exists'.mp hne
  obtain ⟨hread, hgone⟩ := hs.renames d found hfound
  obtain ⟨dir, hdir, howner⟩ := Option.bind_eq_some_iff.mp hread
  rcases hc with hnone | ⟨halive, howns⟩
  · rw [hnone] at hdir
    cases hdir
  · obtain ⟨dir', hdir', hmade⟩ := (hs.has c halive).made howns
    obtain rfl := Option.some.inj (hdir.symm.trans hdir')
    obtain ⟨-, rfl⟩ := (hs.sound dir hdir).owner found howner
    rw [hmade] at hgone
    exact absurd halive (Bool.eq_false_iff.mp hgone)

theorem Inv.only (hs : Inv settings s) (hc : Commands settings s c) {d : ι} (hne : d ≠ c)
    (hd : s.alive (settings d).pid = true) : (s.stage d).owns = false := by
  by_contra howns
  obtain ⟨dir, hdir, hmade⟩ := (hs.has d hd).made (Bool.not_eq_false _ ▸ howns)
  rcases hc with hnone | ⟨halive, hownsC⟩
  · rw [hnone] at hdir
    cases hdir
  · obtain ⟨dir', hdir', hmade'⟩ := (hs.has c halive).made hownsC
    obtain rfl := Option.some.inj (hdir.symm.trans hdir')
    exact hne (hmade.symm.trans hmade')

/-- A stage without a directory of its own says nothing about the lock. -/
theorem Stage.Has.free {stage : Stage} (h : stage.owns = false) (lock : Option (LockDir ι)) :
    stage.Has settings c lock := by
  simp only [Stage.owns, Bool.or_eq_false_iff] at h
  obtain ⟨⟨hun, hpub⟩, hrem⟩ := h
  refine ⟨?_, ?_, ?_⟩
  · intro howns
    simp [Stage.owns, hun, hpub, hrem] at howns
  · intro h
    rw [hun] at h
    cases h
  · intro h
    rw [hpub] at h
    cases h

variable [DecidableEq ι]

@[simp] theorem goto_alive (stage : Stage) : (s.goto c stage).alive = s.alive := rfl
@[simp] theorem goto_lock (stage : Stage) : (s.goto c stage).lock = s.lock := rfl
@[simp] theorem goto_recovery (stage : Stage) : (s.goto c stage).recovery = s.recovery := rfl
@[simp] theorem goto_stale (stage : Stage) : (s.goto c stage).stale = s.stale := rfl
@[simp] theorem goto_log (stage : Stage) : (s.goto c stage).log = s.log := rfl
@[simp] theorem goto_self (stage : Stage) : (s.goto c stage).stage c = stage := Function.update_self ..
@[simp] theorem goto_other (stage : Stage) {d : ι} (h : d ≠ c) :
    (s.goto c stage).stage d = s.stage d := Function.update_of_ne h ..

-- -----
-- One call moves
-- -----

/-- A call goes on without changing any directory. -/
theorem Inv.goto (hs : Inv settings s) {stage : Stage} (hhas : stage.Has settings c s.lock)
    (hguards : stage.guards = true → s.recovery = some c)
    (hrenames : ∀ found, stage.renames = some found →
      s.readOwner = some found ∧ s.alive found.pid = false) :
    Inv settings (s.goto c stage) where
  has d hd := by
    by_cases hdc : d = c
    · subst hdc
      rw [goto_self]
      exact hhas
    · rw [goto_other _ hdc]
      exact hs.has d hd
  sound := hs.sound
  guarded d := by
    by_cases hdc : d = c
    · subst hdc
      rw [goto_self]
      exact hguards
    · rw [goto_other _ hdc]
      exact hs.guarded d
  renames d := by
    by_cases hdc : d = c
    · subst hdc
      rw [goto_self]
      exact hrenames
    · rw [goto_other _ hdc]
      exact hs.renames d
  gone := hs.gone
  rightful := hs.rightful

/-- A call goes on to a stage with neither a directory of its own nor the guard. -/
theorem Inv.goto_free (hs : Inv settings s) {stage : Stage} (howns : stage.owns = false)
    (hguards : stage.guards = false) : Inv settings (s.goto c stage) := by
  refine hs.goto (.free howns _) (fun h => ?_) (fun found h => ?_)
  · rw [hguards] at h
    cases h
  · cases stage <;> simp_all [Stage.renames, Stage.guards]
    split at h <;> simp_all

/-- A call that may change the lock does so. -/
theorem Inv.command (hs : Inv settings s) (hc : Commands settings s c) {stage : Stage}
    {lock : Option (LockDir ι)} {log : List (Change ι)} (hhas : stage.Has settings c lock)
    (hguards : stage.guards = false) (hsound : ∀ dir, lock = some dir → dir.Sound settings)
    (hlog : ∀ change ∈ log, change.Rightful) :
    Inv settings ({ s with lock, log }.goto c stage) := by
  have hrenames : stage.renames = none := by
    cases stage <;> simp_all [Stage.renames, Stage.guards]
    split <;> simp_all
  refine ⟨?_, hsound, ?_, ?_, hs.gone, hlog⟩
  · intro d hd
    by_cases hdc : d = c
    · subst hdc
      rw [goto_self]
      exact hhas
    · rw [goto_other _ hdc]
      exact .free (hs.only hc hdc hd) _
  · intro d hguard
    by_cases hdc : d = c
    · subst hdc
      rw [goto_self, hguards] at hguard
      cases hguard
    · rw [goto_other _ hdc] at hguard
      exact hs.guarded d hguard
  · intro d found hfound
    by_cases hdc : d = c
    · subst hdc
      rw [goto_self, hrenames] at hfound
      cases hfound
    · rw [goto_other _ hdc] at hfound
      rw [hs.no_rename hc d] at hfound
      cases hfound

-- -----
-- Removals
-- -----

/-- What unlinking leaves of a directory. -/
structure LockDir.Left (left dir : LockDir ι) : Prop where
  creator : left.creator = dir.creator
  published : left.published = dir.published
  owner : left.owner = none ∨ left.owner = dir.owner

omit [DecidableEq ι] in
theorem LockDir.unlink_left (dir : LockDir ι) (entry : Entry) : (dir.unlink entry).Left dir := by
  cases entry with
  | owner => exact ⟨rfl, rfl, .inl rfl⟩
  | temporary token => exact ⟨rfl, rfl, .inr rfl⟩

omit [DecidableEq ι] in
theorem LockDir.Left.sound {left dir : LockDir ι} (h : left.Left dir) (hdir : dir.Sound settings) :
    left.Sound settings := by
  refine ⟨fun owner howner => ?_⟩
  rcases h.owner with hnone | hsame
  · rw [hnone] at howner
    cases howner
  · rw [hsame] at howner
    rw [h.published, h.creator]
    exact hdir.owner owner howner

omit [DecidableEq ι] in
/-- A removal goes on with what is left, is over with nothing left, or throws. -/
theorem Removal.advance_cases (removal : Removal) (dir : LockDir ι) :
    (∃ next left, removal.advance (some dir) = (some left, .going next) ∧ left.Left dir) ∨
      removal.advance (some dir) = (none, .over) ∨
      removal.advance (some dir) = (some dir, .threw) := by
  cases removal with
  | listing => exact .inl ⟨_, _, rfl, rfl, rfl, .inr rfl⟩
  | unlinking names =>
    cases names with
    | nil =>
      by_cases hempty : dir.entries = []
      · exact .inr (.inl (by simp [Removal.advance, hempty]))
      · exact .inr (.inr (by simp [Removal.advance, hempty]))
    | cons entry rest => exact .inl ⟨_, _, rfl, dir.unlink_left entry⟩

omit [DecidableEq ι] in
theorem Removal.advance_none (removal : Removal) :
    (removal.advance (none : Option (LockDir ι))).1 = none := by
  cases removal with
  | listing => rfl
  | unlinking names => cases names <;> rfl

theorem taken_rightful (hs : Inv settings s) {operation : Operation} {before : Option (LockDir ι)}
    (after : Option (LockDir ι))
    (h : ∀ dir, before = some dir → (s.change operation c dir).Rightful) :
    ∀ change ∈ s.taken operation c before after, change.Rightful := by
  intro change hmem
  unfold State.taken at hmem
  split at hmem
  · exact hs.rightful change hmem
  · rcases List.mem_append.mp hmem with hnew | hold
    · obtain ⟨dir, hdir, rfl⟩ := Option.map_eq_some_iff.mp (Option.mem_toList.mp hnew)
      exact h dir hdir
    · exact hs.rightful change hold

/-- A removal at the path of the lock by the call that made it. -/
theorem removeLock_inv (hs : Inv settings s) (halive : s.alive (settings c).pid = true)
    (howns : (s.stage c).owns = true) {operation : Operation}
    (hoperation : operation = .cleanup ∨ operation = .release) {removal : Removal}
    {onto : RemovalResult → Stage}
    (hgoing : ∀ next left dir, s.lock = some dir → left.Left dir →
      (onto (.going next)).Has settings c (some left))
    (hover : (onto .over).owns = false) (hthrew : (onto .threw).owns = false)
    (hguards : ∀ result, (onto result).guards = false) :
    Inv settings (s.removeLock operation c removal onto) := by
  obtain ⟨dir, hdir, hmade⟩ := (hs.has c halive).made howns
  have hlog (after : Option (LockDir ι)) :
      ∀ change ∈ s.taken operation c (some dir) after, change.Rightful := by
    refine taken_rightful hs after (fun before hbefore => ?_)
    obtain rfl := Option.some.inj hbefore
    rcases hoperation with rfl | rfl <;> exact hmade
  have hsound := hs.sound dir hdir
  rw [State.removeLock]
  rcases removal.advance_cases dir with ⟨next, left, heq, hleft⟩ | heq | heq
  · rw [hdir, heq]
    refine hs.command (.inr ⟨halive, howns⟩) (hgoing next left dir hdir hleft) (hguards _) ?_
      (hlog _)
    rintro _ ⟨⟩
    exact hleft.sound hsound
  · rw [hdir, heq]
    exact hs.command (.inr ⟨halive, howns⟩) (.free hover _) (hguards _) nofun (hlog _)
  · rw [hdir, heq]
    refine hs.command (.inr ⟨halive, howns⟩) (.free hthrew _) (hguards _) ?_ (hlog _)
    rintro _ ⟨⟩
    exact hsound

-- -----
-- tryCreateLease
-- -----

theorem tryCreateLease_inv (hs : Inv settings s) (halive : s.alive (settings c).pid = true)
    {next : Creating} (hstage : s.stage c = .creating next) :
    Inv settings (s.tryCreateLease settings c next) := by
  have hhas := hs.has c halive
  rw [hstage] at hhas
  cases next with
  | mkdir =>
    rw [State.tryCreateLease]
    split
    · exact hs.goto_free rfl rfl
    · rename_i hnone
      refine hs.command (.inl hnone) ⟨?_, ?_, nofun⟩ rfl ?_ hs.rightful
      · exact fun _ => ⟨_, rfl, rfl⟩
      · rintro - _ ⟨⟩
        rfl
      · rintro _ ⟨⟩
        exact ⟨nofun⟩
  | writeFile =>
    obtain ⟨dir, hdir, hmade⟩ := hhas.made rfl
    have howner := hhas.unpublished rfl dir hdir
    have hcommands : Commands settings s c := .inr ⟨halive, by rw [hstage]; rfl⟩
    simp only [State.tryCreateLease, hdir]
    refine hs.command hcommands ⟨fun _ => ⟨_, rfl, hmade⟩, ?_, nofun⟩ rfl ?_ hs.rightful
    · rintro - _ ⟨⟩
      exact howner
    · rintro _ ⟨⟩
      exact ⟨(hs.sound dir hdir).owner⟩
  | rename =>
    obtain ⟨dir, hdir, hmade⟩ := hhas.made rfl
    have howner := hhas.unpublished rfl dir hdir
    have hcommands : Commands settings s c := .inr ⟨halive, by rw [hstage]; rfl⟩
    simp only [State.tryCreateLease, hdir]
    split
    · refine hs.command hcommands ⟨fun _ => ⟨_, rfl, hmade⟩, nofun, ?_⟩ rfl ?_ hs.rightful
      · rintro - _ ⟨⟩
        rfl
      · rintro _ ⟨⟩
        refine ⟨?_⟩
        rintro _ ⟨⟩
        exact ⟨rfl, by rw [← hmade]; rfl⟩
    · exact hs.goto ⟨fun _ => ⟨dir, hdir, hmade⟩, fun _ => hhas.unpublished rfl, nofun⟩ nofun nofun
  | rm removal =>
    obtain ⟨made, hmadeDir, hmade⟩ := hhas.made rfl
    have howner := hhas.unpublished rfl made hmadeDir
    rw [State.tryCreateLease]
    refine removeLock_inv hs halive (by rw [hstage]; rfl) (.inl rfl) ?_ ?_ ?_ ?_
    · intro next left dir hdir hleft
      obtain rfl := Option.some.inj (hmadeDir.symm.trans hdir)
      refine ⟨fun _ => ⟨left, rfl, hleft.creator.trans hmade⟩, ?_, nofun⟩
      rintro - _ ⟨⟩
      rcases hleft.owner with h | h
      · exact h
      · exact h.trans howner
    · rfl
    · rfl
    · rintro (_ | _ | _) <;> rfl

-- -----
-- recoverStaleLease
-- -----

omit [DecidableEq ι] in
/-- Where a call is about to rename the lock, no live call has it. -/
theorem Inv.abandoned (hs : Inv settings s) {found : Owner}
    (hrenames : (s.stage c).renames = some found) {d : ι}
    (hd : s.alive (settings d).pid = true) : (s.stage d).owns = false := by
  by_contra howns
  have hnone := hs.no_rename (.inr ⟨hd, Bool.not_eq_false _ ▸ howns⟩) c
  rw [hrenames] at hnone
  cases hnone

omit [DecidableEq ι] in
theorem Inv.guard_unique (hs : Inv settings s) (hc : (s.stage c).guards = true) {d : ι}
    (hd : (s.stage d).guards = true) : d = c :=
  Option.some.inj ((hs.guarded d hd).symm.trans (hs.guarded c hc))

omit [DecidableEq ι] in
theorem guards_of_renames {stage : Stage} {found : Owner} (h : stage.renames = some found) :
    stage.guards = true := by
  unfold Stage.renames at h
  split at h
  · rfl
  · cases h

theorem renameStale_inv (hs : Inv settings s) {owner found : Owner}
    (hstage : s.stage c = .recovering owner (.rename found)) :
    Inv settings (s.renameStale settings c owner) := by
  have hguards : (s.stage c).guards = true := by rw [hstage]; rfl
  have hrenames : (s.stage c).renames = some found := by rw [hstage]; rfl
  obtain ⟨hread, hgone⟩ := hs.renames c found hrenames
  obtain ⟨dir, hdir, howner⟩ := Option.bind_eq_some_iff.mp hread
  have hpublished := ((hs.sound dir hdir).owner found howner).1
  simp only [State.renameStale, hdir]
  split
  · refine ⟨?_, nofun, ?_, ?_, ?_, ?_⟩
    · intro d hd
      by_cases hdc : d = c
      · subst hdc
        rw [goto_self]
        exact .free rfl _
      · rw [goto_other _ hdc]
        exact .free (hs.abandoned hrenames hd) _
    · intro d hguard
      by_cases hdc : d = c
      · subst hdc
        exact hs.guarded d hguards
      · rw [goto_other _ hdc] at hguard
        exact hs.guarded d hguard
    · intro d found' hfound
      by_cases hdc : d = c
      · subst hdc
        rw [goto_self] at hfound
        cases hfound
      · rw [goto_other _ hdc] at hfound
        exact absurd (hs.guard_unique hguards (guards_of_renames hfound)) hdc
    · intro token there hthere
      replace hthere : Function.update s.stale (settings c).token (some dir) token = some there :=
        hthere
      by_cases htoken : token = (settings c).token
      · rw [htoken, Function.update_self] at hthere
        obtain rfl := Option.some.inj hthere
        exact ⟨found, hpublished, hgone⟩
      · rw [Function.update_of_ne htoken] at hthere
        exact hs.gone token there hthere
    · intro change hmem
      rcases List.mem_cons.mp hmem with rfl | hold
      · refine ⟨?_, ?_, ?_⟩
        · exact Option.ne_none_iff_exists'.mpr ⟨found, howner⟩
        · exact howner.trans hpublished.symm
        · simp [State.change, hpublished, hgone]
      · exact hs.rightful change hold
  · exact hs.goto (.free rfl _) (fun _ => hs.guarded c hguards) nofun

omit [DecidableEq ι] in
theorem Gone.left {alive : Nat → Bool} {left dir : LockDir ι} (h : left.Left dir) (hdir : Gone alive dir) :
    Gone alive left := by
  obtain ⟨owner, hpublished, hgone⟩ := hdir
  exact ⟨owner, h.published.trans hpublished, hgone⟩

omit [DecidableEq ι] in
theorem Removal.advance_gone {alive : Nat → Bool} (removal : Removal) {there : Option (LockDir ι)}
    (h : ∀ dir, there = some dir → Gone alive dir) :
    ∀ dir, (removal.advance there).1 = some dir → Gone alive dir := by
  intro dir hdir
  cases there with
  | none =>
    rw [removal.advance_none] at hdir
    cases hdir
  | some dir' =>
    rcases removal.advance_cases dir' with ⟨next, left, heq, hleft⟩ | heq | heq
    · rw [heq] at hdir
      obtain rfl := Option.some.inj hdir
      exact (h dir' rfl).left hleft
    · rw [heq] at hdir
      cases hdir
    · rw [heq] at hdir
      exact h dir hdir

theorem removeStale_inv (hs : Inv settings s) {removal : Removal} {onto : RemovalResult → Stage}
    (hguards : (s.stage c).guards = true) (howns : ∀ result, (onto result).owns = false)
    (hrenames : ∀ result, (onto result).renames = none) :
    Inv settings (s.removeStale settings c removal onto) := by
  have hbase : Inv settings
      { s with
        stale := Function.update s.stale (settings c).token
          (removal.advance (s.stale (settings c).token)).1
        log := s.taken .discard c (s.stale (settings c).token)
          (removal.advance (s.stale (settings c).token)).1 } := by
    refine ⟨hs.has, hs.sound, hs.guarded, hs.renames, ?_, taken_rightful hs _ ?_⟩
    · intro token dir hdir
      by_cases htoken : token = (settings c).token
      · rw [htoken] at hdir
        simp only [Function.update_self] at hdir
        exact removal.advance_gone (hs.gone _) dir hdir
      · simp only [Function.update_of_ne htoken] at hdir
        exact hs.gone token dir hdir
    · intro dir hdir
      obtain ⟨owner, hpublished, hgone⟩ := hs.gone _ dir hdir
      refine ⟨?_, ?_⟩
      · exact Option.ne_none_iff_exists'.mpr ⟨owner, hpublished⟩
      · simp [State.change, hpublished, hgone]
  refine hbase.goto (.free (howns _) _) (fun _ => hs.guarded c hguards) (fun found hfound => ?_)
  rw [hrenames] at hfound
  cases hfound

/-- The guard is made where there is none, or removed by the call that made it. -/
theorem Inv.guard (hs : Inv settings s) {recovery : Option ι} {stage : Stage}
    (hothers : ∀ d, d ≠ c → (s.stage d).guards = false) (howns : stage.owns = false)
    (hguards : stage.guards = true → recovery = some c) (hrenames : stage.renames = none) :
    Inv settings ({ s with recovery }.goto c stage) := by
  refine ⟨?_, hs.sound, ?_, ?_, hs.gone, hs.rightful⟩
  · intro d hd
    by_cases hdc : d = c
    · subst hdc
      rw [goto_self]
      exact .free howns _
    · rw [goto_other _ hdc]
      exact hs.has d hd
  · intro d hguard
    by_cases hdc : d = c
    · subst hdc
      rw [goto_self] at hguard
      exact hguards hguard
    · rw [goto_other _ hdc] at hguard
      exact absurd hguard (by simp [hothers d hdc])
  · intro d found hfound
    by_cases hdc : d = c
    · subst hdc
      rw [goto_self, hrenames] at hfound
      cases hfound
    · rw [goto_other _ hdc] at hfound
      exact hs.renames d found hfound

theorem recoverStaleLease_inv (hs : Inv settings s) {owner : Owner} {next : Recovering}
    (hstage : s.stage c = .recovering owner next)
    (hconfirmed : ∀ found, next = .isPidAlive found →
      s.alive found.pid = true ∨ s.readOwner = some found) :
    Inv settings (s.recoverStaleLease settings c owner next) := by
  have hguard (h : (s.stage c).guards = true) : s.recovery = some c := hs.guarded c h
  rw [hstage] at hguard
  cases next with
  | mkdir =>
    rw [State.recoverStaleLease]
    split
    · exact hs.goto_free rfl rfl
    · rename_i hnone
      refine hs.guard (fun d hdc => ?_) rfl (fun _ => rfl) rfl
      by_contra hguards
      have hsome := hs.guarded d (Bool.not_eq_false _ ▸ hguards)
      rw [hnone] at hsome
      cases hsome
  | readOwner =>
    rw [State.recoverStaleLease]
    split <;> exact hs.goto (.free rfl _) (fun _ => hguard rfl) nofun
  | isPidAlive found =>
    rw [State.recoverStaleLease]
    split
    · exact hs.goto (.free rfl _) (fun _ => hguard rfl) nofun
    · rename_i hgone
      have hread := (hconfirmed found rfl).resolve_left hgone
      refine hs.goto (.free rfl _) (fun _ => hguard rfl) ?_
      rintro _ ⟨⟩
      exact ⟨hread, Bool.eq_false_iff.mpr hgone⟩
  | rename found => exact renameStale_inv hs hstage
  | rm removal =>
    rw [State.recoverStaleLease]
    refine removeStale_inv hs (by rw [hstage]; rfl) ?_ ?_
    · rintro (_ | _ | _) <;> rfl
    · rintro (_ | _ | _) <;> rfl
  | unguard outcome =>
    refine hs.guard (fun d hdc => ?_) ?_ ?_ ?_
    · by_contra hguards
      have hguardsC : (s.stage c).guards = true := by rw [hstage]; rfl
      exact hdc (hs.guard_unique hguardsC (Bool.not_eq_false _ ▸ hguards))
    · rcases outcome with _ | _ | _ <;> rfl
    · rcases outcome with _ | _ | _ <;> nofun
    · rcases outcome with _ | _ | _ <;> rfl

-- -----
-- Steps and runs
-- -----

theorem turn_inv (hs : Inv settings s) (halive : s.alive (settings c).pid = true)
    (hconfirmed : Confirmed s (.turn c)) {s' : State ι} (hturn : s.turn settings c = some s') :
    Inv settings s' := by
  have hhas := hs.has c halive
  unfold State.turn at hturn
  split at hturn
  case h_1 | h_2 =>
    obtain rfl := Option.some.inj hturn
    exact hs.goto_free rfl rfl
  case h_3 next hstage =>
    obtain rfl := Option.some.inj hturn
    exact tryCreateLease_inv hs halive hstage
  case h_4 =>
    obtain rfl := Option.some.inj hturn
    refine hs.goto_free ?_ ?_ <;> split <;> first | rfl | (split <;> rfl)
  case h_5 owner hstage =>
    obtain rfl := Option.some.inj hturn
    refine hs.goto_free ?_ ?_ <;> split <;> rfl
  case h_6 owner next hstage =>
    obtain rfl := Option.some.inj hturn
    refine recoverStaleLease_inv hs hstage ?_
    rintro found rfl
    simpa [Confirmed, confirmed, hstage] using hconfirmed
  case h_7 hstage =>
    obtain rfl := Option.some.inj hturn
    rw [hstage] at hhas
    split
    · exact hs.goto ⟨fun _ => hhas.made rfl, nofun, nofun⟩ nofun nofun
    · exact hs.goto_free rfl rfl
  case h_8 removal hstage =>
    obtain rfl := Option.some.inj hturn
    rw [hstage] at hhas
    obtain ⟨made, hmadeDir, hmade⟩ := hhas.made rfl
    refine removeLock_inv hs halive (by rw [hstage]; rfl) (.inr rfl) ?_ ?_ ?_ ?_
    · intro next left dir hdir hleft
      obtain rfl := Option.some.inj (hmadeDir.symm.trans hdir)
      exact ⟨fun _ => ⟨left, rfl, hleft.creator.trans hmade⟩, nofun, nofun⟩
    · rfl
    · rfl
    · rintro (_ | _ | _) <;> rfl
  all_goals cases hturn

theorem fault_inv (hs : Inv settings s) (halive : s.alive (settings c).pid = true) {torn : Bool}
    {s' : State ι} (hfault : s.fault settings c torn = some s') : Inv settings s' := by
  have hhas := hs.has c halive
  unfold State.fault at hfault
  split at hfault
  case h_1 hstage =>
    obtain rfl := Option.some.inj hfault
    rw [hstage] at hhas
    obtain ⟨dir, hdir, hmade⟩ := hhas.made rfl
    have howner := hhas.unpublished rfl dir hdir
    have hcommands : Commands settings s c := .inr ⟨halive, by rw [hstage]; rfl⟩
    cases torn with
    | false =>
      exact hs.goto ⟨fun _ => ⟨dir, hdir, hmade⟩, fun _ => hhas.unpublished rfl, nofun⟩ nofun nofun
    | true =>
      simp only [hdir, Option.map_some, if_true]
      refine hs.command hcommands ⟨fun _ => ⟨_, rfl, hmade⟩, ?_, nofun⟩ rfl ?_ hs.rightful
      · rintro - _ ⟨⟩
        exact howner
      · rintro _ ⟨⟩
        exact ⟨(hs.sound dir hdir).owner⟩
  case h_2 hstage =>
    obtain rfl := Option.some.inj hfault
    rw [hstage] at hhas
    exact hs.goto ⟨fun _ => hhas.made rfl, fun _ => hhas.unpublished rfl, nofun⟩ nofun nofun
  case h_8 hstage | h_9 hstage | h_10 hstage =>
    obtain rfl := Option.some.inj hfault
    exact hs.goto (.free rfl _) (fun _ => hs.guarded c (by rw [hstage]; rfl)) nofun
  case h_3 | h_4 | h_5 | h_6 | h_7 | h_11 | h_12 =>
    obtain rfl := Option.some.inj hfault
    exact hs.goto_free rfl rfl
  all_goals cases hfault

theorem release_inv (hs : Inv settings s) (halive : s.alive (settings c).pid = true) {s' : State ι}
    (hrelease : s.release c = some s') : Inv settings s' := by
  have hhas := hs.has c halive
  unfold State.release at hrelease
  split at hrelease
  case h_1 hstage =>
    obtain rfl := Option.some.inj hrelease
    rw [hstage] at hhas
    exact hs.goto ⟨fun _ => hhas.made rfl, nofun, fun _ => hhas.published rfl⟩ nofun nofun
  case h_6 => cases hrelease
  all_goals
    obtain rfl := Option.some.inj hrelease
    exact hs

omit [DecidableEq ι] in
/-- A process that ends takes nothing with it. -/
theorem ended_inv (hs : Inv settings s) (pid : Nat) :
    Inv settings { s with alive := Function.update s.alive pid false } := by
  have hdead {other : Nat} (h : s.alive other = false) : Function.update s.alive pid false other = false := by
    by_cases heq : other = pid
    · rw [heq, Function.update_self]
    · rwa [Function.update_of_ne heq]
  refine ⟨?_, hs.sound, hs.guarded, ?_, ?_, hs.rightful⟩
  · intro d hd
    refine hs.has d ?_
    by_contra hnot
    exact absurd hd (by simp [hdead (Bool.eq_false_iff.mpr hnot)])
  · intro d found hfound
    obtain ⟨hread, hgone⟩ := hs.renames d found hfound
    exact ⟨hread, hdead hgone⟩
  · intro token dir hdir
    obtain ⟨owner, hpublished, hgone⟩ := hs.gone token dir hdir
    exact ⟨owner, hpublished, hdead hgone⟩

theorem step_inv (hs : Inv settings s) {event : Event ι} (hconfirmed : Confirmed s event)
    {s' : State ι} (hstep : step settings s event = some s') : Inv settings s' := by
  cases event with
  | turn c =>
    obtain ⟨halive, hturn⟩ := Option.ite_none_right_eq_some.mp hstep
    exact turn_inv hs halive hconfirmed hturn
  | fault c torn =>
    obtain ⟨halive, hfault⟩ := Option.ite_none_right_eq_some.mp hstep
    exact fault_inv hs halive hfault
  | release c =>
    obtain ⟨halive, hrelease⟩ := Option.ite_none_right_eq_some.mp hstep
    exact release_inv hs halive hrelease
  | abort c =>
    obtain ⟨-, habort⟩ := Option.ite_none_right_eq_some.mp hstep
    unfold State.abort at habort
    split at habort
    case h_3 => cases habort
    all_goals
      obtain rfl := Option.some.inj habort
      exact hs.goto_free rfl rfl
  | expire c =>
    obtain ⟨-, hexpire⟩ := Option.ite_none_right_eq_some.mp hstep
    unfold State.expire at hexpire
    split at hexpire
    · obtain rfl := Option.some.inj hexpire
      exact hs.goto_free rfl rfl
    · cases hexpire
  | ended pid =>
    obtain rfl := Option.some.inj hstep
    exact ended_inv hs pid

/-- In every run in which whoever is found gone still has its owner file in the lock,
live processes exclude each other and take away only what they may. -/
theorem lock_excludes {events : List (Event ι)}
    (hrun : Transitions.run (step settings) initial events = some s)
    (hconfirmed : Transitions.AllMeet (step settings) Confirmed initial events) :
    Excludes settings s :=
  (Transitions.invariant (fun _ _ _ hs hok hstep => step_inv hs hok hstep) initial_inv hconfirmed
    hrun).excludes

end

-- -----
-- Runs
-- -----

local instance fourCalls : NeZero 4 := ⟨by decide⟩

/-- Four calls, each in a process of its own. -/
def four (c : Fin 4) : Settings := ⟨10 + c, [UInt16.ofNat c], none⟩

/-- The process of a holder crashes; another call recovers the lock and takes it. -/
def crashedHolder : List (Event (Fin 4)) :=
  .replicate 4 (.turn 0) ++ .ended 10 :: .replicate 15 (.turn 1)

theorem crashedHolder_excludes :
    ∃ s, Transitions.run (step four) initial crashedHolder = some s ∧ s.stage 1 = .holding false ∧
      s.log.length = 3 ∧ Excludes four s := by
  have hmap : (Transitions.run (step four) initial crashedHolder).map
      (fun s => (s.stage 1, s.log.length)) = some (.holding false, 3) := by decide +kernel
  obtain ⟨s, hrun, hs⟩ := Option.map_eq_some_iff.mp hmap
  obtain ⟨hstage, hlog⟩ := Prod.mk.inj hs
  exact ⟨s, hrun, hstage, hlog, lock_excludes hrun (by decide +kernel)⟩

/-- Call 1 reads the owner file of call 0, which is released, and under the guard
that of call 2, which is released before call 3 takes the lock. -/
def overtaken : List (Event (Fin 4)) :=
  .replicate 4 (.turn 0) ++ .replicate 3 (.turn 1) ++
  .release 0 :: .replicate 4 (.turn 0) ++ .ended 10 :: .replicate 4 (.turn 2) ++
  .replicate 3 (.turn 1) ++ .release 2 :: .replicate 4 (.turn 2) ++ .ended 12 ::
  .replicate 4 (.turn 3) ++ .replicate 9 (.turn 1)

theorem overtaken_notExcluded :
    ¬ ∀ (events : List (Event (Fin 4))) (s : State (Fin 4)),
      Transitions.run (step four) initial events = some s → Excludes four s := by
  intro hclaim
  have hmap : (Transitions.run (step four) initial overtaken).map
      (fun s => (s.alive 11, s.alive 13, s.stage 1, s.stage 3)) =
      some (true, true, .holding false, .holding false) := by decide +kernel
  obtain ⟨s, hrun, hs⟩ := Option.map_eq_some_iff.mp hmap
  simp only [Prod.mk.injEq] at hs
  obtain ⟨halive, halive', hholds, hholds'⟩ := hs
  have hsame := (hclaim overtaken s hrun).exclusive 1 3 halive halive' hholds hholds'
  exact absurd hsame (by decide)

end PiEnv.Scripts.HeavyweightLock
