import PiEnv.Notes.MutationTurns

/-!
# Guarded mutations of a vault

A commit finds the revision that its call expects, no two commits find the same
one, and only commits change what a note contains.
-/

namespace PiEnv.Notes.Mutations

open Js

variable {host : Host} {disk disk' : Disk} {s s' : State} {i j identity other : Nat}
variable {call call' : Call} {path target : Str} {file : File}

-- -----
-- The commits of a run
-- -----

/-- A revision determines the identity, the change time and the content of a file. -/
def Host.Determines (host : Host) : Prop :=
  ∀ path path' identity identity' (attributes attributes' : Attributes) content content',
    host.revisionOf path identity attributes content =
        host.revisionOf path' identity' attributes' content' →
      identity = identity' ∧ attributes.changedAt = attributes'.changedAt ∧ content = content'

theorem Log.commit (hdetermines : host.Determines) (hbase : Base host s) (hs : Log host s)
    (hcall : s.calls[i]? = some call) (h : Commits host s i call s' call' disk') : Log host s' := by
  obtain ⟨rfl, hchange, hbefore, hpast, hrevision, hcreate, hfound, hgone⟩ := h
  have hget : (s.changed i call' disk').calls[i]? = some call' := by
    rw [State.changed, List.getElem?_set_self (List.getElem?_eq_some_iff.mp hcall).1]
  have hnone := hs.early i call hcall (by rw [hbefore]; rfl) (by rw [hbefore]; rfl)
  exact {
    sound := fun commit hcommit => by
      rcases List.mem_append.mp hcommit with hold | hnew
      · obtain ⟨made, hmade⟩ := hs.sound commit hold
        refine ⟨made, ?_, hmade.revision, hmade.create, hmade.found⟩
        exact (List.getElem?_set_ne (Ne.symm (hnone commit hold))).trans hmade.made
      · obtain rfl := List.mem_singleton.mp hnew
        refine ⟨call', hget, ?_, ?_, ?_⟩
        · rw [hchange.revision]
          exact hrevision
        · rw [hchange.operation]
          exact hcreate
        · rw [hchange.operation]
          intro hnot
          obtain ⟨identity, file, hholds⟩ := hfound hnot
          refine ⟨call.path, identity, file.attributes, file.content, hholds.entry, ?_⟩
          simp [Disk.revision, hholds.found]
    past := fun k other hk hphase => by
      rcases changed_get hcall hk with ⟨rfl, rfl⟩ | ⟨-, hkold⟩
      · exact ⟨_, List.mem_append_right _ (List.mem_singleton_self _), rfl⟩
      · obtain ⟨commit, hcommit, hk'⟩ := hs.past k other hkold hphase
        exact ⟨commit, List.mem_append_left _ hcommit, hk'⟩
    early := fun k other hk hphase hfailed commit hcommit => by
      rcases changed_get hcall hk with ⟨rfl, rfl⟩ | ⟨hki, hkold⟩
      · rw [hpast] at hphase
        cases hphase
      · rcases List.mem_append.mp hcommit with hold | hnew
        · exact hs.early k other hkold hphase hfailed commit hold
        · obtain rfl := List.mem_singleton.mp hnew
          exact Ne.symm hki
    gone := fun commit hcommit identity hentry => by
      rcases List.mem_append.mp hcommit with hold | hnew
      · obtain ⟨hlt, hnames, htemps⟩ := hs.gone commit hold identity hentry
        have hcallTemp := htemps call (List.mem_of_getElem? hcall)
        refine ⟨Nat.lt_of_lt_of_le hlt hchange.grows, fun name hname => ?_, fun other hother htemp => ?_⟩
        · rcases hchange.names name identity hname with hname' | htemp
          · exact hnames name hname'
          · exact hcallTemp htemp
        · rcases List.mem_or_eq_of_mem_set hother with hother | rfl
          · exact htemps other hother htemp
          · rcases (hchange.temp identity htemp).1 with hsame | hfresh
            · exact hcallTemp hsame
            · omega
      · obtain rfl := List.mem_singleton.mp hnew
        obtain ⟨hnames, htemps, hown⟩ := hgone identity hentry
        refine ⟨Nat.lt_of_lt_of_le (hbase.valid _ identity hentry) hchange.grows, hnames,
          fun other hother => ?_⟩
        rcases List.mem_or_eq_of_mem_set hother with hother | rfl
        · exact htemps other hother
        · exact hown
    once := by
      refine List.pairwise_append.mpr ⟨hs.once, List.pairwise_singleton _ _, fun commit hcommit new hnew => ?_⟩
      obtain rfl := List.mem_singleton.mp hnew
      refine ⟨hnone commit hcommit, fun revision hold
        (hnew : s.disk.revision host call.path = some revision) => ?_⟩
      -- the revision is that of the file that was found, which is gone since then
      obtain ⟨made, hmade⟩ := hs.sound commit hcommit
      have hnot : made.operation ≠ .create := fun hmadeCreate => by
        have hexpected := (hbase.expected _ made hmade.made).mpr hmadeCreate
        rw [← hmade.revision, hold] at hexpected
        cases hexpected
      obtain ⟨path, identity, attributes, content, hentry, hofOld⟩ := hmade.found hnot
      have hnot' : call.operation ≠ .create := fun hcallCreate => by
        have hexpected := (hbase.expected i call hcall).mpr hcallCreate
        rw [← hrevision, hnew] at hexpected
        cases hexpected
      obtain ⟨identity', file, hholds⟩ := hfound hnot'
      have hofNew : s.disk.revision host call.path =
          some (host.revisionOf call.path identity' file.attributes file.content) := by
        simp [Disk.revision, hholds.found]
      have hsame := (hold.symm.trans hofOld).symm.trans (hnew.symm.trans hofNew)
      obtain ⟨rfl, -⟩ := hdetermines _ _ _ _ _ _ _ _ (Option.some.inj hsame)
      exact (hs.gone commit hcommit identity hentry).2.1 call.path hholds.entry }

-- -----
-- Steps
-- -----

structure Inv (host : Host) (s : State) : Prop where
  base : Base host s
  log : Log host s

theorem Base.withCommits (h : Base host s) (commits : List Commit) :
    Base host { s with commits } where
  valid := h.valid
  exclusive := h.exclusive
  stored := h.stored
  temps := h.temps
  named := h.named
  expected := h.expected
  size := h.size
  point := h.point

theorem Inv.quiet (hs : Inv host s) (hcall : s.calls[i]? = some call)
    (h : Quiet host s i call s' call' disk') : Inv host s' := by
  rw [h.changed]
  exact ⟨hs.base.change hcall h.change, hs.log.change hcall h.change h.past h.early⟩

theorem Inv.commit (hdetermines : host.Determines) (hs : Inv host s)
    (hcall : s.calls[i]? = some call) (h : Commits host s i call s' call' disk') : Inv host s' := by
  refine ⟨?_, hs.log.commit hdetermines hs.base hcall h⟩
  rw [h.recorded]
  exact (hs.base.change hcall h.change).withCommits _

theorem turn_inv (hdetermines : host.Determines) (hs : Inv host s)
    (hcall : s.calls[i]? = some call) {outcome : Outcome} {now : Nat}
    (hturn : s.turn host i call outcome now = some s') : Inv host s' := by
  rcases turn_cases hs.base hcall hturn with ⟨call', disk', h⟩ | ⟨call', disk', h⟩
  · exact hs.quiet hcall h
  · exact hs.commit hdetermines hcall h

/-- A call that has just been made. -/
structure Call.New (host : Host) (disk : Disk) (call : Call) : Prop where
  temp : call.temp = none
  outside : call.phase.isInside = false
  past : call.phase.isPast = false
  expected : call.expectedRevision = none ↔ call.operation = .create
  size : call.phase.isFailed = false → byteLength call.content ≤ MAX_NOTE_BYTES
  point : call.Point host disk

theorem push_get {k : Nat} {found : Call} (h : (s.push call).calls[k]? = some found) :
    s.calls[k]? = some found ∨ k = s.calls.length ∧ found = call := by
  rcases Nat.lt_or_ge k s.calls.length with hk | hk
  · rw [State.push, List.getElem?_append_left hk] at h
    exact Or.inl h
  · rw [State.push, List.getElem?_append_right hk, List.getElem?_singleton] at h
    split at h
    · exact Or.inr ⟨by omega, (Option.some.inj h).symm⟩
    · cases h

theorem push_inv (hs : Inv host s) (hnew : call.New host s.disk) : Inv host (s.push call) where
  base := {
    valid := hs.base.valid
    exclusive := fun k l other other' hk hl hinside hinside' hpath => by
      rcases push_get hk with hk | ⟨-, rfl⟩
      · rcases push_get hl with hl | ⟨-, rfl⟩
        · exact hs.base.exclusive k l other other' hk hl hinside hinside' hpath
        · rw [hnew.outside] at hinside'
          cases hinside'
      · rw [hnew.outside] at hinside
        cases hinside
    stored := fun k other identity hk htemp => by
      rcases push_get hk with hk | ⟨-, rfl⟩
      · exact hs.base.stored k other identity hk htemp
      · rw [hnew.temp] at htemp
        cases htemp
    temps := fun k l other other' identity hk hl htemp htemp' => by
      rcases push_get hk with hk | ⟨-, rfl⟩
      · rcases push_get hl with hl | ⟨-, rfl⟩
        · exact hs.base.temps k l other other' identity hk hl htemp htemp'
        · rw [hnew.temp] at htemp'
          cases htemp'
      · rw [hnew.temp] at htemp
        cases htemp
    named := fun k other identity name hk htemp hname => by
      rcases push_get hk with hk | ⟨-, rfl⟩
      · exact hs.base.named k other identity name hk htemp hname
      · rw [hnew.temp] at htemp
        cases htemp
    expected := fun k other hk => by
      rcases push_get hk with hk | ⟨-, rfl⟩
      · exact hs.base.expected k other hk
      · exact hnew.expected
    size := fun k other hk => by
      rcases push_get hk with hk | ⟨-, rfl⟩
      · exact hs.base.size k other hk
      · exact hnew.size
    point := fun k other hk => by
      rcases push_get hk with hk | ⟨-, rfl⟩
      · exact hs.base.point k other hk
      · exact hnew.point }
  log := {
    sound := fun commit hcommit => by
      obtain ⟨made, hmade⟩ := hs.log.sound commit hcommit
      have hlt := (List.getElem?_eq_some_iff.mp hmade.made).1
      exact ⟨made, (List.getElem?_append_left hlt).trans hmade.made, hmade.revision, hmade.create,
        hmade.found⟩
    past := fun k other hk hpast => by
      rcases push_get hk with hk | ⟨-, rfl⟩
      · exact hs.log.past k other hk hpast
      · rw [hnew.past] at hpast
        cases hpast
    early := fun k other hk hpast hfailed commit hcommit => by
      rcases push_get hk with hk | ⟨rfl, -⟩
      · exact hs.log.early k other hk hpast hfailed commit hcommit
      · obtain ⟨made, hmade⟩ := hs.log.sound commit hcommit
        have hlt := (List.getElem?_eq_some_iff.mp hmade.made).1
        omega
    gone := fun commit hcommit identity hfound => by
      obtain ⟨hlt, hnames, htemps⟩ := hs.log.gone commit hcommit identity hfound
      refine ⟨hlt, hnames, fun other hother => ?_⟩
      rcases List.mem_append.mp hother with hother | hother
      · exact htemps other hother
      · obtain rfl := List.mem_singleton.mp hother
        rw [hnew.temp]
        nofun
    once := hs.log.once }

theorem write_inv (hs : Inv host s) (request : NotesWriteRequest) (aborted : Bool) :
    Inv host (s.write request aborted) := by
  have hexpected : request.expectedRevision = none ↔
      (if request.expectedRevision = none then Operation.create else .replace) = .create := by
    split <;> simp [*]
  unfold State.write
  dsimp only
  generalize (if request.expectedRevision = none then Operation.create else .replace) = operation
    at hexpected ⊢
  split
  · exact push_inv hs ⟨rfl, rfl, rfl, hexpected, nofun, rfl⟩
  split
  · exact push_inv hs ⟨rfl, rfl, rfl, hexpected, nofun, rfl⟩
  · exact push_inv hs ⟨rfl, rfl, rfl, hexpected, nofun, rfl⟩
  · rename_i hsize _
    have hcontent : byteLength request.content ≤ MAX_NOTE_BYTES := by
      unfold assertContentSize at hsize
      split at hsize
      · cases hsize
      · omega
    split
    · rename_i hcreate
      exact push_inv hs ⟨rfl, rfl, rfl, hexpected, fun _ => hcontent, hcreate, rfl⟩
    · rename_i hcreate
      exact push_inv hs ⟨rfl, rfl, rfl, hexpected, fun _ => hcontent, hcreate, rfl⟩

theorem delete_inv (hs : Inv host s) (request : NotesDeleteRequest) (aborted : Bool) :
    Inv host (s.delete request aborted) := by
  have hexpected : some request.expectedRevision = none ↔ Operation.delete = .create :=
    ⟨nofun, nofun⟩
  unfold State.delete
  dsimp only
  split
  · exact push_inv hs ⟨rfl, rfl, rfl, hexpected, nofun, rfl⟩
  split
  · exact push_inv hs ⟨rfl, rfl, rfl, hexpected, nofun, rfl⟩
  · exact push_inv hs ⟨rfl, rfl, rfl, hexpected, fun _ => Nat.zero_le _, nofun, rfl⟩

theorem abort_inv (hs : Inv host s) (i : Nat) : Inv host (s.abort i) := by
  unfold State.abort
  split
  · exact hs
  rename_i call hcall
  have hresumes : call.Resumes { call with aborted := true } := ⟨rfl, rfl, rfl, rfl, id⟩
  have hchange : Change host s call { call with aborted := true } s.disk :=
    Change.directories hs.base hcall hresumes rfl Or.inl id [] (hs.base.point i call hcall)
  exact ⟨hs.base.change hcall hchange, hs.log.change hcall hchange id fun h h' => ⟨h, h'⟩⟩

theorem step_inv (hdetermines : host.Determines) (hs : Inv host s) {event : Event}
    (hstep : step host s event = some s') : Inv host s' := by
  cases event with
  | write request aborted =>
    obtain rfl := Option.some.inj hstep
    exact write_inv hs request aborted
  | delete request aborted =>
    obtain rfl := Option.some.inj hstep
    exact delete_inv hs request aborted
  | turn i outcome now =>
    obtain ⟨call, hcall, hturn⟩ := Option.bind_eq_some_iff.mp hstep
    exact turn_inv hdetermines hs hcall hturn
  | abort i =>
    obtain rfl := Option.some.inj hstep
    exact abort_inv hs i

theorem initial_inv (host : Host) (vault : Vault) : Inv host (initial vault) where
  base := {
    valid := vault.valid
    exclusive := fun k l call call' hk => by
      rw [initial, List.getElem?_nil] at hk
      cases hk
    stored := fun k call identity hk => by
      rw [initial, List.getElem?_nil] at hk
      cases hk
    temps := fun k l call call' identity hk => by
      rw [initial, List.getElem?_nil] at hk
      cases hk
    named := fun k call identity name hk => by
      rw [initial, List.getElem?_nil] at hk
      cases hk
    expected := fun k call hk => by
      rw [initial, List.getElem?_nil] at hk
      cases hk
    size := fun k call hk => by
      rw [initial, List.getElem?_nil] at hk
      cases hk
    point := fun k call hk => by
      rw [initial, List.getElem?_nil] at hk
      cases hk }
  log := {
    sound := nofun
    past := fun k call hk => by
      rw [initial, List.getElem?_nil] at hk
      cases hk
    early := fun k call hk => by
      rw [initial, List.getElem?_nil] at hk
      cases hk
    gone := nofun
    once := List.Pairwise.nil }

-- -----
-- What is promised
-- -----

def Phase.isSucceeded : Phase → Bool
  | .succeeded _ => true
  | _ => false

structure Guarded (s : State) : Prop where
  /-- A call that succeeds has committed. -/
  committed : ∀ (i : Nat) (call : Call), s.calls[i]? = some call → call.phase.isSucceeded = true →
    ∃ commit ∈ s.commits, commit.call = i
  /-- A commit finds the revision that its call expects; one that creates finds nothing. -/
  expected : ∀ commit ∈ s.commits, ∃ call, s.calls[commit.call]? = some call ∧
    commit.revision = call.expectedRevision ∧ (call.operation = .create → commit.found = none)
  /-- No two calls succeed with the same revision. -/
  once : ∀ (i j : Nat) (call call' : Call) (revision : Str), s.calls[i]? = some call →
    s.calls[j]? = some call' → call.phase.isSucceeded = true → call'.phase.isSucceeded = true →
    call.expectedRevision = some revision → call'.expectedRevision = some revision → i = j
  temporary : ∀ call ∈ s.calls, call.phase.isOver = true → call.temp = none

/-- The steps of a call leave the contents of all notes as they are. -/
def Leaves (host : Host) (i : Nat) (s : State) (event : Event) : Prop :=
  (∃ outcome now, event = .turn i outcome now) → ∀ s', step host s event = some s' →
    ∀ path, s'.disk.content path = s.disk.content path

/-- A note that has been written is read back without a failure. -/
def readsBack (s : State) : Event → Bool
  | .turn i outcome _ =>
    match s.calls[i]? with
    | some call =>
      match call.phase with
      | .written (.reading _ _) => outcome == .succeeds && !call.aborted
      | .written _ => outcome == .succeeds
      | _ => true
    | none => true
  | _ => true

abbrev ReadsBack (s : State) (event : Event) : Prop := readsBack s event = true

theorem Phase.succeeded_past {phase : Phase} (h : phase.isSucceeded = true) :
    phase.isPast = true := by
  cases phase <;> first | rfl | cases h

theorem Phase.past_unfailed {phase : Phase} (h : phase.isPast = true) : phase.isFailed = false := by
  cases phase <;> first | rfl | cases h

theorem Inv.guarded (hs : Inv host s) : Guarded s where
  committed i call hcall hsucceeded := hs.log.past i call hcall (Phase.succeeded_past hsucceeded)
  expected commit hcommit := by
    obtain ⟨call, hcall⟩ := hs.log.sound commit hcommit
    exact ⟨call, hcall.made, hcall.revision, hcall.create⟩
  once i j call call' revision hcall hcall' hsucceeded hsucceeded' hrevision hrevision' := by
    obtain ⟨commit, hcommit, rfl⟩ := hs.log.past i call hcall (Phase.succeeded_past hsucceeded)
    obtain ⟨commit', hcommit', rfl⟩ := hs.log.past j call' hcall' (Phase.succeeded_past hsucceeded')
    obtain ⟨made, hmade⟩ := hs.log.sound commit hcommit
    obtain ⟨made', hmade'⟩ := hs.log.sound commit' hcommit'
    obtain rfl := Option.some.inj (hcall.symm.trans hmade.made)
    obtain rfl := Option.some.inj (hcall'.symm.trans hmade'.made)
    by_contra hne
    have hdifferent : commit ≠ commit' := fun heq => hne (by rw [heq])
    have hsymmetric : Std.Symm fun commit commit' : Commit =>
        commit.call ≠ commit'.call ∧ ∀ revision, commit.revision = some revision →
          commit'.revision ≠ some revision :=
      ⟨fun _ _ h => ⟨h.1.symm, fun revision h' h'' => h.2 revision h'' h'⟩⟩
    have hapart := hs.log.once.forall hcommit hcommit' hdifferent
    exact hapart.2 revision (hmade.revision.trans hrevision) (hmade'.revision.trans hrevision')
  temporary call hcall hover := by
    obtain ⟨i, hi⟩ := List.mem_iff_getElem?.mp hcall
    have hpoint := hs.base.point i call hi
    unfold Call.Point at hpoint
    cases hphase : call.phase with
    | succeeded | failed =>
      rw [hphase] at hpoint
      exact hpoint
    | _ =>
      rw [hphase] at hover
      cases hover

-- -----
-- Failures
-- -----

/-- A call that has failed has not committed. -/
def Unchanged (s : State) : Prop :=
  ∀ (i : Nat) (call : Call), s.calls[i]? = some call → call.phase.isFailed = true →
    ∀ commit ∈ s.commits, commit.call ≠ i

theorem holds_resolves (hs : Base host s) (hcall : s.calls[i]? = some call)
    (hinside : call.phase.isInside = true) (hnot : call.phase ≠ .removing none)
    (hholds : s.disk.Holds call.path identity file) :
    s.resolveExistingNote call.path = .ok identity := by
  have hparents : (parents call.path).find? (fun parent => !s.disk.isDirectory parent) = none :=
    List.find?_eq_none.mpr fun parent hparent => by
      simpa using List.all_eq_true.mp hholds.inDirectories parent hparent
  have helsewhere : s.disk.isNamedElsewhere call.path identity = false := by
    refine List.any_eq_false.mpr fun entry hentry h => ?_
    obtain ⟨hfile, hname⟩ := Bool.and_eq_true_iff.mp h
    have hget : s.disk.entries.get entry.1 = some (.file identity) :=
      JsMap.get_of_mem (beq_iff_eq.mp hfile ▸ hentry)
    exact absurd (hholds.sole entry.1 hget) (by simpa using hname)
  have htemps : s.calls.any (·.temp == some identity) = false := by
    refine List.any_eq_false.mpr fun other hother h => ?_
    exact hs.free hcall hinside hnot hholds other hother (beq_iff_eq.mp h)
  have hlinked : s.isHardLinked call.path identity = false := by
    rw [State.isHardLinked, helsewhere, htemps, hholds.stored]
    simpa using hholds.linked
  unfold State.resolveExistingNote
  rw [hparents]
  simp [hholds.entry, hlinked]

/-- The read-back goes on where neither the file system nor the signal interferes. -/
theorem readBack_succeeds (hs : Base host s) (hcall : s.calls[i]? = some call) {reading : Reading}
    (hphase : call.phase = .written reading)
    (haborted : ∀ identity initial, reading = .reading identity initial → call.aborted = false) :
    ∃ result, s.read host call.path none call.aborted reading = .ok result := by
  have hpoint := hs.point i call hcall
  simp only [Call.Point, hphase] at hpoint
  obtain ⟨-, -, identity, file, hholds, hcontent, hreading⟩ := hpoint
  have hsize : byteLength file.content ≤ MAX_NOTE_BYTES := by
    rw [hcontent]
    exact hs.size i call hcall (by rw [hphase]; rfl)
  cases reading with
  | resolving =>
    have hresolves := holds_resolves hs hcall (by rw [hphase]; rfl) (by simp [hphase]) hholds
    simp [State.read, hresolves]
  | opening found =>
    obtain rfl : found = identity := hreading
    simp [State.read, hholds.found, Nat.not_lt.mpr hsize]
  | reading found initial =>
    obtain ⟨rfl, rfl⟩ := hreading
    simp [State.read, hholds.stored, haborted found file.attributes rfl]

theorem turn_unfailed (hs : Base host s) (hcall : s.calls[i]? = some call) {outcome : Outcome}
    {now : Nat} (hreads : ReadsBack s (.turn i outcome now)) (hpast : call.phase.isPast = true)
    (hturn : s.turn host i call outcome now = some s') :
    ∀ call', s'.calls[i]? = some call' → call'.phase.isFailed = false := by
  have hlt := (List.getElem?_eq_some_iff.mp hcall).1
  have hput {t : State} {call' : Call} (ht : t.calls = s.calls)
      (hnot : call'.phase.isFailed = false) (found : Call)
      (hfound : (t.put i call').calls[i]? = some found) : found.phase.isFailed = false := by
    rw [State.put, ht, List.getElem?_set_self hlt] at hfound
    rw [← Option.some.inj hfound]
    exact hnot
  cases hphase : call.phase with
  | removing failure =>
    cases failure with
    | some cause =>
      rw [hphase] at hpast
      cases hpast
    | none =>
      simp only [State.turn, hphase] at hturn
      split at hturn
      · obtain rfl := Option.some.inj hturn
        refine hput ?_ rfl
        unfold State.changeTemporary
        split <;> rfl
      · cases hturn
  | written reading =>
    have hsucceeds : outcome = .succeeds ∧
        ∀ identity initial, reading = .reading identity initial → call.aborted = false := by
      cases reading <;> simp_all [ReadsBack, readsBack]
    obtain ⟨result, hresult⟩ := readBack_succeeds hs hcall hphase hsucceeds.2
    simp only [State.turn, hphase, hsucceeds.1, State.awaited, hresult] at hturn
    cases result with
    | inl next =>
      obtain rfl := Option.some.inj hturn
      exact hput rfl rfl
    | inr revision =>
      obtain rfl := Option.some.inj hturn
      exact hput rfl rfl
  | succeeded revision =>
    simp only [State.turn, hphase] at hturn
    cases hturn
  | _ =>
    rw [hphase] at hpast
    cases hpast

theorem turn_unchanged (hs : Inv host s) (hunchanged : Unchanged s) (hcall : s.calls[i]? = some call)
    {outcome : Outcome} {now : Nat} (hreads : ReadsBack s (.turn i outcome now))
    (hturn : s.turn host i call outcome now = some s') : Unchanged s' := by
  have hunfailed (hpast : call.phase.isPast = true) :=
    turn_unfailed hs.base hcall hreads hpast hturn
  have hover : call.phase.isFailed = false := by
    cases hphase : call.phase with
    | failed cause =>
      simp only [State.turn, hphase] at hturn
      cases hturn
    | _ => rfl
  rcases turn_cases hs.base hcall hturn with ⟨call', disk', h⟩ | ⟨call', disk', h⟩
  · obtain rfl := h.changed
    intro k found hk hfailed commit hcommit
    rcases changed_get hcall hk with ⟨rfl, rfl⟩ | ⟨-, hk⟩
    · refine hs.log.early k call hcall ?_ hover commit hcommit
      by_contra hpast
      rw [hunfailed (by simpa using hpast) found hk] at hfailed
      cases hfailed
    · exact hunchanged k found hk hfailed commit hcommit
  · obtain rfl := h.recorded
    intro k found hk hfailed commit hcommit
    rcases changed_get hcall hk with ⟨rfl, rfl⟩ | ⟨hki, hk⟩
    · rw [Phase.past_unfailed h.past] at hfailed
      cases hfailed
    · rcases List.mem_append.mp hcommit with hold | hnew
      · exact hunchanged k found hk hfailed commit hold
      · obtain rfl := List.mem_singleton.mp hnew
        exact Ne.symm hki

theorem push_unchanged (hs : Log host s) (hunchanged : Unchanged s) (call : Call) :
    Unchanged (s.push call) := by
  intro k found hk hfailed commit hcommit
  rcases push_get hk with hk | ⟨rfl, -⟩
  · exact hunchanged k found hk hfailed commit hcommit
  · obtain ⟨made, hmade⟩ := hs.sound commit hcommit
    have := (List.getElem?_eq_some_iff.mp hmade.made).1
    omega

theorem step_unchanged (hs : Inv host s) (hunchanged : Unchanged s) {event : Event}
    (hreads : ReadsBack s event) (hstep : step host s event = some s') : Unchanged s' := by
  cases event with
  | write request aborted =>
    obtain rfl := Option.some.inj hstep
    unfold State.write
    dsimp only
    generalize (if request.expectedRevision = none then Operation.create else .replace) = operation
    split
    · exact push_unchanged hs.log hunchanged _
    split <;> exact push_unchanged hs.log hunchanged _
  | delete request aborted =>
    obtain rfl := Option.some.inj hstep
    unfold State.delete
    dsimp only
    split
    · exact push_unchanged hs.log hunchanged _
    split <;> exact push_unchanged hs.log hunchanged _
  | turn i outcome now =>
    obtain ⟨call, hcall, hturn⟩ := Option.bind_eq_some_iff.mp hstep
    exact turn_unchanged hs hunchanged hcall hreads hturn
  | abort i =>
    obtain rfl := Option.some.inj hstep
    unfold State.abort
    split
    · exact hunchanged
    · rename_i call hcall
      intro k found hk hfailed commit hcommit
      rcases changed_get hcall hk with ⟨rfl, rfl⟩ | ⟨-, hk⟩
      · exact hunchanged k call hcall hfailed commit hcommit
      · exact hunchanged k found hk hfailed commit hcommit

-- -----
-- Runs
-- -----

theorem turn_leaves (hs : Base host s) (hcall : s.calls[i]? = some call) {outcome : Outcome}
    {now : Nat} (hturn : s.turn host i call outcome now = some s')
    (hnone : ∀ commit ∈ s'.commits, commit.call ≠ i) (path : Str) :
    s'.disk.content path = s.disk.content path := by
  rcases turn_cases hs hcall hturn with ⟨call', disk', h⟩ | ⟨call', disk', h⟩
  · obtain rfl := h.changed
    exact h.content path
  · obtain rfl := h.recorded
    exact absurd rfl (hnone _ (List.mem_append_right _ (List.mem_singleton_self _)))

theorem step_commits (hs : Base host s) {event : Event} (hstep : step host s event = some s')
    {commit : Commit} (hcommit : commit ∈ s.commits) : commit ∈ s'.commits := by
  cases event with
  | write request aborted =>
    obtain rfl := Option.some.inj hstep
    unfold State.write
    dsimp only
    generalize (if request.expectedRevision = none then Operation.create else .replace) = operation
    split
    · exact hcommit
    split <;> exact hcommit
  | delete request aborted =>
    obtain rfl := Option.some.inj hstep
    unfold State.delete
    dsimp only
    split
    · exact hcommit
    split <;> exact hcommit
  | turn i outcome now =>
    obtain ⟨call, hcall, hturn⟩ := Option.bind_eq_some_iff.mp hstep
    rcases turn_cases hs hcall hturn with ⟨call', disk', h⟩ | ⟨call', disk', h⟩
    · obtain rfl := h.changed
      exact hcommit
    · obtain rfl := h.recorded
      exact List.mem_append_left _ hcommit
  | abort i =>
    obtain rfl := Option.some.inj hstep
    unfold State.abort
    split <;> exact hcommit

theorem run_commits (hdetermines : host.Determines) {events : List Event} (hs : Inv host s)
    (hrun : Transitions.run (step host) s events = some s') {commit : Commit}
    (hcommit : commit ∈ s.commits) : commit ∈ s'.commits := by
  induction events generalizing s with
  | nil =>
    rw [← Option.some.inj hrun]
    exact hcommit
  | cons event rest ih =>
    obtain ⟨between, hone, hrest⟩ := Option.bind_eq_some_iff.mp hrun
    exact ih (step_inv hdetermines hs hone) hrest (step_commits hs.base hone hcommit)

/-- A call that has not committed at the end of a run has changed no note. -/
theorem run_leaves (hdetermines : host.Determines) {events : List Event} (hs : Inv host s)
    (hrun : Transitions.run (step host) s events = some s')
    (hnone : ∀ commit ∈ s'.commits, commit.call ≠ i) :
    Transitions.AllMeet (step host) (Leaves host i) s events := by
  induction events generalizing s with
  | nil => trivial
  | cons event rest ih =>
    obtain ⟨between, hone, hrest⟩ := Option.bind_eq_some_iff.mp hrun
    have hinv := step_inv hdetermines hs hone
    refine Transitions.AllMeet.cons ?_ hone (ih hinv hrest)
    rintro ⟨outcome, now, rfl⟩ after hafter path
    obtain rfl := Option.some.inj (hone.symm.trans hafter)
    obtain ⟨call, hcall, hturn⟩ := Option.bind_eq_some_iff.mp hone
    exact turn_leaves hs.base hcall hturn
      (fun commit hcommit => hnone commit (run_commits hdetermines hinv hrest hcommit)) path

theorem mutations_guarded (hdetermines : host.Determines) {vault : Vault} {events : List Event}
    (hrun : Transitions.run (step host) (initial vault) events = some s) :
    Guarded s ∧ (Transitions.AllMeet (step host) ReadsBack (initial vault) events →
      ∀ (i : Nat) (call : Call), s.calls[i]? = some call → call.phase.isFailed = true →
        Transitions.AllMeet (step host) (Leaves host i) (initial vault) events) := by
  have hs := Transitions.always (fun _ _ _ hs hstep => step_inv hdetermines hs hstep)
    (initial_inv host vault) hrun
  refine ⟨hs.guarded, fun hreads i call hcall hfailed => ?_⟩
  have hboth (s : State) (event : Event) (s' : State) (h : Inv host s ∧ Unchanged s)
      (hok : ReadsBack s event) (hstep : step host s event = some s') : Inv host s' ∧ Unchanged s' :=
    ⟨step_inv hdetermines h.1 hstep, step_unchanged h.1 h.2 hok hstep⟩
  have hstart : Unchanged (initial vault) := fun i call h => by
    rw [initial, List.getElem?_nil] at h
    cases h
  have hunchanged := (Transitions.invariant hboth ⟨initial_inv host vault, hstart⟩ hreads hrun).2
  exact run_leaves hdetermines (initial_inv host vault) hrun (hunchanged i call hcall hfailed)

-- -----
-- Examples
-- -----

/-- A host whose revisions spell out what they determine. -/
def plainHost : Host where
  revisionOf _ identity attributes content :=
    List.replicate identity 0 ++ 1 :: (List.replicate attributes.changedAt 0 ++ 1 :: content)
  win32 := false
  owner := 0
  group := 0

theorem replicate_append_inj {m n : Nat} {rest rest' : Str}
    (h : List.replicate m 0 ++ 1 :: rest = List.replicate n 0 ++ 1 :: rest') :
    m = n ∧ rest = rest' := by
  induction m generalizing n with
  | zero =>
    cases n with
    | zero => exact ⟨rfl, (List.cons.inj h).2⟩
    | succ n => exact absurd (List.cons.inj h).1 (by decide)
  | succ m ih =>
    cases n with
    | zero => exact absurd (List.cons.inj h).1 (by decide)
    | succ n =>
      obtain ⟨rfl, hrest⟩ := ih (List.cons.inj h).2
      exact ⟨rfl, hrest⟩

theorem plainHost_determines : plainHost.Determines := by
  intro path path' identity identity' attributes attributes' content content' h
  obtain ⟨hidentity, hrest⟩ := replicate_append_inj h
  exact ⟨hidentity, replicate_append_inj hrest⟩

def emptyVault : Vault := ⟨⟨.empty, []⟩, nofun⟩

/-- `n` turns of a call in which nothing fails. -/
def turns (call n now : Nat) : List Event := .replicate n (.turn call .succeeds now)

/-- A note is created; of two calls that replace it with its revision one succeeds. -/
def replacedOnce : List Event :=
  .write ⟨lit "a.md", lit "one", none⟩ false :: turns 0 11 1 ++
    .write ⟨lit "a.md", lit "two", some (1 :: 0 :: 1 :: lit "one")⟩ false ::
    .write ⟨lit "a.md", lit "three", some (1 :: 0 :: 1 :: lit "one")⟩ false ::
    turns 1 1 2 ++ turns 2 2 2 ++ turns 2 14 3 ++ turns 1 2 4

theorem replacedOnce_guarded :
    ∃ s, Transitions.run (step plainHost) (initial emptyVault) replacedOnce = some s ∧
      s.disk.content (lit "a.md") = some (lit "three") ∧
      s.calls.map (·.phase.isSucceeded) = [true, false, true] ∧ Guarded s ∧
      Transitions.AllMeet (step plainHost) (Leaves plainHost 1) (initial emptyVault) replacedOnce := by
  have hmap : (Transitions.run (step plainHost) (initial emptyVault) replacedOnce).map
      (fun s => (s.disk.content (lit "a.md"), s.calls.map (·.phase.isSucceeded),
        s.calls[1]?.map (·.phase.isFailed))) =
      some (some (lit "three"), [true, false, true], some true) := by decide +kernel
  obtain ⟨s, hrun, hs⟩ := Option.map_eq_some_iff.mp hmap
  simp only [Prod.mk.injEq] at hs
  obtain ⟨hcontent, hsucceeded, hfailed⟩ := hs
  obtain ⟨call, hcall, hphase⟩ := Option.map_eq_some_iff.mp hfailed
  obtain ⟨hguarded, hleaves⟩ := mutations_guarded plainHost_determines hrun
  exact ⟨s, hrun, hcontent, hsucceeded, hguarded, hleaves (by decide +kernel) 1 call hcall hphase⟩

/-- A note is created, and the signal aborts before it has been read back. -/
def abortedReadBack : List Event :=
  (.write ⟨lit "a.md", lit "one", none⟩ false :: turns 0 6 1) ++
    .turn 0 .succeeds 2 :: (turns 0 3 2 ++ .abort 0 :: turns 0 1 2)

theorem abortedReadBack_notGuarded :
    plainHost.Determines ∧
      ¬ ∀ (vault : Vault) (events : List Event) (s : State) (i : Nat) (call : Call),
        Transitions.run (step plainHost) (initial vault) events = some s →
        s.calls[i]? = some call → call.phase.isFailed = true →
        Transitions.AllMeet (step plainHost) (Leaves plainHost i) (initial vault) events := by
  refine ⟨plainHost_determines, fun hclaim => ?_⟩
  have hmap : (Transitions.run (step plainHost) (initial emptyVault) abortedReadBack).map
      (fun s => s.calls[0]?.map (·.phase.isFailed)) = some (some true) := by decide +kernel
  obtain ⟨s, hrun, hs⟩ := Option.map_eq_some_iff.mp hmap
  obtain ⟨call, hcall, hphase⟩ := Option.map_eq_some_iff.mp hs
  have hleaves := hclaim emptyVault abortedReadBack s 0 call hrun hcall hphase
  have hcommit : ((Transitions.run (step plainHost) (initial emptyVault)
      (.write ⟨lit "a.md", lit "one", none⟩ false :: turns 0 6 1)).bind fun before =>
        (step plainHost before (.turn 0 .succeeds 2)).map fun after =>
          (before.disk.content (lit "a.md"), after.disk.content (lit "a.md"))) =
      some (none, some (lit "one")) := by decide +kernel
  obtain ⟨before, hbefore, hstep⟩ := Option.bind_eq_some_iff.mp hcommit
  obtain ⟨after, hafter, hcontents⟩ := Option.map_eq_some_iff.mp hstep
  obtain ⟨hnone, hsome⟩ := Prod.mk.inj hcontents
  have hsame := hleaves.reached hbefore ⟨.succeeds, 2, rfl⟩ after hafter (lit "a.md")
  rw [hnone, hsome] at hsame
  cases hsame

end PiEnv.Notes.Mutations
