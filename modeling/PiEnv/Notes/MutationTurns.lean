import PiEnv.Notes.MutationChanges

/-!
# Turns of a call

A turn changes no note, or it is the commit of its call.
-/

namespace PiEnv.Notes.Mutations

open Js

variable {host : Host} {disk disk' : Disk} {s s' : State} {i j identity other : Nat}
variable {call call' : Call} {path target : Str} {file : File}

-- -----
-- Reading
-- -----

theorem resolve_holds (hvalid : s.disk.Valid) (h : s.resolveExistingNote path = .ok identity) :
    ∃ file, s.disk.Holds path identity file := by
  unfold State.resolveExistingNote at h
  split at h
  · split at h <;> cases h
  rename_i hparents
  split at h
  case h_1 | h_2 | h_3 => cases h
  rename_i found hentry
  split at h
  · cases h
  rename_i hlinked
  obtain rfl := Except.ok.inj h
  have hstored := List.getElem?_eq_getElem (hvalid path found hentry)
  rw [Bool.not_eq_true, State.isHardLinked, Bool.or_eq_false_iff, Bool.or_eq_false_iff] at hlinked
  obtain ⟨⟨houtside, helsewhere⟩, -⟩ := hlinked
  refine ⟨_, hentry, hstored, fun name hname => ?_, ?_, ?_⟩
  · have := List.any_eq_false.mp helsewhere (name, .file found) (JsMap.mem_of_get hname)
    simpa using this
  · refine List.all_eq_true.mpr fun parent hparent => ?_
    simpa using List.find?_eq_none.mp hparents parent hparent
  · rw [hstored] at houtside
    simpa using houtside

theorem read_resolving {expected : Option Nat} {aborted : Bool} {result : Reading ⊕ Str}
    (h : s.read host path expected aborted .resolving = .ok result) :
    ∃ identity, result = .inl (.opening identity) ∧ s.resolveExistingNote path = .ok identity ∧
      ∀ found, expected = some found → identity = found := by
  simp only [State.read] at h
  split at h
  · cases h
  rename_i identity hidentity
  split at h
  · rename_i hexpected
    obtain rfl := Except.ok.inj h
    refine ⟨identity, rfl, hidentity, ?_⟩
    rintro found rfl
    have hsame : found = identity := by simpa using hexpected
    exact hsame.symm
  · cases h

theorem read_opening {expected : Option Nat} {aborted : Bool} {result : Reading ⊕ Str}
    (h : s.read host path expected aborted (.opening identity) = .ok result) :
    ∃ file, result = .inl (.reading identity file.attributes) ∧
      s.disk.file path = some (identity, file) := by
  simp only [State.read] at h
  split at h
  · cases h
  rename_i opened file hfile
  split at h
  · cases h
  rename_i hopened
  split at h
  · cases h
  obtain rfl := Except.ok.inj h
  exact ⟨file, rfl, by rw [hfile, not_not.mp hopened]⟩

theorem read_reading {expected : Option Nat} {aborted : Bool} {initial : Attributes}
    {result : Reading ⊕ Str}
    (h : s.read host path expected aborted (.reading identity initial) = .ok result) :
    ∃ file, s.disk.files[identity]? = some file ∧
      result = .inr (host.revisionOf path identity file.attributes file.content) := by
  simp only [State.read] at h
  split at h
  · cases h
  rename_i file hstored
  split at h
  · cases h
  split at h
  · cases h
  exact ⟨file, hstored, (Except.ok.inj h).symm⟩

theorem awaited_ok {α : Type} {outcome : Outcome} {result : Except Cause α} {a : α}
    (h : State.awaited outcome result = .ok a) : outcome = .succeeds ∧ result = .ok a := by
  cases outcome with
  | succeeds => exact ⟨rfl, h⟩
  | fails => cases h

-- -----
-- The phases before the commit
-- -----

theorem commit_quiet (hs : Base host s) (hcall : s.calls[i]? = some call)
    (hworking : call.phase.isWorking = true)
    (hpoint : { call with phase := .committing }.Point host s.disk) :
    IsQuiet host s i call (s.commit i call) := by
  have hfailed := (Phase.before_kept (Phase.working_inside hworking).2).2.1
  unfold State.commit
  split
  · exact fail_quiet hs hcall (Phase.working_inside hworking).2 _
  · exact become_quiet hs hcall (.of_working hworking rfl) hfailed hpoint

theorem writeTemporary_quiet (hs : Base host s) (hcall : s.calls[i]? = some call)
    (hworking : call.phase.isWorking = true) (paths : List Str)
    {replaced : Option (Nat × Attributes)}
    (hpoint : { call with phase := .writing replaced }.Point host (s.disk.makeDirectories paths)) :
    IsQuiet host s i call
      ({ s with disk := s.disk.makeDirectories paths }.writeTemporary i call replaced) := by
  have hfailed := (Phase.before_kept (Phase.working_inside hworking).2).2.1
  unfold State.writeTemporary
  split
  · exact fail_directories hs hcall (Phase.working_inside hworking).2 _ paths
  · exact become_directories hs hcall (.of_working hworking rfl) hfailed paths hpoint

theorem resolveWritableNote_disk (s : State) (notePath : Str) (outcome : Outcome) :
    ∃ paths, (s.resolveWritableNote notePath outcome).1 = s.disk.makeDirectories paths := by
  unfold State.resolveWritableNote
  split
  · exact ⟨[], rfl⟩
  · split
    · exact ⟨_, rfl⟩
    · exact ⟨_, rfl⟩

theorem enter_quiet (hs : Base host s) (hcall : s.calls[i]? = some call) {initial : Option Nat}
    (hphase : call.phase = .waiting initial) (hfree : s.isQueueFree call.path = true) :
    IsQuiet host s i call (s.enter i call initial) := by
  have hpoint := hs.point i call hcall
  simp only [Call.Point, hphase] at hpoint
  have hbefore : call.phase.isBefore = true := by
    rw [hphase]
    rfl
  have hfailed := (Phase.before_kept hbefore).2.1
  unfold State.enter
  split
  · rename_i hcreate
    split
    · exact fail_quiet hs hcall hbefore _
    · exact become_quiet hs hcall (.of_before hbefore rfl fun _ => Or.inr hfree) hfailed
        ⟨hcreate, hpoint.2⟩
  · rename_i hdelete
    split
    · exact fail_quiet hs hcall hbefore _
    · refine become_quiet hs hcall (.of_before hbefore rfl fun _ => Or.inr hfree) hfailed ⟨?_, hpoint.2⟩
      simp [hdelete]
  · rename_i hreplace
    refine become_quiet hs hcall (.of_before hbefore rfl fun _ => Or.inr hfree) hfailed ⟨?_, hpoint.2⟩
    simp [hreplace]
  · exact fail_quiet hs hcall hbefore _

theorem checked_quiet (hs : Base host s) (hcall : s.calls[i]? = some call) {initial : Nat}
    {reading : Reading} (hphase : call.phase = .current initial reading) (revision : Str) :
    IsQuiet host s i call (s.checked i call initial revision) := by
  have hpoint := hs.point i call hcall
  simp only [Call.Point, hphase] at hpoint
  have hworking : call.phase.isWorking = true := by
    rw [hphase]
    rfl
  have hbefore := (Phase.working_inside hworking).2
  have hfailed := (Phase.before_kept hbefore).2.1
  unfold State.checked
  split
  · exact fail_quiet hs hcall hbefore _
  split
  · rename_i hdelete
    refine become_quiet hs hcall (.of_working hworking rfl) hfailed ⟨hpoint.1, ?_, Or.inl rfl⟩
    simpa only [Call.Ready, hdelete] using hpoint.2
  · rename_i hdelete
    refine become_quiet hs hcall (.of_working hworking rfl) hfailed ⟨?_, hpoint.2⟩
    cases hoperation : call.operation with
    | create => exact absurd hoperation hpoint.1
    | replace => rfl
    | delete => exact absurd hoperation hdelete

theorem created_quiet (hs : Base host s) (hworking : call.phase.isWorking = true) {phase : Phase} (hpast : phase.isPast = false)
    {content : Str} {now : Nat}
    (hpoint : { call with temp := some s.disk.files.length, phase }.Point host
      (s.created host call content now).1.disk) :
    IsQuiet host s i call
      ((s.created host call content now).1.become i (s.created host call content now).2 phase) := by
  obtain ⟨hinside, hbefore⟩ := Phase.working_inside hworking
  obtain ⟨hnot, hfailed, -⟩ := Phase.before_kept hbefore
  have hresumes : call.Resumes { call with temp := some s.disk.files.length, phase } :=
    ⟨rfl, rfl, rfl, rfl, fun _ => hfailed⟩
  refine ⟨{ call with temp := some s.disk.files.length, phase }, _, rfl,
    .create hs hresumes rfl hinside _ hpoint, create_content hs.valid _, fun h => ?_,
    fun _ _ => ⟨hnot, hfailed⟩⟩
  rw [hpast] at h
  cases h

/-- The temporary file of a call that has just been written. -/
theorem created_prepared (host : Host) (s : State) (call : Call) (now : Nat) :
    Call.Prepared (s.created host call call.content now).1.disk
      (s.created host call call.content now).2 :=
  ⟨s.disk.files.length, _, rfl, List.getElem?_concat_length, rfl, rfl⟩

theorem prepare_quiet (hs : Base host s) (hcall : s.calls[i]? = some call)
    {replaced : Option (Nat × Attributes)} (hphase : call.phase = .writing replaced) {now : Nat} :
    IsQuiet host s i call ((s.created host call call.content now).1.prepare host i
      (s.created host call call.content now).2 replaced) := by
  have hpoint := hs.point i call hcall
  simp only [Call.Point, hphase] at hpoint
  obtain ⟨hreplaced, hdelete, -⟩ := hpoint
  have hworking : call.phase.isWorking = true := by
    rw [hphase]
    rfl
  have hprepared := created_prepared host s call now
  unfold State.prepare
  split
  · have hcreate : call.operation = .create := hreplaced.mp rfl
    unfold State.commit
    split
    · exact created_quiet hs hworking rfl rfl
    · refine created_quiet hs hworking rfl ⟨?_, fun h => absurd hcreate h⟩
      simp only [Call.Ready, State.created, hcreate]
      exact hprepared
  · rename_i identity metadata
    have hreplace : call.operation = .replace := by
      cases hoperation : call.operation with
      | create => cases hreplaced.mpr hoperation
      | replace => rfl
      | delete => exact absurd hoperation hdelete
    split
    · refine created_quiet hs hworking rfl ⟨?_, ?_, Or.inl rfl⟩
      · simp [hreplace]
      · simp only [Call.Ready, State.created, hreplace]
        exact hprepared
    · exact created_quiet hs hworking rfl ⟨hreplace, hprepared⟩

/-- `chown` and `chmod` of the temporary file. -/
theorem attributes_quiet (hs : Base host s) (hcall : s.calls[i]? = some call)
    (hworking : call.phase.isWorking = true) (hprepared : call.Prepared s.disk) {phase : Phase}
    (hpast : phase.isPast = false) (attributes : Attributes → Attributes)
    (hpoint : ∀ disk', call.Prepared disk' → { call with phase }.Point host disk') :
    IsQuiet host s i call ((s.changeTemporary call attributes).become i call phase) := by
  obtain ⟨hinside, hbefore⟩ := Phase.working_inside hworking
  obtain ⟨hnot, hfailed, hremoving⟩ := Phase.before_kept hbefore
  obtain ⟨identity, file, htemp, hstored, hcontent, hlinked⟩ := hprepared
  have hresumes : call.Resumes { call with phase } := ⟨rfl, rfl, rfl, rfl, fun _ => hfailed⟩
  have hafter : call.Prepared (s.disk.change identity attributes) :=
    ⟨identity, _, htemp, change_self hstored, hcontent, hlinked⟩
  have hchanged : s.changeTemporary call attributes =
      { s with disk := s.disk.change identity attributes } := by
    rw [State.changeTemporary, htemp]
  refine ⟨{ call with phase }, s.disk.change identity attributes,
    congrArg (fun t : State => t.become i call phase) hchanged,
    .temporary hs hcall hresumes htemp (Or.inl rfl) hinside (fun h => absurd h hremoving) attributes
      (hpoint _ hafter), change_notes attributes, fun h => ?_, fun _ _ => ⟨hnot, hfailed⟩⟩
  rw [hpast] at h
  cases h

/-- A call in the queue that has not committed and reads its note on. -/
theorem verify_point (hs : Base host s) (hcall : s.calls[i]? = some call) {reading next : Reading}
    (hphase : call.phase = .verifying identity reading)
    (hread : s.read host call.path (some identity) false reading = .ok (.inl next)) :
    { call with phase := .verifying identity next }.Point host s.disk := by
  have hpoint := hs.point i call hcall
  simp only [Call.Point, hphase] at hpoint ⊢
  refine ⟨hpoint.1, hpoint.2.1, Or.inr ?_⟩
  cases reading with
  | resolving =>
    obtain ⟨found, hnext, hresolve, hsame⟩ := read_resolving hread
    obtain rfl := Sum.inl.inj hnext
    obtain rfl := hsame identity rfl
    exact ⟨rfl, resolve_holds hs.valid hresolve⟩
  | opening found =>
    obtain ⟨file, hnext, -⟩ := read_opening hread
    obtain rfl := Sum.inl.inj hnext
    rcases hpoint.2.2 with h | h
    · cases h
    · exact h
  | reading found initial =>
    obtain ⟨file, -, hnext⟩ := read_reading hread
    cases hnext

/-- The check at the commit boundary has found the expected revision. -/
theorem verified_point (hs : Base host s) (hcall : s.calls[i]? = some call) {reading : Reading}
    {revision : Str} (hphase : call.phase = .verifying identity reading)
    (hread : s.read host call.path (some identity) false reading = .ok (.inr revision))
    (hexpected : some revision = call.expectedRevision) :
    { call with phase := .committing }.Point host s.disk := by
  have hpoint := hs.point i call hcall
  simp only [Call.Point, hphase] at hpoint ⊢
  refine ⟨hpoint.2.1, fun _ => ?_⟩
  cases reading with
  | resolving =>
    obtain ⟨found, hnext, -⟩ := read_resolving hread
    cases hnext
  | opening found =>
    obtain ⟨file, hnext, -⟩ := read_opening hread
    cases hnext
  | reading found initial =>
    obtain ⟨file, hstored, hnext⟩ := read_reading hread
    obtain rfl := Sum.inr.inj hnext
    rcases hpoint.2.2 with h | ⟨hof, file', hholds⟩
    · cases h
    obtain rfl : found = identity := hof
    obtain rfl := Option.some.inj (hstored.symm.trans hholds.stored)
    exact ⟨found, file, hholds, hexpected.symm⟩

-- -----
-- The phases behind the commit
-- -----

theorem Disk.Holds.changeSelf (h : disk.Holds path identity file)
    (attributes : Attributes → Attributes) :
    (disk.change identity attributes).Holds path identity
      { file with attributes := attributes file.attributes } where
  entry := h.entry
  stored := change_self h.stored
  sole := h.sole
  inDirectories := h.inDirectories
  linked := h.linked

theorem Phase.Follows.of_written {phase : Phase} {reading : Reading}
    (hphase : call.phase = .written reading) (hnot : phase.isPast = true ∨ phase.isFailed = true) :
    phase.Follows s call where
  inside _ := by
    rw [hphase]
    exact Or.inl rfl
  removing := by
    rw [hphase]
    nofun
  past _ := by
    rw [hphase]
    rfl
  early hpast hfailed := by
    rcases hnot with h | h
    · rw [hpast] at h
      cases h
    · rw [hfailed] at h
      cases h

theorem written_point (hs : Base host s) (hcall : s.calls[i]? = some call) {reading next : Reading}
    (hphase : call.phase = .written reading)
    (hread : s.read host call.path none call.aborted reading = .ok (.inl next)) :
    { call with phase := .written next }.Point host s.disk := by
  have hpoint := hs.point i call hcall
  simp only [Call.Point, hphase] at hpoint ⊢
  obtain ⟨hdelete, htemp, identity, file, hholds, hcontent, hreading⟩ := hpoint
  refine ⟨hdelete, htemp, identity, file, hholds, hcontent, ?_⟩
  cases reading with
  | resolving =>
    obtain ⟨found, hnext, hresolve, -⟩ := read_resolving hread
    obtain rfl := Sum.inl.inj hnext
    obtain ⟨file', hholds'⟩ := resolve_holds hs.valid hresolve
    exact Entry.file.inj (Option.some.inj (hholds'.entry.symm.trans hholds.entry))
  | opening found =>
    obtain ⟨file', hnext, hfile⟩ := read_opening hread
    obtain rfl := Sum.inl.inj hnext
    obtain ⟨rfl, rfl⟩ := Prod.mk.inj (Option.some.inj (hfile.symm.trans hholds.found))
    exact ⟨rfl, rfl⟩
  | reading found initial =>
    obtain ⟨file', -, hnext⟩ := read_reading hread
    cases hnext

theorem written_quiet (hs : Base host s) (hcall : s.calls[i]? = some call) {reading : Reading}
    (hphase : call.phase = .written reading) {outcome : Outcome} {now : Nat}
    (hturn : s.turn host i call outcome now = some s') : IsQuiet host s i call s' := by
  have hpoint := hs.point i call hcall
  simp only [Call.Point, hphase] at hpoint
  have hfailed : call.phase.isFailed = false := by
    rw [hphase]
    rfl
  simp only [State.turn, hphase] at hturn
  split at hturn
  · obtain rfl := Option.some.inj hturn
    rw [State.fail, hpoint.2.1]
    exact become_quiet hs hcall (.of_written hphase (Or.inr rfl)) hfailed hpoint.2.1
  · rename_i next hread
    obtain rfl := Option.some.inj hturn
    exact become_quiet hs hcall (.of_written hphase (Or.inl rfl)) hfailed
      (written_point hs hcall hphase (awaited_ok hread).2)
  · obtain rfl := Option.some.inj hturn
    exact become_quiet hs hcall (.of_written hphase (Or.inl rfl)) hfailed hpoint.2.1

theorem removed_quiet (hs : Base host s) (hcall : s.calls[i]? = some call) {failure : Option Cause}
    (hphase : call.phase = .removing failure) {now : Nat} :
    IsQuiet host s i call (s.removed i call failure now) := by
  have hpoint := hs.point i call hcall
  simp only [Call.Point, hphase] at hpoint
  have hinside : call.phase.isInside = true := by
    rw [hphase]
    rfl
  have hfailed : call.phase.isFailed = false := by
    rw [hphase]
    rfl
  have hquiet {identity : Nat} {call' : Call} (htemp : call.temp = some identity)
      (hresumes : call.Resumes call') (hnone : call'.temp = none)
      (hpast : call'.phase.isPast = true → call.phase.isPast = true)
      (hearly : call'.phase.isPast = true ∨ call'.phase.isFailed = true)
      (hpoint' : call'.Point host (s.disk.change identity ({ · with changedAt := now }))) :
      IsQuiet host s i call ((s.changeTemporary call ({ · with changedAt := now })).put i call') := by
    have hchanged : s.changeTemporary call ({ · with changedAt := now }) =
        { s with disk := s.disk.change identity ({ · with changedAt := now }) } := by
      rw [State.changeTemporary, htemp]
    refine ⟨call', s.disk.change identity ({ · with changedAt := now }),
      congrArg (fun t : State => t.put i call') hchanged,
      .temporary hs hcall hresumes htemp (Or.inr hnone) hinside (fun _ => hnone) _ hpoint',
      change_notes _, hpast, fun hnot hnotFailed => ?_⟩
    rcases hearly with h | h
    · rw [hnot] at h
      cases h
    · rw [hnotFailed] at h
      cases h
  cases failure with
  | some cause =>
    obtain ⟨identity, htemp⟩ := Option.isSome_iff_exists.mp hpoint
    exact hquiet htemp ⟨rfl, rfl, rfl, rfl, fun _ => hfailed⟩ rfl (by intro h; cases h) (Or.inr rfl) rfl
  | none =>
    obtain ⟨hcreate, identity, file, htemp, hholds, hcontent⟩ := hpoint
    refine hquiet htemp ⟨rfl, rfl, rfl, rfl, fun _ => hfailed⟩ rfl (fun _ => ?_) (Or.inl rfl) ?_
    · rw [hphase]
      rfl
    · refine ⟨?_, rfl, identity, _, hholds.changeSelf _, hcontent, trivial⟩
      simp [hcreate]

-- -----
-- Commits
-- -----

/-- A turn that changes the note of its call. -/
structure Commits (host : Host) (s : State) (i : Nat) (call : Call) (s' : State) (call' : Call)
    (disk' : Disk) : Prop where
  recorded : s' = { s.changed i call' disk' with commits := s.commits ++
    [⟨i, s.disk.entries.get call.path, s.disk.revision host call.path⟩] }
  change : Change host s call call' disk'
  before : call.phase = .committing
  past : call'.phase.isPast = true
  revision : s.disk.revision host call.path = call.expectedRevision
  create : call.operation = .create → s.disk.entries.get call.path = none
  found : call.operation ≠ .create → ∃ identity file, s.disk.Holds call.path identity file
  gone : ∀ identity, s.disk.entries.get call.path = some (.file identity) →
    (∀ name, disk'.entries.get name ≠ some (.file identity)) ∧
      (∀ other ∈ s.calls, other.temp ≠ some identity) ∧ call'.temp ≠ some identity

def IsCommit (host : Host) (s : State) (i : Nat) (call : Call) (s' : State) : Prop :=
  ∃ call' disk', Commits host s i call s' call' disk'

/-- The file of a note that a call works on is no temporary file. -/
theorem Base.free (hs : Base host s) (hcall : s.calls[i]? = some call)
    (hinside : call.phase.isInside = true) (hnot : call.phase ≠ .removing none)
    (hholds : s.disk.Holds call.path identity file) :
    ∀ other ∈ s.calls, other.temp ≠ some identity := by
  intro other hother htemp
  obtain ⟨k, hk⟩ := List.mem_iff_getElem?.mp hother
  obtain ⟨hpath, hremoving⟩ := hs.named k other identity call.path hk htemp hholds.entry
  have hinside' : other.phase.isInside = true := by
    rw [hremoving]
    rfl
  obtain rfl := hs.exclusive i k call other hcall hk hinside hinside' hpath
  obtain rfl := Option.some.inj (hcall.symm.trans hk)
  exact hnot hremoving

/-- The disk where a file has become the note at a path. -/
def Disk.place (disk : Disk) (path : Str) (identity : Nat) (now : Nat) : Disk :=
  { (disk.change identity ({ · with changedAt := now })) with
    entries := disk.entries.set path (.file identity) }

theorem place_holds (hstored : disk.files[identity]? = some file)
    (hnew : ∀ name, disk.entries.get name ≠ some (.file identity))
    (hdirectories : disk.inDirectories path = true)
    (htarget : disk.entries.get path ≠ some .directory) (hlinked : file.linkedOutside = false)
    (now : Nat) :
    (disk.place path identity now).Holds path identity
      { file with attributes := { file.attributes with changedAt := now } } where
  entry := by
    rw [Disk.place, JsMap.get_set, if_pos rfl]
  stored :=
    (change_self hstored :
      (disk.change identity ({ · with changedAt := now })).files[identity]? = some _)
  sole name hname := by
    rw [Disk.place, JsMap.get_set] at hname
    split at hname
    · assumption
    · exact absurd hname (hnew name)
  inDirectories := inDirectories_mono hdirectories fun name hname => by
    have hother : name ≠ path := by
      rintro rfl
      exact htarget hname
    rw [Disk.place, JsMap.get_set, if_neg hother]
    exact hname
  linked := hlinked

theorem place_change (hs : Base host s) (hcall : s.calls[i]? = some call)
    (hphase : call.phase = .committing) (hidentity : call.temp = some identity)
    (htarget : s.disk.entries.get call.path ≠ some .directory) (hresumes : call.Resumes call')
    (htemp : call'.temp = some identity ∧ call'.phase = .removing none ∨ call'.temp = none)
    {now : Nat} (hpoint : call'.Point host (s.disk.place call.path identity now)) :
    Change host s call call' (s.disk.place call.path identity now) := by
  have hinside : call.phase.isInside = true := by
    rw [hphase]
    rfl
  have hnew (name : Str) : s.disk.entries.get name ≠ some (.file identity) := fun hname => by
    have := (hs.named i call identity name hcall hidentity hname).2
    rw [hphase] at this
    cases this
  have hlt := hs.stored i call identity hcall hidentity
  exact {
    operation := hresumes.operation
    path := hresumes.path
    revision := hresumes.revision
    content := hresumes.content
    size := hresumes.size
    inside := fun _ => Or.inl hinside
    valid := fun name found hname => by
      simp only [Disk.place, Disk.change, List.length_modify] at hname ⊢
      rw [JsMap.get_set] at hname
      split at hname
      · obtain rfl := Entry.file.inj (Option.some.inj hname)
        exact hlt
      · exact hs.valid name found hname
    grows := by simp [Disk.place, Disk.change]
    names := fun name found hname => by
      rw [Disk.place, JsMap.get_set] at hname
      split at hname
      · obtain rfl := Entry.file.inj (Option.some.inj hname)
        exact Or.inr hidentity
      · exact Or.inl hname
    named := fun found name h hname => by
      rcases htemp with ⟨hsome, hremoving⟩ | hnone
      · obtain rfl := Option.some.inj (hsome.symm.trans h)
        rw [Disk.place, JsMap.get_set] at hname
        split at hname
        · rename_i heq
          exact ⟨heq, hremoving⟩
        · exact absurd hname (hnew name)
      · rw [hnone] at h
        cases h
    files := fun found hne _ =>
      have hother : identity ≠ found := fun heq => hne (heq ▸ hidentity)
      (change_files hother :
        (s.disk.change identity ({ · with changedAt := now })).files[found]? = _)
    holds := fun path found file hpath hne h => by
      have hother : identity ≠ found := fun heq => hne (heq ▸ hidentity)
      exact (h.change hother _).set (hpath hinside) hother htarget
    temp := fun found h => by
      rcases htemp with ⟨hsome, -⟩ | hnone
      · obtain rfl := Option.some.inj (hsome.symm.trans h)
        simp only [Disk.place, Disk.change, List.length_modify]
        exact ⟨Or.inl hidentity, hlt⟩
      · rw [hnone] at h
        cases h
    point := hpoint }

/-- What a call finds at its commit. -/
theorem Base.commits (hs : Base host s) (hcall : s.calls[i]? = some call)
    (hphase : call.phase = .committing) (hnot : call.operation ≠ .create) :
    ∃ identity file, s.disk.Holds call.path identity file ∧
      s.disk.revision host call.path = call.expectedRevision := by
  have hpoint := hs.point i call hcall
  simp only [Call.Point, hphase] at hpoint
  obtain ⟨identity, file, hholds, hrevision⟩ := hpoint.2 hnot
  refine ⟨identity, file, hholds, ?_⟩
  rw [Disk.revision, hholds.found, hrevision]
  rfl

theorem revision_missing (h : disk.entries.get path = none) : disk.revision host path = none := by
  rw [Disk.revision, Disk.file, h]
  rfl

theorem link_turn (hs : Base host s) (hcall : s.calls[i]? = some call)
    (hphase : call.phase = .committing) (hcreate : call.operation = .create) (now : Nat) :
    IsQuiet host s i call (s.link host i call now) ∨ IsCommit host s i call (s.link host i call now) := by
  have hbefore : call.phase.isBefore = true := by
    rw [hphase]
    rfl
  have hpoint := hs.point i call hcall
  simp only [Call.Point, hphase] at hpoint
  obtain ⟨identity, file, htemp, hstored, hcontent, hlinked⟩ :=
    hpoint.1.prepared (by simp [hcreate])
  unfold State.link
  split
  · exact Or.inl (fail_quiet hs hcall hbefore _)
  rename_i found hfound
  obtain rfl := Option.some.inj (htemp.symm.trans hfound)
  split
  · exact Or.inl (fail_quiet hs hcall hbefore _)
  rename_i hhas
  split
  · exact Or.inl (fail_quiet hs hcall hbefore _)
  rename_i hdirectories
  have hmissing : s.disk.entries.get call.path = none := by
    simpa [JsMap.has] using hhas
  have hnew (name : Str) : s.disk.entries.get name ≠ some (.file identity) := fun hname => by
    have := (hs.named i call identity name hcall htemp hname).2
    rw [hphase] at this
    cases this
  have htarget : s.disk.entries.get call.path ≠ some .directory := by
    rw [hmissing]
    simp
  have hplaced := place_holds hstored hnew (by simpa using hdirectories) htarget hlinked now
  have hresumes : call.Resumes { call with phase := .removing none } :=
    ⟨rfl, rfl, rfl, rfl, fun _ => by rw [hphase]; rfl⟩
  refine Or.inr ⟨{ call with phase := .removing none }, s.disk.place call.path identity now, ?_⟩
  exact {
    recorded := rfl
    change := place_change hs hcall hphase htemp htarget hresumes (Or.inl ⟨htemp, rfl⟩)
      ⟨hcreate, identity, _, htemp, hplaced, hcontent⟩
    before := hphase
    past := rfl
    revision := by
      rw [revision_missing hmissing]
      exact ((hs.expected i call hcall).mpr hcreate).symm
    create := fun _ => hmissing
    found := fun h => absurd hcreate h
    gone := fun found h => by
      rw [hmissing] at h
      cases h }

theorem rename_turn (hs : Base host s) (hcall : s.calls[i]? = some call)
    (hphase : call.phase = .committing) (hreplace : call.operation = .replace) (now : Nat) :
    IsQuiet host s i call (s.rename host i call now) ∨
      IsCommit host s i call (s.rename host i call now) := by
  have hbefore : call.phase.isBefore = true := by
    rw [hphase]
    rfl
  have hpoint := hs.point i call hcall
  simp only [Call.Point, hphase] at hpoint
  obtain ⟨identity, file, htemp, hstored, hcontent, hlinked⟩ :=
    hpoint.1.prepared (by simp [hreplace])
  obtain ⟨old, oldFile, hholds, hrevision⟩ := hs.commits hcall hphase (by simp [hreplace])
  have hfree := hs.free hcall (by rw [hphase]; rfl) (by simp [hphase]) hholds
  unfold State.rename
  split
  · exact Or.inl (fail_quiet hs hcall hbefore _)
  rename_i found hfound
  obtain rfl := Option.some.inj (htemp.symm.trans hfound)
  split
  · exact Or.inl (fail_quiet hs hcall hbefore _)
  have hnew (name : Str) : s.disk.entries.get name ≠ some (.file identity) := fun hname => by
    have := (hs.named i call identity name hcall htemp hname).2
    rw [hphase] at this
    cases this
  have htarget : s.disk.entries.get call.path ≠ some .directory := by
    rw [hholds.entry]
    simp
  have hplaced := place_holds hstored hnew hholds.inDirectories htarget hlinked now
  have hresumes : call.Resumes { call with phase := .written .resolving, temp := none } :=
    ⟨rfl, rfl, rfl, rfl, fun _ => by rw [hphase]; rfl⟩
  refine Or.inr ⟨{ call with phase := .written .resolving, temp := none },
    s.disk.place call.path identity now, ?_⟩
  exact {
    recorded := rfl
    change := place_change hs hcall hphase htemp htarget hresumes (Or.inr rfl)
      ⟨by simp [hreplace], rfl, identity, _, hplaced, hcontent, trivial⟩
    before := hphase
    past := rfl
    revision := hrevision
    create := fun h => by
      rw [hreplace] at h
      cases h
    found := fun _ => ⟨old, oldFile, hholds⟩
    gone := fun found h => by
      obtain rfl := Entry.file.inj (Option.some.inj (hholds.entry.symm.trans h))
      refine ⟨fun name hname => ?_, hfree, by simp⟩
      rw [Disk.place, JsMap.get_set] at hname
      split at hname
      · obtain rfl := Entry.file.inj (Option.some.inj hname)
        exact hfree call (List.mem_of_getElem? hcall) htemp
      · rename_i hname'
        exact hname' (hholds.sole name hname) }

theorem unlink_turn (hs : Base host s) (hcall : s.calls[i]? = some call)
    (hphase : call.phase = .committing) (hdelete : call.operation = .delete) :
    IsQuiet host s i call (s.unlink host i call) ∨ IsCommit host s i call (s.unlink host i call) := by
  have hbefore : call.phase.isBefore = true := by
    rw [hphase]
    rfl
  have hinside : call.phase.isInside = true := by
    rw [hphase]
    rfl
  have hpoint := hs.point i call hcall
  simp only [Call.Point, hphase] at hpoint
  have hnone := hpoint.1.temp hdelete
  obtain ⟨old, oldFile, hholds, hrevision⟩ := hs.commits hcall hphase (by simp [hdelete])
  unfold State.unlink
  split
  · exact Or.inl (fail_quiet hs hcall hbefore _)
  have htarget : s.disk.entries.get call.path ≠ some .directory := by
    rw [hholds.entry]
    simp
  have hkept {name : Str} {found : Nat}
      (hname : (s.disk.entries.delete call.path).get name = some (.file found)) :
      s.disk.entries.get name = some (.file found) ∧ name ≠ call.path := by
    rw [JsMap.get_delete] at hname
    split at hname
    · cases hname
    · exact ⟨hname, by assumption⟩
  refine Or.inr ⟨{ call with phase := .succeeded none },
    { s.disk with entries := s.disk.entries.delete call.path }, ?_⟩
  exact {
    recorded := rfl
    change := {
      operation := rfl
      path := rfl
      revision := rfl
      content := rfl
      size := fun _ => by rw [hphase]; rfl
      inside := by intro h; cases h
      valid := fun name found hname => hs.valid name found (hkept hname).1
      grows := Nat.le_refl _
      names := fun name found hname => Or.inl (hkept hname).1
      named := fun found name h _ => by
        rw [show ({ call with phase := .succeeded none } : Call).temp = none from hnone] at h
        cases h
      files := fun _ _ _ => rfl
      holds := fun path found file hpath _ h => h.delete (hpath hinside) htarget
      temp := fun found h => by
        rw [show ({ call with phase := .succeeded none } : Call).temp = none from hnone] at h
        cases h
      point := hnone }
    before := hphase
    past := rfl
    revision := hrevision
    create := fun h => by
      rw [hdelete] at h
      cases h
    found := fun _ => ⟨old, oldFile, hholds⟩
    gone := fun found h => by
      obtain rfl := Entry.file.inj (Option.some.inj (hholds.entry.symm.trans h))
      refine ⟨fun name hname => ?_, hs.free hcall hinside (by simp [hphase]) hholds, ?_⟩
      · exact (hkept hname).2 (hholds.sole name (hkept hname).1)
      · rw [show ({ call with phase := .succeeded none } : Call).temp = none from hnone]
        simp }

-- -----
-- Turns
-- -----

theorem working_turn (hs : Base host s) (hcall : s.calls[i]? = some call)
    (hworking : call.phase.isWorking = true) {outcome : Outcome} {now : Nat}
    (hturn : s.turn host i call outcome now = some s') :
    IsQuiet host s i call s' ∨ IsCommit host s i call s' := by
  have hbefore := (Phase.working_inside hworking).2
  have hfailed := (Phase.before_kept hbefore).2.1
  have hpoint := hs.point i call hcall
  cases hphase : call.phase with
  | missingAgain =>
    simp only [Call.Point, hphase] at hpoint
    simp only [State.turn, hphase] at hturn
    split at hturn <;> obtain rfl := Option.some.inj hturn
    · exact Or.inl (fail_quiet hs hcall hbefore _)
    · exact Or.inl (become_quiet hs hcall (.of_working hworking rfl) hfailed hpoint)
  | ensuringAgain =>
    simp only [Call.Point, hphase] at hpoint
    simp only [State.turn, hphase] at hturn
    obtain ⟨paths, hpaths⟩ := resolveWritableNote_disk s call.path outcome
    rw [hpaths] at hturn
    split at hturn <;> obtain rfl := Option.some.inj hturn
    · exact Or.inl (fail_directories hs hcall hbefore _ paths)
    · refine Or.inl (writeTemporary_quiet hs hcall hworking paths ⟨?_, ?_, hpoint.2⟩)
      · simp [hpoint.1]
      · simp [hpoint.1]
  | current initial reading =>
    simp only [Call.Point, hphase] at hpoint
    simp only [State.turn, hphase] at hturn
    split at hturn <;> obtain rfl := Option.some.inj hturn
    · exact Or.inl (fail_quiet hs hcall hbefore _)
    · exact Or.inl (become_quiet hs hcall (.of_working hworking rfl) hfailed hpoint)
    · exact Or.inl (checked_quiet hs hcall hphase _)
  | stating identity =>
    simp only [Call.Point, hphase] at hpoint
    simp only [State.turn, hphase] at hturn
    split at hturn <;> obtain rfl := Option.some.inj hturn
    · exact Or.inl (fail_quiet hs hcall hbefore _)
    · refine Or.inl (writeTemporary_quiet hs hcall hworking [] ⟨?_, ?_, hpoint.2⟩)
      · simp [hpoint.1]
      · simp [hpoint.1]
  | writing replaced =>
    simp only [State.turn, hphase] at hturn
    split at hturn <;> obtain rfl := Option.some.inj hturn
    · exact Or.inl (prepare_quiet hs hcall hphase)
    · exact Or.inl (fail_quiet hs hcall hbefore _)
    · exact Or.inl (created_quiet hs hworking rfl rfl)
  | owning identity metadata =>
    simp only [Call.Point, hphase] at hpoint
    simp only [State.turn, hphase] at hturn
    split at hturn <;> obtain rfl := Option.some.inj hturn
    · exact Or.inl (attributes_quiet hs hcall hworking hpoint.2 rfl _ fun _ h => ⟨hpoint.1, h⟩)
    · exact Or.inl (fail_quiet hs hcall hbefore _)
  | moding identity metadata =>
    simp only [Call.Point, hphase] at hpoint
    simp only [State.turn, hphase] at hturn
    split at hturn <;> obtain rfl := Option.some.inj hturn
    · refine Or.inl (attributes_quiet hs hcall hworking hpoint.2 rfl _ fun _ h => ⟨?_, ?_, Or.inl rfl⟩)
      · simp [hpoint.1]
      · simp only [Call.Ready, hpoint.1]
        exact h
    · exact Or.inl (fail_quiet hs hcall hbefore _)
  | verifying identity reading =>
    simp only [State.turn, hphase] at hturn
    split at hturn
    · obtain rfl := Option.some.inj hturn
      exact Or.inl (fail_quiet hs hcall hbefore _)
    · rename_i next hread
      obtain rfl := Option.some.inj hturn
      exact Or.inl (become_quiet hs hcall (.of_working hworking rfl) hfailed
        (verify_point hs hcall hphase (awaited_ok hread).2))
    · rename_i revision hread
      split at hturn <;> obtain rfl := Option.some.inj hturn
      · exact Or.inl (fail_quiet hs hcall hbefore _)
      · rename_i hexpected
        exact Or.inl (commit_quiet hs hcall hworking
          (verified_point hs hcall hphase (awaited_ok hread).2 (not_not.mp hexpected)))
  | committing =>
    simp only [State.turn, hphase] at hturn
    split at hturn <;> obtain rfl := Option.some.inj hturn
    · exact Or.inl (fail_quiet hs hcall hbefore _)
    · rename_i hcreate
      exact link_turn hs hcall hphase hcreate now
    · rename_i hreplace
      exact rename_turn hs hcall hphase hreplace now
    · rename_i hdelete
      exact unlink_turn hs hcall hphase hdelete
  | _ =>
    rw [hphase] at hworking
    cases hworking

theorem turn_cases (hs : Base host s) (hcall : s.calls[i]? = some call) {outcome : Outcome}
    {now : Nat} (hturn : s.turn host i call outcome now = some s') :
    IsQuiet host s i call s' ∨ IsCommit host s i call s' := by
  have hpoint := hs.point i call hcall
  cases hphase : call.phase with
  | resolving =>
    have hbefore : call.phase.isBefore = true := by
      rw [hphase]
      rfl
    have hfailed := (Phase.before_kept hbefore).2.1
    simp only [Call.Point, hphase] at hpoint
    simp only [State.turn, hphase] at hturn
    split at hturn <;> obtain rfl := Option.some.inj hturn
    · exact Or.inl (fail_quiet hs hcall hbefore _)
    · refine Or.inl (become_quiet hs hcall (.of_before hbefore rfl (by intro h; cases h)) hfailed ⟨?_, hpoint.2⟩)
      simp [hpoint.1]
  | missing =>
    have hbefore : call.phase.isBefore = true := by
      rw [hphase]
      rfl
    have hfailed := (Phase.before_kept hbefore).2.1
    simp only [Call.Point, hphase] at hpoint
    simp only [State.turn, hphase] at hturn
    split at hturn <;> obtain rfl := Option.some.inj hturn
    · exact Or.inl (fail_quiet hs hcall hbefore _)
    · exact Or.inl (become_quiet hs hcall (.of_before hbefore rfl (by intro h; cases h)) hfailed hpoint)
  | ensuring =>
    have hbefore : call.phase.isBefore = true := by
      rw [hphase]
      rfl
    have hfailed := (Phase.before_kept hbefore).2.1
    simp only [Call.Point, hphase] at hpoint
    simp only [State.turn, hphase] at hturn
    obtain ⟨paths, hpaths⟩ := resolveWritableNote_disk s call.path outcome
    rw [hpaths] at hturn
    split at hturn <;> obtain rfl := Option.some.inj hturn
    · exact Or.inl (fail_directories hs hcall hbefore _ paths)
    · refine Or.inl (become_directories hs hcall (.of_before hbefore rfl (by intro h; cases h)) hfailed paths
        ⟨?_, hpoint.2⟩)
      simp [hpoint.1]
  | waiting initial =>
    simp only [State.turn, hphase] at hturn
    obtain ⟨hfree, heq⟩ := Option.ite_none_right_eq_some.mp hturn
    obtain rfl := Option.some.inj heq
    exact Or.inl (enter_quiet hs hcall hphase hfree)
  | removing failure =>
    simp only [State.turn, hphase] at hturn
    split at hturn
    · obtain rfl := Option.some.inj hturn
      exact Or.inl (removed_quiet hs hcall hphase)
    · cases hturn
  | written reading => exact Or.inl (written_quiet hs hcall hphase hturn)
  | succeeded revision =>
    simp only [State.turn, hphase] at hturn
    cases hturn
  | failed cause =>
    simp only [State.turn, hphase] at hturn
    cases hturn
  | _ =>
    have hworking : call.phase.isWorking = true := by
      rw [hphase]
      rfl
    exact working_turn hs hcall hworking hturn

end PiEnv.Notes.Mutations
