import PiEnv.Notes.MutationFiles

/-!
# Changes by one call

What every call relies on where it is, and that the turns of the others keep it.
-/

namespace PiEnv.Notes.Mutations

open Js

variable {host : Host} {disk disk' : Disk} {s s' : State} {i j identity other : Nat}
variable {call call' : Call} {path target : Str} {file : File}

-- -----
-- What a call relies on
-- -----

/-- The temporary file is complete. -/
def Call.Prepared (disk : Disk) (call : Call) : Prop :=
  ∃ identity file, call.temp = some identity ∧ disk.files[identity]? = some file ∧
    file.content = call.content ∧ file.linkedOutside = false

/-- What a call has prepared for its commit. -/
def Call.Ready (disk : Disk) (call : Call) : Prop :=
  match call.operation with
  | .delete => call.temp = none
  | .create | .replace => call.Prepared disk

def Reading.Of (identity : Nat) : Reading → Prop
  | .resolving => False
  | .opening found | .reading found _ => found = identity

/-- What a call relies on where it is. -/
def Call.Point (host : Host) (disk : Disk) (call : Call) : Prop :=
  match call.phase with
  | .resolving => call.operation ≠ .create ∧ call.temp = none
  | .missing | .ensuring | .missingAgain | .ensuringAgain =>
    call.operation = .create ∧ call.temp = none
  | .waiting initial => (initial = none ↔ call.operation = .create) ∧ call.temp = none
  | .current _ _ => call.operation ≠ .create ∧ call.temp = none
  | .stating _ => call.operation = .replace ∧ call.temp = none
  | .writing replaced =>
    (replaced = none ↔ call.operation = .create) ∧ call.operation ≠ .delete ∧ call.temp = none
  | .owning _ _ | .moding _ _ => call.operation = .replace ∧ call.Prepared disk
  | .verifying identity reading =>
    call.operation ≠ .create ∧ call.Ready disk ∧
      (reading = .resolving ∨ reading.Of identity ∧ ∃ file, disk.Holds call.path identity file)
  | .committing =>
    call.Ready disk ∧ (call.operation ≠ .create → ∃ identity file,
      disk.Holds call.path identity file ∧ call.expectedRevision =
        some (host.revisionOf call.path identity file.attributes file.content))
  | .removing (some _) => call.temp.isSome = true
  | .removing none =>
    call.operation = .create ∧ ∃ identity file, call.temp = some identity ∧
      disk.Holds call.path identity file ∧ file.content = call.content
  | .written reading =>
    call.operation ≠ .delete ∧ call.temp = none ∧ ∃ identity file,
      disk.Holds call.path identity file ∧ file.content = call.content ∧
        match reading with
        | .resolving => True
        | .opening found => found = identity
        | .reading found initial => found = identity ∧ initial = file.attributes
  | .succeeded _ | .failed _ => call.temp = none

/-- The call has changed its note. -/
def Phase.isPast : Phase → Bool
  | .removing none | .written _ | .succeeded _ => true
  | _ => false

def Phase.isFailed : Phase → Bool
  | .failed _ => true
  | _ => false

theorem Call.Ready.temp (h : call.Ready disk) (hdelete : call.operation = .delete) :
    call.temp = none := by
  rwa [Call.Ready, hdelete] at h

theorem Call.Ready.prepared (h : call.Ready disk) (hdelete : call.operation ≠ .delete) :
    call.Prepared disk := by
  unfold Call.Ready at h
  split at h
  · rename_i hoperation
    exact absurd hoperation hdelete
  all_goals exact h

theorem Call.Prepared.transfer (h : call.Prepared disk)
    (hfiles : ∀ identity file, call.temp = some identity → disk.files[identity]? = some file →
      ∃ file', disk'.files[identity]? = some file' ∧ file'.content = file.content ∧
        file'.linkedOutside = file.linkedOutside) : call.Prepared disk' := by
  obtain ⟨identity, file, htemp, hstored, hcontent, hlinked⟩ := h
  obtain ⟨file', hstored', hcontent', hlinked'⟩ := hfiles identity file htemp hstored
  exact ⟨identity, file', htemp, hstored', hcontent'.trans hcontent, hlinked'.trans hlinked⟩

theorem Call.Ready.transfer (h : call.Ready disk)
    (hprepared : call.Prepared disk → call.Prepared disk') : call.Ready disk' := by
  unfold Call.Ready at h ⊢
  split at h
  · exact h
  all_goals exact hprepared h

/-- What a call relies on stays where its note and its temporary file do. -/
theorem Call.Point.frame (h : call.Point host disk)
    (hholds : call.phase.isInside = true → ∀ identity file,
      disk.Holds call.path identity file → disk'.Holds call.path identity file)
    (htemp : ∀ identity, call.temp = some identity →
      disk'.files[identity]? = disk.files[identity]?) : call.Point host disk' := by
  have hprepared : call.Prepared disk → call.Prepared disk' := fun h =>
    h.transfer fun identity file hidentity hstored =>
      ⟨file, (htemp identity hidentity).trans hstored, rfl, rfl⟩
  unfold Call.Point at h ⊢
  cases hphase : call.phase with
  | owning | moding =>
    simp only [hphase] at h ⊢
    exact ⟨h.1, hprepared h.2⟩
  | verifying identity reading =>
    simp only [hphase] at h ⊢ hholds
    refine ⟨h.1, h.2.1.transfer hprepared, h.2.2.imp id fun ⟨hof, file, hfile⟩ => ?_⟩
    exact ⟨hof, file, hholds rfl identity file hfile⟩
  | committing =>
    simp only [hphase] at h ⊢ hholds
    refine ⟨h.1.transfer hprepared, fun hcreate => ?_⟩
    obtain ⟨identity, file, hfile, hrevision⟩ := h.2 hcreate
    exact ⟨identity, file, hholds rfl identity file hfile, hrevision⟩
  | removing failure =>
    cases failure with
    | some cause =>
      simp only [hphase] at h ⊢
      exact h
    | none =>
      simp only [hphase] at h ⊢ hholds
      obtain ⟨hcreate, identity, file, hidentity, hfile, hcontent⟩ := h
      exact ⟨hcreate, identity, file, hidentity, hholds rfl identity file hfile, hcontent⟩
  | written reading =>
    simp only [hphase] at h ⊢ hholds
    obtain ⟨hdelete, hnone, identity, file, hfile, hrest⟩ := h
    exact ⟨hdelete, hnone, identity, file, hholds rfl identity file hfile, hrest⟩
  | _ =>
    simp only [hphase] at h ⊢
    exact h

-- -----
-- The invariant
-- -----

structure Base (host : Host) (s : State) : Prop where
  valid : s.disk.Valid
  exclusive : ∀ (i j : Nat) (call call' : Call), s.calls[i]? = some call → s.calls[j]? = some call' →
    call.phase.isInside = true → call'.phase.isInside = true → call.path = call'.path → i = j
  stored : ∀ (i : Nat) (call : Call) (identity : Nat), s.calls[i]? = some call →
    call.temp = some identity → identity < s.disk.files.length
  temps : ∀ (i j : Nat) (call call' : Call) (identity : Nat), s.calls[i]? = some call →
    s.calls[j]? = some call' → call.temp = some identity → call'.temp = some identity → i = j
  named : ∀ (i : Nat) (call : Call) (identity : Nat) (name : Str), s.calls[i]? = some call →
    call.temp = some identity → s.disk.entries.get name = some (.file identity) →
    name = call.path ∧ call.phase = .removing none
  expected : ∀ (i : Nat) (call : Call), s.calls[i]? = some call →
    (call.expectedRevision = none ↔ call.operation = .create)
  size : ∀ (i : Nat) (call : Call), s.calls[i]? = some call → call.phase.isFailed = false →
    byteLength call.content ≤ MAX_NOTE_BYTES
  point : ∀ (i : Nat) (call : Call), s.calls[i]? = some call → call.Point host s.disk

/-- A commit that found what its call expects. -/
structure Commit.Sound (host : Host) (s : State) (commit : Commit) (call : Call) : Prop where
  made : s.calls[commit.call]? = some call
  revision : commit.revision = call.expectedRevision
  create : call.operation = .create → commit.found = none
  found : call.operation ≠ .create → ∃ path identity attributes content,
    commit.found = some (.file identity) ∧
      commit.revision = some (host.revisionOf path identity attributes content)

structure Log (host : Host) (s : State) : Prop where
  sound : ∀ commit ∈ s.commits, ∃ call, commit.Sound host s call
  past : ∀ (i : Nat) (call : Call), s.calls[i]? = some call → call.phase.isPast = true →
    ∃ commit ∈ s.commits, commit.call = i
  early : ∀ (i : Nat) (call : Call), s.calls[i]? = some call → call.phase.isPast = false →
    call.phase.isFailed = false → ∀ commit ∈ s.commits, commit.call ≠ i
  gone : ∀ commit ∈ s.commits, ∀ identity, commit.found = some (.file identity) →
    identity < s.disk.files.length ∧ (∀ name, s.disk.entries.get name ≠ some (.file identity)) ∧
      ∀ call ∈ s.calls, call.temp ≠ some identity
  once : s.commits.Pairwise fun commit commit' =>
    commit.call ≠ commit'.call ∧ ∀ revision, commit.revision = some revision →
      commit'.revision ≠ some revision

-- -----
-- Changes by one call
-- -----

/-- What a turn of a call does to the disk and to the call. -/
structure Change (host : Host) (s : State) (call call' : Call) (disk' : Disk) : Prop where
  operation : call'.operation = call.operation
  path : call'.path = call.path
  revision : call'.expectedRevision = call.expectedRevision
  content : call'.content = call.content
  size : call'.phase.isFailed = false → call.phase.isFailed = false
  inside : call'.phase.isInside = true →
    call.phase.isInside = true ∨ s.isQueueFree call.path = true
  valid : disk'.Valid
  grows : s.disk.files.length ≤ disk'.files.length
  /-- A name that is new is that of the temporary file at the path of the call. -/
  names : ∀ name identity, disk'.entries.get name = some (.file identity) →
    s.disk.entries.get name = some (.file identity) ∨ call.temp = some identity
  named : ∀ identity name, call'.temp = some identity →
    disk'.entries.get name = some (.file identity) →
    name = call.path ∧ call'.phase = .removing none
  files : ∀ identity, call.temp ≠ some identity → identity < s.disk.files.length →
    disk'.files[identity]? = s.disk.files[identity]?
  holds : ∀ path identity file, (call.phase.isInside = true → path ≠ call.path) →
    call.temp ≠ some identity → s.disk.Holds path identity file → disk'.Holds path identity file
  temp : ∀ identity, call'.temp = some identity →
    (call.temp = some identity ∨ identity = s.disk.files.length) ∧ identity < disk'.files.length
  point : call'.Point host disk'

def State.changed (s : State) (i : Nat) (call' : Call) (disk' : Disk) : State :=
  { s with disk := disk', calls := s.calls.set i call' }

theorem changed_get (hcall : s.calls[i]? = some call) {k : Nat} {found : Call}
    (h : (s.calls.set i call')[k]? = some found) :
    k = i ∧ found = call' ∨ k ≠ i ∧ s.calls[k]? = some found := by
  by_cases hk : k = i
  · subst hk
    rw [List.getElem?_set_self (List.getElem?_eq_some_iff.mp hcall).1] at h
    exact Or.inl ⟨rfl, (Option.some.inj h).symm⟩
  · rw [List.getElem?_set_ne (Ne.symm hk)] at h
    exact Or.inr ⟨hk, h⟩

theorem queueFree_outside (hfree : s.isQueueFree path = true) (h : s.calls[j]? = some call)
    (hpath : call.path = path) : call.phase.isInside = false := by
  have := List.all_eq_true.mp hfree call (List.mem_of_getElem? h)
  simpa [hpath] using this

theorem Base.change (hs : Base host s) (hcall : s.calls[i]? = some call)
    (h : Change host s call call' disk') : Base host (s.changed i call' disk') := by
  have hfresh {k : Nat} {other : Call} {identity : Nat} (hk : k ≠ i)
      (hother : s.calls[k]? = some other) (htemp : other.temp = some identity) :
      call'.temp ≠ some identity := by
    intro htemp'
    rcases (h.temp identity htemp').1 with hold | hnew
    · exact hk (hs.temps k i other call identity hother hcall htemp hold)
    · have := hs.stored k other identity hother htemp
      omega
  exact {
    valid := h.valid
    exclusive := fun k l other other' hk hl hinside hinside' hpath => by
      rcases changed_get hcall hk with ⟨rfl, rfl⟩ | ⟨hki, hkold⟩ <;>
        rcases changed_get hcall hl with ⟨rfl, rfl⟩ | ⟨hli, hlold⟩
      · rfl
      · rw [h.path] at hpath
        rcases h.inside hinside with hin | hfree
        · exact hs.exclusive _ _ _ _ hcall hlold hin hinside' hpath
        · rw [queueFree_outside hfree hlold hpath.symm] at hinside'
          cases hinside'
      · rw [h.path] at hpath
        rcases h.inside hinside' with hin | hfree
        · exact hs.exclusive _ _ _ _ hkold hcall hinside hin hpath
        · rw [queueFree_outside hfree hkold hpath] at hinside
          cases hinside
      · exact hs.exclusive k l other other' hkold hlold hinside hinside' hpath
    stored := fun k other identity hk htemp => by
      rcases changed_get hcall hk with ⟨rfl, rfl⟩ | ⟨-, hk⟩
      · exact (h.temp identity htemp).2
      · exact Nat.lt_of_lt_of_le (hs.stored k other identity hk htemp) h.grows
    temps := fun k l other other' identity hk hl htemp htemp' => by
      rcases changed_get hcall hk with ⟨rfl, rfl⟩ | ⟨hki, hkold⟩ <;>
        rcases changed_get hcall hl with ⟨rfl, rfl⟩ | ⟨hli, hlold⟩
      · rfl
      · exact absurd htemp (hfresh hli hlold htemp')
      · exact absurd htemp' (hfresh hki hkold htemp)
      · exact hs.temps k l other other' identity hkold hlold htemp htemp'
    named := fun k other identity name hk htemp hname => by
      rcases changed_get hcall hk with ⟨rfl, rfl⟩ | ⟨hki, hk⟩
      · rw [h.path]
        exact h.named identity name htemp hname
      · rcases h.names name identity hname with hold | htemp'
        · exact hs.named k other identity name hk htemp hold
        · exact absurd (hs.temps k i other call identity hk hcall htemp htemp') hki
    expected := fun k other hk => by
      rcases changed_get hcall hk with ⟨rfl, rfl⟩ | ⟨-, hk⟩
      · rw [h.revision, h.operation]
        exact hs.expected k call hcall
      · exact hs.expected k other hk
    size := fun k other hk hfailed => by
      rcases changed_get hcall hk with ⟨rfl, rfl⟩ | ⟨-, hk⟩
      · rw [h.content]
        exact hs.size k call hcall (h.size hfailed)
      · exact hs.size k other hk hfailed
    point := fun k other hk => by
      rcases changed_get hcall hk with ⟨rfl, rfl⟩ | ⟨hki, hk⟩
      · exact h.point
      · refine (hs.point k other hk).frame (fun hinside identity file hfile => ?_)
          fun identity htemp => ?_
        · refine h.holds other.path identity file (fun hin heq => ?_) (fun htemp => ?_) hfile
          · exact hki (hs.exclusive k i other call hk hcall hinside hin heq)
          · obtain ⟨heq, hphase⟩ := hs.named i call identity other.path hcall htemp hfile.entry
            have hin : call.phase.isInside = true := by
              rw [hphase]
              rfl
            exact hki (hs.exclusive k i other call hk hcall hinside hin heq)
        · refine h.files identity (fun htemp' => ?_) (hs.stored k other identity hk htemp)
          exact hki (hs.temps k i other call identity hk hcall htemp htemp') }

/-- A turn that is no commit. -/
theorem Log.change (hs : Log host s) (hcall : s.calls[i]? = some call)
    (h : Change host s call call' disk') (hpast : call'.phase.isPast = true → call.phase.isPast = true)
    (hearly : call'.phase.isPast = false → call'.phase.isFailed = false →
      call.phase.isPast = false ∧ call.phase.isFailed = false) :
    Log host (s.changed i call' disk') where
  sound commit hcommit := by
    obtain ⟨made, hmade⟩ := hs.sound commit hcommit
    by_cases hi : commit.call = i
    · obtain rfl : made = call := Option.some.inj (hmade.made.symm.trans (hi ▸ hcall))
      refine ⟨call', ?_, ?_, ?_, ?_⟩
      · rw [State.changed, hi, List.getElem?_set_self (List.getElem?_eq_some_iff.mp hcall).1]
      · rw [h.revision]
        exact hmade.revision
      · rw [h.operation]
        exact hmade.create
      · rw [h.operation]
        exact hmade.found
    · refine ⟨made, ?_, hmade.revision, hmade.create, hmade.found⟩
      rw [State.changed, List.getElem?_set_ne (Ne.symm hi)]
      exact hmade.made
  past k other hk hphase := by
    rcases changed_get hcall hk with ⟨rfl, rfl⟩ | ⟨-, hk⟩
    · exact hs.past k call hcall (hpast hphase)
    · exact hs.past k other hk hphase
  early k other hk hphase hfailed := by
    rcases changed_get hcall hk with ⟨rfl, rfl⟩ | ⟨-, hk⟩
    · exact hs.early k call hcall (hearly hphase hfailed).1 (hearly hphase hfailed).2
    · exact hs.early k other hk hphase hfailed
  gone commit hcommit identity hfound := by
    obtain ⟨hlt, hnames, htemps⟩ := hs.gone commit hcommit identity hfound
    have hcallTemp := htemps call (List.mem_of_getElem? hcall)
    refine ⟨Nat.lt_of_lt_of_le hlt h.grows, fun name hname => ?_, fun other hother htemp => ?_⟩
    · rcases h.names name identity hname with hold | htemp
      · exact hnames name hold
      · exact hcallTemp htemp
    · rcases List.mem_or_eq_of_mem_set hother with hother | rfl
      · exact htemps other hother htemp
      · rcases (h.temp identity htemp).1 with hold | hnew
        · exact hcallTemp hold
        · omega
  once := hs.once

-- -----
-- Kinds of changes
-- -----

/-- `call'` is `call` in another phase, or aborted. -/
structure Call.Resumes (call call' : Call) : Prop where
  operation : call'.operation = call.operation
  path : call'.path = call.path
  revision : call'.expectedRevision = call.expectedRevision
  content : call'.content = call.content
  size : call'.phase.isFailed = false → call.phase.isFailed = false

theorem makeDirectories_valid (h : disk.Valid) (paths : List Str) :
    (disk.makeDirectories paths).Valid := fun path identity hentry => by
  rw [makeDirectories_files]
  exact h path identity (makeDirectories_file.mp hentry)

theorem Change.directories (hs : Base host s) (hcall : s.calls[i]? = some call)
    (hresumes : call.Resumes call') (htemp : call'.temp = call.temp)
    (hinside : call'.phase.isInside = true →
      call.phase.isInside = true ∨ s.isQueueFree call.path = true)
    (hremoving : call.phase = .removing none → call'.phase = .removing none) (paths : List Str)
    (hpoint : call'.Point host (s.disk.makeDirectories paths)) :
    Change host s call call' (s.disk.makeDirectories paths) where
  operation := hresumes.operation
  path := hresumes.path
  revision := hresumes.revision
  content := hresumes.content
  size := hresumes.size
  inside := hinside
  valid := makeDirectories_valid hs.valid paths
  grows := by rw [makeDirectories_files]
  names name identity h := Or.inl (makeDirectories_file.mp h)
  named identity name h hname := by
    obtain ⟨hpath, hphase⟩ := hs.named i call identity name hcall (htemp ▸ h)
      (makeDirectories_file.mp hname)
    exact ⟨hpath, hremoving hphase⟩
  files _ _ _ := by rw [makeDirectories_files]
  holds _ _ _ _ _ h := h.makeDirectories paths
  temp identity h := by
    rw [htemp] at h
    rw [makeDirectories_files]
    exact ⟨Or.inl h, hs.stored i call identity hcall h⟩
  point := hpoint

theorem Change.create (hs : Base host s) (hresumes : call.Resumes call') (htemp : call'.temp = some s.disk.files.length)
    (hinside : call.phase.isInside = true) (created : File)
    (hpoint : call'.Point host { s.disk with files := s.disk.files ++ [created] }) :
    Change host s call call' { s.disk with files := s.disk.files ++ [created] } where
  operation := hresumes.operation
  path := hresumes.path
  revision := hresumes.revision
  content := hresumes.content
  size := hresumes.size
  inside _ := Or.inl hinside
  valid path identity h := by
    rw [List.length_append]
    exact Nat.lt_of_lt_of_le (hs.valid path identity h) (Nat.le_add_right _ _)
  grows := by simp
  names name identity h := Or.inl h
  named identity name h hname := by
    obtain rfl := Option.some.inj (htemp.symm.trans h)
    exact absurd (hs.valid name _ hname) (Nat.lt_irrefl _)
  files _ _ hlt := List.getElem?_append_left hlt
  holds _ _ _ _ _ h := h.create created
  temp identity h := by
    obtain rfl := Option.some.inj (htemp.symm.trans h)
    exact ⟨Or.inr rfl, by simp⟩
  point := hpoint

theorem Change.temporary (hs : Base host s) (hcall : s.calls[i]? = some call)
    (hresumes : call.Resumes call') (hidentity : call.temp = some identity)
    (htemp : call'.temp = call.temp ∨ call'.temp = none)
    (hinside : call.phase.isInside = true)
    (hremoving : call.phase = .removing none → call'.temp = none)
    (attributes : Attributes → Attributes)
    (hpoint : call'.Point host (s.disk.change identity attributes)) :
    Change host s call call' (s.disk.change identity attributes) where
  operation := hresumes.operation
  path := hresumes.path
  revision := hresumes.revision
  content := hresumes.content
  size := hresumes.size
  inside _ := Or.inl hinside
  valid path found h := by
    rw [Disk.change, List.length_modify]
    exact hs.valid path found h
  grows := by rw [Disk.change, List.length_modify]
  names name found h := Or.inl h
  named found name h hname := by
    rcases htemp with heq | hnone
    · obtain ⟨-, hphase⟩ := hs.named i call found name hcall (heq ▸ h) hname
      rw [hremoving hphase] at h
      cases h
    · rw [hnone] at h
      cases h
  files found hne _ := change_files fun heq => hne (heq ▸ hidentity)
  holds _ found _ _ hne h := h.change (fun heq => hne (heq ▸ hidentity)) attributes
  temp found h := by
    rcases htemp with heq | hnone
    · rw [heq] at h
      rw [Disk.change, List.length_modify]
      exact ⟨Or.inl h, hs.stored i call found hcall h⟩
    · rw [hnone] at h
      cases h
  point := hpoint

-- -----
-- Turns that are no commit
-- -----

/-- A turn that changes no note. -/
structure Quiet (host : Host) (s : State) (i : Nat) (call : Call) (s' : State) (call' : Call)
    (disk' : Disk) : Prop where
  changed : s' = s.changed i call' disk'
  change : Change host s call call' disk'
  content : ∀ path, disk'.content path = s.disk.content path
  past : call'.phase.isPast = true → call.phase.isPast = true
  early : call'.phase.isPast = false → call'.phase.isFailed = false →
    call.phase.isPast = false ∧ call.phase.isFailed = false

def IsQuiet (host : Host) (s : State) (i : Nat) (call : Call) (s' : State) : Prop :=
  ∃ call' disk', Quiet host s i call s' call' disk'

theorem makeDirectories_content (paths : List Str) (path : Str) :
    (disk.makeDirectories paths).content path = disk.content path :=
  content_congr (fun _ => makeDirectories_file) fun _ _ => by rw [makeDirectories_files]

theorem create_content (h : disk.Valid) (created : File) (path : Str) :
    Disk.content { disk with files := disk.files ++ [created] } path = disk.content path :=
  content_congr (fun _ => Iff.rfl) fun identity hentry => by
    rw [List.getElem?_append_left (h path identity hentry)]

theorem change_notes (attributes : Attributes → Attributes) (path : Str) :
    (disk.change other attributes).content path = disk.content path :=
  content_congr (fun _ => Iff.rfl) fun _ _ => change_content

/-- A phase that a call goes to by its own, as long as it has not committed. -/
structure Phase.Follows (s : State) (call : Call) (phase : Phase) : Prop where
  inside : phase.isInside = true → call.phase.isInside = true ∨ s.isQueueFree call.path = true
  removing : call.phase ≠ .removing none
  past : phase.isPast = true → call.phase.isPast = true
  early : phase.isPast = false → phase.isFailed = false →
    call.phase.isPast = false ∧ call.phase.isFailed = false

theorem become_directories (hs : Base host s) (hcall : s.calls[i]? = some call) {phase : Phase}
    (hfollows : phase.Follows s call) (hfailed : call.phase.isFailed = false) (paths : List Str)
    (hpoint : { call with phase }.Point host (s.disk.makeDirectories paths)) :
    IsQuiet host s i call ({ s with disk := s.disk.makeDirectories paths }.become i call phase) :=
  have hresumes : call.Resumes { call with phase } := ⟨rfl, rfl, rfl, rfl, fun _ => hfailed⟩
  ⟨{ call with phase }, s.disk.makeDirectories paths, rfl,
    .directories hs hcall hresumes rfl hfollows.inside (fun h => absurd h hfollows.removing) paths
      hpoint,
    makeDirectories_content paths, hfollows.past, hfollows.early⟩

theorem become_quiet (hs : Base host s) (hcall : s.calls[i]? = some call) {phase : Phase}
    (hfollows : phase.Follows s call) (hfailed : call.phase.isFailed = false)
    (hpoint : { call with phase }.Point host s.disk) :
    IsQuiet host s i call (s.become i call phase) :=
  become_directories hs hcall hfollows hfailed [] hpoint

/-- A phase between the grant of the queue and the commit. -/
def Phase.isWorking : Phase → Bool
  | .missingAgain | .ensuringAgain | .current _ _ | .stating _ | .writing _ | .owning _ _
  | .moding _ _ | .verifying _ _ | .committing => true
  | _ => false

/-- A phase before the commit. -/
def Phase.isBefore : Phase → Bool
  | .resolving | .missing | .ensuring | .waiting _ => true
  | phase => phase.isWorking

theorem Phase.before_kept {phase : Phase} (h : phase.isBefore = true) :
    phase.isPast = false ∧ phase.isFailed = false ∧ phase ≠ .removing none := by
  cases phase <;> first | exact ⟨rfl, rfl, nofun⟩ | cases h

theorem Phase.working_inside {phase : Phase} (h : phase.isWorking = true) :
    phase.isInside = true ∧ phase.isBefore = true := by
  cases phase <;> first | exact ⟨rfl, rfl⟩ | cases h

theorem Phase.Follows.of_before {phase : Phase} (hbefore : call.phase.isBefore = true)
    (hpast : phase.isPast = false)
    (hinside : phase.isInside = true → call.phase.isInside = true ∨ s.isQueueFree call.path = true) :
    phase.Follows s call := by
  obtain ⟨hnot, hfailed, hremoving⟩ := (Phase.before_kept hbefore)
  refine ⟨hinside, hremoving, fun h => ?_, fun _ _ => ⟨hnot, hfailed⟩⟩
  rw [hpast] at h
  cases h

theorem Phase.Follows.of_working {phase : Phase} (hworking : call.phase.isWorking = true)
    (hpast : phase.isPast = false) : phase.Follows s call :=
  .of_before (Phase.working_inside hworking).2 hpast fun _ => Or.inl (Phase.working_inside hworking).1

/-- A call that has a temporary file is in the queue. -/
theorem Call.Point.inside (h : call.Point host disk) (htemp : call.temp.isSome = true) :
    call.phase.isInside = true := by
  unfold Call.Point at h
  cases hphase : call.phase with
  | resolving | missing | ensuring | waiting | succeeded | failed =>
    rw [hphase] at h
    simp_all
  | _ => rfl

theorem fail_directories (hs : Base host s) (hcall : s.calls[i]? = some call)
    (hbefore : call.phase.isBefore = true) (cause : Cause) (paths : List Str) :
    IsQuiet host s i call ({ s with disk := s.disk.makeDirectories paths }.fail i call cause) := by
  have hfailed := (Phase.before_kept hbefore).2.1
  unfold State.fail
  split
  · rename_i hsome
    have hinside := (hs.point i call hcall).inside hsome
    exact become_directories hs hcall (.of_before hbefore rfl fun _ => Or.inl hinside) hfailed paths hsome
  · rename_i hnone
    have hfollows : Phase.Follows s call (.failed (call.report cause)) :=
      .of_before hbefore rfl nofun
    refine become_directories hs hcall hfollows hfailed paths ?_
    simpa [Call.Point] using hnone

theorem fail_quiet (hs : Base host s) (hcall : s.calls[i]? = some call)
    (hbefore : call.phase.isBefore = true) (cause : Cause) :
    IsQuiet host s i call (s.fail i call cause) :=
  fail_directories hs hcall hbefore cause []

end PiEnv.Notes.Mutations
