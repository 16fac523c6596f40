import PiEnv.Lib.Paging
import PiEnv.Notes.ObsidianVault
import PiEnv.Notes.Worklog

/-!
# When a vault is listed completely

The pages of `list` give every note of a vault exactly once where no two notes
compare equal, and only there: the page after a note passes over whatever
compares equal to it.
-/

namespace PiEnv.Notes.Obsidian

open Js

-- -----
-- What a vault holds
-- -----

def isFolder (entry : Dirent) : Bool := !isHidden entry && entry.kind == .directory

/-- Directories below a directory, itself included. -/
inductive Vault.Within (vault : Vault) : Str → Str → Prop
  | self (directory : Str) : Vault.Within vault directory directory
  | child {directory below : Str} {entries : List Dirent} {entry : Dirent}
      (ho : vault.opendir directory = some entries) (he : entry ∈ entries)
      (hf : isFolder entry = true) (hb : Vault.Within vault (childPath directory entry.name) below) :
      Vault.Within vault directory below

/-- A note by its name, somewhere below a directory. -/
def Vault.HasPath (vault : Vault) (directory notePath : Str) : Prop :=
  ∃ folder entries entry, vault.Within directory folder ∧ vault.opendir folder = some entries ∧
    entry ∈ entries ∧ isHidden entry = false ∧ isNoteEntry folder entry = true ∧
    notePath = childPath folder entry.name

/-- The Markdown notes of a vault: regular files with one link. -/
def Vault.IsNote (vault : Vault) (note : NoteEntry) : Prop :=
  vault.HasPath [] note.path ∧ ∃ metadata, vault.lstat note.path = some metadata ∧
    metadata.isFile = true ∧ metadata.nlink = 1 ∧ note = noteEntry note.path metadata

def isUnder (within : Option Str) (notePath : Str) : Bool := within.all (startsWith notePath)

section
variable (vault : Vault)

/-- Everything can be opened, and lies at most this deep. -/
def Vault.Opens : Nat → Str → Prop
  | 0, _ => False
  | depth + 1, directory => ∃ entries, vault.opendir directory = some entries ∧
      ∀ entry ∈ entries, isFolder entry = true →
        Vault.Opens depth (childPath directory entry.name)

variable (localeCompare : Str → Str → Ordering)

/-- The entries below a directory, each with the directory it is in, in the
order of the walk. -/
def Vault.below : Nat → Str → List (Str × Dirent)
  | 0, _ => []
  | depth + 1, directory =>
    (sortEntries localeCompare ((vault.opendir directory).getD [])).flatMap fun entry =>
      (directory, entry) ::
        if isFolder entry then Vault.below depth (childPath directory entry.name) else []

/-- The path of an entry that is a note by its name. -/
def notePath? (found : Str × Dirent) : Option Str :=
  if !isHidden found.2 && isNoteEntry found.1 found.2 then some (childPath found.1 found.2.name)
  else none

def Vault.entriesBelow : List (Str × Dirent) :=
  vault.below localeCompare (MAX_DIRECTORY_DEPTH + 1) []

def Vault.pathsBelow : List Str := (vault.entriesBelow localeCompare).filterMap notePath?

/-- The limits of a vault: how deep it is, how much it holds. -/
structure Vault.Allowed : Prop where
  opens : vault.Opens (MAX_DIRECTORY_DEPTH + 1) []
  entries : (vault.entriesBelow localeCompare).length ≤ MAX_VAULT_ENTRIES
  notes : (vault.pathsBelow localeCompare).length ≤ MAX_NOTE_COUNT

variable {vault localeCompare}

-- -----
-- The walk
-- -----

/-- A state of the walk within its limits. -/
def WalkState.Fits (state : WalkState) : Prop :=
  state.entries ≤ MAX_VAULT_ENTRIES ∧ state.paths.length ≤ MAX_NOTE_COUNT

/-- A part of the walk: it comes through where it can open what it must and
stays within the limits, and then adds this many entries and these paths. -/
def Adds (part : WalkState → Except NotesError WalkState) (opens : Prop) (count : Nat)
    (paths : List Str) : Prop :=
  ∀ state, state.Fits → ∀ state', part state = .ok state' ↔
    opens ∧ state.entries + count ≤ MAX_VAULT_ENTRIES ∧
      state.paths.length + paths.length ≤ MAX_NOTE_COUNT ∧
      state' = ⟨state.paths ++ paths, state.entries + count⟩

theorem Adds.nothing : Adds .ok True 0 [] := by
  intro state hfits state'
  simp only [Except.ok.injEq, true_and, List.append_nil, Nat.add_zero, List.length_nil]
  exact ⟨fun h => ⟨hfits.1, hfits.2, h.symm⟩, fun h => h.2.2.symm⟩

theorem Adds.bind {part part' : WalkState → Except NotesError WalkState} {opens opens' : Prop}
    {count count' : Nat} {paths paths' : List Str} (h : Adds part opens count paths)
    (h' : Adds part' opens' count' paths') :
    Adds (fun state => part state >>= part') (opens ∧ opens') (count + count')
      (paths ++ paths') := by
  intro state hfits state'
  rw [Effects.bind_eq_ok]
  constructor
  · rintro ⟨between, hrun, hrun'⟩
    obtain ⟨ho, he, hp, rfl⟩ := (h state hfits between).mp hrun
    have hfits' : WalkState.Fits ⟨state.paths ++ paths, state.entries + count⟩ :=
      ⟨he, by simpa using hp⟩
    obtain ⟨ho', he', hp', rfl⟩ := (h' _ hfits' state').mp hrun'
    simp only [List.length_append] at he' hp' ⊢
    exact ⟨⟨ho, ho'⟩, by omega, by omega, by simp [Nat.add_assoc]⟩
  · rintro ⟨⟨ho, ho'⟩, he, hp, rfl⟩
    simp only [List.length_append] at hp
    have hfits' : WalkState.Fits ⟨state.paths ++ paths, state.entries + count⟩ :=
      ⟨by simp only; omega, by simp only [List.length_append]; omega⟩
    refine ⟨_, (h state hfits _).mpr ⟨ho, by omega, by omega, rfl⟩, ?_⟩
    refine (h' _ hfits' _).mpr ⟨ho', by simp only; omega, ?_, by simp [Nat.add_assoc]⟩
    simp only [List.length_append]
    omega

/-- What is below an entry of a directory. -/
def belowEntry (below : Str → List (Str × Dirent)) (directory : Str) (entry : Dirent) :
    List (Str × Dirent) :=
  if isFolder entry then below (childPath directory entry.name) else []

theorem pushPath_adds (notePath : Str) : Adds (pushPath · notePath) True 0 [notePath] := by
  intro state hfits state'
  simp only [pushPath]
  split
  · rename_i h
    simp only [reduceCtorEq, List.length_singleton, true_and, false_iff, not_and]
    omega
  · rename_i h
    simp only [Except.ok.injEq, List.length_singleton, true_and, Nat.add_zero]
    exact ⟨fun he => ⟨hfits.1, by omega, he.symm⟩, fun he => he.2.2.symm⟩

theorem walkEntry_adds {walk : Str → WalkState → Except NotesError WalkState}
    {opens : Str → Prop} {below : Str → List (Str × Dirent)}
    (hwalk : ∀ directory, Adds (walk directory) (opens directory) (below directory).length
      ((below directory).filterMap notePath?)) (directory : Str) (entry : Dirent) :
    Adds (walkEntry walk directory · entry)
      (isFolder entry = true → opens (childPath directory entry.name))
      (belowEntry below directory entry).length
      (((directory, entry) :: belowEntry below directory entry).filterMap notePath?) := by
  by_cases hhidden : isHidden entry = true
  · have hstep : (walkEntry walk directory · entry) = .ok := by
      funext state
      rw [walkEntry, if_pos hhidden]
    rw [hstep]
    simpa [isFolder, belowEntry, notePath?, hhidden] using Adds.nothing
  by_cases hfolder : entry.kind = .directory
  · have hstep : (walkEntry walk directory · entry) = walk (childPath directory entry.name) := by
      funext state
      rw [walkEntry, if_neg hhidden, if_pos hfolder]
    rw [hstep]
    simpa [isFolder, belowEntry, notePath?, isNoteEntry, hhidden, hfolder] using
      hwalk (childPath directory entry.name)
  by_cases hnote : isNoteEntry directory entry = true
  · have hstep : (walkEntry walk directory · entry) =
        (pushPath · (childPath directory entry.name)) := by
      funext state
      rw [walkEntry, if_neg hhidden, if_neg hfolder, if_pos hnote]
    rw [hstep]
    simpa [isFolder, belowEntry, notePath?, hhidden, hfolder, hnote] using
      pushPath_adds (childPath directory entry.name)
  · have hstep : (walkEntry walk directory · entry) = .ok := by
      funext state
      rw [walkEntry, if_neg hhidden, if_neg hfolder, if_neg hnote]
    rw [hstep]
    simpa [isFolder, belowEntry, notePath?, hhidden, hfolder, hnote] using Adds.nothing

theorem foldlM_adds {walk : Str → WalkState → Except NotesError WalkState}
    {opens : Str → Prop} {below : Str → List (Str × Dirent)}
    (hwalk : ∀ directory, Adds (walk directory) (opens directory) (below directory).length
      ((below directory).filterMap notePath?)) (directory : Str) (entries : List Dirent) :
    Adds (fun state => entries.foldlM (walkEntry walk directory) state)
      (∀ entry ∈ entries, isFolder entry = true → opens (childPath directory entry.name))
      (entries.flatMap (belowEntry below directory)).length
      ((entries.flatMap fun entry => (directory, entry) :: belowEntry below directory entry).filterMap
        notePath?) := by
  induction entries with
  | nil => simpa [pure, Except.pure] using Adds.nothing
  | cons entry rest ih =>
    have hbind := (walkEntry_adds hwalk directory entry).bind ih
    simpa only [List.foldlM_cons, List.forall_mem_cons, List.flatMap_cons, List.length_append,
      List.filterMap_append] using hbind

theorem walk_adds (vault : Vault) (localeCompare : Str → Str → Ordering) (depth : Nat)
    (directory : Str) :
    Adds (walkMarkdownFiles vault localeCompare depth directory) (vault.Opens depth directory)
      (vault.below localeCompare depth directory).length
      ((vault.below localeCompare depth directory).filterMap notePath?) := by
  induction depth generalizing directory with
  | zero =>
    intro state _ state'
    simp [walkMarkdownFiles, Vault.Opens]
  | succ depth ih =>
    intro state hfits state'
    rw [walkMarkdownFiles, Vault.Opens]
    cases hopen : vault.opendir directory with
    | none => simp
    | some entries =>
      have hperm : (sortEntries localeCompare entries).Perm entries := List.mergeSort_perm _ _
      have hfold := foldlM_adds ih directory (sortEntries localeCompare entries)
      have hbelow : vault.below localeCompare (depth + 1) directory =
          (sortEntries localeCompare entries).flatMap fun entry => (directory, entry) ::
            belowEntry (vault.below localeCompare depth) directory entry := by
        rw [Vault.below, hopen]
        rfl
      have hlen : (vault.below localeCompare (depth + 1) directory).length = entries.length +
          ((sortEntries localeCompare entries).flatMap
            (belowEntry (vault.below localeCompare depth) directory)).length := by
        rw [hbelow, ← hperm.length_eq]
        induction sortEntries localeCompare entries with
        | nil => rfl
        | cons entry rest ih =>
          simp only [List.flatMap_cons, List.length_append, List.length_cons] at ih ⊢
          omega
      simp only [Option.some.injEq, exists_eq_left', hlen]
      rw [← hbelow] at hfold
      split
      · rename_i hmany
        simp only [reduceCtorEq, false_iff, not_and]
        omega
      · rename_i hmany
        have hfits' : WalkState.Fits { state with entries := state.entries + entries.length } :=
          ⟨by simp only; omega, hfits.2⟩
        rw [hfold _ hfits' state']
        simp only [hperm.mem_iff, Nat.add_assoc]

/-- The notes by name, in the order in which they are listed. -/
def Vault.sorted (vault : Vault) (localeCompare : Str → Str → Ordering) : List Str :=
  (vault.pathsBelow localeCompare).mergeSort fun left right => (localeCompare left right).isLE

theorem sortedPaths_eq_ok {paths : List Str} : sortedPaths vault localeCompare = .ok paths ↔
    vault.Allowed localeCompare ∧ paths = vault.sorted localeCompare := by
  have hwalk := walk_adds vault localeCompare (MAX_DIRECTORY_DEPTH + 1) [] ⟨[], 0⟩
    ⟨Nat.zero_le _, Nat.zero_le _⟩
  unfold sortedPaths
  rw [Effects.bind_eq_ok]
  constructor
  · rintro ⟨state, hstate, hpaths⟩
    obtain ⟨ho, he, hp, rfl⟩ := (hwalk state).mp hstate
    refine ⟨⟨ho, by simpa [Vault.entriesBelow] using he,
      by simpa [Vault.pathsBelow, Vault.entriesBelow] using hp⟩, ?_⟩
    simpa [Vault.sorted, Vault.pathsBelow, Vault.entriesBelow] using (Except.ok.inj hpaths).symm
  · rintro ⟨hallowed, rfl⟩
    refine ⟨_, (hwalk _).mpr ⟨hallowed.opens, ?_, ?_, rfl⟩, ?_⟩
    · simpa [Vault.entriesBelow] using hallowed.entries
    · simpa [Vault.pathsBelow, Vault.entriesBelow] using hallowed.notes
    · simp [Vault.sorted, Vault.pathsBelow, Vault.entriesBelow, pure, Except.pure]

theorem mem_below {depth : Nat} {directory : Str} (ho : vault.Opens depth directory)
    {found : Str × Dirent} : found ∈ vault.below localeCompare depth directory ↔
      ∃ entries, vault.Within directory found.1 ∧ vault.opendir found.1 = some entries ∧
        found.2 ∈ entries := by
  induction depth generalizing directory with
  | zero => exact absurd ho id
  | succ depth ih =>
    obtain ⟨entries, hopen, hdeep⟩ := ho
    have hperm : (sortEntries localeCompare entries).Perm entries := List.mergeSort_perm _ _
    rw [Vault.below, hopen, Option.getD_some, List.mem_flatMap]
    constructor
    · rintro ⟨entry, he, hfound⟩
      rw [hperm.mem_iff] at he
      rcases List.mem_cons.mp hfound with rfl | hbelow
      · exact ⟨entries, .self directory, hopen, he⟩
      · split at hbelow
        · rename_i hfolder
          obtain ⟨entries', hwithin, hopen', hmem⟩ := (ih (hdeep entry he hfolder)).mp hbelow
          exact ⟨entries', .child hopen he hfolder hwithin, hopen', hmem⟩
        · cases hbelow
    · rintro ⟨entries', hwithin, hopen', hmem⟩
      obtain ⟨folder, entry'⟩ := found
      cases hwithin with
      | self =>
        obtain rfl : entries = entries' := by simpa [hopen] using hopen'
        exact ⟨entry', hperm.mem_iff.mpr hmem, by simp⟩
      | @child _ _ entries'' entry ho' he hfolder hb =>
        obtain rfl : entries = entries'' := by simpa [hopen] using ho'
        refine ⟨entry, hperm.mem_iff.mpr he, List.mem_cons_of_mem _ ?_⟩
        rw [if_pos hfolder]
        exact (ih (hdeep entry he hfolder)).mpr ⟨entries', hb, hopen', hmem⟩

theorem mem_pathsBelow (h : vault.Allowed localeCompare) {notePath : Str} :
    notePath ∈ vault.pathsBelow localeCompare ↔ vault.HasPath [] notePath := by
  simp only [Vault.pathsBelow, Vault.entriesBelow, List.mem_filterMap, mem_below h.opens,
    notePath?, Option.ite_none_right_eq_some, Bool.and_eq_true, Bool.not_eq_eq_eq_not,
    Bool.not_true, Option.some.injEq]
  constructor
  · rintro ⟨⟨folder, entry⟩, ⟨entries, hwithin, hopen, hmem⟩, ⟨hhidden, hnote⟩, rfl⟩
    exact ⟨folder, entries, entry, hwithin, hopen, hmem, hhidden, hnote, rfl⟩
  · rintro ⟨folder, entries, entry, hwithin, hopen, hmem, hhidden, hnote, rfl⟩
    exact ⟨(folder, entry), ⟨entries, hwithin, hopen, hmem⟩, ⟨hhidden, hnote⟩, rfl⟩

theorem hasPath_portable {directory notePath : Str} (h : vault.HasPath directory notePath) :
    isPortableNotePath notePath = true := by
  obtain ⟨folder, entries, entry, -, -, -, -, hnote, rfl⟩ := h
  simp only [isNoteEntry, Bool.and_eq_true] at hnote
  exact hnote.2

theorem sorted_isLE [Std.TransCmp localeCompare] :
    (vault.sorted localeCompare).Pairwise fun a b => (localeCompare a b).isLE = true :=
  Sorting.mergeSort_sorted localeCompare _

-- -----
-- One page
-- -----

/-- The note at a path, where its file is regular and has one link. -/
def Vault.noteAt (vault : Vault) (notePath : Str) : Option NoteEntry :=
  match vault.lstat notePath with
  | none => none
  | some metadata =>
    if !metadata.isFile || metadata.nlink ≠ 1 then none else some (noteEntry notePath metadata)

theorem noteAt_path {notePath : Str} {note : NoteEntry} (h : vault.noteAt notePath = some note) :
    note.path = notePath := by
  unfold Vault.noteAt at h
  split at h
  · cases h
  · split at h
    · cases h
    · rw [← Option.some.inj h]
      rfl

theorem noteAt_iff {note : NoteEntry} : vault.noteAt note.path = some note ↔
    ∃ metadata, vault.lstat note.path = some metadata ∧ metadata.isFile = true ∧
      metadata.nlink = 1 ∧ note = noteEntry note.path metadata := by
  unfold Vault.noteAt
  cases hmeta : vault.lstat note.path with
  | none => simp
  | some metadata =>
    simp only [Option.some.injEq, exists_eq_left']
    split
    · rename_i hother
      constructor
      · simp
      · rintro ⟨hfile, hlink, -⟩
        simp [hfile, hlink] at hother
    · rename_i hnote
      simp only [Bool.or_eq_true, Bool.not_eq_eq_eq_not, Bool.not_true, decide_eq_true_eq, not_or,
        Bool.not_eq_false, not_not] at hnote
      constructor
      · intro h
        exact ⟨hnote.1, hnote.2, (Option.some.inj h).symm⟩
      · rintro ⟨-, -, h⟩
        exact congrArg some h.symm

/-- The notes among some paths that a page may hold. -/
def Vault.notesOf (vault : Vault) (localeCompare : Str → Str → Ordering)
    (within cursor : Option Str) (paths : List Str) : List NoteEntry :=
  (paths.filter fun notePath => !isSkipped localeCompare within cursor notePath).filterMap
    vault.noteAt

theorem collectEntries_spec {within cursor : Option Str} {limit : Nat} {paths : List Str}
    {entries result : List NoteEntry} {hasMore : Bool} (hlen : entries.length ≤ limit)
    (h : collectEntries vault localeCompare within cursor limit entries paths =
      .ok (result, hasMore)) :
    ∃ rest, entries ++ vault.notesOf localeCompare within cursor paths = result ++ rest ∧
      result.length ≤ limit ∧ (hasMore = false → rest = []) ∧
      (hasMore = true → result.length = limit) := by
  induction paths generalizing entries with
  | nil =>
    obtain ⟨rfl, rfl⟩ := Prod.mk.inj (Except.ok.inj h)
    exact ⟨[], by simp [Vault.notesOf], hlen, by simp, by simp⟩
  | cons notePath paths ih =>
    rw [collectEntries] at h
    split at h
    · rename_i hskip
      simpa [Vault.notesOf, hskip] using ih hlen h
    · rename_i hskip
      split at h
      · rename_i hfull
        obtain ⟨rfl, rfl⟩ := Prod.mk.inj (Except.ok.inj h)
        exact ⟨_, rfl, hlen, by simp, fun _ => hfull⟩
      · rename_i hfull
        split at h
        · cases h
        · rename_i metadata hmeta
          split at h
          · rename_i hother
            have hnone : vault.noteAt notePath = none := by
              simp only [Vault.noteAt, hmeta, if_pos hother]
            simpa [Vault.notesOf, hskip, hnone] using ih hlen h
          · rename_i hnote
            have hsome : vault.noteAt notePath = some (noteEntry notePath metadata) := by
              simp only [Vault.noteAt, hmeta, if_neg hnote]
            have := ih (by simp only [List.length_append, List.length_singleton]; omega) h
            simpa [Vault.notesOf, hskip, hsome] using this

/-- The loop fails only where a path it comes to cannot be read. -/
theorem collectEntries_ok {within cursor : Option Str} {limit : Nat} {paths : List Str}
    {entries : List NoteEntry}
    (h : ∀ notePath ∈ paths, isSkipped localeCompare within cursor notePath = false →
      vault.lstat notePath ≠ none) :
    ∃ result, collectEntries vault localeCompare within cursor limit entries paths = .ok result := by
  induction paths generalizing entries with
  | nil => exact ⟨_, rfl⟩
  | cons notePath paths ih =>
    obtain ⟨hhead, htail⟩ := List.forall_mem_cons.mp h
    rw [collectEntries]
    split
    · exact ih htail
    · rename_i hskip
      split
      · exact ⟨_, rfl⟩
      · split
        · rename_i hnone
          exact absurd hnone (hhead (by simpa using hskip))
        · split
          · exact ih htail
          · exact ih htail

/-- Where the limit leaves room for all, all are read. -/
theorem collectEntries_all {within cursor : Option Str} {limit : Nat} {paths : List Str}
    {entries result : List NoteEntry} {hasMore : Bool}
    (h : collectEntries vault localeCompare within cursor limit entries paths =
      .ok (result, hasMore))
    (hroom : entries.length + paths.length ≤ limit) :
    hasMore = false ∧ ∀ notePath ∈ paths, isSkipped localeCompare within cursor notePath = false →
      vault.lstat notePath ≠ none := by
  induction paths generalizing entries with
  | nil => exact ⟨(Prod.mk.inj (Except.ok.inj h)).2.symm, by simp⟩
  | cons notePath paths ih =>
    simp only [List.length_cons] at hroom
    rw [collectEntries] at h
    rw [List.forall_mem_cons]
    split at h
    · rename_i hskip
      obtain ⟨hmore, hall⟩ := ih h (by omega)
      exact ⟨hmore, by simp [hskip], hall⟩
    · rw [if_neg (by omega)] at h
      split at h
      · cases h
      · rename_i metadata hmeta
        split at h
        · obtain ⟨hmore, hall⟩ := ih h (by omega)
          exact ⟨hmore, by simp [hmeta], hall⟩
        · obtain ⟨hmore, hall⟩ := ih h (by
            simp only [List.length_append, List.length_singleton]
            omega)
          exact ⟨hmore, by simp [hmeta], hall⟩

-- -----
-- Cursors
-- -----

theorem plain_listCursorPayload (notePath : Str) (within : Option Str) :
    Js.Plain (.obj (listCursorPayload notePath within)) := by
  have hone : Js.Plain (.num (.ofInt 1)) := .int (by decide)
  apply Js.Plain.obj
  · cases within <;> simp [listCursorPayload, prefixJson, hone, Js.Plain.str, Js.Plain.null]
  · apply fromEntries_self
    · cases within <;> simp [listCursorPayload] <;> decide
    · cases within <;> simp [listCursorPayload] <;> decide

theorem decodeListCursor_encode {notePath : Str} (h : isPortableNotePath notePath = true)
    (within : Option Str) :
    decodeListCursor (some (encodeListCursor notePath within)) within = .ok (some notePath) := by
  have hunpack : unpackJson (encodeListCursor notePath within) =
      some (.obj (listCursorPayload notePath within)) :=
    unpackJson_packJson (plain_listCursorPayload notePath within)
  have hpath : textField (listCursorPayload notePath within) (lit "path") = some notePath := rfl
  have hv : numberField (listCursorPayload notePath within) (lit "v") = some (.ofInt 1) := rfl
  have hprefix : prefixMatches (listCursorPayload notePath within) within = true := by
    have hfield : field (listCursorPayload notePath within) (lit "prefix") =
        some (prefixJson within) := rfl
    unfold prefixMatches
    rw [hfield]
    cases within <;> simp [prefixJson]
  simp only [decodeListCursor, hunpack, hpath, hv, hprefix, h]
  simp

-- -----
-- Page after page
-- -----

/-- The notes found under a prefix. -/
def Vault.notes (vault : Vault) (localeCompare : Str → Str → Ordering) (within : Option Str) :
    List NoteEntry :=
  ((vault.pathsBelow localeCompare).filter (isUnder within)).filterMap vault.noteAt

variable (vault localeCompare) in
/-- Whatever the limits, the pages end and list every note under the prefix
exactly once. -/
def ListsEveryNote (pathPrefix : Option Str) : Prop :=
  ∀ limits : Nat → Nat, (∀ k, 0 < limits k) →
    ∃ pages, Paging.Follows
        (fun cursor limit => list vault localeCompare ⟨pathPrefix, some limit, cursor⟩)
        NotesListResult.nextCursor limits none pages ∧
      ((pages.flatMap NotesListResult.entries).map (·.path)).Nodup ∧
      ∀ note, note ∈ pages.flatMap NotesListResult.entries ↔ vault.IsNote note ∧
        ∃ within, explicitPrefix pathPrefix = .ok within ∧ isUnder within note.path = true

variable (vault localeCompare) in
/-- A prefix that is accepted and a vault within its limits whose files can be
read, where no two notes under the prefix compare equal. -/
def Listable (pathPrefix : Option Str) : Prop :=
  ∃ within, explicitPrefix pathPrefix = .ok within ∧ vault.Allowed localeCompare ∧
    (∀ notePath, vault.HasPath [] notePath → isUnder within notePath = true →
      vault.lstat notePath ≠ none) ∧
    (vault.notes localeCompare within).Pairwise fun a b => localeCompare a.path b.path ≠ .eq

theorem isSkipped_none {within : Option Str} {notePath : Str} :
    isSkipped localeCompare within none notePath = !isUnder within notePath := by
  simp [isSkipped, isUnder]

theorem notesOf_perm (within : Option Str) :
    (vault.notesOf localeCompare within none (vault.sorted localeCompare)).Perm
      (vault.notes localeCompare within) := by
  have hperm : (vault.sorted localeCompare).Perm (vault.pathsBelow localeCompare) :=
    List.mergeSort_perm _ _
  unfold Vault.notesOf Vault.notes
  simp only [isSkipped_none, Bool.not_not]
  exact (hperm.filter _).filterMap _

theorem notesOf_after (within : Option Str) (c : Str) (paths : List Str) :
    vault.notesOf localeCompare within (some c) paths =
      (vault.notesOf localeCompare within none paths).filter
        fun note => !(localeCompare note.path c).isLE := by
  have hskip : ∀ notePath, isSkipped localeCompare within (some c) notePath =
      (isSkipped localeCompare within none notePath || (localeCompare notePath c).isLE) := by
    intro notePath
    simp [isSkipped]
  induction paths with
  | nil => rfl
  | cons notePath paths ih =>
    simp only [Vault.notesOf] at ih ⊢
    by_cases hs : isSkipped localeCompare within none notePath = true
    · simpa [hskip notePath, hs] using ih
    · cases hnote : vault.noteAt notePath with
      | none =>
        by_cases hc : (localeCompare notePath c).isLE = true <;>
          simpa [hskip notePath, hs, hc, hnote] using ih
      | some note =>
        obtain rfl := noteAt_path hnote
        cases hcmp : localeCompare note.path c <;>
          simpa [hskip note.path, hs, hcmp, hnote] using ih

theorem mem_notes (h : vault.Allowed localeCompare) {within : Option Str} {note : NoteEntry} :
    note ∈ vault.notes localeCompare within ↔ vault.IsNote note ∧ isUnder within note.path = true := by
  unfold Vault.notes Vault.IsNote
  rw [List.mem_filterMap]
  simp only [List.mem_filter, mem_pathsBelow h]
  constructor
  · rintro ⟨notePath, ⟨hpath, hunder⟩, hnote⟩
    obtain rfl := noteAt_path hnote
    exact ⟨⟨hpath, noteAt_iff.mp hnote⟩, hunder⟩
  · rintro ⟨⟨hpath, hnote⟩, hunder⟩
    exact ⟨note.path, ⟨hpath, hunder⟩, noteAt_iff.mpr hnote⟩

/-- What an answer of `list` says. -/
theorem list_eq_ok {pathPrefix cursor : Option Str} {limit : Nat} {result : NotesListResult}
    (h : list vault localeCompare ⟨pathPrefix, some limit, cursor⟩ = .ok result) :
    ∃ within c hasMore, explicitPrefix pathPrefix = .ok within ∧
      decodeListCursor cursor within = .ok c ∧ vault.Allowed localeCompare ∧
      collectEntries vault localeCompare within c (min limit MAX_NOTE_COUNT) []
        (vault.sorted localeCompare) = .ok (result.entries, hasMore) ∧
      result.nextCursor = listCursor within result.entries hasMore := by
  simp only [list, Effects.bind_eq_ok, sortedPaths_eq_ok] at h
  obtain ⟨within, hwithin, c, hc, paths, ⟨hallowed, rfl⟩, ⟨entries, hasMore⟩, hcollect, h⟩ := h
  obtain rfl := Except.ok.inj h
  exact ⟨within, c, hasMore, hwithin, hc, hallowed, hcollect, rfl⟩

theorem list_ok {pathPrefix cursor within c : Option Str} {limit : Nat} {entries : List NoteEntry}
    {hasMore : Bool} (hwithin : explicitPrefix pathPrefix = .ok within)
    (hc : decodeListCursor cursor within = .ok c) (hallowed : vault.Allowed localeCompare)
    (hcollect : collectEntries vault localeCompare within c (min limit MAX_NOTE_COUNT) []
      (vault.sorted localeCompare) = .ok (entries, hasMore)) :
    list vault localeCompare ⟨pathPrefix, some limit, cursor⟩ =
      .ok ⟨entries, listCursor within entries hasMore⟩ := by
  have hpaths := sortedPaths_eq_ok.mpr ⟨hallowed, rfl⟩
  simp only [list, hwithin, bind, Except.bind, hc, hpaths, Option.getD_some, hcollect]
  rfl

theorem listCursor_eq_some {within : Option Str} {entries : List NoteEntry} {hasMore : Bool}
    {cursor : Str} (h : listCursor within entries hasMore = some cursor) :
    hasMore = true ∧ ∃ front last, entries = front ++ [last] ∧
      cursor = encodeListCursor last.path within := by
  unfold listCursor at h
  split at h
  · rename_i hmore
    obtain ⟨last, hlast, rfl⟩ := Option.map_eq_some_iff.mp h
    obtain ⟨front, rfl⟩ := List.getLast?_eq_some_iff.mp hlast
    exact ⟨hmore, front, last, rfl, rfl⟩
  · cases h


-- -----
-- Where nothing compares equal
-- -----

section
variable [Std.TransCmp localeCompare] {within : Option Str}

theorem notesOf_lt (h : (vault.notes localeCompare within).Pairwise
      fun a b => localeCompare a.path b.path ≠ .eq) :
    (vault.notesOf localeCompare within none (vault.sorted localeCompare)).Pairwise
      fun a b => localeCompare a.path b.path = .lt := by
  have hle : (vault.notesOf localeCompare within none (vault.sorted localeCompare)).Pairwise
      fun a b => (localeCompare a.path b.path).isLE = true := by
    refine List.pairwise_filterMap.mpr ((sorted_isLE.filter _).imp ?_)
    intro p q hpq a ha b hb
    rwa [noteAt_path ha, noteAt_path hb]
  have hne : (vault.notesOf localeCompare within none (vault.sorted localeCompare)).Pairwise
      fun a b => localeCompare a.path b.path ≠ .eq := by
    refine ((notesOf_perm within).pairwise_iff ?_).mpr h
    intro a b hab he
    exact hab (Std.OrientedCmp.eq_symm he)
  refine (hle.and hne).imp ?_
  intro a b hab
  cases hcmp : localeCompare a.path b.path with
  | lt => rfl
  | eq => exact absurd hcmp hab.2
  | gt => simp [hcmp] at hab

/-- Where a cursor resumes: at the start, or behind a note. -/
def ResumesAt (within : Option Str) (notes : List NoteEntry) (cursor : Option Str)
    (rest : List NoteEntry) (measure : Nat) : Prop :=
  measure = rest.length ∧ ((cursor = none ∧ rest = notes) ∨
    ∃ before last, notes = before ++ last :: rest ∧
      cursor = some (encodeListCursor last.path within))

theorem resumesAt_decode {notes rest : List NoteEntry} {cursor : Option Str} {measure : Nat}
    (hnotes : notes = vault.notesOf localeCompare within none (vault.sorted localeCompare))
    (hportable : ∀ note ∈ notes, isPortableNotePath note.path = true)
    (hlt : notes.Pairwise fun a b => localeCompare a.path b.path = .lt)
    (h : ResumesAt within notes cursor rest measure) :
    ∃ c, decodeListCursor cursor within = .ok c ∧
      vault.notesOf localeCompare within c (vault.sorted localeCompare) = rest := by
  obtain ⟨-, ⟨rfl, rfl⟩ | ⟨before, last, hsplit, rfl⟩⟩ := h
  · exact ⟨none, rfl, hnotes.symm⟩
  · refine ⟨some last.path, decodeListCursor_encode (hportable last (by rw [hsplit]; simp)) within, ?_⟩
    rw [notesOf_after, ← hnotes]
    rw [hsplit] at hlt ⊢
    have := Sorting.transCmp_on localeCompare NoteEntry.path
    exact Sorting.filter_after (fun a b => localeCompare (NoteEntry.path a) b.path) hlt

theorem list_follows {pathPrefix : Option Str} (hwithin : explicitPrefix pathPrefix = .ok within)
    (hallowed : vault.Allowed localeCompare)
    (hread : ∀ notePath, vault.HasPath [] notePath → isUnder within notePath = true →
      vault.lstat notePath ≠ none)
    (hne : (vault.notes localeCompare within).Pairwise fun a b => localeCompare a.path b.path ≠ .eq)
    {limits : Nat → Nat} (hl : ∀ k, 0 < limits k) :
    ∃ pages, Paging.Follows
        (fun cursor limit => list vault localeCompare ⟨pathPrefix, some limit, cursor⟩)
        NotesListResult.nextCursor limits none pages ∧
      pages.flatMap NotesListResult.entries =
        vault.notesOf localeCompare within none (vault.sorted localeCompare) := by
  have hlt := notesOf_lt hne
  generalize hnotes : vault.notesOf localeCompare within none (vault.sorted localeCompare) = notes at hlt ⊢
  have hpaths : ∀ {notePath}, notePath ∈ vault.sorted localeCompare → vault.HasPath [] notePath :=
    fun hmem => (mem_pathsBelow hallowed).mp ((List.mergeSort_perm _ _).mem_iff.mp hmem)
  have hportable : ∀ note ∈ notes, isPortableNotePath note.path = true := by
    intro note hnote
    rw [← hnotes, (notesOf_perm within).mem_iff, mem_notes hallowed] at hnote
    exact hasPath_portable hnote.1.1
  have hstart : ResumesAt within notes none notes notes.length := ⟨rfl, .inl ⟨rfl, rfl⟩⟩
  have hstep : ∀ cursor rest measure limit, ResumesAt within notes cursor rest measure → 0 < limit →
      ∃ page, list vault localeCompare ⟨pathPrefix, some limit, cursor⟩ = .ok page ∧
        Paging.Takes NotesListResult.nextCursor NotesListResult.entries (ResumesAt within notes)
          (fun _ _ => True) limit rest measure page := by
    intro cursor rest measure limit hat hlimit
    obtain ⟨c, hc, hrest⟩ := resumesAt_decode hnotes.symm hportable hlt hat
    have hcollect : ∃ result, collectEntries vault localeCompare within c (min limit MAX_NOTE_COUNT)
        [] (vault.sorted localeCompare) = .ok result := by
      apply collectEntries_ok
      intro notePath hmem hskip
      simp only [isSkipped, Bool.or_eq_false_iff, Bool.not_eq_eq_eq_not, Bool.not_false] at hskip
      exact hread notePath (hpaths hmem) hskip.1
    obtain ⟨⟨entries, hasMore⟩, hcollect⟩ := hcollect
    obtain ⟨rest', hsplit, hlen, hlast, hfull⟩ := collectEntries_spec (Nat.zero_le _) hcollect
    rw [List.nil_append, hrest] at hsplit
    refine ⟨_, list_ok hwithin hc hallowed hcollect, trivial, ?_, ?_⟩
    · intro hnone
      cases hasMore with
      | false => simp [hsplit, hlast rfl]
      | true =>
        have hpos : entries.length ≠ 0 := by
          rw [hfull rfl]
          have : 0 < MAX_NOTE_COUNT := by decide
          omega
        cases entries with
        | nil => exact absurd rfl hpos
        | cons entry entries => simp [listCursor] at hnone
    · intro next hnext
      obtain ⟨hmore, front, last, rfl, rfl⟩ := listCursor_eq_some hnext
      refine ⟨rest', rest'.length, hsplit.symm, ?_, rfl, .inr ?_⟩
      · rw [hat.1, hsplit]
        simp only [List.length_append, List.length_singleton]
        omega
      · obtain ⟨-, ⟨-, hr⟩ | ⟨before, last', hr, -⟩⟩ := hat
        · exact ⟨front, last, by rw [← hr, hsplit]; simp, rfl⟩
        · exact ⟨before ++ last' :: front, last, by rw [hr, hsplit]; simp, rfl⟩
  obtain ⟨pages, hf, hi, -⟩ := Paging.exists_follows hstep hstart hl
  exact ⟨pages, hf, hi⟩

-- -----
-- Where something compares equal
-- -----

omit [Std.TransCmp localeCompare] in
theorem notesOf_portable (hallowed : vault.Allowed localeCompare) {c : Option Str} {note : NoteEntry}
    (h : note ∈ vault.notesOf localeCompare within c (vault.sorted localeCompare)) :
    isPortableNotePath note.path = true := by
  obtain ⟨notePath, hmem, hnote⟩ := List.mem_filterMap.mp h
  obtain rfl := noteAt_path hnote
  have hpath := List.mem_of_mem_filter hmem
  exact hasPath_portable ((mem_pathsBelow hallowed).mp ((List.mergeSort_perm _ _).mem_iff.mp hpath))

theorem notesOf_greater {d : Str} {note : NoteEntry} {paths : List Str}
    (h : note ∈ vault.notesOf localeCompare within (some d) paths) :
    localeCompare d note.path = .lt := by
  rw [notesOf_after, List.mem_filter] at h
  have hswap : localeCompare d note.path = (localeCompare note.path d).swap :=
    Std.OrientedCmp.eq_swap
  rw [hswap]
  cases hcmp : localeCompare note.path d with
  | gt => rfl
  | lt => simp [hcmp] at h
  | eq => simp [hcmp] at h

/-- With one note a page, each note is greater than the one before. -/
theorem follows_lt {pathPrefix : Option Str} (hwithin : explicitPrefix pathPrefix = .ok within)
    {limits : Nat → Nat} (hone : ∀ k, limits k = 1) {cursor c : Option Str}
    (hc : decodeListCursor cursor within = .ok c) {pages : List NotesListResult}
    (hf : Paging.Follows
      (fun cursor limit => list vault localeCompare ⟨pathPrefix, some limit, cursor⟩)
      NotesListResult.nextCursor limits cursor pages) :
    (∀ note ∈ pages.flatMap NotesListResult.entries, ∀ d, c = some d →
      localeCompare d note.path = .lt) ∧
    (pages.flatMap NotesListResult.entries).Pairwise fun a b => localeCompare a.path b.path = .lt := by
  -- one page: at most one note, behind the cursor
  have hpage : ∀ {limit cursor c page}, limit = 1 → decodeListCursor cursor within = .ok c →
      list vault localeCompare ⟨pathPrefix, some limit, cursor⟩ = .ok page →
      vault.Allowed localeCompare ∧ page.entries.length ≤ 1 ∧
      (∀ note ∈ page.entries,
        note ∈ vault.notesOf localeCompare within c (vault.sorted localeCompare)) ∧
      ∃ hasMore, page.nextCursor = listCursor within page.entries hasMore := by
    intro limit cursor c page hlimit hc hlist
    obtain ⟨within', c', hasMore, hwithin', hc', hallowed, hcollect, hnext⟩ := list_eq_ok hlist
    obtain rfl := Except.ok.inj (hwithin.symm.trans hwithin')
    obtain rfl := Except.ok.inj (hc.symm.trans hc')
    obtain ⟨rest, hsplit, hlen, -, -⟩ := collectEntries_spec (Nat.zero_le _) hcollect
    rw [List.nil_append] at hsplit
    refine ⟨hallowed, by omega, fun note hnote => ?_, hasMore, hnext⟩
    rw [hsplit]
    exact List.mem_append_left rest hnote
  induction hf generalizing c with
  | last hlist hnext =>
    obtain ⟨-, hlen, hmem, -⟩ := hpage (hone 0) hc hlist
    simp only [List.flatMap_cons, List.flatMap_nil, List.append_nil]
    refine ⟨fun note hnote d hd => ?_, ?_⟩
    · subst hd
      exact notesOf_greater (hmem note hnote)
    · match hentries : NotesListResult.entries _, hlen with
      | [], _ => exact .nil
      | [note], _ => exact List.pairwise_singleton _ note
  | @more limits cursor page next pages hlist hnext rest ih =>
    obtain ⟨hallowed, hlen, hmem, hasMore, hcursor⟩ := hpage (hone 0) hc hlist
    rw [hnext] at hcursor
    obtain ⟨-, front, last, hentries, rfl⟩ := listCursor_eq_some hcursor.symm
    obtain rfl : front = [] := by
      rw [hentries, List.length_append, List.length_singleton] at hlen
      exact List.eq_nil_of_length_eq_zero (by omega)
    rw [List.nil_append] at hentries
    have hlast := hmem last (by simp [hentries])
    obtain ⟨hrest, hpair⟩ := ih (fun k => hone (k + 1))
      (decodeListCursor_encode (notesOf_portable hallowed hlast) within)
    simp only [List.flatMap_cons, hentries, List.singleton_append, List.pairwise_cons,
      List.forall_mem_cons]
    refine ⟨⟨fun d hd => ?_, fun note hnote d hd => ?_⟩, fun note hnote => hrest note hnote _ rfl, hpair⟩
    · subst hd
      exact notesOf_greater hlast
    · subst hd
      exact Std.TransCmp.lt_trans (notesOf_greater hlast) (hrest note hnote _ rfl)

theorem ListsEveryNote.listable {pathPrefix : Option Str}
    (h : ListsEveryNote vault localeCompare pathPrefix) : Listable vault localeCompare pathPrefix := by
  -- a limit with room for all: everything is read, in one page
  obtain ⟨pages, hf, hnodup, hmem⟩ := h (fun _ => MAX_NOTE_COUNT) fun _ => by decide
  obtain ⟨page, hlist, hpages⟩ : ∃ page,
      list vault localeCompare ⟨pathPrefix, some MAX_NOTE_COUNT, none⟩ = .ok page ∧
      (page.nextCursor = none → pages = [page]) := by
    cases hf with
    | last hlist hnext => exact ⟨_, hlist, fun _ => rfl⟩
    | more hlist hnext rest =>
      refine ⟨_, hlist, fun hnone => ?_⟩
      rw [hnext] at hnone
      cases hnone
  obtain ⟨within, c, hasMore, hwithin, hc, hallowed, hcollect, hnext⟩ := list_eq_ok hlist
  obtain rfl : none = c := Except.ok.inj hc
  have hroom : ([] : List NoteEntry).length + (vault.sorted localeCompare).length ≤
      min MAX_NOTE_COUNT MAX_NOTE_COUNT := by
    have hlen : (vault.sorted localeCompare).length = (vault.pathsBelow localeCompare).length :=
      (List.mergeSort_perm _ _).length_eq
    have := hallowed.notes
    simp only [List.length_nil, min_self]
    omega
  obtain ⟨rfl, hread⟩ := collectEntries_all hcollect hroom
  obtain ⟨rest, hsplit, -, hrest, -⟩ := collectEntries_spec (Nat.zero_le _) hcollect
  rw [List.nil_append, hrest rfl, List.append_nil] at hsplit
  rw [hpages hnext, List.flatMap_singleton, ← hsplit] at hnodup
  have hperm : (vault.notesOf localeCompare within none (vault.sorted localeCompare)).Perm
      (vault.notes localeCompare within) := notesOf_perm within
  -- a limit of one: the notes are strictly ordered
  obtain ⟨pages', hf', -, hmem'⟩ := h (fun _ => 1) fun _ => Nat.one_pos
  obtain ⟨-, hlt⟩ := follows_lt hwithin (fun _ => rfl) rfl hf'
  refine ⟨within, hwithin, hallowed, fun notePath hpath hunder => ?_, ?_⟩
  · refine hread notePath ((List.mergeSort_perm _ _).mem_iff.mpr ((mem_pathsBelow hallowed).mpr hpath)) ?_
    rw [isSkipped_none, hunder]
    rfl
  · have hpaths : ((vault.notes localeCompare within).map (·.path)).Nodup :=
      (hperm.map _).nodup_iff.mp hnodup
    have hall : ∀ note ∈ vault.notes localeCompare within,
        note ∈ pages'.flatMap NotesListResult.entries := by
      intro note hnote
      obtain ⟨hisNote, hunder⟩ := (mem_notes hallowed).mp hnote
      exact (hmem' note).mpr ⟨hisNote, within, hwithin, hunder⟩
    refine (List.pairwise_map.mp hpaths).imp_of_mem ?_
    intro a b ha hb hab
    let apart (a b : NoteEntry) : Prop := localeCompare a.path b.path ≠ .eq
    have : Std.Symm apart := ⟨fun a b hab he => hab (Std.OrientedCmp.eq_symm he)⟩
    have hne : (pages'.flatMap NotesListResult.entries).Pairwise apart :=
      hlt.imp fun hab he => by simp [hab] at he
    exact hne.forall (hall a ha) (hall b hb) fun he => hab (congrArg NoteEntry.path he)

theorem Listable.listsEveryNote {pathPrefix : Option Str}
    (h : Listable vault localeCompare pathPrefix) :
    ListsEveryNote vault localeCompare pathPrefix := by
  intro limits hl
  obtain ⟨within, hwithin, hallowed, hread, hne⟩ := h
  obtain ⟨pages, hf, hi⟩ := list_follows hwithin hallowed hread hne hl
  refine ⟨pages, hf, ?_, fun note => ?_⟩
  · rw [hi]
    refine List.pairwise_map.mpr ((notesOf_lt hne).imp ?_)
    intro a b hab he
    have hself : localeCompare b.path b.path = .eq := Std.ReflCmp.compare_self
    rw [he, hself] at hab
    cases hab
  · rw [hi, (notesOf_perm within).mem_iff, mem_notes hallowed]
    constructor
    · rintro ⟨hnote, hunder⟩
      exact ⟨hnote, within, hwithin, hunder⟩
    · rintro ⟨hnote, within', hwithin', hunder⟩
      obtain rfl := Except.ok.inj (hwithin.symm.trans hwithin')
      exact ⟨hnote, hunder⟩

end

end

-- -----
-- One letter, written in two ways
-- -----

/-- The canonical decomposition of U+00E9. -/
def decompose (name : Str) : Str :=
  name.flatMap fun u => if u == 0xE9 then [0x65, 0x301] else [u]

/-- A comparison in which canonically equivalent names are equal. -/
def compareDecomposed (a b : Str) : Ordering := compareUnits (decompose a) (decompose b)

instance : Std.TransCmp compareDecomposed := Sorting.transCmp_on compareUnits decompose

def composedName : Str := [0xE9, 46, 109, 100]

def decomposedName : Str := [0x65, 0x301, 46, 109, 100]

def accentedEntries : List Dirent := [⟨decomposedName, .file⟩, ⟨composedName, .file⟩]

/-- A vault with a note of each name. -/
def accentedVault : Vault where
  opendir directory := if directory = [] then some accentedEntries else none
  lstat _ := some ⟨true, 1, .ofInt 0, .ofInt 0⟩

theorem accentedVault_below {localeCompare : Str → Str → Ordering}
    (h : (localeCompare decomposedName composedName).isLE = true) :
    accentedVault.entriesBelow localeCompare = accentedEntries.map fun entry => ([], entry) := by
  have hsort : sortEntries localeCompare accentedEntries = accentedEntries :=
    List.mergeSort_of_pairwise (by simp [accentedEntries, h])
  have hopen : accentedVault.opendir [] = some accentedEntries := rfl
  rw [Vault.entriesBelow, Vault.below, hopen, Option.getD_some, hsort]
  rfl

theorem accentedVault_notes {localeCompare : Str → Str → Ordering}
    (h : (localeCompare decomposedName composedName).isLE = true) :
    accentedVault.notes localeCompare none = [decomposedName, composedName].map fun notePath =>
      noteEntry notePath ⟨true, 1, .ofInt 0, .ofInt 0⟩ := by
  rw [Vault.notes, Vault.pathsBelow, accentedVault_below h]
  decide +kernel

end PiEnv.Notes.Obsidian
