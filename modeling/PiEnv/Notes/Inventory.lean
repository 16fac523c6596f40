import PiEnv.Notes.Contract
import PiEnv.Notes.Items

/-!
# The inventory of a store

What a provider lists and reads while its store stays as it is, and the listing
of a collection from the provider's pages.
-/

namespace PiEnv.Notes

open Js

def MAX_NOTE_COUNT : Nat := 10000
def MAX_LIST_CURSOR_LENGTH : Nat := 16384
def MAX_PROVIDER_LIST_PAGES : Nat := 100
def DEFAULT_COLLECTION_LIMIT : Nat := 20
def MAX_COLLECTION_LIMIT : Nat := 200
def MAX_COLLECTION_RESULT_BYTES : Nat := 32768
def MAX_COLLECTION_DOCUMENTS_PER_READ : Nat := 32

structure NoteEntry where
  path : Str
  revision : Option Str
  size : Option Number
  modifiedAt : Option Number
  deriving DecidableEq, Repr

structure NotesListRequest where
  pathPrefix : Option Str
  limit : Option Nat
  cursor : Option Str
  deriving DecidableEq, Repr

structure NotesListResult where
  entries : List NoteEntry
  nextCursor : Option Str
  deriving DecidableEq, Repr

/-- A provider may give a bare array, which is a terminal page. -/
inductive NotesListResponse where
  | entries (entries : List NoteEntry)
  | result (result : NotesListResult)
  deriving DecidableEq, Repr

/-- The reads of a provider whose store does not change. -/
structure NotesProvider where
  list : NotesListRequest → Except NotesError NotesListResponse
  read : Str → Except NotesError NoteDocument

-- -----
-- Checks of what a provider lists
-- -----

/-- `if (c) throw error;` -/
def throwIf (c : Prop) [Decidable c] (error : NotesError) : Except NotesError Unit :=
  if c then .error error else .ok ()

theorem throwIf_eq_ok {c : Prop} [Decidable c] {error : NotesError} :
    throwIf c error = .ok () ↔ ¬ c := by
  unfold throwIf
  split <;> simp_all

def isFiniteNumber : Number → Bool
  | .finite _ => true
  | _ => false

def isNoteSize (size : Number) : Bool :=
  match size.integer? with
  | some n => 0 ≤ n && n.natAbs < maxSafe
  | none => false

def validateOptionalMetadata (entry : NoteEntry) : Except NotesError Unit := do
  throwIf (!entry.size.all isNoteSize)
    (providerContractError (lit "Notes provider returned an invalid note size."))
  throwIf (!entry.modifiedAt.all isFiniteNumber)
    (providerContractError (lit "Notes provider returned an invalid modification time."))

/-- The entries after those whose paths are `paths`. -/
def validateEach : List Str → List NoteEntry → Except NotesError (List NoteEntry)
  | _, [] => .ok []
  | paths, entry :: rest => do
    let path ← normalizeStorePath entry.path true false
    throwIf (path ≠ entry.path || paths.contains path) (providerContractError
      (lit "Notes provider returned duplicate or noncanonical note entries."))
    if let some revision := entry.revision then validateRevision revision
    validateOptionalMetadata entry
    let rest ← validateEach (path :: paths) rest
    return entry :: rest

def validateEntries (entries : List NoteEntry) : Except NotesError (List NoteEntry) :=
  if entries.length > MAX_NOTE_COUNT then
    .error (providerContractError (lit "Notes provider returned too many entries."))
  else validateEach [] entries

def validateListResult (response : NotesListResponse) (limit : Nat) :
    Except NotesError NotesListResult := do
  let (listed, nextCursor) := match response with
    | .entries entries => (entries, none)
    | .result result => (result.entries, result.nextCursor)
  let entries ← validateEntries listed
  throwIf (entries.length > limit)
    (providerContractError (lit "Notes provider returned more list entries than requested."))
  throwIf (nextCursor.any (·.length > MAX_LIST_CURSOR_LENGTH))
    (providerContractError (lit "Notes provider returned an oversized list cursor."))
  throwIf (nextCursor = some [] ∨ (nextCursor ≠ none ∧ entries.length = 0))
    (providerContractError (lit "Notes provider returned a non-advancing list cursor."))
  return ⟨entries, nextCursor⟩

-- -----
-- The whole inventory
-- -----

def addEntries (entries : List NoteEntry) : List NoteEntry → Except NotesError (List NoteEntry)
  | [] => .ok entries
  | entry :: rest =>
    if entries.any (·.path == entry.path) then
      .error (providerContractError
        (lit "Notes provider returned a duplicate paginated list entry."))
    else addEntries (entries ++ [entry]) rest

def listPages (provider : NotesProvider) (pathPrefix : Str) :
    Nat → List NoteEntry → Option Str → Except NotesError (List NoteEntry)
  | 0, _, _ =>
    .error (.provider .resourceLimit (lit "Collection inventory exceeds " ++
      decimal MAX_PROVIDER_LIST_PAGES ++ lit " provider pages."))
  | pages + 1, entries, cursor => do
    let pageLimit := min 1000 (MAX_NOTE_COUNT - entries.length)
    throwIf (pageLimit = 0) (.provider .resourceLimit (lit "Collection inventory exceeds " ++
      decimal MAX_NOTE_COUNT ++ lit " notes."))
    let listed ← validateListResult
      (← provider.list ⟨some pathPrefix, some pageLimit, cursor⟩) pageLimit
    let entries ← addEntries entries listed.entries
    throwIf (listed.nextCursor ≠ none ∧ listed.nextCursor = cursor)
      (providerContractError (lit "Notes provider returned a non-advancing list cursor."))
    match listed.nextCursor with
    | none => return entries
    | some next => listPages provider pathPrefix pages entries (some next)

def listComplete (provider : NotesProvider) (pathPrefix : Str) :
    Except NotesError (List NoteEntry) :=
  listPages provider pathPrefix MAX_PROVIDER_LIST_PAGES [] none

theorem addEntries_nodup {entries more result : List NoteEntry}
    (h : addEntries entries more = .ok result) (hn : (entries.map (·.path)).Nodup) :
    (result.map (·.path)).Nodup := by
  induction more generalizing entries with
  | nil =>
    rw [addEntries, Except.ok.injEq] at h
    rwa [← h]
  | cons entry more ih =>
    rw [addEntries] at h
    split at h
    · cases h
    · rename_i hnew
      apply ih h
      rw [List.map_append, List.nodup_append]
      refine ⟨hn, by simp, ?_⟩
      intro a ha b hb
      obtain rfl : b = entry.path := by simpa using hb
      rintro rfl
      obtain ⟨other, hother, he⟩ := List.mem_map.mp ha
      exact hnew (List.any_eq_true.mpr ⟨other, hother, by simpa using he⟩)

theorem listPages_nodup {provider : NotesProvider} {pathPrefix : Str} {pages : Nat}
    {entries result : List NoteEntry} {cursor : Option Str}
    (h : listPages provider pathPrefix pages entries cursor = .ok result)
    (hn : (entries.map (·.path)).Nodup) : (result.map (·.path)).Nodup := by
  induction pages generalizing entries cursor with
  | zero => cases h
  | succ pages ih =>
    unfold listPages at h
    simp only [Effects.bind_eq_ok] at h
    obtain ⟨-, -, response, -, listed, -, entries', hadd, -, -, h⟩ := h
    have hn' := addEntries_nodup hadd hn
    split at h
    · rw [← Except.ok.inj h]
      exact hn'
    · exact ih h hn'

/-- No path is listed twice. -/
theorem listComplete_nodup {provider : NotesProvider} {pathPrefix : Str} {entries : List NoteEntry}
    (h : listComplete provider pathPrefix = .ok entries) : (entries.map (·.path)).Nodup :=
  listPages_nodup h (by simp)

/-- The lengths a listed entry keeps to. -/
structure NoteEntry.Bounded (entry : NoteEntry) : Prop where
  path : entry.path.length ≤ 1024
  revision : ∀ revision, entry.revision = some revision → revision.length ≤ MAX_REVISION_LENGTH

theorem normalizeStorePath_length {input path : Str} {requireMarkdown : Bool}
    (h : normalizeStorePath input requireMarkdown false = .ok path) : input.length ≤ 1024 := by
  unfold normalizeStorePath at h
  simp only [Bool.false_and, Bool.false_eq_true, if_false] at h
  split at h
  · cases h
  · rename_i hinvalid
    simp only [isInvalidStorePath, Bool.or_eq_true, decide_eq_true_eq, not_or] at hinvalid
    have hlen : (forwardSlashes input).length = input.length := List.length_map _
    omega

theorem validateEach_bounded {entries result : List NoteEntry} {paths : List Str}
    (h : validateEach paths entries = .ok result) : ∀ entry ∈ result, entry.Bounded := by
  induction entries generalizing paths result with
  | nil =>
    obtain rfl := Except.ok.inj h
    simp
  | cons entry rest ih =>
    simp only [validateEach, Effects.bind_eq_ok] at h
    obtain ⟨path, hpath, -, -, h⟩ := h
    have hrevision : ∀ revision, entry.revision = some revision →
        revision.length ≤ MAX_REVISION_LENGTH := by
      intro revision hr
      simp only [hr, Effects.bind_eq_ok] at h
      obtain ⟨_, hvalid, -⟩ := h
      unfold validateRevision at hvalid
      split at hvalid
      · rename_i hv
        simp only [validRevision, Bool.and_eq_true, decide_eq_true_eq] at hv
        exact hv.1.2
      · cases hvalid
    have hrest : ∃ rest', validateEach (path :: paths) rest = .ok rest' ∧ result = entry :: rest' := by
      cases hr : entry.revision with
      | none =>
        simp only [hr, Effects.bind_eq_ok] at h
        obtain ⟨-, -, rest', hrest, h⟩ := h
        exact ⟨rest', hrest, (Except.ok.inj h).symm⟩
      | some revision =>
        simp only [hr, Effects.bind_eq_ok] at h
        obtain ⟨-, -, -, -, rest', hrest, h⟩ := h
        exact ⟨rest', hrest, (Except.ok.inj h).symm⟩
    obtain ⟨rest', hrest, rfl⟩ := hrest
    exact List.forall_mem_cons.mpr ⟨⟨normalizeStorePath_length hpath, hrevision⟩, ih hrest⟩

theorem validateEntries_bounded {entries result : List NoteEntry}
    (h : validateEntries entries = .ok result) : ∀ entry ∈ result, entry.Bounded := by
  unfold validateEntries at h
  split at h
  · cases h
  · exact validateEach_bounded h

theorem validateListResult_bounded {response : NotesListResponse} {limit : Nat}
    {result : NotesListResult} (h : validateListResult response limit = .ok result) :
    ∀ entry ∈ result.entries, entry.Bounded := by
  simp only [validateListResult, Effects.bind_eq_ok] at h
  obtain ⟨entries, hentries, -, -, -, -, -, -, h⟩ := h
  obtain rfl := Except.ok.inj h
  exact validateEntries_bounded hentries

theorem addEntries_bounded {entries more result : List NoteEntry}
    (h : addEntries entries more = .ok result) (hb : ∀ entry ∈ entries, entry.Bounded)
    (hm : ∀ entry ∈ more, entry.Bounded) : ∀ entry ∈ result, entry.Bounded := by
  induction more generalizing entries with
  | nil =>
    obtain rfl := Except.ok.inj h
    exact hb
  | cons entry more ih =>
    rw [addEntries] at h
    split at h
    · cases h
    · obtain ⟨hentry, hmore⟩ := List.forall_mem_cons.mp hm
      refine ih h ?_ hmore
      intro other hother
      rcases List.mem_append.mp hother with ho | ho
      · exact hb other ho
      · rw [List.mem_singleton.mp ho]
        exact hentry

theorem listPages_bounded {provider : NotesProvider} {pathPrefix : Str} {pages : Nat}
    {entries result : List NoteEntry} {cursor : Option Str}
    (h : listPages provider pathPrefix pages entries cursor = .ok result)
    (hb : ∀ entry ∈ entries, entry.Bounded) : ∀ entry ∈ result, entry.Bounded := by
  induction pages generalizing entries cursor with
  | zero => cases h
  | succ pages ih =>
    unfold listPages at h
    simp only [Effects.bind_eq_ok] at h
    obtain ⟨-, -, response, -, listed, hlisted, entries', hadd, -, -, h⟩ := h
    have hb' := addEntries_bounded hadd hb (validateListResult_bounded hlisted)
    split at h
    · rw [← Except.ok.inj h]
      exact hb'
    · exact ih h hb'

theorem listComplete_bounded {provider : NotesProvider} {pathPrefix : Str}
    {entries : List NoteEntry} (h : listComplete provider pathPrefix = .ok entries) :
    ∀ entry ∈ entries, entry.Bounded :=
  listPages_bounded h (by simp)

end PiEnv.Notes
