import PiEnv.Notes.VaultMutations

/-!
# The files of a vault

What creating, changing and moving files does to the notes of a vault.
-/

namespace PiEnv.Notes.Mutations

open Js

variable {host : Host} {disk disk' : Disk} {s s' : State} {i j identity other : Nat}
variable {call call' : Call} {path target : Str} {file : File}

-- -----
-- Files
-- -----

/-- A note in its directories, which is the only name of its file. -/
structure Disk.Holds (disk : Disk) (path : Str) (identity : Nat) (file : File) : Prop where
  entry : disk.entries.get path = some (.file identity)
  stored : disk.files[identity]? = some file
  sole : ∀ name, disk.entries.get name = some (.file identity) → name = path
  inDirectories : disk.inDirectories path = true
  linked : file.linkedOutside = false

def Disk.Valid (disk : Disk) : Prop :=
  ∀ path identity, disk.entries.get path = some (.file identity) → identity < disk.files.length

theorem isDirectory_iff : disk.isDirectory path = true ↔ disk.entries.get path = some .directory :=
  beq_iff_eq

theorem inDirectories_mono (h : disk.inDirectories path = true)
    (hkeep : ∀ name, disk.entries.get name = some .directory → disk'.entries.get name = some .directory) :
    disk'.inDirectories path = true :=
  List.all_eq_true.mpr fun name hname =>
    isDirectory_iff.mpr (hkeep name (isDirectory_iff.mp (List.all_eq_true.mp h name hname)))

theorem Disk.Holds.found (h : disk.Holds path identity file) :
    disk.file path = some (identity, file) := by
  rw [Disk.file, h.entry]
  simp [h.stored]

theorem content_eq_none (h : ∀ identity, disk.entries.get path ≠ some (.file identity)) :
    disk.content path = none := by
  unfold Disk.content Disk.file
  split
  · rename_i identity hentry
    exact absurd hentry (h identity)
  · rfl

/-- The same notes with the same texts. -/
theorem content_congr
    (hentries : ∀ identity, disk'.entries.get path = some (.file identity) ↔
      disk.entries.get path = some (.file identity))
    (hfiles : ∀ identity, disk.entries.get path = some (.file identity) →
      disk'.files[identity]?.map (·.content) = disk.files[identity]?.map (·.content)) :
    disk'.content path = disk.content path := by
  by_cases h : ∃ identity, disk.entries.get path = some (.file identity)
  · obtain ⟨identity, hentry⟩ := h
    unfold Disk.content Disk.file
    rw [(hentries identity).mpr hentry, hentry]
    have := hfiles identity hentry
    cases hnew : disk'.files[identity]? <;> cases hold : disk.files[identity]? <;>
      simp_all
  · rw [content_eq_none fun identity h' => h ⟨identity, h'⟩,
      content_eq_none fun identity h' => h ⟨identity, (hentries identity).mp h'⟩]

-- -----
-- Directories
-- -----

theorem makeDirectory_get (disk : Disk) (path name : Str) :
    (disk.makeDirectory path).entries.get name =
      if name = path ∧ disk.entries.get path = none then some .directory
      else disk.entries.get name := by
  unfold Disk.makeDirectory
  split
  · rename_i hnone
    rw [JsMap.get_set]
    simp [Option.isNone_iff_eq_none.mp hnone]
  · rename_i hsome
    rw [if_neg fun h => hsome (Option.isNone_iff_eq_none.mpr h.2)]

theorem makeDirectory_files : (disk.makeDirectory path).files = disk.files := by
  unfold Disk.makeDirectory
  split <;> rfl

theorem makeDirectories_files {paths : List Str} : (disk.makeDirectories paths).files = disk.files := by
  induction paths generalizing disk with
  | nil => rfl
  | cons path rest ih => exact ih.trans makeDirectory_files

/-- What is there stays, and what is new is a directory. -/
theorem makeDirectories_get (disk : Disk) (paths : List Str) (name : Str) :
    (disk.makeDirectories paths).entries.get name = disk.entries.get name ∨
      disk.entries.get name = none ∧
        (disk.makeDirectories paths).entries.get name = some .directory := by
  induction paths generalizing disk with
  | nil => exact Or.inl rfl
  | cons path rest ih =>
    have hstep := makeDirectory_get disk path name
    rcases ih (disk.makeDirectory path) with h | ⟨hnone, h⟩
    · rw [Disk.makeDirectories, List.foldl_cons, ← Disk.makeDirectories, h, hstep]
      split
      · rename_i hnew
        exact Or.inr ⟨hnew.1 ▸ hnew.2, rfl⟩
      · exact Or.inl rfl
    · refine Or.inr ⟨?_, h⟩
      rw [hstep] at hnone
      split at hnone
      · cases hnone
      · exact hnone

theorem makeDirectories_file {paths : List Str} :
    (disk.makeDirectories paths).entries.get path = some (.file identity) ↔
      disk.entries.get path = some (.file identity) := by
  rcases makeDirectories_get disk paths path with h | ⟨hnone, h⟩
  · rw [h]
  · rw [hnone, h]
    exact ⟨nofun, nofun⟩

theorem makeDirectories_directory {paths : List Str}
    (h : disk.entries.get path = some .directory) :
    (disk.makeDirectories paths).entries.get path = some .directory := by
  rcases makeDirectories_get disk paths path with heq | ⟨hnone, heq⟩
  · rw [heq, h]
  · exact heq

theorem Disk.Holds.makeDirectories (h : disk.Holds path identity file) (paths : List Str) :
    (disk.makeDirectories paths).Holds path identity file where
  entry := makeDirectories_file.mpr h.entry
  stored := by
    rw [makeDirectories_files]
    exact h.stored
  sole name hname := h.sole name (makeDirectories_file.mp hname)
  inDirectories := inDirectories_mono h.inDirectories fun _ => makeDirectories_directory
  linked := h.linked

-- -----
-- Files that are created, changed and moved
-- -----

theorem Disk.Holds.create (h : disk.Holds path identity file) (created : File) :
    Disk.Holds { disk with files := disk.files ++ [created] } path identity file where
  entry := h.entry
  stored := by
    rw [List.getElem?_append_left (List.getElem?_eq_some_iff.mp h.stored).1]
    exact h.stored
  sole := h.sole
  inDirectories := h.inDirectories
  linked := h.linked

theorem change_files {attributes : Attributes → Attributes} (h : other ≠ identity) :
    (disk.change other attributes).files[identity]? = disk.files[identity]? := by
  rw [Disk.change, List.getElem?_modify_ne _ _ h]

theorem change_self {attributes : Attributes → Attributes} (h : disk.files[identity]? = some file) :
    (disk.change identity attributes).files[identity]? =
      some { file with attributes := attributes file.attributes } := by
  rw [Disk.change, List.getElem?_modify_eq, h]
  rfl

theorem change_content {attributes : Attributes → Attributes} :
    (disk.change other attributes).files[identity]?.map (·.content) =
      disk.files[identity]?.map (·.content) := by
  by_cases h : other = identity
  · subst h
    rw [Disk.change, List.getElem?_modify_eq]
    cases disk.files[other]? <;> rfl
  · rw [change_files h]

theorem Disk.Holds.change (h : disk.Holds path identity file) (hne : other ≠ identity)
    (attributes : Attributes → Attributes) :
    (disk.change other attributes).Holds path identity file where
  entry := h.entry
  stored := (change_files hne).trans h.stored
  sole := h.sole
  inDirectories := h.inDirectories
  linked := h.linked

/-- Another path becomes a name of another file. -/
theorem Disk.Holds.set (h : disk.Holds path identity file) (hpath : path ≠ target)
    (hne : other ≠ identity) (htarget : disk.entries.get target ≠ some .directory) :
    Disk.Holds { disk with entries := disk.entries.set target (.file other) } path identity file where
  entry := by
    rw [JsMap.get_set, if_neg hpath]
    exact h.entry
  stored := h.stored
  sole name hname := by
    rw [JsMap.get_set] at hname
    split at hname
    · exact absurd (Entry.file.inj (Option.some.inj hname)) hne
    · exact h.sole name hname
  inDirectories := inDirectories_mono h.inDirectories fun name hname => by
    have hother : name ≠ target := by
      rintro rfl
      exact htarget hname
    rw [JsMap.get_set, if_neg hother]
    exact hname
  linked := h.linked

theorem Disk.Holds.delete (h : disk.Holds path identity file) (hpath : path ≠ target)
    (htarget : disk.entries.get target ≠ some .directory) :
    Disk.Holds { disk with entries := disk.entries.delete target } path identity file where
  entry := by
    rw [JsMap.get_delete, if_neg hpath]
    exact h.entry
  stored := h.stored
  sole name hname := by
    rw [JsMap.get_delete] at hname
    split at hname
    · cases hname
    · exact h.sole name hname
  inDirectories := inDirectories_mono h.inDirectories fun name hname => by
    have hother : name ≠ target := by
      rintro rfl
      exact htarget hname
    rw [JsMap.get_delete, if_neg hother]
    exact hname
  linked := h.linked

end PiEnv.Notes.Mutations
