import PiEnv.DevTools.WorkspaceFiles

/-!
# The file system under a workspace edit

Regular files by canonical path, the links that lead to them, and what each
system call may do: succeed, or fail at any point. Then the containment of
paths: that of a target in its root, and that of the temporary files beside it.
-/

namespace PiEnv.DevTools

open Js Posix Effects
open Js.Utf8 (Bytes)

-- -----
-- Disks
-- -----

structure File where
  content : Bytes
  mode : Nat
  deriving DecidableEq, Repr

/-- `issued` holds the identifiers handed out, and `written` every path whose
file was made, changed, moved or removed. -/
structure Disk where
  files : Str → Option File
  issued : List Str
  written : List Str

def Disk.put (disk : Disk) (path : Str) (file : Option File) : Disk :=
  { disk with files := Function.update disk.files path file, written := path :: disk.written }

@[simp] theorem Disk.put_files (disk : Disk) (path : Str) (file : Option File) :
    (disk.put path file).files = Function.update disk.files path file := rfl
@[simp] theorem Disk.put_issued (disk : Disk) (path : Str) (file : Option File) :
    (disk.put path file).issued = disk.issued := rfl
@[simp] theorem Disk.put_written (disk : Disk) (path : Str) (file : Option File) :
    (disk.put path file).written = path :: disk.written := rfl

/-- Where each path leads; nobody makes or removes links or directories. -/
structure Links where
  target : Str → Option Str
  canonical : ∀ {path real : Str}, target path = some real → Canonical real

/-- An identifier nobody has seen: it was not handed out before, and no file's
name ends in it. -/
structure Disk.Fresh (disk : Disk) (uuid : Str) : Prop where
  length : uuid.length = 36
  no_slash : slash ∉ uuid
  unissued : uuid ∉ disk.issued
  unused : ∀ path, disk.files path ≠ none → ¬ uuid <:+ path

/-- What a system call may do. Nobody else writes; a call that fails changes
nothing, except that a failed write may leave any content in its file; and the
calls of an error handler fail only when there is nothing to rename. -/
inductive FsExec (links : Links) : Exec FsOp FsRes Disk
  | resolved {disk : Disk} {path real : Str} (h : links.target path = some real) :
      FsExec links disk (.realpath path) (.ok real) disk
  | realpathFails {disk : Disk} {path : Str} :
      FsExec links disk (.realpath path) (.error .failed) disk
  | read {disk : Disk} {path : Str} {file : File} (h : disk.files path = some file) :
      FsExec links disk (.readFile path) (.ok file.content) disk
  | readFails {disk : Disk} {path : Str} :
      FsExec links disk (.readFile path) (.error .failed) disk
  | statted {disk : Disk} {path : Str} {file : File} (h : disk.files path = some file) :
      FsExec links disk (.stat path) (.ok file.mode) disk
  | statFails {disk : Disk} {path : Str} : FsExec links disk (.stat path) (.error .failed) disk
  | identified {disk : Disk} {uuid : Str} (fresh : disk.Fresh uuid) :
      FsExec links disk .randomUUID uuid { disk with issued := uuid :: disk.issued }
  | opened {disk : Disk} {path : Str} {mode : Nat} (h : disk.files path = none) :
      FsExec links disk (.openNew path mode) (.ok ()) (disk.put path (some ⟨[], mode⟩))
  | openFails {disk : Disk} {path : Str} {mode : Nat} :
      FsExec links disk (.openNew path mode) (.error .failed) disk
  | wrote {disk : Disk} {path : Str} {bytes : Bytes} {file : File}
      (h : disk.files path = some file) :
      FsExec links disk (.writeFile path bytes) (.ok ())
        (disk.put path (some { file with content := bytes }))
  | writeFails {disk : Disk} {path : Str} {bytes : Bytes} {file : File} (torn : Bytes)
      (h : disk.files path = some file) :
      FsExec links disk (.writeFile path bytes) (.error .failed)
        (disk.put path (some { file with content := torn }))
  | moded {disk : Disk} {path : Str} {mode : Nat} {file : File} (h : disk.files path = some file) :
      FsExec links disk (.chmod path mode) (.ok ())
        (disk.put path (some { file with mode := mode }))
  | chmodFails {disk : Disk} {path : Str} {mode : Nat} :
      FsExec links disk (.chmod path mode) (.error .failed) disk
  | synced {disk : Disk} {path : Str} (answer : Except FsError Unit) :
      FsExec links disk (.sync path) answer disk
  | closed {disk : Disk} {path : Str} (answer : Except FsError Unit) :
      FsExec links disk (.close path) answer disk
  | removed {disk : Disk} {path : Str} {undo : Bool} :
      FsExec links disk (.rm path undo) (.ok ()) (disk.put path none)
  | rmFails {disk : Disk} {path : Str} : FsExec links disk (.rm path false) (.error .failed) disk
  | renamed {disk : Disk} {source target : Str} {undo : Bool} {file : File}
      (h : disk.files source = some file) :
      FsExec links disk (.rename source target undo) (.ok ())
        ((disk.put source none).put target (some file))
  | renameFails {disk : Disk} {source target : Str} :
      FsExec links disk (.rename source target false) (.error .failed) disk
  | renameMissing {disk : Disk} {source target : Str} (h : disk.files source = none) :
      FsExec links disk (.rename source target true) (.error .failed) disk

-- -----
-- Containment
-- -----

theorem join_cons (part : Str) (rest : List Str) :
    join [slash] (part :: rest) = part ++ if rest = [] then [] else slash :: join [slash] rest := by
  cases rest <;> simp [join]

/-- A path below the root it is relative to does not climb. -/
theorem below_root {down : List Str} (h : ∀ part ∈ down, IsSegment part) :
    join [slash] down == [] || (join [slash] down != dotdot &&
      !(dotdot ++ [slash]).isPrefixOf (join [slash] down) && !isAbsolute (join [slash] down)) := by
  cases down with
  | nil => rfl
  | cons part rest =>
    have hp := h part (by simp)
    obtain ⟨u, more, rfl⟩ := List.exists_cons_of_ne_nil hp.ne_nil
    have hu : u ≠ slash := by
      rintro rfl
      exact hp.no_slash (by simp)
    have hdots : slash ∉ dotdot := by decide
    rw [join_cons]
    generalize htail : (if rest = [] then [] else slash :: join [slash] rest) = tail
    have hstart : tail = [] ∨ ∃ more, tail = slash :: more := by
      rw [← htail]
      split
      · exact .inl rfl
      · exact .inr ⟨_, rfl⟩
    have hne : (u :: more) ++ tail ≠ dotdot := by
      rcases hstart with rfl | ⟨after, rfl⟩
      · simpa using hp.ne_dotdot
      · intro he
        exact hdots (he ▸ by simp)
    have hprefix : ¬ dotdot ++ [slash] <+: (u :: more) ++ tail := by
      rintro ⟨after, ha⟩
      have ha' : (u :: more) ++ tail = dotdot ++ slash :: after := by simpa using ha.symm
      obtain ⟨front, hd, ht⟩ := before_of_not_mem ha' hp.no_slash
      rcases hstart with rfl | ⟨w, rfl⟩
      · simp at ht
      · cases front with
        | nil => exact hp.ne_dotdot (by simpa using hd.symm)
        | cons v front =>
          have hv : slash = v := (List.cons.inj ht).1
          exact hdots (by simp [hd, hv])
    have habs : isAbsolute ((u :: more) ++ tail) = false := by simp [isAbsolute, hu]
    have hpre : (dotdot ++ [slash]).isPrefixOf ((u :: more) ++ tail) = false := by
      rw [Bool.eq_false_iff]
      exact fun hc => hprefix (List.isPrefixOf_iff_prefix.mp hc)
    simp only [habs, hpre, Bool.not_false, Bool.and_true, Bool.or_eq_true, bne_iff_ne]
    exact .inr hne

theorem pathContains_iff (cwd : Str) {xs ys : List Str} (hx : ∀ part ∈ xs, IsSegment part)
    (hy : ∀ part ∈ ys, IsSegment part) :
    pathContains cwd (ofSegments xs) (ofSegments ys) = true ↔ xs <+: ys := by
  unfold pathContains
  rw [relative_ofSegments cwd hx hy]
  rcases dropCommon_spec xs ys with ⟨down, hd, rfl⟩ | ⟨x, up, down, hd, hn⟩
  · rw [hd]
    have hdown : ∀ part ∈ down, IsSegment part := fun s hs => hy s (List.mem_append_right _ hs)
    simpa using below_root hdown
  · rw [hd]
    simp only [List.map_cons, List.cons_append, hn, iff_false]
    rw [join_cons]
    split
    · decide
    · simp [List.isPrefixOf, dotdot, lit, units]

-- -----
-- Temporary files
-- -----

theorem isSegment_temporaryName (host : Host) (path : Str) (role : TemporaryRole) {uuid : Str}
    (h : slash ∉ uuid) : IsSegment (temporaryName host path role uuid) := by
  have hdigits : slash ∉ decimal host.pid := fun hm => absurd (isDigit_decimal hm) (by decide)
  have hbase := not_mem_basename path
  have hrole : slash ∉ role.text := by cases role <;> decide
  have h₁ : slash ∉ lit "." := by decide
  have h₂ : slash ∉ lit ".pi-dev-tools-" := by decide
  have h₃ : slash ∉ lit "-" := by decide
  have hlen : 2 < (temporaryName host path role uuid).length := by
    simp [temporaryName, lit, units]
    omega
  refine ⟨?_, ?_, ?_, ?_⟩
  · rintro he
    simp [he] at hlen
  · rintro he
    simp [he, dot, lit, units] at hlen
  · rintro he
    simp [he, dotdot, lit, units] at hlen
  · simp [temporaryName, h, hdigits, hbase, hrole, h₁, h₂, h₃]

/-- The path of a temporary file beside a file. -/
def siblingPath (host : Host) (path : Str) (role : TemporaryRole) (uuid : Str) : Str :=
  joinPath (dirname path) (temporaryName host path role uuid)

theorem siblingPath_ofSegments (host : Host) (role : TemporaryRole) {parts : List Str} {uuid : Str}
    (h : ∀ part ∈ parts, IsSegment part) (hu : slash ∉ uuid) :
    siblingPath host (ofSegments parts) role uuid =
      ofSegments (parts.dropLast ++ [temporaryName host (ofSegments parts) role uuid]) := by
  have hname := isSegment_temporaryName host (ofSegments parts) role hu
  rcases List.eq_nil_or_concat' parts with rfl | ⟨init, last, rfl⟩
  · have hd : dirname (ofSegments []) = ofSegments [] := by decide
    rw [siblingPath, hd, joinPath_ofSegments (by simp) hname]
    simp
  · have hinit : ∀ part ∈ init, IsSegment part := fun s hs => h s (by simp [hs])
    rw [siblingPath, dirname_ofSegments hinit (h last (by simp)), joinPath_ofSegments hinit hname]
    simp

theorem suffix_siblingPath (host : Host) (role : TemporaryRole) {path uuid : Str}
    (h : Canonical path) (hu : slash ∉ uuid) : uuid <:+ siblingPath host path role uuid := by
  obtain ⟨parts, hp, rfl⟩ := h
  rw [siblingPath_ofSegments host role hp hu, ofSegments_concat]
  refine List.IsSuffix.trans ?_ (List.suffix_append ..)
  refine List.IsSuffix.trans ?_ (List.suffix_cons ..)
  exact List.suffix_append ..

/-- A temporary file is in every root that holds the file it stands beside and
is not that file. -/
theorem siblingPath_contained (host : Host) (role : TemporaryRole) {root path uuid : Str}
    (hroot : Canonical root) (hpath : Canonical path) (hu : slash ∉ uuid)
    (h : pathContains host.cwd root path = true) (hne : root ≠ path) :
    pathContains host.cwd root (siblingPath host path role uuid) = true := by
  obtain ⟨rs, hrs, rfl⟩ := hroot
  obtain ⟨parts, hp, rfl⟩ := hpath
  rw [pathContains_iff host.cwd hrs hp] at h
  have hall : ∀ part ∈ parts.dropLast ++ [temporaryName host (ofSegments parts) role uuid],
      IsSegment part := by
    intro part hm
    rcases List.mem_append.mp hm with hm | hm
    · exact hp part (List.dropLast_subset _ hm)
    · rw [List.mem_singleton.mp hm]
      exact isSegment_temporaryName host _ role hu
  rw [siblingPath_ofSegments host role hp hu, pathContains_iff host.cwd hrs hall]
  obtain ⟨rest, rfl⟩ := h
  rcases List.eq_nil_or_concat' rest with rfl | ⟨init, last, rfl⟩
  · exact absurd (by simp) hne
  · rw [← List.append_assoc, List.dropLast_concat, List.append_assoc]
    exact List.prefix_append ..

end PiEnv.DevTools
