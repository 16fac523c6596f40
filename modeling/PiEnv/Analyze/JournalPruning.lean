import PiEnv.Analyze.Journal

/-!
# Pruning the journal

What is within a bound, what pruning and making room leave of a directory, and
how much that is.
-/

namespace PiEnv.Analyze

open Js Utf8

-- -----
-- Bounds
-- -----

/-- A bound that is not a number bounds nothing. -/
abbrev Within (value : Rat) (bound : Number) : Prop := exceeds value bound = false

theorem within_of_atMost {value : Rat} {bound : Number} (h : atMost value bound = true) :
    Within value bound := by
  cases bound with
  | finite bound => simpa [Within, exceeds, atMost] using h
  | infinite negative => simpa [Within, exceeds, atMost] using h
  | nan => rfl

theorem within_of_not_reaches {value : Rat} {bound : Number} (h : reaches value bound = false) :
    Within value bound := by
  cases bound with
  | finite bound =>
    simp only [reaches, decide_eq_false_iff_not, not_le] at h
    simpa [Within, exceeds] using h.le
  | infinite negative => exact h
  | nan => rfl

theorem Within.mono {value less : Rat} {bound : Number} (h : Within value bound)
    (hle : less ≤ value) : Within less bound := by
  cases bound with
  | finite bound =>
    simp only [Within, exceeds, decide_eq_false_iff_not, not_lt] at h ⊢
    exact hle.trans h
  | infinite negative => exact h
  | nan => rfl

theorem within_maxNumber {value : Rat} {bound other : Number} (h : Within value bound) :
    Within value (maxNumber bound other) := by
  cases bound with
  | nan => rfl
  | infinite negative =>
    cases negative with
    | true => cases h
    | false => cases other <;> rfl
  | finite bound =>
    cases other with
    | nan => rfl
    | infinite negative =>
      cases negative with
      | true => exact h
      | false => rfl
    | finite other =>
      simp only [Within, exceeds, maxNumber, decide_eq_false_iff_not, not_lt] at h ⊢
      exact h.trans (le_max_left _ _)

/-- One file more than the rotated ones are within the number of files. -/
theorem within_files {count : Rat} {files : Number} (hfiles : Within 1 files)
    (h : Within count (maxNumber (.finite 0) (lessOne files))) : Within (count + 1) files := by
  cases files with
  | nan => rfl
  | infinite negative => exact hfiles
  | finite files =>
    simp only [Within, exceeds, lessOne, maxNumber, decide_eq_false_iff_not, not_lt] at h hfiles ⊢
    rw [max_eq_right (by linarith)] at h
    linarith

section
variable (options : AnalysisJournalOptions) {value : Rat}

theorem within_maxFileBytes (h : Within value (normalizeOptions options).maxLineBytes) :
    Within value (normalizeOptions options).maxFileBytes := within_maxNumber h

theorem within_maxTotalBytes (h : Within value (normalizeOptions options).maxFileBytes) :
    Within value (normalizeOptions options).maxTotalBytes := within_maxNumber h

theorem zero_within_maxFileBytes : Within 0 (normalizeOptions options).maxFileBytes :=
  within_maxFileBytes options (within_maxNumber (by decide))

theorem one_within_maxFiles : Within 1 (normalizeOptions options).maxFiles :=
  within_maxNumber (by decide)

end

-- -----
-- Directories
-- -----

variable {directory directory' directory'' : Directory} {file : JournalFile} {name : Str}

theorem perm_filter {files : List JournalFile} (hnodup : (files.map (·.name)).Nodup)
    (hfile : file ∈ files) : files.Perm (file :: files.filter (·.name ≠ file.name)) := by
  induction files with
  | nil => cases hfile
  | cons first files ih =>
    obtain ⟨hfirst, hrest⟩ := List.nodup_cons.mp hnodup
    rcases List.mem_cons.mp hfile with rfl | hlater
    · have hall : files.filter (·.name ≠ file.name) = files := by
        rw [List.filter_eq_self]
        intro other hother
        simp only [ne_eq, decide_eq_true_eq]
        exact fun hname => hfirst (List.mem_map.mpr ⟨other, hother, hname⟩)
      rw [List.filter_cons_of_neg (by simp), hall]
    · have hne : first.name ≠ file.name := fun hname =>
        hfirst (List.mem_map.mpr ⟨file, hlater, hname.symm⟩)
      rw [List.filter_cons_of_pos (by simpa using hne)]
      exact ((ih hrest hlater).cons first).trans (List.Perm.swap ..)

theorem Directory.find_some (h : directory.find name = some file) :
    file ∈ directory.files ∧ file.name = name :=
  ⟨List.mem_of_find?_eq_some h, by simpa using List.find?_some h⟩

theorem Directory.find_none (h : directory.find name = none) : ∀ file ∈ directory.files, file.name ≠ name := by
  simpa [Directory.find] using h

def current (directory : Directory) : Option JournalFile := directory.find JOURNAL_FILE_NAME

def rotatedFiles (directory : Directory) : List JournalFile :=
  (journalFiles directory).filter (!isCurrent ·)

def currentSize (directory : Directory) : Nat := ((current directory).map JournalFile.size).getD 0

theorem isCurrent_iff : isCurrent file = true ↔ file.name = JOURNAL_FILE_NAME := by simp [isCurrent]

theorem mem_journalFiles :
    file ∈ journalFiles directory ↔ file ∈ directory.files ∧ isJournalFile file.name = true := by
  simp [journalFiles]

theorem mem_rotatedFiles : file ∈ rotatedFiles directory ↔
    file ∈ directory.files ∧ isJournalFile file.name = true ∧ file.name ≠ JOURNAL_FILE_NAME := by
  simp [rotatedFiles, mem_journalFiles, isCurrent, and_assoc]

theorem journalFiles_nodup (directory : Directory) :
    ((journalFiles directory).map (·.name)).Nodup :=
  directory.nodup.sublist (List.filter_sublist.map _)

theorem rotatedFiles_nodup (directory : Directory) :
    ((rotatedFiles directory).map (·.name)).Nodup :=
  (journalFiles_nodup directory).sublist (List.filter_sublist.map _)

/-- The journal files are the current one and those that are rotated. -/
theorem journalFiles_perm (directory : Directory) :
    (journalFiles directory).Perm ((current directory).toList ++ rotatedFiles directory) := by
  cases hcurrent : current directory with
  | none =>
    have hall : rotatedFiles directory = journalFiles directory := by
      refine List.filter_eq_self.mpr fun other hother => ?_
      have := Directory.find_none hcurrent other (mem_journalFiles.mp hother).1
      simpa [isCurrent] using this
    rw [hall]
    exact List.Perm.refl _
  | some file =>
    obtain ⟨hfile, hname⟩ := Directory.find_some hcurrent
    have hmem : file ∈ journalFiles directory :=
      mem_journalFiles.mpr ⟨hfile, by rw [hname]; decide⟩
    have hrotated : (journalFiles directory).filter (·.name ≠ file.name) = rotatedFiles directory := by
      refine List.filter_congr fun other _ => ?_
      rw [hname, isCurrent, Bool.eq_iff_iff]
      simp
    exact hrotated ▸ perm_filter (journalFiles_nodup directory) hmem

theorem totalSize_journalFiles (directory : Directory) :
    totalSize (journalFiles directory) = currentSize directory + totalSize (rotatedFiles directory) := by
  have hsum := ((journalFiles_perm directory).map JournalFile.size).sum_eq
  rw [totalSize, hsum, List.map_append, List.sum_append, currentSize]
  cases current directory <;> simp [totalSize]

theorem length_journalFiles (directory : Directory) :
    (journalFiles directory).length ≤ (rotatedFiles directory).length + 1 := by
  have hlength := (journalFiles_perm directory).length_eq
  rw [hlength, List.length_append]
  have : (current directory).toList.length ≤ 1 := by cases current directory <;> simp
  omega

-- -----
-- Pruning
-- -----

/-- Only rotated files are gone. -/
structure Pruned (directory directory' : Directory) : Prop where
  files : directory'.files.Sublist directory.files
  current : current directory' = current directory
  occupied : directory'.occupied = directory.occupied

theorem Pruned.refl (directory : Directory) : Pruned directory directory :=
  ⟨List.Sublist.refl _, rfl, rfl⟩

theorem Pruned.trans (h : Pruned directory directory') (h' : Pruned directory' directory'') :
    Pruned directory directory'' :=
  ⟨h'.files.trans h.files, h'.current.trans h.current, h'.occupied.trans h.occupied⟩

theorem Pruned.currentSize_eq (h : Pruned directory directory') :
    currentSize directory' = currentSize directory := by
  rw [currentSize, h.current, currentSize]

theorem Pruned.rotatedFiles (h : Pruned directory directory') :
    (rotatedFiles directory').Sublist (rotatedFiles directory) := (h.files.filter _).filter _

theorem pruned_rm (hname : name ≠ JOURNAL_FILE_NAME) : Pruned directory (directory.rm name) where
  files := List.filter_sublist
  current := by
    show (directory.files.filter (·.name ≠ name)).find? _ = directory.files.find? _
    rw [List.find?_filter]
    congr 1
    funext other
    rw [Bool.eq_iff_iff]
    simp only [ne_eq, decide_eq_true_eq, decide_not, Bool.not_eq_true',
      decide_eq_false_iff_not]
    exact ⟨(·.2), fun h => ⟨fun hother => hname (hother.symm.trans h), h⟩⟩
  occupied := rfl

theorem rotatedFiles_rm : rotatedFiles (directory.rm name) =
    (rotatedFiles directory).filter (·.name ≠ name) := by
  simp only [rotatedFiles, journalFiles, Directory.rm, List.filter_filter]
  refine List.filter_congr fun other _ => ?_
  rw [Bool.eq_iff_iff]
  simp only [Bool.and_eq_true]
  tauto

/-- What is left to visit is left when the first file has been removed. -/
theorem rotatedFiles_rest {files : List JournalFile}
    (h : (file :: files).Perm (rotatedFiles directory)) :
    files.Perm (rotatedFiles (directory.rm file.name)) := by
  have hmem : file ∈ rotatedFiles directory := h.subset (List.mem_cons_self ..)
  rw [rotatedFiles_rm]
  exact (h.trans (perm_filter (rotatedFiles_nodup directory) hmem)).cons_inv

theorem rotated_name {files : List JournalFile}
    (h : (file :: files).Perm (rotatedFiles directory)) : file.name ≠ JOURNAL_FILE_NAME :=
  (mem_rotatedFiles.mp (h.subset (List.mem_cons_self ..))).2.2

theorem removeAll_pruned {files : List JournalFile}
    (hfiles : ∀ file ∈ files, file.name ≠ JOURNAL_FILE_NAME) :
    Pruned directory (removeAll files directory) := by
  induction files generalizing directory with
  | nil => exact Pruned.refl _
  | cons first files ih =>
    refine (pruned_rm (hfiles first (List.mem_cons_self ..))).trans ?_
    exact ih fun other hother => hfiles other (List.mem_cons_of_mem _ hother)

theorem removeExcess_pruned {limit : Number} {rotated : List JournalFile}
    (hzero : Within 0 limit) (hrotated : rotated.Perm (rotatedFiles directory)) :
    Pruned directory (removeExcess limit rotated directory) ∧
      Within (rotatedFiles (removeExcess limit rotated directory)).length limit := by
  induction rotated generalizing directory with
  | nil =>
    refine ⟨Pruned.refl _, ?_⟩
    rw [removeExcess, ← hrotated.length_eq]
    exact_mod_cast hzero
  | cons oldest rest ih =>
    unfold removeExcess
    split
    case isTrue =>
      obtain ⟨hpruned, hwithin⟩ := ih (rotatedFiles_rest hrotated)
      exact ⟨(pruned_rm (rotated_name hrotated)).trans hpruned, hwithin⟩
    case isFalse hexceeds =>
      refine ⟨Pruned.refl _, ?_⟩
      rw [← hrotated.length_eq]
      simpa using hexceeds

theorem makeRoom_pruned (bound : Number) (incoming : Nat) {total : Nat} {files : List JournalFile}
    (hfiles : (files.filter (!isCurrent ·)).Perm (rotatedFiles directory))
    (htotal : total = totalSize (journalFiles directory)) :
    Pruned directory (makeRoom bound incoming files total directory).2 ∧
      (makeRoom bound incoming files total directory).1 =
        totalSize (journalFiles (makeRoom bound incoming files total directory).2) ∧
      (atMost ((makeRoom bound incoming files total directory).1 + incoming : Nat) bound = true ∨
        rotatedFiles (makeRoom bound incoming files total directory).2 = []) := by
  induction files generalizing directory total with
  | nil => exact ⟨Pruned.refl _, htotal, .inr (List.nil_perm.mp hfiles)⟩
  | cons file files ih =>
    unfold makeRoom
    split
    case isTrue hfits => exact ⟨Pruned.refl _, htotal, .inl hfits⟩
    case isFalse =>
      split
      case isTrue hcurrent =>
        rw [List.filter_cons_of_neg (by simp [hcurrent])] at hfiles
        exact ih hfiles htotal
      case isFalse hrotated =>
        rw [List.filter_cons_of_pos (by simpa using hrotated)] at hfiles
        have hpruned := (pruned_rm (rotated_name hfiles) : Pruned directory _)
        have hmem := hfiles.subset (List.mem_cons_self ..)
        have hsum := ((perm_filter (rotatedFiles_nodup directory) hmem).map JournalFile.size).sum_eq
        have hrest : total - file.size = totalSize (journalFiles (directory.rm file.name)) := by
          rw [htotal, totalSize_journalFiles, totalSize_journalFiles, rotatedFiles_rm, currentSize,
            currentSize, hpruned.current]
          simp only [List.map_cons, List.sum_cons] at hsum
          simp only [totalSize]
          omega
        obtain ⟨hrestPruned, htotal', hfits⟩ := ih (rotatedFiles_rest hfiles) hrest
        exact ⟨hpruned.trans hrestPruned, htotal', hfits⟩

section
variable (localeCompare : Str → Str → Ordering) (directory : Directory)

theorem listJournalFiles_perm :
    (listJournalFiles localeCompare directory).Perm (journalFiles directory) :=
  List.perm_insertionSort ..

theorem rotated_listed : ((listJournalFiles localeCompare directory).filter (!isCurrent ·)).Perm
    (rotatedFiles directory) := (listJournalFiles_perm localeCompare directory).filter _

theorem totalSize_listed :
    totalSize (listJournalFiles localeCompare directory) = totalSize (journalFiles directory) :=
  ((listJournalFiles_perm localeCompare directory).map JournalFile.size).sum_eq

/-- After pruning, few enough rotated files are left, and there is room or none. -/
theorem prune_pruned (options : NormalizedJournalOptions) (now : Rat) :
    Pruned directory (prune localeCompare options now directory) ∧
      Within (rotatedFiles (prune localeCompare options now directory)).length
        (maxNumber (.finite 0) (lessOne options.maxFiles)) ∧
      (Within (totalSize (journalFiles (prune localeCompare options now directory)))
          options.maxTotalBytes ∨
        rotatedFiles (prune localeCompare options now directory) = []) := by
  let old := (listJournalFiles localeCompare directory).filter fun file =>
    !isCurrent file && exceeds (now - file.mtimeMs) options.maxAgeMs
  let limit := maxNumber (.finite 0) (lessOne options.maxFiles)
  have hold : Pruned directory (removeAll old directory) := by
    refine removeAll_pruned fun file hfile => ?_
    have hnot := (List.mem_filter.mp hfile).2
    simp only [Bool.and_eq_true, Bool.not_eq_true'] at hnot
    exact fun hname => absurd (isCurrent_iff.mpr hname) (by simp [hnot.1])
  have hzero : Within 0 limit := within_maxNumber (by decide)
  obtain ⟨hexcess, hcount⟩ := removeExcess_pruned hzero
    (rotated_listed localeCompare (removeAll old directory))
  let kept := removeExcess limit
    ((listJournalFiles localeCompare (removeAll old directory)).filter (!isCurrent ·))
    (removeAll old directory)
  obtain ⟨hroom, htotal, hfits⟩ := makeRoom_pruned options.maxTotalBytes 0
    (rotated_listed localeCompare kept) (totalSize_listed localeCompare kept)
  have hprune : prune localeCompare options now directory =
      (makeRoom options.maxTotalBytes 0 (listJournalFiles localeCompare kept)
        (totalSize (listJournalFiles localeCompare kept)) kept).2 := rfl
  rw [hprune]
  refine ⟨(hold.trans hexcess).trans hroom, ?_, hfits.imp_left fun hfit => ?_⟩
  · exact hcount.mono (by exact_mod_cast hroom.rotatedFiles.length_le)
  · have hwithin := within_of_atMost hfit
    rw [htotal, Nat.add_zero] at hwithin
    exact hwithin

end

end PiEnv.Analyze
