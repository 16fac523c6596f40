import PiEnv.Analyze.JournalPruning
import PiEnv.Lib.JsonLines

/-!
# Bounds of the journal

After every append the current file, the retained files and their number are
within the options, and what was appended is whole events, a line for each.
-/

namespace PiEnv.Analyze

open Js Utf8

-- -----
-- Lines
-- -----

/-- One event, and no end of a line before its own. -/
structure IsEventLine (line : Bytes) : Prop where
  event : ∃ event, line = encodeLine event
  ended : ∃ text, line = text ++ [10] ∧ 10 ∉ text

theorem encode_append_LF (s : Str) : encode (s ++ [LF]) = encode s ++ [10] := by
  fun_induction encode s with
  | case1 => rfl
  | case2 u =>
    have hlow : isLowSurrogate LF = false := by decide
    rw [List.singleton_append, encode, hlow, Bool.and_false, if_neg (by decide)]
    rfl
  | case3 u v rest hp ih =>
    rw [List.cons_append, List.cons_append, encode, if_pos hp, ih, List.append_assoc]
  | case4 u v rest hp ih =>
    rw [List.cons_append, List.cons_append, encode, if_neg hp, ← List.cons_append, ih,
      List.append_assoc]

theorem isEventLine_encodeLine (event : AnalysisDiagnosticEvent) :
    IsEventLine (encodeLine event) where
  event := ⟨event, rfl⟩
  ended := by
    refine ⟨encode (stringify event.toJson), encode_append_LF _, fun hmem => ?_⟩
    exact absurd (encode_ge (printable_stringify event.toJson) 10 hmem) (by decide)

theorem encodeLine_head (event : AnalysisDiagnosticEvent) :
    (encodeLine event).head? = some 123 := by
  have hhead : ∀ rest, (encode (123 :: rest)).head? = some 123 := by
    intro rest
    cases rest with
    | nil => decide
    | cons u rest =>
      have hhigh : isHighSurrogate 123 = false := by decide
      rw [encode, hhigh, Bool.false_and, if_neg (by decide)]
      rfl
  exact hhead _

theorem encodeEvent_line (event : AnalysisDiagnosticEvent) {bound : Number}
    (h : encodeEvent event bound ≠ []) :
    IsEventLine (encodeEvent event bound) ∧ Within (encodeEvent event bound).length bound := by
  unfold encodeEvent at h ⊢
  dsimp only at h ⊢
  split
  case isTrue hfits => exact ⟨isEventLine_encodeLine _, within_of_atMost hfits⟩
  case isFalse hlong =>
    rw [if_neg hlong] at h
    split
    case isTrue hfits => exact ⟨isEventLine_encodeLine _, within_of_atMost hfits⟩
    case isFalse hfallback => exact absurd (if_neg hfallback) h

/-- Whole events behind what a file held at the start. -/
def Lined (start : Directory) (content : Bytes) : Prop :=
  ∃ (before : Bytes) (lines : List Bytes), content = before ++ lines.flatten ∧
    (before = [] ∨ ∃ file ∈ journalFiles start, file.content = before) ∧
    ∀ line ∈ lines, IsEventLine line

theorem Lined.append {start : Directory} {content line : Bytes} (h : Lined start content)
    (hline : IsEventLine line) : Lined start (content ++ line) := by
  obtain ⟨before, lines, rfl, hbefore, hlines⟩ := h
  refine ⟨before, lines ++ [line], by simp, hbefore, fun other hother => ?_⟩
  rcases List.mem_append.mp hother with hother | hother
  · exact hlines other hother
  · exact List.mem_singleton.mp hother ▸ hline

def AllLined (start directory : Directory) : Prop :=
  ∀ file ∈ journalFiles directory, Lined start file.content

-- -----
-- Files that change
-- -----

variable {start directory directory' : Directory} {file : JournalFile} {name : Str}

theorem AllLined.pruned (h : AllLined start directory) (hpruned : Pruned directory directory') :
    AllLined start directory' := fun file hfile =>
  h file ((hpruned.files.filter _).subset hfile)

theorem mem_put {other : JournalFile} (h : other ∈ (directory.put file).files) :
    other = file ∨ other ∈ directory.files := by
  rcases List.mem_cons.mp h with rfl | h
  · exact .inl rfl
  · exact .inr (List.mem_filter.mp h).1

theorem AllLined.put (h : AllLined start directory) (hfile : Lined start file.content) :
    AllLined start (directory.put file) := by
  intro other hother
  obtain ⟨hmem, hname⟩ := mem_journalFiles.mp hother
  rcases mem_put hmem with rfl | hmem
  · exact hfile
  · exact h other (mem_journalFiles.mpr ⟨hmem, hname⟩)

theorem AllLined.rm (h : AllLined start directory) : AllLined start (directory.rm name) := by
  intro other hother
  obtain ⟨hmem, hname⟩ := mem_journalFiles.mp hother
  exact h other (mem_journalFiles.mpr ⟨(List.mem_filter.mp hmem).1, hname⟩)

theorem mem_current (h : current directory = some file) : file ∈ journalFiles directory := by
  obtain ⟨hmem, hname⟩ := Directory.find_some h
  exact mem_journalFiles.mpr ⟨hmem, by rw [hname]; decide⟩

theorem current_put (hname : file.name = JOURNAL_FILE_NAME) :
    current (directory.put file) = some file := by
  simp [current, Directory.find, Directory.put, hname]

theorem rotatedFiles_put (hname : file.name = JOURNAL_FILE_NAME) :
    rotatedFiles (directory.put file) = rotatedFiles directory := by
  have hcurrent : isCurrent file = true := isCurrent_iff.mpr hname
  simp only [rotatedFiles, journalFiles, Directory.put, List.filter_filter]
  rw [List.filter_cons_of_neg (by simp [hcurrent]), List.filter_filter]
  refine List.filter_congr fun other _ => ?_
  rw [hname, Bool.eq_iff_iff]
  simp only [isCurrent, Bool.and_eq_true, Bool.not_eq_true', beq_eq_false_iff_ne, ne_eq,
    decide_eq_true_eq]
  tauto

theorem current_moved (hname : file.name ≠ JOURNAL_FILE_NAME) :
    current ((directory.rm JOURNAL_FILE_NAME).put file) = none := by
  simp only [current, Directory.find, Directory.put, Directory.rm, List.find?_eq_none]
  intro other hother
  rcases List.mem_cons.mp hother with rfl | hother
  · simpa using hname
  · simpa using (List.mem_filter.mp (List.mem_filter.mp hother).1).2

-- -----
-- What is kept
-- -----

variable {o : AnalysisJournalOptions} {localeCompare : Str → Str → Ordering}

/-- What holds of the directory after an append. -/
structure Kept (o : AnalysisJournalOptions) (start directory : Directory) : Prop where
  current : Within (currentSize directory) (normalizeOptions o).maxFileBytes
  total : Within (totalSize (journalFiles directory)) (normalizeOptions o).maxTotalBytes
  rotated : Within (rotatedFiles directory).length
    (maxNumber (.finite 0) (lessOne (normalizeOptions o).maxFiles))
  lined : AllLined start directory

theorem totalSize_sublist {files files' : List JournalFile} (h : files'.Sublist files) :
    totalSize files' ≤ totalSize files := (h.map JournalFile.size).sum_le_sum (fun _ _ => Nat.zero_le _)

theorem Kept.pruned (h : Kept o start directory) (hpruned : Pruned directory directory') :
    Kept o start directory' where
  current := by rw [hpruned.currentSize_eq]; exact h.current
  total := h.total.mono (by exact_mod_cast totalSize_sublist (hpruned.files.filter _))
  rotated := h.rotated.mono (by exact_mod_cast hpruned.rotatedFiles.length_le)
  lined := h.lined.pruned hpruned

theorem kept_prune {now : Rat} (hlined : AllLined start directory)
    (hcurrent : Within (currentSize directory) (normalizeOptions o).maxFileBytes) :
    Kept o start (prune localeCompare (normalizeOptions o) now directory) := by
  obtain ⟨hpruned, hrotated, htotal⟩ := prune_pruned localeCompare directory
    (normalizeOptions o) now
  have hsame := hpruned.currentSize_eq
  refine ⟨by rw [hsame]; exact hcurrent, ?_, hrotated, hlined.pruned hpruned⟩
  rcases htotal with htotal | hnone
  · exact htotal
  · rw [totalSize_journalFiles, hnone, hsame]
    exact within_maxTotalBytes o hcurrent

/-- The current file may be put anew when what it holds is within the bounds. -/
theorem Kept.put (h : Kept o start directory) (hname : file.name = JOURNAL_FILE_NAME)
    (hcurrent : Within file.size (normalizeOptions o).maxFileBytes)
    (htotal : Within (file.size + totalSize (rotatedFiles directory) : Nat)
      (normalizeOptions o).maxTotalBytes)
    (hlined : Lined start file.content) : Kept o start (directory.put file) where
  current := by rw [currentSize, current_put hname]; exact hcurrent
  total := by
    rw [totalSize_journalFiles, rotatedFiles_put hname, currentSize, current_put hname]
    exact htotal
  rotated := by rw [rotatedFiles_put hname]; exact h.rotated
  lined := h.lined.put hlined

structure Bounded (options : NormalizedJournalOptions) (start directory : Directory) : Prop where
  current : Within (currentSize directory) options.maxFileBytes
  total : Within (totalSize (journalFiles directory)) options.maxTotalBytes
  files : Within (journalFiles directory).length options.maxFiles
  lined : ∀ file ∈ journalFiles directory, Lined start file.content

theorem Kept.bounded (h : Kept o start directory) : Bounded (normalizeOptions o) start directory where
  current := h.current
  total := h.total
  files := (within_files (one_within_maxFiles o) h.rotated).mono
    (by exact_mod_cast length_journalFiles directory)
  lined := h.lined

-- -----
-- Steps
-- -----

namespace AnalysisJournal

variable {clock : Nat → Tick} {journal : AnalysisJournal}

/-- What an outcome satisfies, and what something that threw left. -/
def Ends (outcome : Outcome) (P thrown : AnalysisJournal → Prop) : Prop :=
  match outcome with
  | .ok journal => P journal
  | .error (.thrown journal) => thrown journal
  | .error .exhausted => False

section
variable {outcome : Outcome} {next : AnalysisJournal → Outcome}
  {P Q thrown thrown' : AnalysisJournal → Prop}

theorem Ends.bind (h : Ends outcome P thrown) (hnext : ∀ journal, P journal → Ends (next journal) Q thrown')
    (hthrown : ∀ journal, thrown journal → thrown' journal) : Ends (outcome >>= next) Q thrown' := by
  match outcome, h with
  | .ok journal, h => exact hnext journal h
  | .error (.thrown journal), h => exact hthrown journal h

theorem Ends.mono (h : Ends outcome P thrown) (hP : ∀ journal, P journal → Q journal)
    (hthrown : ∀ journal, thrown journal → thrown' journal) : Ends outcome Q thrown' := by
  match outcome, h with
  | .ok journal, h => exact hP journal h
  | .error (.thrown journal), h => exact hthrown journal h

end

/-- An open journal has counted what is in its current file. -/
def Linked (journal : AnalysisJournal) : Prop :=
  journal.handle = true →
    ∃ file, current journal.directory = some file ∧ file.size = journal.currentBytes

structure Inv (o : AnalysisJournalOptions) (start : Directory) (journal : AnalysisJournal) :
    Prop where
  options : journal.options = normalizeOptions o
  kept : Kept o start journal.directory
  linked : journal.Linked

theorem currentSize_eq (hlinked : journal.Linked) (hhandle : journal.handle = true) :
    currentSize journal.directory = journal.currentBytes := by
  obtain ⟨file, hfile, hsize⟩ := hlinked hhandle
  rw [currentSize, hfile]
  exact hsize

/-- What `openCurrent` does to a journal. -/
structure Opened (journal next : AnalysisJournal) : Prop where
  options : next.options = journal.options
  handle : next.handle = true
  linked : next.Linked
  directory : next.directory = journal.directory ∨ current journal.directory = none ∧
    ∃ mtimeMs, next.directory = journal.directory.put ⟨JOURNAL_FILE_NAME, [], mtimeMs⟩

theorem openCurrent_ends (journal : AnalysisJournal) :
    Ends (openCurrent clock journal) (Opened journal) (· = journal) := by
  unfold openCurrent
  split
  case isTrue => rfl
  case isFalse =>
    split
    case h_1 file hfile => exact ⟨rfl, rfl, fun _ => ⟨file, hfile, rfl⟩, .inl rfl⟩
    case h_2 hnone =>
      exact ⟨rfl, rfl, fun _ => ⟨_, current_put rfl, rfl⟩, .inr ⟨hnone, _, rfl⟩⟩

section
variable {next : AnalysisJournal} (h : Opened journal next)
include h

theorem Opened.currentSize_eq : currentSize next.directory = currentSize journal.directory := by
  rcases h.directory with hsame | ⟨hnone, mtimeMs, hput⟩
  · rw [hsame]
  · rw [hput, currentSize, currentSize, current_put rfl, hnone]
    rfl

theorem Opened.lined (hlined : AllLined start journal.directory) :
    AllLined start next.directory := by
  rcases h.directory with hsame | ⟨hnone, mtimeMs, hput⟩
  · rwa [hsame]
  · rw [hput]
    exact hlined.put ⟨[], [], rfl, .inl rfl, nofun⟩

theorem Opened.kept (hkept : Kept o start journal.directory) : Kept o start next.directory := by
  rcases h.directory with hsame | ⟨hnone, mtimeMs, hput⟩
  · rwa [hsame]
  · rw [hput]
    refine hkept.put rfl ?_ ?_ ⟨[], [], rfl, .inl rfl, nofun⟩
    · exact_mod_cast zero_within_maxFileBytes o
    · have htotal := hkept.total
      rw [totalSize_journalFiles, currentSize, hnone] at htotal
      exact htotal

end

theorem rotatedName_ne (tick : Tick) : rotatedName tick ≠ JOURNAL_FILE_NAME := by
  intro h
  have hjournal : lit "journal-" = 106 :: lit "ournal-" := by decide
  have hcurrent : JOURNAL_FILE_NAME = 99 :: lit "urrent.ndjson" := by decide
  rw [rotatedName, hjournal, hcurrent] at h
  exact absurd (List.cons.inj h).1 (by decide)

theorem moveCurrent_ends (journal : AnalysisJournal) (hlined : AllLined start journal.directory) :
    Ends (moveCurrent clock journal)
      (fun next => next.options = journal.options ∧ next.handle = journal.handle ∧
        AllLined start next.directory ∧ currentSize next.directory = 0)
      (fun next => next.options = journal.options ∧ next.handle = journal.handle ∧
        next.directory = journal.directory) := by
  unfold moveCurrent
  split
  case h_1 file hfile =>
    have hcurrent : current journal.directory = some file := hfile
    split
    case isTrue =>
      dsimp only
      split
      case isTrue => exact ⟨rfl, rfl, rfl⟩
      case isFalse =>
        refine ⟨rfl, rfl, hlined.rm.put (hlined file (mem_current hcurrent)), ?_⟩
        rw [currentSize, current_moved (rotatedName_ne _)]
        rfl
    case isFalse hempty =>
      refine ⟨rfl, rfl, hlined, ?_⟩
      rw [currentSize, hcurrent]
      exact Nat.eq_zero_of_not_pos hempty
  case h_2 hnone =>
    have hcurrent : current journal.directory = none := hnone
    exact ⟨rfl, rfl, hlined, by rw [currentSize, hcurrent]; rfl⟩

/-- What rotating does once the current file has been moved away. -/
theorem reopened_ends {moved : AnalysisJournal} (hoptions : moved.options = normalizeOptions o)
    (hclosed : moved.handle = false) (hlined : AllLined start moved.directory)
    (hempty : currentSize moved.directory = 0) :
    Ends (do
        let opened ← openCurrent clock (pruneNow localeCompare clock moved)
        return { opened with currentBytes := 0, eventsSinceFlush := 0 })
      (fun next => Inv o start next ∧ next.handle = true ∧ next.currentBytes = 0) (Inv o start) := by
  have hzero : Within (currentSize moved.directory) (normalizeOptions o).maxFileBytes := by
    rw [hempty]
    exact_mod_cast zero_within_maxFileBytes o
  have hkept : Kept o start (pruneNow localeCompare clock moved).directory := by
    rw [pruneNow, hoptions]
    exact kept_prune hlined hzero
  have hsize : currentSize (pruneNow localeCompare clock moved).directory = 0 := by
    have hpruned := (prune_pruned localeCompare moved.directory moved.options
      (clock moved.ticks).now).1
    rw [pruneNow, hpruned.currentSize_eq, hempty]
  refine (openCurrent_ends _).bind (fun opened hopened => ?_) fun next hnext => ?_
  · refine ⟨⟨hopened.options.trans hoptions, hopened.kept hkept, fun _ => ?_⟩, hopened.handle, rfl⟩
    obtain ⟨file, hfile, -⟩ := hopened.linked hopened.handle
    refine ⟨file, hfile, ?_⟩
    have hcurrentSize := hopened.currentSize_eq.trans hsize
    rw [currentSize, hfile] at hcurrentSize
    exact hcurrentSize
  · subst hnext
    exact ⟨hoptions, hkept, fun hhandle => absurd hhandle (by simp [pruneNow, hclosed])⟩

/-- What threw left the journal closed. -/
theorem rotate_ends (hoptions : journal.options = normalizeOptions o)
    (hlined : AllLined start journal.directory) :
    Ends (rotate localeCompare clock journal)
      (fun next => Inv o start next ∧ next.handle = true ∧ next.currentBytes = 0)
      (fun next => Kept o start journal.directory → Inv o start next) := by
  refine (moveCurrent_ends { journal with handle := false } hlined).bind (fun moved hnext => ?_) fun next hnext => ?_
  case refine_1 =>
    exact (reopened_ends (hnext.1.trans hoptions) hnext.2.1 hnext.2.2.1 hnext.2.2.2).mono
      (fun _ => id) fun _ hinv _ => hinv
  case refine_2 =>
    obtain ⟨hnext, hclosed, hsame⟩ := hnext
    exact fun hkept => ⟨hnext.trans hoptions, hsame ▸ hkept,
      fun hhandle => absurd hhandle (by simp [hclosed])⟩

/-- What makes room for so many bytes, and how often it has to rotate for that. -/
theorem makeTotalCapacity_ends {fuel incoming : Nat} (hinv : Inv o start journal)
    (hhandle : journal.handle = true)
    (hincoming : Within incoming (normalizeOptions o).maxTotalBytes)
    (hfuel : (if journal.currentBytes = 0 then 1 else 2) ≤ fuel) :
    Ends (makeTotalCapacity localeCompare clock fuel incoming journal)
      (fun next => Inv o start next ∧ next.handle = true ∧
        (next.currentBytes = journal.currentBytes ∨ next.currentBytes = 0) ∧
        Within (totalSize (journalFiles next.directory) + incoming : Nat)
          (normalizeOptions o).maxTotalBytes)
      (fun next => Inv o start next) := by
  induction fuel generalizing journal with
  | zero => split at hfuel <;> omega
  | succ fuel ih =>
    have hroom := makeRoom_pruned journal.options.maxTotalBytes incoming
      (rotated_listed localeCompare journal.directory)
      (totalSize_listed localeCompare journal.directory)
    unfold makeTotalCapacity
    dsimp only
    generalize makeRoom journal.options.maxTotalBytes incoming
      (listJournalFiles localeCompare journal.directory)
      (totalSize (listJournalFiles localeCompare journal.directory)) journal.directory = room at hroom ⊢
    obtain ⟨total, directory⟩ := room
    obtain ⟨hpruned, htotal, hfits⟩ := hroom
    have hoptions := hinv.options
    have hkept := hinv.kept.pruned hpruned
    have hlinked : Linked { journal with directory } := fun hopen => by
      obtain ⟨file, hfile, hsize⟩ := hinv.linked hopen
      exact ⟨file, hpruned.current.trans hfile, hsize⟩
    dsimp only at htotal hfits ⊢
    rw [htotal] at hfits ⊢
    have hinv' : Inv o start { journal with directory } := ⟨hoptions, hkept, hlinked⟩
    split
    case isTrue hexceeds =>
      simp only [Bool.and_eq_true, decide_eq_true_eq] at hexceeds
      rw [if_neg (by omega)] at hfuel
      refine (rotate_ends hinv'.options hinv'.kept.lined).bind (fun rotated hrotated => ?_)
        fun next hnext => hnext hinv'.kept
      obtain ⟨hinv'', hhandle', hzero⟩ := hrotated
      refine (ih hinv'' hhandle' (by rw [if_pos hzero]; omega)).mono (fun next hnext => ?_)
        fun next hnext => hnext
      refine ⟨hnext.1, hnext.2.1, .inr ?_, hnext.2.2.2⟩
      rcases hnext.2.2.1 with hbytes | hbytes
      · exact hbytes.trans hzero
      · exact hbytes
    case isFalse hfull =>
      refine ⟨hinv', hhandle, .inl rfl, ?_⟩
      rw [hoptions] at hfits hfull
      rcases hfits with hfits | hnone
      · exact within_of_atMost hfits
      · by_cases hzero : journal.currentBytes = 0
        · have hsize := currentSize_eq hlinked hhandle
          rw [totalSize_journalFiles, hnone, hsize]
          simpa [hzero, totalSize] using hincoming
        · simpa [Nat.pos_of_ne_zero hzero] using hfull

theorem Inv.write {line : Bytes} {terminal : Bool} (hinv : Inv o start journal)
    (hhandle : journal.handle = true) (hline : IsEventLine line)
    (hcurrent : Within (journal.currentBytes + line.length : Nat)
      (normalizeOptions o).maxFileBytes)
    (htotal : Within (totalSize (journalFiles journal.directory) + line.length : Nat)
      (normalizeOptions o).maxTotalBytes) : Inv o start (journal.write clock line terminal) := by
  obtain ⟨file, hfile, hsize⟩ := hinv.linked hhandle
  have hname := (Directory.find_some hfile).2
  let written : JournalFile :=
    { file with content := file.content ++ line, mtimeMs := (clock journal.ticks).mtimeMs }
  have hdirectory : (journal.write clock line terminal).directory = journal.directory.put written := by
    have hfind : journal.directory.find JOURNAL_FILE_NAME = some file := hfile
    simp only [AnalysisJournal.write, hfind]
    rfl
  have hlength : written.size = journal.currentBytes + line.length := by
    rw [← hsize]
    exact List.length_append
  refine ⟨hinv.options, ?_, fun _ => ⟨written, ?_, hlength⟩⟩
  · rw [hdirectory]
    refine hinv.kept.put hname (by rw [hlength]; exact hcurrent) ?_
      ((hinv.kept.lined file (mem_current hfile)).append hline)
    have hbytes := currentSize_eq hinv.linked hhandle
    rw [totalSize_journalFiles, hbytes] at htotal
    rw [hlength, Nat.add_right_comm]
    exact htotal
  · rw [hdirectory]
    exact current_put hname

variable (localeCompare clock) in
theorem appendLine_ends (fuel : Nat) {line : Bytes} (terminal : Bool) (hinv : Inv o start journal)
    (hhandle : journal.handle = true) (hline : IsEventLine line)
    (hlength : Within line.length (normalizeOptions o).maxLineBytes) :
    Ends (appendLine localeCompare clock (fuel + 2) journal line terminal) (Inv o start)
      (Inv o start) := by
  have hfile := within_maxFileBytes o hlength
  have htotal := within_maxTotalBytes o hfile
  unfold appendLine
  have hwrite : ∀ journal, Inv o start journal ∧ journal.handle = true ∧
      Within (journal.currentBytes + line.length : Nat) (normalizeOptions o).maxFileBytes →
      Ends (do
        let journal ← makeTotalCapacity localeCompare clock (fuel + 2) line.length journal
        if journal.disabled || !journal.handle then return journal
        else return journal.write clock line terminal) (Inv o start) (Inv o start) := by
    intro journal ⟨hinv, hhandle, hcurrent⟩
    refine (makeTotalCapacity_ends hinv hhandle htotal (by split <;> omega)).bind
      (fun next hnext => ?_) fun _ hnext => hnext
    obtain ⟨hinv', hhandle', hbytes, hroom⟩ := hnext
    split
    case isTrue => exact hinv'
    case isFalse =>
      refine hinv'.write hhandle' hline ?_ hroom
      rcases hbytes with hbytes | hbytes
      · rw [hbytes]
        exact hcurrent
      · rw [hbytes, Nat.zero_add]
        exact hfile
  dsimp only
  split
  case isTrue =>
    refine (rotate_ends hinv.options hinv.kept.lined).bind (fun next hnext => ?_)
      fun next hnext => hnext hinv.kept
    exact hwrite next ⟨hnext.1, hnext.2.1, by rw [hnext.2.2, Nat.zero_add]; exact hfile⟩
  case isFalse hfits =>
    exact hwrite journal ⟨hinv, hhandle, by rw [← hinv.options]; simpa using hfits⟩

theorem Inv.disable (hinv : Inv o start journal) : Inv o start journal.disable := by
  unfold AnalysisJournal.disable
  split
  case isTrue => exact hinv
  case isFalse => exact ⟨hinv.options, hinv.kept, nofun⟩

variable (localeCompare clock) in
/-- Every append ends, and what holds before holds after it. -/
theorem append_ends (hinv : Inv o start journal) (fuel : Nat) (event : AnalysisDiagnosticEvent) :
    ∃ next, append localeCompare clock (fuel + 2) journal event = some next ∧
      Inv o start next := by
  unfold append
  split
  case isTrue => exact ⟨journal, rfl, hinv⟩
  case isFalse hopen =>
    simp only [Bool.or_eq_true, Bool.not_eq_true', not_or, Bool.not_eq_false] at hopen
    dsimp only
    split
    case isTrue => exact ⟨journal, rfl, hinv⟩
    case isFalse hline =>
      obtain ⟨hevent, hlength⟩ := encodeEvent_line event hline
      rw [hinv.options] at hevent hlength ⊢
      have hends := appendLine_ends localeCompare clock fuel event.terminal hinv hopen.2 hevent hlength
      match appendLine localeCompare clock (fuel + 2) journal _ event.terminal, hends with
      | .ok next, hends => exact ⟨next, rfl, hends⟩
      | .error (.thrown next), hends => exact ⟨next.disable, rfl, hends.disable⟩

variable (localeCompare clock) in
theorem appendAll_ends (hinv : Inv o start journal) (fuel : Nat)
    (events : List AnalysisDiagnosticEvent) :
    ∃ next, appendAll localeCompare clock (fuel + 2) journal events = some next ∧
      Inv o start next := by
  induction events generalizing journal with
  | nil => exact ⟨journal, rfl, hinv⟩
  | cons event events ih =>
    obtain ⟨next, hnext, hinv'⟩ := append_ends localeCompare clock hinv fuel event
    obtain ⟨last, hlast, hinv''⟩ := ih hinv'
    exact ⟨last, by rw [appendAll, hnext]; exact hlast, hinv''⟩

theorem disable_disabled (journal : AnalysisJournal) : journal.disable.disabled = true := by
  unfold disable
  split
  case isTrue h => exact (Bool.and_eq_true _ _ ▸ h : _ ∧ _).1
  case isFalse => rfl

-- -----
-- Opening
-- -----

theorem allLined_refl (start : Directory) : AllLined start start := fun file hfile =>
  ⟨file.content, [], by simp, .inr ⟨file, hfile, rfl⟩, nofun⟩

variable (localeCompare clock) in
theorem opening_ends (journal : AnalysisJournal) (hoptions : journal.options = normalizeOptions o) :
    Ends (do
      let opened ← openCurrent clock (pruneNow localeCompare clock journal)
      if reaches opened.currentBytes opened.options.maxFileBytes then
        rotate localeCompare clock opened
      else return opened) (Inv o journal.directory) fun _ => True := by
  have hpruned := (prune_pruned localeCompare journal.directory journal.options
    (clock journal.ticks).now).1
  refine (openCurrent_ends _).bind (fun opened hopened => ?_) fun _ _ => trivial
  have hoptions' : opened.options = normalizeOptions o := hopened.options.trans hoptions
  split
  case isTrue =>
    exact (rotate_ends hoptions' (hopened.lined ((allLined_refl _).pruned hpruned))).mono
      (fun _ hnext => hnext.1) fun _ _ => trivial
  case isFalse hfits =>
    have hwithin := within_of_not_reaches (by simpa using hfits)
    rw [hoptions', ← currentSize_eq hopened.linked hopened.handle, hopened.currentSize_eq] at hwithin
    have hcurrent := (hpruned.currentSize_eq ▸ hwithin :
      Within (currentSize journal.directory) (normalizeOptions o).maxFileBytes)
    have hkept : Kept o journal.directory (pruneNow localeCompare clock journal).directory := by
      rw [pruneNow, hoptions]
      exact kept_prune (allLined_refl _) hcurrent
    exact ⟨hoptions', hopened.kept hkept, hopened.linked⟩

theorem openJournal_inv (hopen : (openJournal localeCompare clock o start).disabled = false) :
    Inv o start (openJournal localeCompare clock o start) := by
  unfold openJournal at hopen ⊢
  dsimp only at hopen ⊢
  have hends := opening_ends localeCompare clock (o := o)
    ⟨normalizeOptions o, false, 0, 0, false, false, start, 0⟩ rfl
  split at hopen
  case h_1 next hnext =>
    rw [hnext] at hends
    exact hends
  case h_2 next hnext => exact absurd hopen (by simp [disable_disabled])
  case h_3 hnext =>
    rw [hnext] at hends
    exact hends.elim

-- -----
-- After every append
-- -----

/-- Two attempts at making room are enough, whatever the sizes of the events. -/
theorem journal_bounded (localeCompare : Str → Str → Ordering) (clock : Nat → Tick)
    (o : AnalysisJournalOptions) (start : Directory) (events : List AnalysisDiagnosticEvent)
    (fuel : Nat) (hopen : (openJournal localeCompare clock o start).disabled = false) :
    ∃ journal, appendAll localeCompare clock (fuel + 2) (openJournal localeCompare clock o start)
        events = some journal ∧
      Bounded (normalizeOptions o) start journal.directory := by
  obtain ⟨journal, hrun, hinv⟩ := appendAll_ends localeCompare clock (openJournal_inv hopen)
    fuel events
  exact ⟨journal, hrun, hinv.kept.bounded⟩

/-- Bounds as small as they get. -/
def smallest : AnalysisJournalOptions :=
  ⟨some (.finite 0), some (.finite 0), some (.finite 0), some (.finite 0), none, none⟩

def sameTick : Nat → Tick := fun _ => ⟨1000, lit "0123456789", 1000⟩

def runStarted : AnalysisDiagnosticEvent := ⟨lit "run", .finite 1000, .runStarted, [], false⟩

/-- A directory of one current file, and something else that has a name. -/
def startOf (content : Bytes) (occupied : List Str) : Directory :=
  ⟨[⟨JOURNAL_FILE_NAME, content, 0⟩], occupied, by simp⟩

theorem journal_bounded_torn :
    ∃ journal, appendAll (fun _ _ => .eq) sameTick 2
        (openJournal (fun _ _ => .eq) sameTick smallest (startOf [120] []))
        [runStarted, runStarted, runStarted] = some journal ∧
      Bounded (normalizeOptions smallest) (startOf [120] []) journal.directory :=
  journal_bounded (fun _ _ => .eq) sameTick smallest (startOf [120] [])
    [runStarted, runStarted, runStarted] 0 (by decide +kernel)

/-- A torn line of the start stays, and so does a file that could not be moved. -/
theorem torn_start_kept :
    (∃ journal, appendAll (fun _ _ => .eq) sameTick 2
        (openJournal (fun _ _ => .eq) sameTick smallest (startOf [120] [])) [runStarted] =
          some journal ∧
      ∃ file ∈ journalFiles journal.directory,
        ¬ ∃ lines : List Bytes, file.content = lines.flatten ∧ ∀ line ∈ lines, IsEventLine line) ∧
    (∃ journal, appendAll (fun _ _ => .eq) sameTick 2
        (openJournal (fun _ _ => .eq) sameTick smallest
          (startOf (List.replicate 257 120) [rotatedName (sameTick 1)])) [runStarted] =
          some journal ∧
      ¬ Within (currentSize journal.directory) (normalizeOptions smallest).maxFileBytes) := by
  constructor
  · have hrun : (appendAll (fun _ _ => .eq) sameTick 2
        (openJournal (fun _ _ => .eq) sameTick smallest (startOf [120] [])) [runStarted]).map
          (fun journal => (current journal.directory).map (·.content.head?)) =
        some (some (some 120)) := by decide +kernel
    obtain ⟨journal, hjournal, hcurrent⟩ := Option.map_eq_some_iff.mp hrun
    obtain ⟨file, hfile, hfirst⟩ := Option.map_eq_some_iff.mp hcurrent
    refine ⟨journal, hjournal, file, mem_current hfile, ?_⟩
    rintro ⟨lines, hcontent, hlines⟩
    rw [hcontent] at hfirst
    cases lines with
    | nil => cases hfirst
    | cons line lines =>
      obtain ⟨event, hevent⟩ := (hlines line (List.mem_cons_self ..)).event
      rw [List.flatten_cons, List.head?_append, hevent, encodeLine_head, Option.some_or] at hfirst
      exact absurd hfirst (by decide)
  · have hrun : (appendAll (fun _ _ => .eq) sameTick 2
        (openJournal (fun _ _ => .eq) sameTick smallest
          (startOf (List.replicate 257 120) [rotatedName (sameTick 1)])) [runStarted]).map
          (fun journal => exceeds (currentSize journal.directory)
            (normalizeOptions smallest).maxFileBytes) = some true := by decide +kernel
    obtain ⟨journal, hjournal, hlarge⟩ := Option.map_eq_some_iff.mp hrun
    exact ⟨journal, hjournal, by simp [Within, hlarge]⟩

end AnalysisJournal

end PiEnv.Analyze
