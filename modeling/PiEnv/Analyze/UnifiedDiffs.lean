import PiEnv.Analyze.Scopes
import PiEnv.Lib.GitText
import PiEnv.Lib.JsonNumber
import PiEnv.Lib.Pattern

/-!
# Hunks of a diff

What git prints of changed files without context lines, and what is read of it. The
reader knows a line by how it begins: a name that git quotes or ends by a tab is not
the name of the file, an added line may look like the header of a file, and the hunks
of a deleted file, whose header is none, go to the file before it.
-/

namespace PiEnv.Analyze

open Js

namespace UnifiedDiffs

-- -----
-- Reading
-- -----

def plusHeader : Str := lit "+++ b/"

/-- `/^@@ -\d+(?:,\d+)? \+(\d+)(?:,(\d+))? @@/` -/
def hunkPattern : Pattern :=
  .seq (.literal (lit "@@ -")) <| .seq (.some1 isDigit) <|
    .seq (.optional (.seq (.literal [44]) (.some1 isDigit))) <| .seq (.literal (lit " +")) <|
      .seq (.group 1 (.some1 isDigit)) <|
        .seq (.optional (.seq (.literal [44]) (.group 2 (.some1 isDigit)))) <| .literal (lit " @@")

/-- The map of hunks and the file that is read. -/
structure State where
  output : JsMap Str (List Hunk)
  file : Option Str

def State.enter (state : State) (file : Str) : State where
  output := if state.output.has file then state.output else state.output.set file []
  file := some file

def State.push (state : State) (hunk : Hunk) : State :=
  match state.file with
  | none => state
  | some file =>
    { state with output := state.output.set file ((state.output.get file).getD [] ++ [hunk]) }

def hunkOf (found : Match) : Hunk :=
  let start := digitsValue ((found.group 1).getD [])
  let count := match found.group 2 with
    | none => 1
    | some digits => digitsValue digits
  ⟨start, max start (start + count - 1)⟩

def readLine (state : State) (line : Str) : State :=
  let state := if plusHeader.isPrefixOf line then state.enter (line.drop plusHeader.length) else state
  match hunkPattern.matchAt none line with
  | some found => state.push (hunkOf found)
  | none => state

def parseUnifiedHunks (text : Str) : JsMap Str (List Hunk) :=
  ((split [LF] text).foldl readLine ⟨.empty, none⟩).output

-- -----
-- What git prints
-- -----

/-- Lines that replace others. The line numbers are those of the first of them, or of
the place where there are none; a part may end without a line feed. -/
structure Change where
  oldFirst : Nat
  removed : List Str
  removedOpen : Bool
  newFirst : Nat
  added : List Str
  addedOpen : Bool
  /-- The line of the function around it. -/
  heading : Str
  removed_line : ∀ line ∈ removed, LF ∉ line
  added_line : ∀ line ∈ added, LF ∉ line
  heading_line : LF ∉ heading

/-- The start of lines that are none is the line before them. -/
def startOf (first count : Nat) : Nat := if count = 0 then first - 1 else first

def position (first count : Nat) : Str :=
  decimal (startOf first count) ++ if count = 1 then [] else 44 :: decimal count

def Change.header (change : Change) : Str :=
  lit "@@ -" ++ (position change.oldFirst change.removed.length ++ (lit " +" ++
    (position change.newFirst change.added.length ++ (lit " @@" ++
      if change.heading = [] then [] else space :: change.heading))))

def openLine : Str := lit "\\ No newline at end of file"

def Change.lines (change : Change) : List Str :=
  change.header :: (change.removed.map (45 :: ·) ++ (if change.removedOpen then [openLine] else []) ++
    (change.added.map (43 :: ·) ++ if change.addedOpen then [openLine] else []))

/-- The lines of the new file that the change is about. -/
def Change.range (change : Change) : Hunk :=
  let start := startOf change.newFirst change.added.length
  ⟨start, max start (start + change.added.length - 1)⟩

def extendedWords : List Str :=
  [lit "old mode ", lit "new mode ", lit "deleted file mode ", lit "new file mode ", lit "copy from ",
    lit "copy to ", lit "rename from ", lit "rename to ", lit "similarity index ",
    lit "dissimilarity index ", lit "index ", lit "Binary files "]

/-- A file that was created has no old name, one that was deleted no new one. -/
structure FileChange where
  oldName : Option Str
  newName : Option Str
  extended : List Str
  hunks : List Change
  extended_word : ∀ line ∈ extended, ∃ word ∈ extendedWords, word <+: line
  extended_line : ∀ line ∈ extended, LF ∉ line

variable (quotePath : Bool)

def label (side : Str) : Option Str → Str
  | some name => Git.quote quotePath (side ++ name)
  | none => lit "/dev/null"

/-- A name with a blank ends with a tab. -/
def nameLine (mark : Str) (label : Str) : Str := mark ++ label ++ if space ∈ label then [9] else []

namespace FileChange

variable (file : FileChange)

def diffLine : Str :=
  lit "diff --git " ++ label quotePath (lit "a/") (file.oldName.or file.newName) ++ [space] ++
    label quotePath (lit "b/") (file.newName.or file.oldName)

/-- The header of one file and its hunks. -/
def lines : List Str :=
  file.diffLine quotePath :: (file.extended ++
    if file.hunks = [] then []
    else nameLine (lit "--- ") (label quotePath (lit "a/") file.oldName) ::
      nameLine (lit "+++ ") (label quotePath (lit "b/") file.newName) ::
        file.hunks.flatMap (·.lines))

def ranges : List Hunk := file.hunks.map (·.range)

end FileChange

def unifiedDiff (files : List FileChange) : Str :=
  Lines.ended LF (files.flatMap (·.lines quotePath))

-- -----
-- What is promised
-- -----

/-- Each changed file has the lines of its own hunks, and no other path has any. -/
structure Attributed (files : List FileChange) (output : JsMap Str (List Hunk)) : Prop where
  own : ∀ file ∈ files, ∀ name, file.newName = some name → file.hunks ≠ [] →
    output.get name = some file.ranges
  none : ∀ path, (∀ file ∈ files, file.newName = some path → file.hunks = []) → output.get path = none

/-- Git prints the name of the file as it is. -/
def FileChange.Legible (file : FileChange) : Prop :=
  ∀ name, file.newName = some name → file.hunks ≠ [] →
    Git.quote quotePath (lit "b/" ++ name) = lit "b/" ++ name ∧ space ∉ name

/-- No deleted file has hunks behind those of another file. -/
def DeletedFirst (files : List FileChange) : Prop :=
  files.Pairwise fun before file => before.newName.isSome = true → before.hunks ≠ [] →
    file.newName = none → file.hunks = []

/-- No added line looks like the header of a file. -/
def FileChange.Quiet (file : FileChange) : Prop :=
  ∀ change ∈ file.hunks, ∀ line ∈ change.added, ¬ lit "++ b/" <+: line

-- -----
-- Lines
-- -----

variable {quotePath} {state : State} {file : FileChange} {change : Change} {files : List FileChange}

theorem matchAt_none {line : Str} (h : line.head? ≠ some 64) : hunkPattern.matchAt none line = none :=
  Pattern.run_literal_none h

theorem readLine_other {line : Str} (hheader : ¬ plusHeader <+: line) (hhunk : line.head? ≠ some 64) :
    readLine state line = state := by
  rw [readLine, if_neg fun h => hheader (List.isPrefixOf_iff_prefix.mp h), matchAt_none hhunk]

theorem readLine_begins {line : Str} {u : UInt16} (h : line.head? = some u) (hplus : u ≠ 43)
    (hat : u ≠ 64) : readLine state line = state := by
  refine readLine_other ?_ fun h' => hat (Option.some.inj (h.symm.trans h'))
  rintro ⟨rest, rfl⟩
  exact hplus (Option.some.inj h).symm

theorem readLine_plusHeader (file : Str) : readLine state (plusHeader ++ file) = state.enter file := by
  have hmatch : hunkPattern.matchAt none (plusHeader ++ file) = none := by
    refine matchAt_none fun h => ?_
    exact absurd (Option.some.inj h) (by decide)
  have hstart : plusHeader.isPrefixOf (plusHeader ++ file) = true :=
    List.isPrefixOf_iff_prefix.mpr (List.prefix_append _ _)
  rw [readLine, if_pos hstart, hmatch, List.drop_left]

theorem isDigit_of_decimal (n : Nat) : ∀ u ∈ decimal n, isDigit u = true := fun _ => isDigit_decimal

open Pattern in
/-- A position is matched by digits and what may follow them. -/
theorem yields_position {β : Type} {k : Cursor → Option β} {rest : Str} {groups : List (Nat × Str)}
    {result : β} (first count : Nat) (hrest : rest.head? = some space)
    (h : Yields k rest groups result) :
    Yields (fun cursor => (Pattern.some1 isDigit).run cursor fun cursor =>
      (Pattern.optional (.seq (.literal [44]) (.some1 isDigit))).run cursor k)
      (position first count ++ rest) groups result := by
  have hdigit : ∀ u ∈ rest.head?, isDigit u = false := by
    rw [hrest]
    rintro _ ⟨⟩
    rfl
  unfold position
  split
  · rw [List.append_nil]
    refine Yields.some1 (decimal_ne_nil _) (isDigit_of_decimal _) hdigit ?_
    refine Yields.leftOut ?_ h
    rw [hrest]
    decide
  · rw [List.append_assoc]
    refine Yields.some1 (decimal_ne_nil _) (isDigit_of_decimal _) (by rintro _ ⟨⟩; rfl) ?_
    refine Yields.optional (Yields.seq ?_)
    exact Yields.literal [44] (Yields.some1 (decimal_ne_nil _) (isDigit_of_decimal _) hdigit h)

/-- What the groups of a match give for a position. -/
def positionGroups (first count : Nat) : List (Nat × Str) :=
  (if count = 1 then [] else [(2, decimal count)]) ++ [(1, decimal (startOf first count))]

open Pattern in
theorem yields_captured {β : Type} {k : Cursor → Option β} {rest : Str} {result : β}
    (first count : Nat) (hrest : rest.head? = some space)
    (h : Yields k rest (positionGroups first count) result) :
    Yields (fun cursor => (Pattern.group 1 (.some1 isDigit)).run cursor fun cursor =>
      (Pattern.optional (.seq (.literal [44]) (.group 2 (.some1 isDigit)))).run cursor k)
      (position first count ++ rest) [] result := by
  have hdigit : ∀ u ∈ rest.head?, isDigit u = false := by
    rw [hrest]
    rintro _ ⟨⟩
    rfl
  unfold positionGroups at h
  unfold position
  split at h
  · rename_i hone
    rw [if_pos hone, List.append_nil]
    refine Yields.group (fun k => Yields.some1 (decimal_ne_nil _) (isDigit_of_decimal _) hdigit) ?_
    refine Yields.leftOut ?_ h
    rw [hrest]
    decide
  · rename_i hone
    rw [if_neg hone, List.append_assoc]
    refine Yields.group (fun k => Yields.some1 (decimal_ne_nil _) (isDigit_of_decimal _)
      (by rintro _ ⟨⟩; rfl)) ?_
    refine Yields.optional (Yields.seq (Yields.literal [44] ?_))
    exact Yields.group (fun k => Yields.some1 (decimal_ne_nil _) (isDigit_of_decimal _) hdigit) h

open Pattern in
theorem matchAt_header (change : Change) :
    ∃ found, hunkPattern.matchAt none change.header = some found ∧
      found.groups = positionGroups change.newFirst change.added.length := by
  let text := if change.heading = [] then [] else space :: change.heading
  let groups := positionGroups change.newFirst change.added.length
  let found : Match := ⟨change.header.take (change.header.length - text.length), groups⟩
  have hlast : Yields (fun stop => some (Match.of change.header stop)) text groups found := fun _ => rfl
  have hsecond := yields_captured change.newFirst change.added.length rfl (Yields.literal (lit " @@") hlast)
  have hfirst := yields_position change.oldFirst change.removed.length rfl
    (Yields.literal (lit " +") hsecond)
  exact ⟨found, Yields.literal (lit "@@ -") hfirst none, rfl⟩

theorem hunkOf_header {found : Match}
    (h : found.groups = positionGroups change.newFirst change.added.length) :
    hunkOf found = change.range := by
  have hstart : (found.group 1).getD [] =
      decimal (startOf change.newFirst change.added.length) := by
    rw [Match.group, h, positionGroups]
    split <;> rfl
  have hcount : (match found.group 2 with | none => 1 | some digits => digitsValue digits) =
      change.added.length := by
    rw [Match.group, h, positionGroups]
    by_cases hone : change.added.length = 1
    · rw [if_pos hone]
      exact hone.symm
    · rw [if_neg hone]
      exact digitsValue_decimal _
  simp only [hunkOf, hstart, hcount, digitsValue_decimal]
  rfl

theorem readLine_header (change : Change) : readLine state change.header = state.push change.range := by
  obtain ⟨found, hfound, hgroups⟩ := matchAt_header change
  have hstart : ¬ plusHeader.isPrefixOf change.header = true := by
    intro h
    obtain ⟨rest, hrest⟩ := List.isPrefixOf_iff_prefix.mp h
    cases congrArg List.head? hrest
  rw [readLine, if_neg hstart, hfound]
  simp only [hunkOf_header hgroups]

-- -----
-- Files
-- -----

theorem foldl_readLine_other {lines : List Str} (h : ∀ line ∈ lines, ∀ state, readLine state line = state) :
    lines.foldl readLine state = state := by
  induction lines with
  | nil => rfl
  | cons line lines ih =>
    rw [List.foldl_cons, h line List.mem_cons_self]
    exact ih fun line hline => h line (List.mem_cons_of_mem _ hline)

theorem readLine_added {line : Str} (h : ¬ lit "++ b/" <+: line) : readLine state (43 :: line) = state := by
  refine readLine_other (fun hheader => h ?_) fun hhead => absurd (Option.some.inj hhead) (by decide)
  exact (List.cons_prefix_cons.mp hheader).2

theorem foldl_change (hquiet : ∀ line ∈ change.added, ¬ lit "++ b/" <+: line) :
    change.lines.foldl readLine state = state.push change.range := by
  rw [Change.lines, List.foldl_cons, readLine_header]
  have hopen (open' : Bool) (line : Str) (hline : line ∈ if open' then [openLine] else []) (state : State) :
      readLine state line = state := by
    cases open' with
    | false => cases hline
    | true =>
      rw [List.mem_singleton.mp hline]
      exact readLine_begins (u := 92) rfl (by decide) (by decide)
  refine foldl_readLine_other fun line hline state => ?_
  rcases List.mem_append.mp hline with hold | hnew
  · rcases List.mem_append.mp hold with hremoved | hline
    · obtain ⟨removed, -, rfl⟩ := List.mem_map.mp hremoved
      exact readLine_begins (u := 45) rfl (by decide) (by decide)
    · exact hopen _ line hline state
  · rcases List.mem_append.mp hnew with hadded | hline
    · obtain ⟨added, hmem, rfl⟩ := List.mem_map.mp hadded
      exact readLine_added (hquiet added hmem)
    · exact hopen _ line hline state

theorem foldl_changes {changes : List Change}
    (hquiet : ∀ change ∈ changes, ∀ line ∈ change.added, ¬ lit "++ b/" <+: line) :
    (changes.flatMap (·.lines)).foldl readLine state = (changes.map (·.range)).foldl State.push state := by
  induction changes generalizing state with
  | nil => rfl
  | cons change changes ih =>
    rw [List.flatMap_cons, List.foldl_append, foldl_change (hquiet change List.mem_cons_self),
      ih fun change hchange => hquiet change (List.mem_cons_of_mem _ hchange)]
    rfl

/-- The file that the line of the new name is taken for. -/
def FileChange.taken (quotePath : Bool) (file : FileChange) : Option Str :=
  file.newName.bind fun name =>
    if Git.quote quotePath (lit "b/" ++ name) = lit "b/" ++ name then
      some (name ++ if space ∈ name then [9] else [])
    else none

def FileChange.read (quotePath : Bool) (file : FileChange) (state : State) : State :=
  if file.hunks = [] then state
  else file.ranges.foldl State.push (match file.taken quotePath with
    | some name => state.enter name
    | none => state)

/-- A label that does not begin as the new names do. -/
theorem readLine_label {u : UInt16} {rest : Str} (h : u ≠ 98) :
    readLine state (nameLine (lit "+++ ") (u :: rest)) = state := by
  refine readLine_other ?_ fun hhead => absurd (Option.some.inj hhead) (by decide)
  intro hheader
  unfold nameLine at hheader
  rw [List.append_assoc] at hheader
  have hlabel : lit "b/" <+: u :: rest ++ if space ∈ u :: rest then [9] else [] :=
    (List.prefix_append_right_inj (lit "+++ ")).mp hheader
  exact h (List.cons_prefix_cons.mp hlabel).1.symm

theorem readLine_newName (file : FileChange) :
    readLine state (nameLine (lit "+++ ") (label quotePath (lit "b/") file.newName)) =
      match file.taken quotePath with
      | some name => state.enter name
      | none => state := by
  unfold FileChange.taken
  cases file.newName with
  | none => exact readLine_label (u := 47) (by decide)
  | some name =>
    rw [Option.bind_some, label]
    by_cases hplain : Git.quote quotePath (lit "b/" ++ name) = lit "b/" ++ name
    · have hspace : space ∈ lit "b/" ++ name ↔ space ∈ name := by
        rw [List.mem_append]
        exact or_iff_right (by decide)
      have hline : nameLine (lit "+++ ") (lit "b/" ++ name) =
          plusHeader ++ (name ++ if space ∈ name then [9] else []) := by
        rw [nameLine, if_congr hspace rfl rfl, List.append_assoc, List.append_assoc]
        rfl
      rw [if_pos hplain, hplain, hline]
      exact readLine_plusHeader _
    · rw [if_neg hplain]
      obtain ⟨rest, hquoted⟩ := (Git.quote_cases (lit "b/" ++ name)).resolve_left hplain
      rw [hquoted]
      exact readLine_label (by decide)

theorem readLine_extended {line : Str} (h : ∃ word ∈ extendedWords, word <+: line) :
    readLine state line = state := by
  obtain ⟨word, hword, rest, rfl⟩ := h
  have hhead : ∃ u, word.head? = some u ∧ u ≠ 43 ∧ u ≠ 64 := by
    simp only [extendedWords, List.mem_cons, List.not_mem_nil, or_false] at hword
    rcases hword with rfl | rfl | rfl | rfl | rfl | rfl | rfl | rfl | rfl | rfl | rfl | rfl <;>
      exact ⟨_, rfl, by decide, by decide⟩
  obtain ⟨u, hu, hplus, hat⟩ := hhead
  refine readLine_begins ?_ hplus hat
  rw [List.head?_append, hu]
  rfl

theorem foldl_file (hquiet : file.Quiet) :
    (file.lines quotePath).foldl readLine state = file.read quotePath state := by
  have hdiff : readLine state (file.diffLine quotePath) = state :=
    readLine_begins (u := 100) rfl (by decide) (by decide)
  have hextended : file.extended.foldl readLine state = state :=
    foldl_readLine_other fun line hline _ => readLine_extended (file.extended_word line hline)
  rw [FileChange.lines, List.foldl_cons, hdiff, List.foldl_append, hextended, FileChange.read]
  split
  · rfl
  · have hold : readLine state (nameLine (lit "--- ") (label quotePath (lit "a/") file.oldName)) =
        state := readLine_begins (u := 45) rfl (by decide) (by decide)
    rw [List.foldl_cons, hold, List.foldl_cons, readLine_newName, foldl_changes hquiet]
    rfl

theorem foldl_files (hquiet : ∀ file ∈ files, file.Quiet) :
    (files.flatMap (·.lines quotePath)).foldl readLine state =
      files.foldl (fun state file => file.read quotePath state) state := by
  induction files generalizing state with
  | nil => rfl
  | cons file files ih =>
    rw [List.flatMap_cons, List.foldl_append, foldl_file (hquiet file List.mem_cons_self),
      ih fun file hfile => hquiet file (List.mem_cons_of_mem _ hfile)]
    rfl

-- -----
-- One line each
-- -----

theorem LF_not_mem_label (side : Str) (name : Option Str) : LF ∉ label quotePath side name := by
  cases name with
  | none =>
    show LF ∉ lit "/dev/null"
    decide
  | some name => exact Git.LF_not_mem_quote _

theorem LF_not_mem_nameLine {mark label : Str} (hmark : LF ∉ mark) (hlabel : LF ∉ label) :
    LF ∉ nameLine mark label := by
  refine List.not_mem_append (List.not_mem_append hmark hlabel) ?_
  split <;> decide

theorem LF_not_mem_position (first count : Nat) : LF ∉ position first count := by
  have hdigits (n : Nat) : LF ∉ decimal n := fun h => by cases isDigit_decimal h
  refine List.not_mem_append (hdigits _) ?_
  split
  · exact List.not_mem_nil
  · intro h
    rcases List.mem_cons.mp h with h | h
    · cases h
    · exact hdigits _ h

theorem LF_not_mem_header (change : Change) : LF ∉ change.header := by
  refine List.not_mem_append (by decide) (List.not_mem_append (LF_not_mem_position _ _)
    (List.not_mem_append (by decide) (List.not_mem_append (LF_not_mem_position _ _)
      (List.not_mem_append (by decide) ?_))))
  split
  · exact List.not_mem_nil
  · intro h
    rcases List.mem_cons.mp h with h | h
    · cases h
    · exact change.heading_line h

theorem LF_not_mem_change {line : Str} (h : line ∈ change.lines) : LF ∉ line := by
  have hopen (open' : Bool) (hline : line ∈ if open' then [openLine] else []) : LF ∉ line := by
    cases open' with
    | false => cases hline
    | true =>
      rw [List.mem_singleton.mp hline]
      decide
  have hmarked (mark : UInt16) (hmark : LF ≠ mark) (lines : List Str) (hall : ∀ line ∈ lines, LF ∉ line)
      (hline : line ∈ lines.map (mark :: ·)) : LF ∉ line := by
    obtain ⟨text, htext, rfl⟩ := List.mem_map.mp hline
    intro h
    rcases List.mem_cons.mp h with h | h
    · exact hmark h
    · exact hall text htext h
  rcases List.mem_cons.mp h with rfl | h
  · exact LF_not_mem_header change
  rcases List.mem_append.mp h with h | h <;> rcases List.mem_append.mp h with h | h
  · exact hmarked 45 (by decide) _ change.removed_line h
  · exact hopen _ h
  · exact hmarked 43 (by decide) _ change.added_line h
  · exact hopen _ h

theorem LF_not_mem_lines {line : Str} (h : line ∈ file.lines quotePath) : LF ∉ line := by
  rcases List.mem_cons.mp h with rfl | h
  · refine List.not_mem_append (List.not_mem_append (List.not_mem_append (by decide) ?_) (by decide)) ?_
    · exact LF_not_mem_label _ _
    · exact LF_not_mem_label _ _
  rcases List.mem_append.mp h with h | h
  · exact file.extended_line line h
  split at h
  · cases h
  rcases List.mem_cons.mp h with rfl | h
  · exact LF_not_mem_nameLine (by decide) (LF_not_mem_label _ _)
  rcases List.mem_cons.mp h with rfl | h
  · exact LF_not_mem_nameLine (by decide) (LF_not_mem_label _ _)
  · obtain ⟨change, -, hline⟩ := List.mem_flatMap.mp h
    exact LF_not_mem_change hline

def readFiles (quotePath : Bool) (files : List FileChange) : State :=
  files.foldl (fun state file => file.read quotePath state) ⟨.empty, none⟩

theorem parse_unifiedDiff (hquiet : ∀ file ∈ files, file.Quiet) :
    parseUnifiedHunks (unifiedDiff quotePath files) = (readFiles quotePath files).output := by
  have hlines (line : Str) (h : line ∈ files.flatMap (·.lines quotePath)) : LF ∉ line := by
    obtain ⟨file, -, hline⟩ := List.mem_flatMap.mp h
    exact LF_not_mem_lines hline
  have hlast (state : State) : readLine state [] = state := readLine_other (by decide) (by decide)
  rw [parseUnifiedHunks, unifiedDiff, Git.split_ended hlines, List.foldl_append, foldl_files hquiet,
    List.foldl_cons, hlast]
  rfl

-- -----
-- What one file does
-- -----

theorem enter_get (state : State) (name path : Str) : (state.enter name).output.get path =
    if path = name then some ((state.output.get name).getD []) else state.output.get path := by
  unfold State.enter
  simp only
  split
  · rename_i hhas
    obtain ⟨hunks, hget⟩ := Option.isSome_iff_exists.mp hhas
    split
    · rename_i hpath
      rw [hpath, hget]
      rfl
    · rfl
  · rename_i hhas
    have hnone : state.output.get name = none := Option.not_isSome_iff_eq_none.mp hhas
    rw [JsMap.get_set, hnone]
    rfl

theorem push_get {name : Str} (hfile : state.file = some name) (hunk : Hunk) (path : Str) :
    (state.push hunk).output.get path =
      if path = name then some ((state.output.get name).getD [] ++ [hunk])
      else state.output.get path := by
  rw [State.push, hfile]
  exact JsMap.get_set

theorem push_file (state : State) (hunk : Hunk) : (state.push hunk).file = state.file := by
  unfold State.push
  split <;> rfl

theorem foldl_push_file (hunks : List Hunk) : (hunks.foldl State.push state).file = state.file := by
  induction hunks generalizing state with
  | nil => rfl
  | cons hunk hunks ih => rw [List.foldl_cons, ih, push_file]

theorem foldl_push_none (hfile : state.file = none) (hunks : List Hunk) :
    hunks.foldl State.push state = state := by
  induction hunks with
  | nil => rfl
  | cons hunk hunks ih =>
    have hsame : state.push hunk = state := by rw [State.push, hfile]
    rw [List.foldl_cons, hsame, ih]

theorem foldl_push_get {name : Str} {old : List Hunk} (hfile : state.file = some name)
    (hget : state.output.get name = some old) (hunks : List Hunk) (path : Str) :
    (hunks.foldl State.push state).output.get path =
      if path = name then some (old ++ hunks) else state.output.get path := by
  induction hunks generalizing state old with
  | nil =>
    rw [List.append_nil, List.foldl_nil]
    split
    · rename_i hpath
      rw [hpath, hget]
    · rfl
  | cons hunk hunks ih =>
    have hone : (state.push hunk).output.get name = some (old ++ [hunk]) := by
      rw [push_get hfile, if_pos rfl, hget]
      rfl
    rw [List.foldl_cons, ih ((push_file state hunk).trans hfile) hone, push_get hfile, List.append_assoc]
    split <;> rfl

section
variable (hhunks : file.hunks ≠ [])
include hhunks

/-- The hunks of a file whose header is taken for a name go to that name. -/
theorem read_taken {name : Str} (htaken : file.taken quotePath = some name) (state : State) :
    (file.read quotePath state).file = some name ∧
      ∀ path, (file.read quotePath state).output.get path =
        if path = name then some ((state.output.get name).getD [] ++ file.ranges)
        else state.output.get path := by
  rw [FileChange.read, if_neg hhunks, htaken]
  refine ⟨foldl_push_file _, fun path => ?_⟩
  have hget : (state.enter name).output.get name = some ((state.output.get name).getD []) := by
    rw [enter_get, if_pos rfl]
  rw [foldl_push_get rfl hget, enter_get]
  split <;> rfl

/-- Other hunks go to the file before. -/
theorem read_untaken {name : Str} {old : List Hunk} (htaken : file.taken quotePath = none)
    (hfile : state.file = some name) (hget : state.output.get name = some old) :
    (file.read quotePath state).file = some name ∧
      ∀ path, (file.read quotePath state).output.get path =
        if path = name then some (old ++ file.ranges) else state.output.get path := by
  rw [FileChange.read, if_neg hhunks, htaken]
  exact ⟨(foldl_push_file _).trans hfile, foldl_push_get hfile hget _⟩

theorem read_nowhere (htaken : file.taken quotePath = none) (hfile : state.file = none) :
    file.read quotePath state = state := by
  rw [FileChange.read, if_neg hhunks, htaken]
  exact foldl_push_none hfile _

end

theorem readFiles_append (files : List FileChange) (file : FileChange) :
    readFiles quotePath (files ++ [file]) = file.read quotePath (readFiles quotePath files) := by
  rw [readFiles, List.foldl_append]
  rfl

/-- The paths with hunks are those that headers are taken for, and the file that is
read is one of them. -/
theorem readFiles_keys (files : List FileChange) :
    (∀ name, (readFiles quotePath files).file = some name →
      ((readFiles quotePath files).output.get name).isSome = true) ∧
    ∀ path, ((readFiles quotePath files).output.get path).isSome = true →
      ∃ file ∈ files, file.hunks ≠ [] ∧ file.taken quotePath = some path := by
  induction files using List.reverseRecOn with
  | nil => exact ⟨nofun, nofun⟩
  | append_singleton files file ih =>
    obtain ⟨hcurrent, hkeys⟩ := ih
    have hbefore (path : Str) (h : ((readFiles quotePath files).output.get path).isSome = true) :
        ∃ file' ∈ files ++ [file], file'.hunks ≠ [] ∧ file'.taken quotePath = some path := by
      obtain ⟨file', hmem, hfile'⟩ := hkeys path h
      exact ⟨file', List.mem_append_left _ hmem, hfile'⟩
    rw [readFiles_append]
    by_cases hhunks : file.hunks = []
    · rw [FileChange.read, if_pos hhunks]
      exact ⟨hcurrent, hbefore⟩
    cases htaken : file.taken quotePath with
    | some name =>
      obtain ⟨hfile, hget⟩ := read_taken hhunks htaken (readFiles quotePath files)
      refine ⟨fun other hother => ?_, fun path hpath => ?_⟩
      · obtain rfl := Option.some.inj (hfile.symm.trans hother)
        rw [hget, if_pos rfl]
        rfl
      · rw [hget] at hpath
        split at hpath
        · rename_i heq
          exact ⟨file, List.mem_append_right _ List.mem_cons_self, hhunks, heq ▸ htaken⟩
        · exact hbefore path hpath
    | none =>
      cases hfile : (readFiles quotePath files).file with
      | none =>
        rw [read_nowhere hhunks htaken hfile]
        exact ⟨hcurrent, hbefore⟩
      | some name =>
        obtain ⟨old, hold⟩ := Option.isSome_iff_exists.mp (hcurrent name hfile)
        obtain ⟨hfile', hget⟩ := read_untaken hhunks htaken hfile hold
        refine ⟨fun other hother => ?_, fun path hpath => ?_⟩
        · obtain rfl := Option.some.inj (hfile'.symm.trans hother)
          rw [hget, if_pos rfl]
          rfl
        · rw [hget] at hpath
          split at hpath
          · rename_i heq
            exact hbefore path (heq ▸ hcurrent name hfile)
          · exact hbefore path hpath

-- -----
-- Names
-- -----

theorem FileChange.Legible.taken (h : file.Legible quotePath) (hhunks : file.hunks ≠ []) :
    file.taken quotePath = file.newName := by
  unfold FileChange.taken
  cases hname : file.newName with
  | none => rfl
  | some name =>
    obtain ⟨hplain, hspace⟩ := h name hname hhunks
    rw [Option.bind_some, if_pos hplain, if_neg hspace, List.append_nil]

theorem tab_not_mem {name : Str} (h : Git.quote quotePath (lit "b/" ++ name) = lit "b/" ++ name) :
    9 ∉ name := by
  intro htab
  have hany : (Utf8.encode (lit "b/" ++ name)).any (Git.mustQuote quotePath) = true :=
    Git.mustQuote_control (by decide) (List.mem_append_right _ htab)
  have hhead : (lit "b/" ++ name).head? ≠ some 0x22 := fun h => absurd (Option.some.inj h) (by decide)
  rw [(Git.quote_eq_iff hhead).mp h] at hany
  cases hany

/-- A path with hunks that is the name of a file is the legible name of one. -/
theorem taken_eq {path : Str} (h : file.taken quotePath = some path) :
    ∃ name, file.newName = some name ∧
      Git.quote quotePath (lit "b/" ++ name) = lit "b/" ++ name ∧
        path = name ++ if space ∈ name then [9] else [] := by
  obtain ⟨name, hname, hif⟩ := Option.bind_eq_some_iff.mp h
  obtain ⟨hplain, hpath⟩ := Option.ite_none_right_eq_some.mp hif
  exact ⟨name, hname, hplain, (Option.some.inj hpath).symm⟩

theorem legible_of_attributed (h : Attributed files (readFiles quotePath files).output) :
    ∀ file ∈ files, file.Legible quotePath := by
  -- Where a name is among the paths, it is printed as it is or it is another's with a tab.
  have hkey (file : FileChange) (hmem : file ∈ files) (name : Str) (hname : file.newName = some name)
      (hhunks : file.hunks ≠ []) : ∃ other ∈ files, other.hunks ≠ [] ∧ ∃ name',
        other.newName = some name' ∧ Git.quote quotePath (lit "b/" ++ name') = lit "b/" ++ name' ∧
          name = name' ++ if space ∈ name' then [9] else [] := by
    have hsome : ((readFiles quotePath files).output.get name).isSome = true := by
      rw [h.own file hmem name hname hhunks]
      rfl
    obtain ⟨other, hother, hhunks', htaken⟩ := (readFiles_keys files).2 name hsome
    exact ⟨other, hother, hhunks', taken_eq htaken⟩
  intro file hmem name hname hhunks
  obtain ⟨other, hother, hhunks', name', hname', hplain, rfl⟩ := hkey file hmem name hname hhunks
  by_cases hspace : space ∈ name'
  · obtain ⟨-, -, -, name'', -, hplain', heq⟩ := hkey other hother name' hname' hhunks'
    by_cases hspace' : space ∈ name''
    · rw [if_pos hspace'] at heq
      exact absurd (heq ▸ List.mem_append_right _ List.mem_cons_self) (tab_not_mem hplain)
    · rw [if_neg hspace', List.append_nil] at heq
      exact absurd (heq ▸ hspace) hspace'
  · rw [if_neg hspace, List.append_nil]
    exact ⟨hplain, hspace⟩

-- -----
-- Deleted files
-- -----

theorem read_grows {path : Str} {old : List Hunk} (file : FileChange)
    (hget : (readFiles quotePath files).output.get path = some old) :
    ∃ more, (file.read quotePath (readFiles quotePath files)).output.get path = some (old ++ more) := by
  by_cases hhunks : file.hunks = []
  · rw [FileChange.read, if_pos hhunks]
    exact ⟨[], by rw [List.append_nil, hget]⟩
  cases htaken : file.taken quotePath with
  | some name =>
    obtain ⟨-, hread⟩ := read_taken hhunks htaken (readFiles quotePath files)
    rw [hread]
    split
    · rename_i heq
      rw [← heq, hget]
      exact ⟨_, rfl⟩
    · exact ⟨[], by rw [List.append_nil, hget]⟩
  | none =>
    cases hfile : (readFiles quotePath files).file with
    | none =>
      rw [read_nowhere hhunks htaken hfile]
      exact ⟨[], by rw [List.append_nil, hget]⟩
    | some name =>
      obtain ⟨first, hfirst⟩ := Option.isSome_iff_exists.mp ((readFiles_keys files).1 name hfile)
      obtain ⟨-, hread⟩ := read_untaken hhunks htaken hfile hfirst
      rw [hread]
      split
      · rename_i heq
        rw [← heq, hget] at hfirst
        rw [Option.some.inj hfirst]
        exact ⟨_, rfl⟩
      · exact ⟨[], by rw [List.append_nil, hget]⟩

/-- Each file has its hunks, and maybe others behind them, and the file that is read is
one of them; none is read as long as there is none. -/
structure Covered (files : List FileChange) (state : State) : Prop where
  own : ∀ file ∈ files, ∀ name, file.newName = some name → file.hunks ≠ [] →
    ∃ hunks, state.output.get name = some hunks ∧ file.hunks.length ≤ hunks.length
  current : ∀ name, state.file = some name →
    ∃ file ∈ files, file.newName = some name ∧ file.hunks ≠ []
  nowhere : state.file = none → ∀ file ∈ files, file.newName.isSome = true → file.hunks = []

theorem readFiles_covered (hlegible : ∀ file ∈ files, file.Legible quotePath) :
    Covered files (readFiles quotePath files) := by
  induction files using List.reverseRecOn with
  | nil => exact ⟨nofun, nofun, fun _ => nofun⟩
  | append_singleton files file ih =>
    rw [List.forall_mem_append] at hlegible
    have hbefore := ih hlegible.1
    have hfile := hlegible.2 file List.mem_cons_self
    rw [readFiles_append]
    have hown (other : FileChange) (hother : other ∈ files) (name : Str) (hname : other.newName = some name)
        (hhunks : other.hunks ≠ []) : ∃ hunks,
          (file.read quotePath (readFiles quotePath files)).output.get name = some hunks ∧
            other.hunks.length ≤ hunks.length := by
      obtain ⟨old, hget, hlength⟩ := hbefore.own other hother name hname hhunks
      obtain ⟨more, hmore⟩ := read_grows file hget
      refine ⟨old ++ more, hmore, hlength.trans ?_⟩
      rw [List.length_append]
      exact Nat.le_add_right _ _
    have hcurrent (name : Str) (h : (readFiles quotePath files).file = some name) :
        ∃ other ∈ files ++ [file], other.newName = some name ∧ other.hunks ≠ [] := by
      obtain ⟨other, hother, h⟩ := hbefore.current name h
      exact ⟨other, List.mem_append_left _ hother, h⟩
    by_cases hhunks : file.hunks = []
    · rw [FileChange.read, if_pos hhunks] at hown ⊢
      refine ⟨?_, hcurrent, ?_⟩
      · intro other hother name hname hhunks'
        rcases List.mem_append.mp hother with hother | hlast
        · exact hown other hother name hname hhunks'
        · rw [List.mem_singleton.mp hlast] at hhunks'
          exact absurd hhunks hhunks'
      · intro hnone other hother hname
        rcases List.mem_append.mp hother with hother | hlast
        · exact hbefore.nowhere hnone other hother hname
        · rw [List.mem_singleton.mp hlast]
          exact hhunks
    have htaken := hfile.taken hhunks
    cases hname : file.newName with
    | some name =>
      obtain ⟨hread, hget⟩ := read_taken hhunks (htaken.trans hname) (readFiles quotePath files)
      refine ⟨?_, ?_, ?_⟩
      · intro other hother name' hname' hhunks'
        rcases List.mem_append.mp hother with hother | hlast
        · exact hown other hother name' hname' hhunks'
        · obtain rfl := List.mem_singleton.mp hlast
          obtain rfl := Option.some.inj (hname.symm.trans hname')
          refine ⟨_, (hget _).trans (if_pos rfl), ?_⟩
          rw [List.length_append, FileChange.ranges, List.length_map]
          exact Nat.le_add_left _ _
      · intro name' hname'
        obtain rfl := Option.some.inj (hread.symm.trans hname')
        exact ⟨file, List.mem_append_right _ List.mem_cons_self, hname, hhunks⟩
      · intro hnone
        rw [hread] at hnone
        cases hnone
    | none =>
      have hfile' : (file.read quotePath (readFiles quotePath files)).file =
          (readFiles quotePath files).file := by
        rw [FileChange.read, if_neg hhunks, htaken.trans hname]
        exact foldl_push_file _
      refine ⟨?_, ?_, ?_⟩
      · intro other hother name hname' hhunks'
        rcases List.mem_append.mp hother with hother | hlast
        · exact hown other hother name hname' hhunks'
        · rw [List.mem_singleton.mp hlast, hname] at hname'
          cases hname'
      · rw [hfile']
        exact hcurrent
      · intro hnone other hother hname'
        rw [hfile'] at hnone
        rcases List.mem_append.mp hother with hother | hlast
        · exact hbefore.nowhere hnone other hother hname'
        · rw [List.mem_singleton.mp hlast, hname] at hname'
          cases hname'

/-- Where a deleted file has hunks behind those of another file, some file has too many. -/
theorem readFiles_longer (hlegible : ∀ file ∈ files, file.Legible quotePath)
    (hdeleted : ¬ DeletedFirst files) : ∃ file ∈ files, ∃ name hunks, file.newName = some name ∧
      file.hunks ≠ [] ∧ (readFiles quotePath files).output.get name = some hunks ∧
        file.hunks.length < hunks.length := by
  induction files using List.reverseRecOn with
  | nil => exact absurd .nil hdeleted
  | append_singleton files file ih =>
    rw [List.forall_mem_append] at hlegible
    rw [readFiles_append]
    by_cases hfirst : DeletedFirst files
    · have hcovered := readFiles_covered hlegible.1
      have hlate : ∃ before ∈ files, before.newName.isSome = true ∧ before.hunks ≠ [] ∧
          file.newName = none ∧ file.hunks ≠ [] := by
        by_contra hnone
        refine hdeleted (List.pairwise_append.mpr ⟨hfirst, List.pairwise_singleton _ _, ?_⟩)
        intro before hbefore last hlast hsome hhunks hnew
        obtain rfl := List.mem_singleton.mp hlast
        by_contra hlasthunks
        exact hnone ⟨before, hbefore, hsome, hhunks, hnew, hlasthunks⟩
      obtain ⟨before, hbefore, hsome, hhunks, hnew, hlasthunks⟩ := hlate
      have htaken := (hlegible.2 file List.mem_cons_self).taken hlasthunks
      cases hcurrent : (readFiles quotePath files).file with
      | none => exact absurd (hcovered.nowhere hcurrent before hbefore hsome) hhunks
      | some name =>
        obtain ⟨other, hother, hname, hotherhunks⟩ := hcovered.current name hcurrent
        obtain ⟨old, hold, hlength⟩ := hcovered.own other hother name hname hotherhunks
        obtain ⟨-, hget⟩ := read_untaken hlasthunks (htaken.trans hnew) hcurrent hold
        refine ⟨other, List.mem_append_left _ hother, name, _, hname, hotherhunks,
          (hget name).trans (if_pos rfl), ?_⟩
        rw [List.length_append, FileChange.ranges, List.length_map]
        have hpos := List.length_pos_iff.mpr hlasthunks
        omega
    · obtain ⟨other, hother, name, hunks, hname, hhunks, hget, hlength⟩ := ih hlegible.1 hfirst
      obtain ⟨more, hmore⟩ := read_grows file hget
      refine ⟨other, List.mem_append_left _ hother, name, _, hname, hhunks, hmore, ?_⟩
      rw [List.length_append]
      omega

theorem deletedFirst_of_attributed (hlegible : ∀ file ∈ files, file.Legible quotePath)
    (h : Attributed files (readFiles quotePath files).output) : DeletedFirst files := by
  by_contra hdeleted
  obtain ⟨file, hmem, name, hunks, hname, hhunks, hget, hlength⟩ := readFiles_longer hlegible hdeleted
  rw [h.own file hmem name hname hhunks] at hget
  rw [← Option.some.inj hget, FileChange.ranges, List.length_map] at hlength
  exact lt_irrefl _ hlength

-- -----
-- The right files
-- -----

theorem attributed_of (hnames : (files.filterMap (·.newName)).Nodup)
    (hlegible : ∀ file ∈ files, file.Legible quotePath) (hdeleted : DeletedFirst files) :
    Attributed files (readFiles quotePath files).output := by
  induction files using List.reverseRecOn with
  | nil => exact ⟨nofun, fun _ _ => rfl⟩
  | append_singleton files file ih =>
    rw [List.forall_mem_append] at hlegible
    obtain ⟨hfirst, -, hlate⟩ := List.pairwise_append.mp hdeleted
    rw [List.filterMap_append, List.nodup_append] at hnames
    obtain ⟨hnames, -, hfresh⟩ := hnames
    have hbefore := ih hnames hlegible.1 hfirst
    have htaken := (hlegible.2 file List.mem_cons_self).taken
    rw [readFiles_append]
    by_cases hhunks : file.hunks = []
    · rw [FileChange.read, if_pos hhunks]
      refine ⟨fun other hother name hname hhunks' => ?_, fun path hpath => ?_⟩
      · rcases List.mem_append.mp hother with hother | hlast
        · exact hbefore.own other hother name hname hhunks'
        · rw [List.mem_singleton.mp hlast] at hhunks'
          exact absurd hhunks hhunks'
      · exact hbefore.none path fun other hother => hpath other (List.mem_append_left _ hother)
    cases hname : file.newName with
    | some name =>
      obtain ⟨-, hget⟩ := read_taken hhunks ((htaken hhunks).trans hname) (readFiles quotePath files)
      have hnew (other : FileChange) (hother : other ∈ files) : other.newName ≠ some name := by
        intro hsame
        refine hfresh name (List.mem_filterMap.mpr ⟨other, hother, hsame⟩) name ?_ rfl
        exact List.mem_filterMap.mpr ⟨file, List.mem_cons_self, hname⟩
      have hnone : (readFiles quotePath files).output.get name = none :=
        hbefore.none name fun other hother h => absurd h (hnew other hother)
      refine ⟨fun other hother name' hname' hhunks' => ?_, fun path hpath => ?_⟩
      · rcases List.mem_append.mp hother with hother | hlast
        · rw [hget, if_neg, hbefore.own other hother name' hname' hhunks']
          rintro rfl
          exact hnew other hother hname'
        · obtain rfl := List.mem_singleton.mp hlast
          obtain rfl := Option.some.inj (hname.symm.trans hname')
          rw [hget, if_pos rfl, hnone]
          rfl
      · rw [hget, if_neg]
        · exact hbefore.none path fun other hother => hpath other (List.mem_append_left _ hother)
        · rintro rfl
          exact hhunks (hpath file (List.mem_append_right _ List.mem_cons_self) hname)
    | none =>
      have hnowhere : (readFiles quotePath files).file = none := by
        by_contra hsome
        obtain ⟨name, hcurrent⟩ := Option.ne_none_iff_exists'.mp hsome
        obtain ⟨other, hother, hname', hhunks'⟩ := (readFiles_covered hlegible.1).current name hcurrent
        refine hhunks (hlate other hother file List.mem_cons_self ?_ hhunks' hname)
        rw [hname']
        rfl
      rw [read_nowhere hhunks ((htaken hhunks).trans hname) hnowhere]
      refine ⟨fun other hother name' hname' hhunks' => ?_, fun path hpath => ?_⟩
      · rcases List.mem_append.mp hother with hother | hlast
        · exact hbefore.own other hother name' hname' hhunks'
        · rw [List.mem_singleton.mp hlast, hname] at hname'
          cases hname'
      · exact hbefore.none path fun other hother => hpath other (List.mem_append_left _ hother)

/-- Where no added line looks like a header, the hunks go to the right files exactly if
git prints every name as it is and no deleted file comes behind another one. -/
theorem hunks_attributed (quotePath : Bool) {files : List FileChange}
    (hnames : (files.filterMap (·.newName)).Nodup) (hquiet : ∀ file ∈ files, file.Quiet) :
    Attributed files (parseUnifiedHunks (unifiedDiff quotePath files)) ↔
      (∀ file ∈ files, file.Legible quotePath) ∧ DeletedFirst files := by
  rw [parse_unifiedDiff hquiet]
  constructor
  · intro h
    have hlegible := legible_of_attributed h
    exact ⟨hlegible, deletedFirst_of_attributed hlegible h⟩
  · rintro ⟨hlegible, hdeleted⟩
    exact attributed_of hnames hlegible hdeleted

-- -----
-- Diffs of one and two files
-- -----

/-- A line that is added in the place of none. -/
def adds (first : Nat) (line : Str) (h : LF ∉ line) : Change :=
  ⟨first, [], false, first, [line], false, [], nofun, fun _ hmem => by rwa [List.mem_singleton.mp hmem],
    by decide⟩

/-- A line that is removed. -/
def removes (first : Nat) (line : Str) (h : LF ∉ line) : Change :=
  ⟨first, [line], false, first, [], false, [], fun _ hmem => by rwa [List.mem_singleton.mp hmem], nofun,
    by decide⟩

def modified (name : Str) (hunks : List Change) : FileChange :=
  ⟨some name, some name, [], hunks, nofun, nofun⟩

def deleted (name : Str) (hunks : List Change) : FileChange := ⟨some name, none, [], hunks, nofun, nofun⟩

def oldFile : FileChange := deleted (lit "a.ts") [removes 1 (lit "gone") (by decide)]

def bFile : FileChange :=
  modified (lit "b.ts") [removes 4 (lit "old") (by decide), adds 7 (lit "new") (by decide)]

theorem twoFiles_attributed :
    (parseUnifiedHunks (unifiedDiff true [oldFile, bFile])).get (lit "b.ts") = some [⟨3, 3⟩, ⟨7, 7⟩] ∧
      Attributed [oldFile, bFile] (parseUnifiedHunks (unifiedDiff true [oldFile, bFile])) := by
  have hall : Attributed [oldFile, bFile] (parseUnifiedHunks (unifiedDiff true [oldFile, bFile])) := by
    refine (hunks_attributed true (by decide) ?_).mpr ⟨?_, ?_⟩
    · intro file hfile change hchange line hline
      rcases List.mem_cons.mp hfile with rfl | hfile
      · rw [List.mem_singleton.mp hchange] at hline
        cases hline
      · obtain rfl := List.mem_singleton.mp hfile
        rcases List.mem_cons.mp hchange with rfl | hchange
        · cases hline
        · rw [List.mem_singleton.mp hchange] at hline
          rw [List.mem_singleton.mp hline]
          decide
    · intro file hfile name hname hhunks
      rcases List.mem_cons.mp hfile with rfl | hfile
      · cases hname
      · obtain rfl := List.mem_singleton.mp hfile
        cases hname
        decide
    · exact List.pairwise_pair.mpr fun h => absurd h (by decide)
  exact ⟨hall.own bFile (by simp) _ rfl (by decide), hall⟩

/-- A name with a blank, an added line that looks like a header, and a deleted file
behind another one. -/
theorem misattributed :
    ¬ Attributed [modified (lit "my file.ts") [adds 1 (lit "new") (by decide)]]
        (parseUnifiedHunks (unifiedDiff true
          [modified (lit "my file.ts") [adds 1 (lit "new") (by decide)]])) ∧
      ¬ Attributed [modified (lit "b.ts") [adds 1 (lit "++ b/x") (by decide), adds 7 (lit "new") (by decide)]]
        (parseUnifiedHunks (unifiedDiff true
          [modified (lit "b.ts") [adds 1 (lit "++ b/x") (by decide), adds 7 (lit "new") (by decide)]])) ∧
      ¬ Attributed [bFile, oldFile] (parseUnifiedHunks (unifiedDiff true [bFile, oldFile])) := by
  refine ⟨fun h => ?_, fun h => ?_, fun h => ?_⟩
  · have hown := h.own _ List.mem_cons_self (lit "my file.ts") rfl (List.cons_ne_nil _ _)
    exact absurd hown (by decide +kernel)
  · have hown := h.own _ List.mem_cons_self (lit "b.ts") rfl (List.cons_ne_nil _ _)
    exact absurd hown (by decide +kernel)
  · have hown := h.own _ List.mem_cons_self (lit "b.ts") rfl (List.cons_ne_nil _ _)
    exact absurd hown (by decide +kernel)

end UnifiedDiffs

end PiEnv.Analyze
