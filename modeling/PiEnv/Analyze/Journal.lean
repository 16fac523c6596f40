import Mathlib.Data.List.Sort
import PiEnv.Lib.JsonText
import PiEnv.Lib.Utf8

/-!
# The analysis journal

Events as lines of a current file that is rotated, and the pruning of rotated
files. The clock gives the times and the random part of a name; a name that no
regular file has may be taken by something else.
-/

namespace PiEnv.Analyze

open Js Utf8

-- -----
-- Numbers
-- -----

/-- `bound - 1` -/
def lessOne : Number → Number
  | .finite bound => .finite (bound - 1)
  | bound => bound

-- -----
-- Options
-- -----

structure AnalysisJournalOptions where
  maxLineBytes : Option Number
  maxFileBytes : Option Number
  maxTotalBytes : Option Number
  maxFiles : Option Number
  maxAgeMs : Option Number
  flushEveryEvents : Option Number

structure NormalizedJournalOptions where
  maxLineBytes : Number
  maxFileBytes : Number
  maxTotalBytes : Number
  maxFiles : Number
  maxAgeMs : Number
  flushEveryEvents : Number

def normalizeOptions (options : AnalysisJournalOptions) : NormalizedJournalOptions :=
  let maxLineBytes := maxNumber (.finite 256) (options.maxLineBytes.getD (.finite (8 * 1024)))
  let maxFileBytes := maxNumber maxLineBytes (options.maxFileBytes.getD (.finite (256 * 1024)))
  let maxTotalBytes := maxNumber maxFileBytes (options.maxTotalBytes.getD (.finite (1024 * 1024)))
  { maxLineBytes, maxFileBytes, maxTotalBytes
    maxFiles := maxNumber (.finite 1) (options.maxFiles.getD (.finite 8))
    maxAgeMs := maxNumber (.finite 0) (options.maxAgeMs.getD (.finite (7 * 24 * 60 * 60 * 1000)))
    flushEveryEvents := maxNumber (.finite 1) (options.flushEveryEvents.getD (.finite 8)) }

-- -----
-- Events
-- -----

inductive AnalyzeDiagnosticEventType where
  | runStarted
  | stageStarted
  | stageCompleted
  | memorySample
  | failure
  | runCompleted
  | runTerminated
deriving DecidableEq, Repr

def AnalyzeDiagnosticEventType.text : AnalyzeDiagnosticEventType → Str
  | .runStarted => lit "run-started"
  | .stageStarted => lit "stage-started"
  | .stageCompleted => lit "stage-completed"
  | .memorySample => lit "memory-sample"
  | .failure => lit "failure"
  | .runCompleted => lit "run-completed"
  | .runTerminated => lit "run-terminated"

/-- The attributes are strings, numbers and booleans. -/
structure AnalysisDiagnosticEvent where
  runId : Str
  timestampMs : Number
  type : AnalyzeDiagnosticEventType
  attributes : List (Str × Json)
  terminal : Bool

def AnalysisDiagnosticEvent.toJson (event : AnalysisDiagnosticEvent) : Json :=
  .obj [(lit "version", .num (.ofInt 1)), (lit "runId", .str event.runId),
    (lit "timestampMs", .num event.timestampMs), (lit "type", .str event.type.text),
    (lit "attributes", .obj event.attributes), (lit "terminal", .bool event.terminal)]

def MAX_DIAGNOSTIC_STRING_LENGTH : Nat := 128

/-- `createAnalysisDiagnosticEvent` of a failure for its output. -/
def outputLimitFailure (runId : Str) (timestampMs : Number) : AnalysisDiagnosticEvent where
  runId := runId.take MAX_DIAGNOSTIC_STRING_LENGTH
  timestampMs := timestampMs
  type := .failure
  attributes := [(lit "termination_reason", .str (lit "output-limit"))]
  terminal := false

def encodeLine (event : AnalysisDiagnosticEvent) : Bytes := encode (stringify event.toJson ++ [LF])

def encodeEvent (event : AnalysisDiagnosticEvent) (maxLineBytes : Number) : Bytes :=
  let encoded := encodeLine event
  if atMost encoded.length maxLineBytes then encoded
  else
    let bounded := encodeLine (outputLimitFailure event.runId event.timestampMs)
    if atMost bounded.length maxLineBytes then bounded else []

-- -----
-- The directory
-- -----

def JOURNAL_FILE_NAME : Str := lit "current.ndjson"

def isJournalFile (name : Str) : Bool :=
  name == JOURNAL_FILE_NAME || (lit "journal-").isPrefixOf name && (lit ".ndjson").isSuffixOf name

structure JournalFile where
  name : Str
  content : Bytes
  mtimeMs : Rat
deriving DecidableEq, Repr

def JournalFile.size (file : JournalFile) : Nat := file.content.length

/-- The regular files of a directory, and the names of its other entries. -/
structure Directory where
  files : List JournalFile
  occupied : List Str
  nodup : (files.map (·.name)).Nodup

def Directory.find (directory : Directory) (name : Str) : Option JournalFile :=
  directory.files.find? (·.name = name)

/-- `rm(path, { force: true })` -/
def Directory.rm (directory : Directory) (name : Str) : Directory where
  files := directory.files.filter (·.name ≠ name)
  occupied := directory.occupied
  nodup := directory.nodup.sublist (List.filter_sublist.map _)

/-- Creates the file, or replaces it. -/
def Directory.put (directory : Directory) (file : JournalFile) : Directory where
  files := file :: directory.files.filter (·.name ≠ file.name)
  occupied := directory.occupied
  nodup := by
    rw [List.map_cons, List.nodup_cons]
    refine ⟨fun hmem => ?_, directory.nodup.sublist (List.filter_sublist.map _)⟩
    obtain ⟨other, hother, hname⟩ := List.mem_map.mp hmem
    exact absurd hname (by simpa using (List.mem_filter.mp hother).2)

section
variable (localeCompare : Str → Str → Ordering)

/-- The order of `left.mtimeMs - right.mtimeMs || left.name.localeCompare(right.name)`. -/
def notBehind (left right : JournalFile) : Bool :=
  left.mtimeMs < right.mtimeMs ||
    left.mtimeMs == right.mtimeMs && localeCompare left.name right.name != .gt

def journalFiles (directory : Directory) : List JournalFile :=
  directory.files.filter (isJournalFile ·.name)

def listJournalFiles (directory : Directory) : List JournalFile :=
  (journalFiles directory).insertionSort fun left right => notBehind localeCompare left right = true

def totalSize (files : List JournalFile) : Nat := (files.map JournalFile.size).sum

-- -----
-- Pruning
-- -----

def isCurrent (file : JournalFile) : Bool := file.name == JOURNAL_FILE_NAME

def removeAll (files : List JournalFile) (directory : Directory) : Directory :=
  files.foldl (fun directory file => directory.rm file.name) directory

/-- The oldest of the rotated files go until few enough are left. -/
def removeExcess (limit : Number) : List JournalFile → Directory → Directory
  | [], directory => directory
  | oldest :: rest, directory =>
    if exceeds (rest.length + 1 : Nat) limit then removeExcess limit rest (directory.rm oldest.name)
    else directory

/-- Rotated files go, oldest first, until so many bytes more are within the bound. -/
def makeRoom (bound : Number) (incomingBytes : Nat) :
    List JournalFile → Nat → Directory → Nat × Directory
  | [], total, directory => (total, directory)
  | file :: files, total, directory =>
    if atMost (total + incomingBytes : Nat) bound then (total, directory)
    else if isCurrent file then makeRoom bound incomingBytes files total directory
    else makeRoom bound incomingBytes files (total - file.size) (directory.rm file.name)

def prune (options : NormalizedJournalOptions) (now : Rat) (directory : Directory) : Directory :=
  let old := (listJournalFiles localeCompare directory).filter fun file =>
    !isCurrent file && exceeds (now - file.mtimeMs) options.maxAgeMs
  let directory := removeAll old directory
  let rotated := (listJournalFiles localeCompare directory).filter (!isCurrent ·)
  let limit := maxNumber (.finite 0) (lessOne options.maxFiles)
  let directory := removeExcess limit rotated directory
  let files := listJournalFiles localeCompare directory
  (makeRoom options.maxTotalBytes 0 files (totalSize files) directory).2

-- -----
-- The journal
-- -----

structure Tick where
  now : Rat
  uuid : Str
  mtimeMs : Rat

structure AnalysisJournal where
  options : NormalizedJournalOptions
  /-- Whether the current file is open. -/
  handle : Bool
  currentBytes : Nat
  eventsSinceFlush : Nat
  disabled : Bool
  reportedError : Bool
  directory : Directory
  /-- How often the clock has been read. -/
  ticks : Nat

inductive Stop where
  /-- What it was when something threw. -/
  | thrown (journal : AnalysisJournal)
  | exhausted

abbrev Outcome := Except Stop AnalysisJournal

variable (clock : Nat → Tick)

def rotatedName (tick : Tick) : Str :=
  lit "journal-" ++ Number.text (.finite tick.now) ++ lit "-" ++ tick.uuid.take 8 ++ lit ".ndjson"

namespace AnalysisJournal

def disable (journal : AnalysisJournal) : AnalysisJournal :=
  if journal.disabled && journal.reportedError then journal
  else { journal with disabled := true, handle := false, reportedError := true }

/-- `open(currentPath, "a")` -/
def openCurrent (journal : AnalysisJournal) : Outcome :=
  if JOURNAL_FILE_NAME ∈ journal.directory.occupied then .error (.thrown journal)
  else
    match journal.directory.find JOURNAL_FILE_NAME with
    | some file => .ok { journal with handle := true, currentBytes := file.size }
    | none =>
      let file : JournalFile := ⟨JOURNAL_FILE_NAME, [], (clock journal.ticks).mtimeMs⟩
      .ok { journal with
        handle := true
        currentBytes := 0
        directory := journal.directory.put file
        ticks := journal.ticks + 1 }

/-- A current file that is not empty gets a name of its own. -/
def moveCurrent (journal : AnalysisJournal) : Outcome :=
  match journal.directory.find JOURNAL_FILE_NAME with
  | some file =>
    if 0 < file.size then
      let name := rotatedName (clock journal.ticks)
      let journal := { journal with ticks := journal.ticks + 1 }
      if name ∈ journal.directory.occupied then .error (.thrown journal)
      else
        .ok { journal with
          directory := (journal.directory.rm JOURNAL_FILE_NAME).put { file with name } }
    else .ok journal
  | none => .ok journal

def pruneNow (journal : AnalysisJournal) : AnalysisJournal :=
  { journal with
    directory := prune localeCompare journal.options (clock journal.ticks).now journal.directory
    ticks := journal.ticks + 1 }

def rotate (journal : AnalysisJournal) : Outcome := do
  let moved ← moveCurrent clock { journal with handle := false }
  let opened ← openCurrent clock (pruneNow localeCompare clock moved)
  return { opened with currentBytes := 0, eventsSinceFlush := 0 }

def makeTotalCapacity : Nat → Nat → AnalysisJournal → Outcome
  | 0, _, _ => .error .exhausted
  | fuel + 1, incomingBytes, journal =>
    let files := listJournalFiles localeCompare journal.directory
    let (total, directory) :=
      makeRoom journal.options.maxTotalBytes incomingBytes files (totalSize files) journal.directory
    let journal := { journal with directory }
    if exceeds (total + incomingBytes : Nat) journal.options.maxTotalBytes && journal.currentBytes > 0
    then do
      let rotated ← rotate localeCompare clock journal
      makeTotalCapacity fuel incomingBytes rotated
    else .ok journal

/-- `handle.write(line)`, and what is counted for it. -/
def write (journal : AnalysisJournal) (line : Bytes) (terminal : Bool) : AnalysisJournal :=
  let directory := match journal.directory.find JOURNAL_FILE_NAME with
    | some file => journal.directory.put
        { file with content := file.content ++ line, mtimeMs := (clock journal.ticks).mtimeMs }
    | none => journal.directory
  let eventsSinceFlush := journal.eventsSinceFlush + 1
  { journal with
    directory
    ticks := journal.ticks + 1
    currentBytes := journal.currentBytes + line.length
    eventsSinceFlush :=
      if terminal || reaches eventsSinceFlush journal.options.flushEveryEvents then 0
      else eventsSinceFlush }

def appendLine (fuel : Nat) (journal : AnalysisJournal) (line : Bytes) (terminal : Bool) :
    Outcome := do
  let journal ←
    if exceeds (journal.currentBytes + line.length : Nat) journal.options.maxFileBytes then
      rotate localeCompare clock journal
    else .ok journal
  let journal ← makeTotalCapacity localeCompare clock fuel line.length journal
  if journal.disabled || !journal.handle then return journal
  else return write clock journal line terminal

/-- `none` stands for a recursion that has not ended. -/
def settle (journal : Outcome) : Option AnalysisJournal :=
  match journal with
  | .ok journal => some journal
  | .error (.thrown journal) => some journal.disable
  | .error .exhausted => none

def append (fuel : Nat) (journal : AnalysisJournal) (event : AnalysisDiagnosticEvent) :
    Option AnalysisJournal :=
  if journal.disabled || !journal.handle then some journal
  else
    let line := encodeEvent event journal.options.maxLineBytes
    if line = [] then some journal
    else settle (appendLine localeCompare clock fuel journal line event.terminal)

def appendAll (fuel : Nat) (journal : AnalysisJournal) :
    List AnalysisDiagnosticEvent → Option AnalysisJournal
  | [] => some journal
  | event :: events =>
    (append localeCompare clock fuel journal event).bind fun journal =>
      appendAll fuel journal events

/-- `AnalysisJournal.open(options)` in a directory that is there or has been made. -/
def openJournal (options : AnalysisJournalOptions) (directory : Directory) : AnalysisJournal :=
  let journal : AnalysisJournal := {
    options := normalizeOptions options
    handle := false
    currentBytes := 0
    eventsSinceFlush := 0
    disabled := false
    reportedError := false
    directory
    ticks := 0 }
  let outcome : Outcome := do
    let opened ← openCurrent clock (pruneNow localeCompare clock journal)
    if reaches opened.currentBytes opened.options.maxFileBytes then
      rotate localeCompare clock opened
    else return opened
  match outcome with
  | .ok journal => journal
  | .error (.thrown journal) => journal.disable
  | .error .exhausted => journal

end AnalysisJournal

end

end PiEnv.Analyze
