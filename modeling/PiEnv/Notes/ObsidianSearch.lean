import PiEnv.Lib.Utf8
import PiEnv.Notes.ObsidianListing

/-!
# Searching an Obsidian vault

A vault that nothing changes, what is listed and read of it, and the search of
its notes by the provider and by the notes tool.
-/

namespace PiEnv.Notes.Obsidian

open Js

def MAX_SEARCH_QUERY_LENGTH : Nat := 1000
def MAX_SEARCH_RESULTS : Nat := 100
def MAX_SEARCH_SCAN_BYTES : Nat := 64 * 1024 * 1024

-- -----
-- Vaults
-- -----

inductive NodeKind where
  | file | directory | symlink | other
  deriving DecidableEq, Inhabited, Repr

def NodeKind.dirent : NodeKind → DirentKind
  | .file => .file
  | .directory => .directory
  | .symlink | .other => .other

/-- What a revision says of a file besides its path and its content. -/
structure Attributes where
  device : Nat
  inode : Nat
  mode : Nat
  owner : Nat
  group : Nat
  changedAt : Rat
  deriving DecidableEq, Inhabited, Repr

structure Node where
  kind : NodeKind
  nlink : Nat
  mtimeMs : Rat
  attributes : Attributes
  bytes : Utf8.Bytes
  deriving DecidableEq, Inhabited, Repr

/-- What is below the root of a vault, by the names on the way to it. -/
structure Snapshot where
  node : List Str → Option Node
  /-- The names in a directory, as the file system orders them. -/
  names : List Str → List Str
  root : ∃ node', node [] = some node' ∧ node'.kind = .directory
  mem_names : ∀ {folder name}, name ∈ names folder ↔ node (folder ++ [name]) ≠ none
  parent : ∀ {folder name}, name ∈ names folder →
    ∃ node', node folder = some node' ∧ node'.kind = .directory
  nodup : ∀ folder, (names folder).Nodup
  isName : ∀ {folder name}, name ∈ names folder → name ≠ [] ∧ slash ∉ name

def segmentsOf (path : Str) : List Str := if path = [] then [] else split [slash] path

def Node.metadata (node : Node) : Metadata :=
  ⟨node.kind = .file, node.nlink, .ofInt node.bytes.length, .finite node.mtimeMs⟩

namespace Snapshot
variable (snapshot : Snapshot)

def isDirectory (folder : List Str) : Bool := (snapshot.node folder).any (·.kind = .directory)

def dirent (folder : List Str) (name : Str) : Dirent :=
  ⟨name, ((snapshot.node (folder ++ [name])).map (·.kind.dirent)).getD .other⟩

def opendir (directory : Str) : Option (List Dirent) :=
  let folder := segmentsOf directory
  if snapshot.isDirectory folder then some ((snapshot.names folder).map (snapshot.dirent folder)) else none

def vault : Vault where
  opendir := snapshot.opendir
  lstat path := (snapshot.node (segmentsOf path)).map Node.metadata

end Snapshot

-- -----
-- Reading
-- -----

structure StoredDocument extends NoteDocument where
  size : Nat
  modifiedAt : Rat
  deriving DecidableEq, Repr

def notFound (notePath : Str) : NotesError := .provider .notFound (lit "Note not found: " ++ notePath)

def pathEscape (message notePath : Str) : NotesError := .provider .pathEscape (message ++ notePath)

section
variable (snapshot : Snapshot) (revisionOf : Str → Attributes → Utf8.Bytes → Str)

/-- The segments of a path behind `current` are looked at one after the other;
`failure` is what is made of an error of the file system. -/
def assertNoSymlinkPath (failure : NotesError) (notePath : Str) (current : List Str) :
    List Str → Except NotesError Unit
  | [] => .ok ()
  | segment :: rest =>
    match snapshot.node (current ++ [segment]) with
    | none => .error (if snapshot.isDirectory current then notFound notePath else failure)
    | some node =>
      if node.kind = .symlink then
        .error (pathEscape (lit "Symbolic-link path segments are not allowed: ") notePath)
      else assertNoSymlinkPath failure notePath (current ++ [segment]) rest

/-- Without a symbolic link on the way a path is its own real path. -/
def resolveExistingNote (failure : NotesError) (notePath : Str) : Except NotesError Node := do
  let normalized ← normalizeNotePath notePath
  assertNoSymlinkPath snapshot failure notePath [] (split [slash] normalized)
  match snapshot.node (split [slash] normalized) with
  | none => .error (notFound notePath)
  | some node =>
    if node.nlink ≠ 1 then
      .error (pathEscape (lit "Hard-linked notes are not allowed: ") notePath)
    else if node.kind ≠ .file then .error (.provider .notANote (lit "Not a note file: " ++ notePath))
    else .ok node

def readDocument (notePath : Str) (node : Node) : Except NotesError StoredDocument :=
  if node.bytes.length > MAX_NOTE_BYTES then
    .error (resourceLimit (lit "Note " ++ notePath ++ lit " exceeds " ++ decimal MAX_NOTE_BYTES ++
      lit " bytes."))
  else .ok ⟨⟨notePath, revisionOf notePath node.attributes node.bytes, Utf8.decode node.bytes⟩,
    node.bytes.length, node.mtimeMs⟩

def read (notePath : Str) : Except NotesError StoredDocument := do
  let normalized ← normalizeNotePath notePath
  let failure := .provider .io (lit "Cannot read note: " ++ notePath)
  let node ← resolveExistingNote snapshot failure normalized
  readDocument revisionOf normalized node

end

-- -----
-- Titles and snippets
-- -----

/-- What `(.+)` of `\s+(.+)$` takes. Where only white space follows, the last
character of it that is no line terminator is given up to the group. -/
def headingText (s : Str) : Option Str :=
  let text := s.dropWhile isSpace
  if text = [] then (s.tail.reverse.find? (!isLineTerminator ·)).map ([·])
  else if text.length = s.length then none
  else some (text.takeWhile (!isLineTerminator ·))

/-- The first match of `/^#\s+(.+)$/m`; `start` at the beginning of a line. -/
def findHeading (start : Bool) : Str → Option Str
  | [] => none
  | u :: rest =>
    match if start && u == 35 then headingText rest else none with
    | some text => some text
    | none => findHeading (isLineTerminator u) rest

def markdownTitle (content : Str) : Option Str := (findHeading true content).map trim

def matchingSnippet (lower : Str → Str) (content needle : Str) : Option Str :=
  match (splitLines content).find? fun candidate => includes (lower candidate) needle with
  | none | some [] => none
  | some line =>
    let trimmed := trim line
    some (if trimmed.length > 240 then trimmed.take 237 ++ lit "..." else trimmed)

-- -----
-- The search of the provider
-- -----

structure NotesSearchRequest where
  query : Str
  limit : Option Nat
  deriving DecidableEq, Repr

/-- A search result, less its score, which this provider does not give. -/
structure NoteSearchResult extends NoteEntry where
  title : Option Str
  snippet : Option Str
  deriving DecidableEq, Repr

/-- `note.size ?? MAX_NOTE_BYTES`; a size that is listed is a whole number. -/
def estimatedBytes (note : NoteEntry) : Nat :=
  match note.size.bind Number.integer? with
  | some size => size.toNat
  | none => MAX_NOTE_BYTES

def scanLimit : NotesError :=
  resourceLimit (lit "Notes search scan exceeds " ++ decimal MAX_SEARCH_SCAN_BYTES ++ lit " bytes.")

section
variable (snapshot : Snapshot) (localeCompare : Str → Str → Ordering) (lower : Str → Str)
  (revisionOf : Str → Attributes → Utf8.Bytes → Str)

def isMatch (needle notePath content : Str) : Bool :=
  includes (lower notePath) needle || includes (lower content) needle

def searchResult (needle : Str) (note : NoteEntry) (document : StoredDocument) : NoteSearchResult where
  path := note.path
  revision := some document.revision
  size := some (.ofInt document.size)
  modifiedAt := some (.finite document.modifiedAt)
  title := markdownTitle document.content
  snippet := matchingSnippet lower document.content needle

/-- The loop of `search` after these results. -/
def scanNotes (needle : Str) (limit : Nat) :
    Nat → List NoteSearchResult → List NoteEntry → Except NotesError (List NoteSearchResult)
  | _, results, [] => .ok results
  | scannedBytes, results, note :: rest => do
    throwIf (scannedBytes + estimatedBytes note > MAX_SEARCH_SCAN_BYTES) scanLimit
    let document ← read snapshot revisionOf note.path
    let scannedBytes := scannedBytes + document.size
    throwIf (scannedBytes > MAX_SEARCH_SCAN_BYTES) scanLimit
    if isMatch lower needle note.path document.content then
      let results := results ++ [searchResult lower needle note document]
      if results.length ≥ limit then .ok results else scanNotes needle limit scannedBytes results rest
    else scanNotes needle limit scannedBytes results rest

def search (request : NotesSearchRequest) : Except NotesError (List NoteSearchResult) := do
  throwIf ((trim request.query).length = 0)
    (.provider .invalidPath (lit "Notes search requires a non-empty query."))
  throwIf (request.query.length > MAX_SEARCH_QUERY_LENGTH) (resourceLimit
    (lit "Notes search query exceeds " ++ decimal MAX_SEARCH_QUERY_LENGTH ++ lit " characters."))
  let listed ← list snapshot.vault localeCompare ⟨none, some MAX_NOTE_COUNT, none⟩
  throwIf (listed.nextCursor ≠ none) (resourceLimit
    (lit "Notes search inventory exceeds " ++ decimal MAX_NOTE_COUNT ++ lit " notes."))
  let limit := min (request.limit.getD MAX_SEARCH_RESULTS) MAX_SEARCH_RESULTS
  scanNotes snapshot lower revisionOf (lower request.query) limit 0 [] listed.entries

end

-- -----
-- The search of the notes tool
-- -----

structure SearchParams where
  query : Option Str
  limit : Option Nat
  deriving DecidableEq, Repr

structure SearchToolResult where
  text : Str
  results : List NoteSearchResult
  truncated : Bool
  deriving DecidableEq, Repr

def requireSearchQuery (params : SearchParams) : Except NotesError Str :=
  let query := params.query.getD []
  if query = [] ∨ (trim query).length = 0 then .error (.plain (lit "notes search requires query"))
  else if query.length > MAX_SEARCH_QUERY_LENGTH then
    .error (resourceLimit (lit "Notes search query exceeds " ++ decimal MAX_SEARCH_QUERY_LENGTH ++
      lit " characters."))
  else .ok query

def validateOptionalRevision : Option Str → Except NotesError Unit
  | none => .ok ()
  | some revision => validateRevision revision

/-- `length` is that of a text or that of its bytes. -/
def validateOptionalText (length : Str → Nat) (value : Option Str) (limit : Nat) (label : Str) :
    Except NotesError Unit :=
  throwIf (value.any (length · > limit))
    (providerContractError (lit "Notes provider returned an oversized " ++ label ++ lit "."))

def validateSearchResult (searchResult : NoteSearchResult) : Except NotesError NoteSearchResult := do
  let path ← normalizeStorePath searchResult.path true false
  throwIf (path ≠ searchResult.path)
    (providerContractError (lit "Notes provider returned a noncanonical search-result path."))
  validateOptionalRevision searchResult.revision
  validateOptionalMetadata searchResult.toNoteEntry
  validateOptionalText List.length searchResult.title 256 (lit "search title")
  validateOptionalText byteLength searchResult.snippet 2048 (lit "search snippet")
  return searchResult

def validateSearchResults (results : List NoteSearchResult) :
    Except NotesError (List NoteSearchResult) := do
  throwIf (results.length > MAX_SEARCH_RESULTS)
    (providerContractError (lit "Notes provider returned too many search results."))
  results.mapM validateSearchResult

/-- A text behind what introduces it, where there is one. -/
def introduced (introduction : Str) : Option Str → Str
  | none | some [] => []
  | some text => introduction ++ text

def formatSearch (results : List NoteSearchResult) : Str :=
  if results.length = 0 then lit "No matching notes."
  else join [LF] (results.mapIdx fun index searchResult =>
    decimal (index + 1) ++ lit ". " ++ searchResult.path ++ introduced (lit " — ") searchResult.title ++
      introduced (lit "\n  ") searchResult.snippet)

def searchAction (snapshot : Snapshot) (localeCompare : Str → Str → Ordering) (lower : Str → Str)
    (revisionOf : Str → Attributes → Utf8.Bytes → Str) (params : SearchParams) :
    Except NotesError SearchToolResult := do
  let query ← requireSearchQuery params
  let limit := min (params.limit.getD MAX_SEARCH_RESULTS) MAX_SEARCH_RESULTS
  let answered ← search snapshot localeCompare lower revisionOf ⟨query, some limit⟩
  let candidates ← validateSearchResults answered
  let results := candidates.take limit
  return ⟨formatSearch results, results, candidates.length > limit⟩

end PiEnv.Notes.Obsidian
