import PiEnv.Lib.PosixPath
import PiEnv.Lib.Sorting
import PiEnv.Notes.Cursor
import PiEnv.Notes.Inventory

/-!
# Listing an Obsidian vault

The walk of a vault, and the pages of the notes it comes by.
-/

namespace PiEnv.Notes.Obsidian

open Js

def MAX_VAULT_ENTRIES : Nat := 50000
def MAX_DIRECTORY_DEPTH : Nat := 64

inductive DirentKind where
  | file | directory | other
  deriving DecidableEq, Repr

structure Dirent where
  name : Str
  kind : DirentKind
  deriving DecidableEq, Repr

structure Metadata where
  isFile : Bool
  nlink : Nat
  size : Number
  mtimeMs : Number
  deriving DecidableEq, Repr

/-- What the file system answers for paths below the root of a vault; `none`
where it fails. -/
structure Vault where
  opendir : Str → Option (List Dirent)
  lstat : Str → Option Metadata

def resourceLimit (message : Str) : NotesError := .provider .resourceLimit message

/-- A failure of the file system, as `providerError` reports it. -/
def listError : NotesError := .provider .io (lit "Cannot list Obsidian notes")

-- -----
-- Paths
-- -----

def normalizeNotePath (input : Str) : Except NotesError Str :=
  let stripped := forwardSlashes input
  if stripped.length = 0 || stripped.length > 1024 || pathIsAbsolute stripped ||
      startsWith stripped (lit "@") || stripped.contains 58 || stripped.any isControl then
    .error (.provider .invalidPath (lit "Invalid note path: " ++ input))
  else
    let normalized := Posix.normalize stripped
    if escapesStore (split [slash] stripped) normalized then
      .error (.provider .pathEscape (lit "Note path escapes the vault: " ++ input))
    else if (Posix.extname normalized).map toLowerUnit ≠ lit ".md" then
      .error (.provider .notANote (lit "Note path must end in .md: " ++ input))
    else .ok normalized

def normalizePrefix (input : Str) : Except NotesError Str :=
  let stripped := forwardSlashes input
  if stripped = [] then .ok []
  else if stripped.length > 1024 || Posix.isAbsolute stripped || startsWith stripped (lit "@") ||
      stripped.contains 58 || stripped.any isControl then
    .error (.provider .invalidPath (lit "Invalid note prefix: " ++ input))
  else
    let normalized := Posix.normalize stripped
    let normalized := if startsWith normalized (lit "./") then normalized.drop 2 else normalized
    if escapesStore (split [slash] stripped) normalized then
      .error (.provider .pathEscape (lit "Note prefix escapes the vault: " ++ input))
    else .ok normalized

def isPortableNotePath (notePath : Str) : Bool :=
  match normalizeNotePath notePath with
  | .ok normalized => normalized == notePath
  | .error _ => false

-- -----
-- Cursors
-- -----

def prefixJson (within : Option Str) : Json :=
  match within with
  | none => .null
  | some within => .str within

def listCursorPayload (notePath : Str) (within : Option Str) : List (Str × Json) :=
  [(lit "v", .num (.ofInt 1)), (lit "path", .str notePath), (lit "prefix", prefixJson within)]

def encodeListCursor (notePath : Str) (within : Option Str) : Str :=
  packJson (.obj (listCursorPayload notePath within))

/-- `payload.prefix === (prefix ?? null)` -/
def prefixMatches (payload : List (Str × Json)) (within : Option Str) : Bool :=
  match field payload (lit "prefix"), within with
  | some .null, none => true
  | some (.str value), some within => value == within
  | _, _ => false

def decodeListCursor (cursor within : Option Str) : Except NotesError (Option Str) :=
  match cursor with
  | none => .ok none
  | some cursor =>
    let path? := match unpackJson cursor with
      | some (.obj payload) =>
        match textField payload (lit "path") with
        | some path =>
          if numberField payload (lit "v") = some (.ofInt 1) && prefixMatches payload within &&
              encodeListCursor path within == cursor && isPortableNotePath path then some path
          else none
        | none => none
      | _ => none
    match path? with
    | some path => .ok (some path)
    | none => .error (.provider .invalidPath (lit "Invalid notes list cursor."))

-- -----
-- The walk
-- -----

structure WalkState where
  paths : List Str
  entries : Nat
  deriving DecidableEq, Repr

/-- The path of an entry of a directory, relative to the root. -/
def childPath (directory name : Str) : Str :=
  if directory = [] then name else directory ++ [slash] ++ name

def isHidden (entry : Dirent) : Bool := startsWith entry.name (lit ".")

/-- An entry that is a note by its name. -/
def isNoteEntry (directory : Str) (entry : Dirent) : Bool :=
  entry.kind == .file && (Posix.extname entry.name).map toLowerUnit == lit ".md" &&
    isPortableNotePath (childPath directory entry.name)

section
variable (vault : Vault) (localeCompare : Str → Str → Ordering)

def sortEntries (entries : List Dirent) : List Dirent :=
  entries.mergeSort fun left right => (localeCompare left.name right.name).isLE

def pushPath (state : WalkState) (notePath : Str) : Except NotesError WalkState :=
  if state.paths.length + 1 > MAX_NOTE_COUNT then
    .error (resourceLimit (lit "Vault contains more than " ++ decimal MAX_NOTE_COUNT ++
      lit " Markdown notes."))
  else .ok { state with paths := state.paths ++ [notePath] }

/-- The loop body of the walk, where `walk` goes on below a directory. -/
def walkEntry (walk : Str → WalkState → Except NotesError WalkState) (directory : Str)
    (state : WalkState) (entry : Dirent) : Except NotesError WalkState :=
  if isHidden entry then .ok state
  else if entry.kind = .directory then walk (childPath directory entry.name) state
  else if isNoteEntry directory entry then pushPath state (childPath directory entry.name)
  else .ok state

/-- The first argument is how many levels may still be entered. -/
def walkMarkdownFiles : Nat → Str → WalkState → Except NotesError WalkState
  | 0, _, _ => .error (resourceLimit (lit "Vault directory depth exceeds " ++
      decimal MAX_DIRECTORY_DEPTH ++ lit "."))
  | depth + 1, directory, state =>
    match vault.opendir directory with
    | none => .error listError
    | some entries =>
      if state.entries + entries.length > MAX_VAULT_ENTRIES then
        .error (resourceLimit (lit "Vault contains more than " ++ decimal MAX_VAULT_ENTRIES ++
          lit " entries."))
      else
        (sortEntries localeCompare entries).foldlM
          (walkEntry (walkMarkdownFiles depth) directory)
          { state with entries := state.entries + entries.length }

/-- The paths of a vault, sorted. -/
def sortedPaths : Except NotesError (List Str) := do
  let state ← walkMarkdownFiles vault localeCompare (MAX_DIRECTORY_DEPTH + 1) [] ⟨[], 0⟩
  return state.paths.mergeSort fun left right => (localeCompare left right).isLE

-- -----
-- One page
-- -----

def noteEntry (notePath : Str) (metadata : Metadata) : NoteEntry :=
  ⟨notePath, none, some metadata.size, some metadata.mtimeMs⟩

/-- A path that the loop of `list` passes over unseen. -/
def isSkipped (within cursor : Option Str) (notePath : Str) : Bool :=
  !within.all (startsWith notePath) || cursor.any fun c => (localeCompare notePath c).isLE

/-- The loop of `list` after these entries, and whether there is more. -/
def collectEntries (within cursor : Option Str) (limit : Nat) :
    List NoteEntry → List Str → Except NotesError (List NoteEntry × Bool)
  | entries, [] => .ok (entries, false)
  | entries, notePath :: rest =>
    if isSkipped localeCompare within cursor notePath then
      collectEntries within cursor limit entries rest
    else if entries.length = limit then .ok (entries, true)
    else
      match vault.lstat notePath with
      | none => .error listError
      | some metadata =>
        if !metadata.isFile || metadata.nlink ≠ 1 then
          collectEntries within cursor limit entries rest
        else collectEntries within cursor limit (entries ++ [noteEntry notePath metadata]) rest

def listCursor (within : Option Str) (entries : List NoteEntry) (hasMore : Bool) : Option Str :=
  if hasMore then entries.getLast?.map fun entry => encodeListCursor entry.path within else none

def explicitPrefix (pathPrefix : Option Str) : Except NotesError (Option Str) :=
  match pathPrefix with
  | none => .ok none
  | some pathPrefix => (normalizePrefix pathPrefix).map some

def list (request : NotesListRequest) : Except NotesError NotesListResult := do
  let within ← explicitPrefix request.pathPrefix
  let cursor ← decodeListCursor request.cursor within
  let limit := min (request.limit.getD MAX_NOTE_COUNT) MAX_NOTE_COUNT
  let paths ← sortedPaths vault localeCompare
  let (entries, hasMore) ← collectEntries vault localeCompare within cursor limit [] paths
  return ⟨entries, listCursor within entries hasMore⟩
end

end PiEnv.Notes.Obsidian
