import PiEnv.Lib.JsMap
import PiEnv.Lib.Transitions
import PiEnv.Notes.ObsidianVault

/-!
# Writing and deleting notes of a vault

`write` and `delete` of the provider, from one await to the next, on a vault that
nothing else changes. What is awaited succeeds or fails, and the signal of a call
aborts, at any time.
-/

namespace PiEnv.Notes.Mutations

open Js

-- -----
-- Files
-- -----

structure Attributes where
  mode : Nat
  owner : Nat
  group : Nat
  changedAt : Nat
  deriving DecidableEq, Repr

structure File where
  content : Str
  attributes : Attributes
  /-- It has a hard link that is no note of the vault. -/
  linkedOutside : Bool
  deriving DecidableEq, Repr

/-- A file is its identity, which stands for its device and inode. -/
inductive Entry where
  | file (identity : Nat)
  | directory
  | symlink
  deriving DecidableEq, Repr

/-- What is below the root by its normalized path, and the files by their identity. -/
structure Disk where
  entries : JsMap Str Entry
  files : List File

/-- `revisionOf` and what `process` says of the platform. -/
structure Host where
  revisionOf : Str → Nat → Attributes → Str → Str
  win32 : Bool
  owner : Nat
  group : Nat

/-- The paths of the directories that a path is in, the outermost first. -/
def parents (path : Str) : List Str :=
  (List.range path.length).filterMap fun n => if path[n]? = some slash then some (path.take n) else none

namespace Disk

def isDirectory (disk : Disk) (path : Str) : Bool := disk.entries.get path == some .directory

def inDirectories (disk : Disk) (path : Str) : Bool := (parents path).all disk.isDirectory

def file (disk : Disk) (path : Str) : Option (Nat × File) :=
  match disk.entries.get path with
  | some (.file identity) => disk.files[identity]?.map fun file => (identity, file)
  | _ => none

def content (disk : Disk) (path : Str) : Option Str := (disk.file path).map (·.2.content)

def revision (host : Host) (disk : Disk) (path : Str) : Option Str :=
  (disk.file path).map fun found =>
    host.revisionOf path found.1 found.2.attributes found.2.content

/-- The file has another name in the vault. -/
def isNamedElsewhere (disk : Disk) (path : Str) (identity : Nat) : Bool :=
  disk.entries.entries.any fun entry => entry.2 == .file identity && entry.1 != path

def makeDirectory (disk : Disk) (path : Str) : Disk :=
  if (disk.entries.get path).isNone then { disk with entries := disk.entries.set path .directory }
  else disk

def makeDirectories (disk : Disk) (paths : List Str) : Disk := paths.foldl makeDirectory disk

def change (disk : Disk) (identity : Nat) (attributes : Attributes → Attributes) : Disk :=
  { disk with files := disk.files.modify identity fun file =>
      { file with attributes := attributes file.attributes } }

end Disk

-- -----
-- Errors
-- -----

structure NotesDeleteRequest where
  path : Str
  expectedRevision : Str
  deriving DecidableEq, Repr

inductive Cause where
  | notes (error : NotesError)
  | aborted
  /-- An error of the file system with the code `EEXIST`, and any other. -/
  | alreadyExists
  | io
  deriving DecidableEq, Repr

def notFound (notePath : Str) : Cause :=
  .notes (.provider .notFound (lit "Note not found: " ++ notePath))

def conflict (notePath : Str) : Cause :=
  .notes (.provider .conflict (lit "Note changed since it was read: " ++ notePath))

def pathEscape (message notePath : Str) : Cause := .notes (.provider .pathEscape (message ++ notePath))

def providerError (message : Str) : Cause → Cause
  | .notes error => .notes error
  | .aborted => .aborted
  | .alreadyExists | .io => .notes (.provider .io message)

def mutationError (notePath message : Str) : Cause → Cause
  | .notes (.provider .notFound _) => conflict notePath
  | cause => providerError message cause

/-- The `catch` block of `create`. -/
def createError (normalized : Str) : Cause → Cause
  | .alreadyExists => conflict normalized
  | cause => providerError (lit "Cannot write note: " ++ normalized) cause

def exceeds (subject : Str) : Cause :=
  .notes (Obsidian.resourceLimit (subject ++ lit " exceeds " ++ decimal MAX_NOTE_BYTES ++ lit " bytes."))

def assertContentSize (content : Str) : Except Cause Unit :=
  if byteLength content > MAX_NOTE_BYTES then .error (exceeds (lit "Note content")) else .ok ()

def normalizeNotePath (input : Str) : Except Cause Str :=
  (Obsidian.normalizeNotePath input).mapError .notes

-- -----
-- Calls
-- -----

inductive Operation where
  | create | replace | delete
  deriving DecidableEq, Repr

/-- How far `resolveExistingNote` and `readDocument` have come. -/
inductive Reading where
  | resolving
  | opening (identity : Nat)
  | reading (identity : Nat) (initial : Attributes)
  deriving DecidableEq, Repr

/-- What a call waits for. -/
inductive Phase where
  /-- Before the queue: `resolveExistingNote`, `requireMissing`, `resolveWritableNote`. -/
  | resolving
  | missing
  | ensuring
  /-- Its turn in the queue. -/
  | waiting (initial : Option Nat)
  | missingAgain
  | ensuringAgain
  | current (initial : Nat) (reading : Reading)
  | stating (identity : Nat)
  /-- The temporary file: `writeFile`, `chown`, `chmod`. -/
  | writing (replaced : Option (Nat × Attributes))
  | owning (identity : Nat) (metadata : Attributes)
  | moding (identity : Nat) (metadata : Attributes)
  | verifying (identity : Nat) (reading : Reading)
  /-- `link`, `rename` or `unlink` of the note. -/
  | committing
  /-- `unlink` of the temporary file, behind the commit or a failure. -/
  | removing (failure : Option Cause)
  /-- The note is read back. -/
  | written (reading : Reading)
  | succeeded (revision : Option Str)
  | failed (cause : Cause)
  deriving DecidableEq, Repr

def Phase.isOver : Phase → Bool
  | .succeeded _ | .failed _ => true
  | _ => false

/-- Inside `withFileMutationQueue`. -/
def Phase.isInside : Phase → Bool
  | .resolving | .missing | .ensuring | .waiting _ | .succeeded _ | .failed _ => false
  | _ => true

structure Call where
  operation : Operation
  /-- The path of the request and its normal form. -/
  requested : Str
  path : Str
  content : Str
  expectedRevision : Option Str
  aborted : Bool
  phase : Phase
  /-- The file at the temporary path of the call. -/
  temp : Option Nat
  deriving DecidableEq, Repr

def Call.report (call : Call) (cause : Cause) : Cause :=
  let message := if call.operation = .delete then lit "Cannot delete note: " else lit "Cannot write note: "
  mutationError call.requested (message ++ call.requested)
    (if call.operation = .create ∧ call.phase.isInside then createError call.path cause else cause)

/-- A commit: what was at the path, and the revision of the note, before it. -/
structure Commit where
  call : Nat
  found : Option Entry
  revision : Option Str
  deriving DecidableEq, Repr

structure State where
  disk : Disk
  calls : List Call
  commits : List Commit

/-- How an awaited operation of the file system ends; one that fails may have been
done in part. -/
inductive Outcome where
  | succeeds
  | fails (partly : Nat)
  deriving DecidableEq, Repr

namespace State

def put (s : State) (i : Nat) (call : Call) : State := { s with calls := s.calls.set i call }

def become (s : State) (i : Nat) (call : Call) (phase : Phase) : State :=
  s.put i { call with phase }

/-- A call throws; what it has of a temporary file is removed first. -/
def fail (s : State) (i : Nat) (call : Call) (cause : Cause) : State :=
  if call.temp.isSome then s.become i call (.removing (some (call.report cause)))
  else s.become i call (.failed (call.report cause))

/-- `nlink !== 1` -/
def isHardLinked (s : State) (path : Str) (identity : Nat) : Bool :=
  s.disk.files[identity]?.any (·.linkedOutside) || s.disk.isNamedElsewhere path identity ||
    s.calls.any (·.temp == some identity)

def symlinkError (notePath : Str) : Cause :=
  pathEscape (lit "Symbolic-link path segments are not allowed: ") notePath

def resolveExistingNote (s : State) (notePath : Str) : Except Cause Nat :=
  match (parents notePath).find? fun parent => !s.disk.isDirectory parent with
  | some parent =>
    match s.disk.entries.get parent with
    | none => .error (notFound notePath)
    | some .symlink => .error (symlinkError notePath)
    | some _ => .error .io
  | none =>
    match s.disk.entries.get notePath with
    | none => .error (notFound notePath)
    | some .symlink => .error (symlinkError notePath)
    | some .directory => .error (pathEscape (lit "Hard-linked notes are not allowed: ") notePath)
    | some (.file identity) =>
      if s.isHardLinked notePath identity then
        .error (pathEscape (lit "Hard-linked notes are not allowed: ") notePath)
      else .ok identity

/-- One await of `resolveExistingNote` and `readDocument`: it is read on, or the
revision is known. -/
def read (s : State) (host : Host) (notePath : Str) (expected : Option Nat) (aborted : Bool) :
    Reading → Except Cause (Reading ⊕ Str)
  | .resolving =>
    match s.resolveExistingNote notePath with
    | .error cause => .error cause
    | .ok identity =>
      if expected.all (· == identity) then .ok (.inl (.opening identity))
      else .error (conflict notePath)
  | .opening identity =>
    match s.disk.file notePath with
    | none => .error .io
    | some (opened, file) =>
      if opened ≠ identity then .error (conflict notePath)
      else if byteLength file.content > MAX_NOTE_BYTES then
        .error (exceeds (lit "Note " ++ notePath))
      else .ok (.inl (.reading identity file.attributes))
  | .reading identity initial =>
    match s.disk.files[identity]? with
    | none => .error .io
    | some file =>
      if aborted then .error .aborted
      else if file.attributes ≠ initial then .error (conflict notePath)
      else .ok (.inr (host.revisionOf notePath identity file.attributes file.content))

/-- `resolveWritableNote`; the directories that it could not make stay missing. -/
def resolveWritableNote (s : State) (notePath : Str) (outcome : Outcome) :
    Disk × Except Cause Unit :=
  match (parents notePath).find? fun parent => !s.disk.isDirectory parent && s.disk.entries.has parent with
  | some parent =>
    (s.disk, .error (if s.disk.entries.get parent = some .symlink then symlinkError notePath else .io))
  | none =>
    match outcome with
    | .succeeds => (s.disk.makeDirectories (parents notePath), .ok ())
    | .fails made => (s.disk.makeDirectories ((parents notePath).take made), .error .io)

def isQueueFree (s : State) (path : Str) : Bool :=
  s.calls.all fun call => !call.phase.isInside || call.path != path

-- -----
-- The phases
-- -----

/-- The function in the queue is called. -/
def enter (s : State) (i : Nat) (call : Call) (initial : Option Nat) : State :=
  match call.operation, initial with
  | .create, _ =>
    if call.aborted then s.fail i call .aborted else s.become i call .missingAgain
  | .delete, some initial =>
    if call.aborted then s.fail i call .aborted else s.become i call (.current initial .resolving)
  | .replace, some initial => s.become i call (.current initial .resolving)
  | _, none => s.fail i call .io

/-- The current revision is known. -/
def checked (s : State) (i : Nat) (call : Call) (identity : Nat) (revision : Str) : State :=
  if some revision ≠ call.expectedRevision then s.fail i call (conflict call.path)
  else if call.operation = .delete then s.become i call (.verifying identity .resolving)
  else s.become i call (.stating identity)

/-- `atomicCreate` or `atomicReplace` begins. -/
def writeTemporary (s : State) (i : Nat) (call : Call) (replaced : Option (Nat × Attributes)) :
    State :=
  if call.aborted then s.fail i call .aborted else s.become i call (.writing replaced)

/-- What follows the check at the commit boundary. -/
def commit (s : State) (i : Nat) (call : Call) : State :=
  if call.aborted then s.fail i call .aborted else s.become i call .committing

/-- `writeFile` has created the temporary file. -/
def created (s : State) (host : Host) (call : Call) (content : Str) (now : Nat) : State × Call :=
  ({ s with disk.files := s.disk.files ++ [⟨content, ⟨33152, host.owner, host.group, now⟩, false⟩] },
    { call with temp := some s.disk.files.length })

/-- The temporary file is complete. -/
def prepare (s : State) (host : Host) (i : Nat) (call : Call) : Option (Nat × Attributes) → State
  | none => s.commit i call
  | some (identity, metadata) =>
    s.become i call (if host.win32 then .verifying identity .resolving else .owning identity metadata)

def changeTemporary (s : State) (call : Call) (attributes : Attributes → Attributes) : State :=
  match call.temp with
  | none => s
  | some identity => { s with disk := s.disk.change identity attributes }

def record (s : State) (host : Host) (i : Nat) (call : Call) : State :=
  { s with commits := s.commits ++
      [⟨i, s.disk.entries.get call.path, s.disk.revision host call.path⟩] }

/-- `link(temp, target)` -/
def link (s : State) (host : Host) (i : Nat) (call : Call) (now : Nat) : State :=
  match call.temp with
  | none => s.fail i call .io
  | some identity =>
    if s.disk.entries.has call.path then s.fail i call .alreadyExists
    else if !s.disk.inDirectories call.path then s.fail i call .io
    else
      let s := s.record host i call
      let disk := s.disk.change identity ({ · with changedAt := now })
      { s with disk.entries := disk.entries.set call.path (.file identity), disk.files := disk.files }.become
        i call (.removing none)

/-- `rename(temp, target)` -/
def rename (s : State) (host : Host) (i : Nat) (call : Call) (now : Nat) : State :=
  match call.temp with
  | none => s.fail i call .io
  | some identity =>
    if s.disk.isDirectory call.path || !s.disk.inDirectories call.path then s.fail i call .io
    else
      let s := s.record host i call
      let disk := s.disk.change identity ({ · with changedAt := now })
      { s with disk.entries := disk.entries.set call.path (.file identity), disk.files := disk.files }.put
        i { call with phase := .written .resolving, temp := none }

/-- `unlink(target)` -/
def unlink (s : State) (host : Host) (i : Nat) (call : Call) : State :=
  if s.disk.isDirectory call.path || !s.disk.entries.has call.path then s.fail i call .io
  else
    let s := s.record host i call
    { s with disk.entries := s.disk.entries.delete call.path }.become i call (.succeeded none)

/-- `unlink(temp)`, which succeeds. -/
def removed (s : State) (i : Nat) (call : Call) (failure : Option Cause) (now : Nat) : State :=
  (s.changeTemporary call ({ · with changedAt := now })).put i
    { call with
      temp := none
      phase := match failure with
        | some cause => .failed cause
        | none => .written .resolving }

-- -----
-- Steps
-- -----

/-- What was awaited fails, or gives its result. -/
def awaited {α : Type} (outcome : Outcome) (result : Except Cause α) : Except Cause α :=
  match outcome with
  | .succeeds => result
  | .fails _ => .error .io

def requireMissing (s : State) (notePath : Str) : Except Cause Unit :=
  match s.resolveExistingNote notePath with
  | .ok _ => .error (conflict notePath)
  | .error (.notes (.provider .notFound _)) => .ok ()
  | .error cause => .error cause

def turn (s : State) (host : Host) (i : Nat) (call : Call) (outcome : Outcome) (now : Nat) :
    Option State :=
  match call.phase with
  | .resolving =>
    match awaited outcome (s.resolveExistingNote call.path) with
    | .error cause => some (s.fail i call cause)
    | .ok identity => some (s.become i call (.waiting (some identity)))
  | .missing =>
    match awaited outcome (s.requireMissing call.path) with
    | .error cause => some (s.fail i call cause)
    | .ok () => some (s.become i call .ensuring)
  | .ensuring =>
    let (disk, result) := s.resolveWritableNote call.path outcome
    match result with
    | .error cause => some ({ s with disk }.fail i call cause)
    | .ok () => some ({ s with disk }.become i call (.waiting none))
  | .waiting initial =>
    if s.isQueueFree call.path then some (s.enter i call initial) else none
  | .missingAgain =>
    match awaited outcome (s.requireMissing call.path) with
    | .error cause => some (s.fail i call cause)
    | .ok () => some (s.become i call .ensuringAgain)
  | .ensuringAgain =>
    let (disk, result) := s.resolveWritableNote call.path outcome
    match result with
    | .error cause => some ({ s with disk }.fail i call cause)
    | .ok () => some ({ s with disk }.writeTemporary i call none)
  | .current initial reading =>
    match awaited outcome (s.read host call.path (some initial) call.aborted reading) with
    | .error cause => some (s.fail i call cause)
    | .ok (.inl reading) => some (s.become i call (.current initial reading))
    | .ok (.inr revision) => some (s.checked i call initial revision)
  | .stating identity =>
    match awaited outcome ((s.disk.file call.path).elim (.error .io) .ok) with
    | .error cause => some (s.fail i call cause)
    | .ok (_, file) => some (s.writeTemporary i call (some (identity, file.attributes)))
  | .writing replaced =>
    match outcome with
    | .succeeds =>
      let (s, call) := s.created host call call.content now
      some (s.prepare host i call replaced)
    | .fails 0 => some (s.fail i call (if call.aborted then .aborted else .io))
    | .fails (partly + 1) =>
      let (s, call) := s.created host call (call.content.take partly) now
      some (s.fail i call (if call.aborted then .aborted else .io))
  | .owning identity metadata =>
    match outcome with
    | .succeeds =>
      let s := s.changeTemporary call
        ({ · with owner := metadata.owner, group := metadata.group, changedAt := now })
      some (s.become i call (.moding identity metadata))
    | .fails _ => some (s.fail i call .io)
  | .moding identity metadata =>
    match outcome with
    | .succeeds =>
      let s := s.changeTemporary call
        ({ · with mode := 32768 + metadata.mode % 4096, changedAt := now })
      some (s.become i call (.verifying identity .resolving))
    | .fails _ => some (s.fail i call .io)
  | .verifying identity reading =>
    match awaited outcome (s.read host call.path (some identity) false reading) with
    | .error cause => some (s.fail i call cause)
    | .ok (.inl reading) => some (s.become i call (.verifying identity reading))
    | .ok (.inr revision) =>
      if some revision ≠ call.expectedRevision then some (s.fail i call (conflict call.path))
      else some (s.commit i call)
  | .committing =>
    match outcome, call.operation with
    | .fails _, _ => some (s.fail i call .io)
    | .succeeds, .create => some (s.link host i call now)
    | .succeeds, .replace => some (s.rename host i call now)
    | .succeeds, .delete => some (s.unlink host i call)
  | .removing failure =>
    match outcome with
    | .succeeds => some (s.removed i call failure now)
    | .fails _ => none
  | .written reading =>
    match awaited outcome (s.read host call.path none call.aborted reading) with
    | .error cause => some (s.fail i call cause)
    | .ok (.inl reading) => some (s.become i call (.written reading))
    | .ok (.inr revision) => some (s.become i call (.succeeded (some revision)))
  | .succeeded _ | .failed _ => none

def push (s : State) (call : Call) : State := { s with calls := s.calls ++ [call] }

/-- `write`, as far as it runs at once. -/
def write (s : State) (request : NotesWriteRequest) (aborted : Bool) : State :=
  let operation : Operation := if request.expectedRevision = none then .create else .replace
  let call : Call :=
    ⟨operation, request.path, request.path, request.content, request.expectedRevision, aborted,
      .resolving, none⟩
  if aborted then s.push { call with phase := .failed (call.report .aborted) }
  else
    match assertContentSize request.content, normalizeNotePath request.path with
    | .error cause, _ | .ok (), .error cause => s.push { call with phase := .failed (call.report cause) }
    | .ok (), .ok path =>
      s.push { call with path, phase := if operation = .create then .missing else .resolving }

/-- `delete`, as far as it runs at once. -/
def delete (s : State) (request : NotesDeleteRequest) (aborted : Bool) : State :=
  let call : Call :=
    ⟨.delete, request.path, request.path, [], some request.expectedRevision, aborted, .resolving, none⟩
  if aborted then s.push { call with phase := .failed (call.report .aborted) }
  else
    match normalizeNotePath request.path with
    | .error cause => s.push { call with phase := .failed (call.report cause) }
    | .ok path => s.push { call with path }

def abort (s : State) (i : Nat) : State :=
  match s.calls[i]? with
  | none => s
  | some call => s.put i { call with aborted := true }

end State

inductive Event where
  | write (request : NotesWriteRequest) (aborted : Bool)
  | delete (request : NotesDeleteRequest) (aborted : Bool)
  | turn (call : Nat) (outcome : Outcome) (now : Nat)
  | abort (call : Nat)
  deriving Repr

def step (host : Host) (s : State) : Event → Option State
  | .write request aborted => some (s.write request aborted)
  | .delete request aborted => some (s.delete request aborted)
  | .turn i outcome now => s.calls[i]?.bind fun call => s.turn host i call outcome now
  | .abort i => some (s.abort i)

/-- A vault that is found: its files are there. -/
structure Vault extends Disk where
  valid : ∀ path identity, entries.get path = some (.file identity) → identity < files.length

def initial (vault : Vault) : State := ⟨vault.toDisk, [], []⟩

end PiEnv.Notes.Mutations
