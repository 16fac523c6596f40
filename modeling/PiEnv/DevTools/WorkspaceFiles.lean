import Mathlib.Algebra.GroupWithZero.Nat
import PiEnv.DevTools.WorkspaceEdit
import PiEnv.Lib.PosixPath
import PiEnv.Lib.Program
import PiEnv.Lib.Utf8

/-!
# Applying a workspace edit to the file system

The write scope, the staging of each file, the renames that commit them and
the rollback, as a program over system calls that may fail.
-/

namespace PiEnv.DevTools

open Js Posix Effects
open Js.Utf8 (Bytes)

-- -----
-- System calls
-- -----

/-- `undo` marks the calls of an error handler. The file system does not see
it: it says which calls are taken to succeed. -/
inductive FsOp where
  | realpath (path : Str)
  | readFile (path : Str)
  | stat (path : Str)
  | randomUUID
  | openNew (path : Str) (mode : Nat)
  | writeFile (path : Str) (bytes : Bytes)
  | chmod (path : Str) (mode : Nat)
  | sync (path : Str)
  | close (path : Str)
  | rm (path : Str) (undo : Bool)
  | rename (source target : Str) (undo : Bool)
  deriving DecidableEq, Repr

/-- A system call failed. -/
inductive FsError where
  | failed
  deriving DecidableEq, Repr

def FsRes : FsOp → Type
  | .realpath _ => Except FsError Str
  | .readFile _ => Except FsError Bytes
  | .stat _ => Except FsError Nat
  | .randomUUID => Str
  | _ => Except FsError Unit

abbrev FsProg := Prog FsOp FsRes
abbrev FsM := ExceptT Failure FsProg

/-- What a failed call throws. -/
def thrown (answer : Except FsError α) : Except Failure α := answer.mapError fun _ => .io

def realpath (path : Str) : FsM Str := ExceptT.mk (thrown <$> (@call FsOp FsRes (.realpath path)))

def readBytes (path : Str) : FsM Bytes :=
  ExceptT.mk (thrown <$> (@call FsOp FsRes (.readFile path)))

/-- `readFile(path, "utf8")` -/
def readFile (path : Str) : FsM Str := return Utf8.decode (← readBytes path)

def stat (path : Str) : FsM Nat := ExceptT.mk (thrown <$> (@call FsOp FsRes (.stat path)))

def randomUUID : FsM Str := ExceptT.mk (Except.ok <$> (@call FsOp FsRes .randomUUID))

def openNew (path : Str) (mode : Nat) : FsM Unit :=
  ExceptT.mk (thrown <$> (@call FsOp FsRes (.openNew path mode)))

def writeFile (path : Str) (bytes : Bytes) : FsM Unit :=
  ExceptT.mk (thrown <$> (@call FsOp FsRes (.writeFile path bytes)))

def chmod (path : Str) (mode : Nat) : FsM Unit :=
  ExceptT.mk (thrown <$> (@call FsOp FsRes (.chmod path mode)))

def sync (path : Str) : FsM Unit := ExceptT.mk (thrown <$> (@call FsOp FsRes (.sync path)))

def close (path : Str) : FsM Unit := ExceptT.mk (thrown <$> (@call FsOp FsRes (.close path)))

def rm (path : Str) (undo : Bool) : FsM Unit :=
  ExceptT.mk (thrown <$> (@call FsOp FsRes (.rm path undo)))

def rename (source target : Str) (undo : Bool) : FsM Unit :=
  ExceptT.mk (thrown <$> (@call FsOp FsRes (.rename source target undo)))

/-- `Promise.allSettled`, or `.catch(() => {})` on one promise: the calls are
made whatever becomes of them, and none of them throws. -/
def allSettled (actions : List (FsM Unit)) : FsProg (List (Except Failure Unit)) :=
  actions.mapM ExceptT.run

-- -----
-- Scope
-- -----

structure WorkspaceDocumentSnapshot where
  version : Nat
  content : Str
  deriving DecidableEq, Repr

abbrev GetSnapshot := Str → Option WorkspaceDocumentSnapshot

structure Authorization where
  getDocumentSnapshot : Option GetSnapshot

structure ApplyOptions where
  allowedRoots : List Str
  /-- Returns undefined or an authorization, or throws. -/
  authorizeTarget : Option (Str → Str → Except Failure (Option Authorization))
  getDocumentSnapshot : Option GetSnapshot

def pathContains (cwd root target : Str) : Bool :=
  let child := relative cwd root target
  child == [] || (child != dotdot && !(dotdot ++ [slash]).isPrefixOf child && !isAbsolute child)

structure AuthorizedFileEdit extends WorkspaceFileEdits where
  writePath : Str
  authorization : Option Authorization

def authorizeTarget (host : Host) (options : ApplyOptions) (lexicalRoots realRoots : List Str)
    (file : WorkspaceFileEdits) : FsM AuthorizedFileEdit := do
  if !lexicalRoots.any (pathContains host.cwd · (resolve host.cwd file.absolutePath)) then
    throw (workspaceEditError
      (file.absolutePath ++ lit " is outside the allowed workspace roots."))
  else
    let writePath ← realpath file.absolutePath
    if !realRoots.any (pathContains host.cwd · writePath) then
      throw (workspaceEditError
        (file.absolutePath ++ lit " resolves outside the allowed workspace roots."))
    else
      match options.authorizeTarget with
      | none => return ⟨file, writePath, none⟩
      | some authorize =>
        let authorization ← authorize file.absolutePath writePath
        return ⟨file, writePath, authorization⟩

def authorizeWorkspaceTargets (host : Host) (files : List WorkspaceFileEdits)
    (options : ApplyOptions) : FsM (List AuthorizedFileEdit) := do
  if options.allowedRoots.length = 0 then
    throw (workspaceEditError (lit "Workspace edit requires an explicit write scope."))
  else if options.allowedRoots.any (!isAbsolute ·) then
    throw (workspaceEditError (lit "Workspace edit allowed roots must be absolute paths."))
  else
    let lexicalRoots := options.allowedRoots.map (resolve host.cwd)
    let realRoots ← lexicalRoots.mapM realpath
    files.mapM (authorizeTarget host options lexicalRoots realRoots)

-- -----
-- Staging and commit
-- -----

structure SourceFileEdit extends AuthorizedFileEdit where
  content : Str

structure PreparedFileEdit extends SourceFileEdit where
  updatedContent : Str

structure StagedFileEdit extends PreparedFileEdit where
  stagedPath : Str
  backupPath : Str

inductive TemporaryRole where
  | staged | backup
  deriving DecidableEq, Repr

def TemporaryRole.text : TemporaryRole → Str
  | .staged => lit "staged"
  | .backup => lit "backup"

def temporaryName (host : Host) (absolutePath : Str) (role : TemporaryRole) (uuid : Str) : Str :=
  lit "." ++ basename absolutePath ++ lit ".pi-dev-tools-" ++ role.text ++ lit "-" ++
    decimal host.pid ++ lit "-" ++ uuid

def siblingTemporaryPath (host : Host) (absolutePath : Str) (role : TemporaryRole) : FsM Str := do
  let uuid ← randomUUID
  return joinPath (dirname absolutePath) (temporaryName host absolutePath role uuid)

def writeStaged (stagedPath updatedContent : Str) (mode : Nat) : FsM Unit := do
  writeFile stagedPath (Utf8.encode updatedContent)
  chmod stagedPath mode
  sync stagedPath
  close stagedPath

def discardStaged (stagedPath : Str) (cause : Failure) : FsM Unit := do
  let _ ← allSettled [close stagedPath]
  let _ ← allSettled [rm stagedPath true]
  throw cause

def stageWorkspaceFile (host : Host) (update : PreparedFileEdit) : FsM StagedFileEdit := do
  let stagedPath ← siblingTemporaryPath host update.writePath .staged
  let backupPath ← siblingTemporaryPath host update.writePath .backup
  let mode ← stat update.writePath
  openNew stagedPath mode
  tryCatch (writeStaged stagedPath update.updatedContent mode) (discardStaged stagedPath)
  return ⟨update, stagedPath, backupPath⟩

/-- The staging loop: the files it staged, and what stopped it if it was. -/
def stageAll (host : Host) (staged : List StagedFileEdit) :
    List PreparedFileEdit → FsProg (List StagedFileEdit × Except Failure Unit)
  | [] => return (staged, .ok ())
  | update :: rest => do
    match ← (stageWorkspaceFile host update).run with
    | .error cause => return (staged, .error cause)
    | .ok file => stageAll host (staged ++ [file]) rest

def checkUnchanged : List StagedFileEdit → List Str → Except Failure Unit
  | update :: staged, current :: currentContents =>
    if current ≠ update.content then
      .error (workspaceEditError
        (update.absolutePath ++ lit " changed while the workspace edit was staged."))
    else checkUnchanged staged currentContents
  | _, _ => .ok ()

def recheck (staged : List StagedFileEdit) : FsM Unit := do
  let currentContents ← staged.mapM fun update => readFile update.writePath
  checkUnchanged staged currentContents

/-- The commit loop: the files it has moved away, and what stopped it. -/
def commitAll (backedUp : List StagedFileEdit) :
    List StagedFileEdit → FsProg (List StagedFileEdit × Except Failure Unit)
  | [] => return (backedUp, .ok ())
  | update :: rest => do
    match ← (rename update.writePath update.backupPath false).run with
    | .error cause => return (backedUp, .error cause)
    | .ok () =>
      match ← (rename update.stagedPath update.writePath false).run with
      | .error cause => return (backedUp ++ [update], .error cause)
      | .ok () => commitAll (backedUp ++ [update]) rest

def restore (update : StagedFileEdit) : FsM Unit := do
  rm update.writePath true
  rename update.backupPath update.writePath true

def isRejected : Except Failure Unit → Bool
  | .error _ => true
  | .ok () => false

def rollback (staged backedUp : List StagedFileEdit) (cause : Failure) : FsM Unit := do
  let results ← allSettled (backedUp.reverse.map restore)
  let _ ← allSettled (staged.map fun update => rm update.stagedPath true)
  if results.any isRejected then
    throw (workspaceEditError (lit "Workspace edit failed and rollback was incomplete."))
  else throw cause

def commitFiles (staged : List StagedFileEdit) : FsM Unit := do
  match ← (commitAll [] staged : FsProg _) with
  | (backedUp, .error cause) => rollback staged backedUp cause
  | (backedUp, .ok ()) =>
    let _ ← allSettled (backedUp.map fun update => rm update.backupPath false)

/-- The first `try` block: what it staged, and what it threw. -/
def stageAndCheck (host : Host) (updates : List PreparedFileEdit) :
    FsProg (List StagedFileEdit × Except Failure Unit) := do
  match ← stageAll host [] updates with
  | (staged, .error cause) => return (staged, .error cause)
  | (staged, .ok ()) => return (staged, ← (recheck staged).run)

def replaceWorkspaceFiles (host : Host) (updates : List PreparedFileEdit) : FsM Unit := do
  match ← (stageAndCheck host updates : FsProg _) with
  | (staged, .error cause) =>
    let _ ← allSettled (staged.map fun update => rm update.stagedPath true)
    throw cause
  | (staged, .ok ()) => commitFiles staged

-- -----
-- The edit
-- -----

def snapshotOf (options : ApplyOptions) (file : AuthorizedFileEdit) :
    Option WorkspaceDocumentSnapshot :=
  ((file.authorization.bind (·.getDocumentSnapshot)).bind (· file.absolutePath)).or
    (options.getDocumentSnapshot.bind (· file.absolutePath))

def checkVersion (options : ApplyOptions) (file : AuthorizedFileEdit) (content : Str) :
    Except Failure Unit :=
  match file.expectedVersion with
  | .number version =>
    match snapshotOf options file with
    | none => .error (workspaceEditError
        (file.absolutePath ++ lit " document version does not match the workspace edit."))
    | some snapshot =>
      if snapshot.version ≠ version then
        .error (workspaceEditError
          (file.absolutePath ++ lit " document version does not match the workspace edit."))
      else if snapshot.content ≠ content then
        .error (workspaceEditError (file.absolutePath ++
          lit " changed after the language server produced the workspace edit."))
      else .ok ()
  | _ => .ok ()

def readSource (options : ApplyOptions) (file : AuthorizedFileEdit) : FsM SourceFileEdit := do
  let content ← readFile file.writePath
  checkVersion options file content
  return ⟨file, content⟩

def prepare (file : SourceFileEdit) : Except Failure PreparedFileEdit := do
  let updatedContent ← applyTextEdits file.content file.toWorkspaceFileEdits
  return ⟨file, updatedContent⟩

structure AppliedWorkspaceFileEdit where
  absolutePath : Str
  editCount : Nat
  deriving DecidableEq, Repr

structure AppliedWorkspaceEdit where
  files : List AppliedWorkspaceFileEdit
  totalEdits : Nat
  deriving DecidableEq, Repr

def applied (updates : List PreparedFileEdit) : AppliedWorkspaceEdit where
  files := updates.map fun file => ⟨file.absolutePath, file.edits.length⟩
  totalEdits := (updates.map fun file => file.edits.length).sum

def prepareAll (host : Host) (value : Json) (options : ApplyOptions) :
    FsM (List PreparedFileEdit) := do
  let files ← parseWorkspaceEdit host value
  let authorizedFiles ← authorizeWorkspaceTargets host files options
  let sourceFiles ← authorizedFiles.mapM (readSource options)
  if ¬ (sourceFiles.map (·.writePath)).Nodup then
    throw (workspaceEditError (lit "Workspace edit contains multiple paths to the same file."))
  else sourceFiles.mapM fun file => (prepare file : FsM PreparedFileEdit)

/-- The message of the error an edit ends in. -/
def Failure.message : Failure → Str
  | .apply message => message
  | .io => lit "Workspace edit could not be applied."

def applyWorkspaceEdit (host : Host) (value : Json) (options : ApplyOptions) :
    FsProg (Except Str AppliedWorkspaceEdit) := do
  let result ← (do
    let updates ← prepareAll host value options
    replaceWorkspaceFiles host updates
    return applied updates : FsM AppliedWorkspaceEdit).run
  return result.mapError Failure.message

end PiEnv.DevTools
