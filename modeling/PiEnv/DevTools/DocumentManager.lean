import Mathlib.Data.List.Sort
import PiEnv.Lib.JsMap
import PiEnv.Lib.PosixPath

/-!
# Documents of a language server

The table of open documents, and the notifications that bring a server up to
date with it.
-/

namespace PiEnv.DevTools

open Js

structure OpenDocument where
  uri : Str
  absolutePath : Str
  projectRoot : Str
  languageId : Str
  version : Nat
  content : Str
  /-- Counts accesses, for the eviction of the least recently used. -/
  lastAccess : Nat
  deriving DecidableEq, Repr

def MAX_OPEN_DOCUMENTS : Nat := 50

/-- What the manager is given, and what node:path and node:url know. -/
structure Documents where
  cwd : Str
  pathToUri : Str → Str
  resolveLanguageId : Str → Str

structure DocumentManager where
  openDocs : JsMap Str OpenDocument
  rootCache : JsMap Str Str
  projectFiles : JsMap Str (List Str)
  accessCounter : Nat

/-- A document notification, with the params a server reads. -/
inductive DocumentNotification where
  | didOpen (uri languageId : Str) (version : Nat) (text : Str)
  | didChange (uri : Str) (version : Nat) (text : Str)
  | didClose (uri : Str)
  deriving DecidableEq, Repr

namespace DocumentNotification

def uri : DocumentNotification → Str
  | didOpen uri _ _ _ => uri
  | didChange uri _ _ => uri
  | didClose uri => uri

end DocumentNotification

namespace DocumentManager

def empty : DocumentManager := ⟨.empty, .empty, .empty, 0⟩

/-- Everything but the counter. -/
def clear (m : DocumentManager) : DocumentManager := { empty with accessCounter := m.accessCounter }

def openUris (m : DocumentManager) : List Str := m.openDocs.keys

def projectRoots (m : DocumentManager) : List Str := m.projectFiles.keys

def getDoc (m : DocumentManager) (uri : Str) : Option OpenDocument := m.openDocs.get uri

/-- The root of a file; `resolved` is what `resolveProjectRoot` answers for it
now. An empty root in the cache counts as none. -/
def getProjectRoot (m : DocumentManager) (abs : Str) (resolved : Option Str) :
    Str × DocumentManager :=
  match m.rootCache.get abs with
  | some (unit :: cached) => (unit :: cached, m)
  | _ =>
    let root := resolved.getD (Posix.dirname abs)
    (root, { m with rootCache := m.rootCache.set abs root })

def addProjectFile (m : DocumentManager) (projectRoot uri : Str) : DocumentManager :=
  let files := (m.projectFiles.get projectRoot).getD []
  { m with projectFiles := m.projectFiles.set projectRoot (files.insert uri) }

def removeProjectFile (m : DocumentManager) (projectRoot uri : Str) : DocumentManager :=
  match m.projectFiles.get projectRoot with
  | none => m
  | some files =>
    let left := files.filter (· ≠ uri)
    { m with
      projectFiles :=
        if left.isEmpty then m.projectFiles.delete projectRoot
        else m.projectFiles.set projectRoot left }

structure Opened where
  notification : Option DocumentNotification
  isNewRoot : Bool
  projectRoot : Str

/-- `open`; `content` is what reading the file gives now. -/
def openFile (env : Documents) (m : DocumentManager) (abs : Str) (content resolved : Option Str) :
    Opened × DocumentManager :=
  match content with
  | none =>
    let (projectRoot, m) := m.getProjectRoot abs resolved
    (⟨none, false, projectRoot⟩, m)
  | some content =>
    let uri := env.pathToUri abs
    let (projectRoot, m) := m.getProjectRoot abs resolved
    let languageId := env.resolveLanguageId abs
    let isNewRoot := !m.projectFiles.has projectRoot
    let m := m.addProjectFile projectRoot uri
    let access := m.accessCounter + 1
    match m.openDocs.get uri with
    | none =>
      (⟨some (.didOpen uri languageId 1 content), isNewRoot, projectRoot⟩,
        { m with
          openDocs := m.openDocs.set uri ⟨uri, abs, projectRoot, languageId, 1, content, access⟩
          accessCounter := access })
    | some existing =>
      if existing.content = content then
        (⟨none, false, projectRoot⟩,
          { m with
            openDocs := m.openDocs.set uri { existing with lastAccess := access }
            accessCounter := access })
      else
        let version := existing.version + 1
        (⟨some (.didChange uri version content), false, projectRoot⟩,
          { m with
            openDocs := m.openDocs.set uri { existing with version, content, lastAccess := access }
            accessCounter := access })

def ensure (env : Documents) (m : DocumentManager) (absolutePath : Str)
    (content resolved : Option Str) : Str × Opened × DocumentManager :=
  let abs := Posix.resolve env.cwd absolutePath
  (env.pathToUri abs, m.openFile env abs content resolved)

def removeDoc (m : DocumentManager) (doc : OpenDocument) : DocumentManager :=
  { m with openDocs := m.openDocs.delete doc.uri }.removeProjectFile doc.projectRoot doc.uri

/-- The documents to evict, the least recently used first. -/
def toEvict (m : DocumentManager) (maxOpen : Nat) : List OpenDocument :=
  if m.openDocs.size ≤ maxOpen then []
  else
    (m.openDocs.values.mergeSort fun a b => decide (a.lastAccess ≤ b.lastAccess)).take
      (m.openDocs.size - maxOpen)

def evict (m : DocumentManager) (maxOpen : Nat) : List Str × DocumentManager :=
  ((m.toEvict maxOpen).map (·.uri), (m.toEvict maxOpen).foldl removeDoc m)

def close (env : Documents) (m : DocumentManager) (absolutePath : Str) : Option Str × DocumentManager :=
  let uri := env.pathToUri (Posix.resolve env.cwd absolutePath)
  match m.openDocs.get uri with
  | none => (none, m)
  | some doc => (some uri, { m with openDocs := m.openDocs.delete uri }.removeProjectFile doc.projectRoot uri)

variable {m : DocumentManager}

@[simp] theorem getProjectRoot_openDocs {abs : Str} {resolved : Option Str} :
    (m.getProjectRoot abs resolved).2.openDocs = m.openDocs := by
  unfold getProjectRoot
  split <;> rfl

@[simp] theorem addProjectFile_openDocs {projectRoot uri : Str} :
    (m.addProjectFile projectRoot uri).openDocs = m.openDocs := rfl

@[simp] theorem removeProjectFile_openDocs {projectRoot uri : Str} :
    (m.removeProjectFile projectRoot uri).openDocs = m.openDocs := by
  unfold removeProjectFile
  split <;> rfl

end DocumentManager

end PiEnv.DevTools
