import Mathlib.Data.List.Sort
import PiEnv.Lib.Json

/-!
# Workspace edits

Decoding of the edit a language server returns, and its application to the
text of one file.
-/

namespace PiEnv.DevTools

open Js

/-- What the edit throws: its own error, or the failure of a system call. -/
inductive Failure where
  | apply (message : Str)
  | io
  deriving DecidableEq, Repr

structure LspPosition where
  line : Nat
  character : Nat
  deriving DecidableEq, Repr

structure LspRange where
  start : LspPosition
  stop : LspPosition
  deriving DecidableEq, Repr

structure LspTextEdit where
  range : LspRange
  newText : Str
  deriving DecidableEq, Repr

/-- `number | null | undefined` -/
inductive DocumentVersion where
  | undefined
  | null
  | number (value : Nat)
  deriving DecidableEq, Repr

/-- `version ?? other` -/
def DocumentVersion.orElse : DocumentVersion → DocumentVersion → DocumentVersion
  | .number value, _ => .number value
  | _, other => other

structure WorkspaceFileEdits where
  absolutePath : Str
  edits : List LspTextEdit
  expectedVersion : DocumentVersion
  deriving DecidableEq, Repr

def workspaceEditError (message : Str) : Failure := .apply message

-- -----
-- Decoding
-- -----

/-- `Number.isInteger(value) && value >= 0` -/
def nonNegativeInteger : Option Json → Option Nat
  | some (.num n) =>
    match n.integer? with
    | some (.ofNat value) => some value
    | _ => none
  | _ => none

def parsePosition (value : Option Json) (label : Str) : Except Failure LspPosition :=
  match value with
  | some (.obj fields) =>
    match nonNegativeInteger (field fields (lit "line")) with
    | none => .error (workspaceEditError (label ++ lit ".line must be a non-negative integer."))
    | some line =>
      match nonNegativeInteger (field fields (lit "character")) with
      | none =>
        .error (workspaceEditError (label ++ lit ".character must be a non-negative integer."))
      | some character => .ok ⟨line, character⟩
  | _ => .error (workspaceEditError (label ++ lit " must be an object."))

def parseTextEdit (value : Json) (label : Str) : Except Failure LspTextEdit :=
  match value with
  | .obj fields =>
    match field fields (lit "newText") with
    | some (.str newText) =>
      match field fields (lit "range") with
      | some (.obj range) => do
        let start ← parsePosition (field range (lit "start")) (label ++ lit ".range.start")
        let stop ← parsePosition (field range (lit "end")) (label ++ lit ".range.end")
        return ⟨⟨start, stop⟩, newText⟩
      | _ => .error (workspaceEditError (label ++ lit ".range must be an object."))
    | _ => .error (workspaceEditError (label ++ lit ".newText must be a string."))
  | _ => .error (workspaceEditError (label ++ lit " must be an object."))

/-- Why a URI has no file path. -/
inductive UriProblem where
  | invalid | notFile | notConvertible
  deriving DecidableEq, Repr

/-- What the process takes from its surroundings. -/
structure Host where
  cwd : Str
  pid : Nat
  /-- `new URL(uri)`, its protocol, and `fileURLToPath(url)`. -/
  fileURLToPath : Str → Except UriProblem Str

def filePathFromUri (host : Host) (uri : Str) : Except Failure Str :=
  match host.fileURLToPath uri with
  | .ok path => .ok path
  | .error .invalid =>
    .error (workspaceEditError (lit "Workspace edit URI is invalid: " ++ uri))
  | .error .notFile =>
    .error (workspaceEditError (lit "Workspace edit URI must use the file scheme: " ++ uri))
  | .error .notConvertible =>
    .error (workspaceEditError
      (lit "Workspace edit URI cannot be converted to a file path: " ++ uri))

/-- `map.set(key, value)` for the key of the file. -/
def setFile (file : WorkspaceFileEdits) : List WorkspaceFileEdits → List WorkspaceFileEdits
  | [] => [file]
  | other :: rest =>
    if other.absolutePath == file.absolutePath then file :: rest else other :: setFile file rest

def mergeFile (files : List WorkspaceFileEdits) (absolutePath : Str) (edits : List LspTextEdit)
    (expectedVersion : DocumentVersion) : Except Failure (List WorkspaceFileEdits) :=
  match files.find? (·.absolutePath == absolutePath) with
  | none => .ok (setFile ⟨absolutePath, edits, expectedVersion⟩ files)
  | some existing =>
    if existing.expectedVersion ≠ .undefined && expectedVersion ≠ .undefined &&
        existing.expectedVersion ≠ expectedVersion then
      .error (workspaceEditError (absolutePath ++ lit " has conflicting document versions."))
    else
      .ok (setFile ⟨absolutePath, existing.edits ++ edits,
        existing.expectedVersion.orElse expectedVersion⟩ files)

def addEdits (host : Host) (files : List WorkspaceFileEdits) (uri : Str) (rawEdits : Option Json)
    (label : Str) (expectedVersion : DocumentVersion) : Except Failure (List WorkspaceFileEdits) :=
  match rawEdits with
  | some (.arr items) => do
    let absolutePath ← filePathFromUri host uri
    let edits ← items.zipIdx.mapM fun (edit, index) =>
      parseTextEdit edit (label ++ lit "[" ++ decimal index ++ lit "]")
    if edits.length = 0 then return files
    else mergeFile files absolutePath edits expectedVersion
  | _ => .error (workspaceEditError (label ++ lit " must be an array."))

def parseVersion (version : Option Json) (label : Str) : Except Failure DocumentVersion :=
  match version with
  | none => .ok .undefined
  | some .null => .ok .null
  | some value =>
    match nonNegativeInteger (some value) with
    | some n => .ok (.number n)
    | none => .error (workspaceEditError
        (label ++ lit ".textDocument.version must be null or a non-negative integer."))

def addDocumentChange (host : Host) (files : List WorkspaceFileEdits) (change : Json)
    (index : Nat) : Except Failure (List WorkspaceFileEdits) :=
  let label := lit "documentChanges[" ++ decimal index ++ lit "]"
  match change with
  | .obj fields =>
    match field fields (lit "kind") with
    | some (.str kind) =>
      .error (workspaceEditError
        (label ++ lit " resource operation " ++ kind ++ lit " is not supported."))
    | _ =>
      match field fields (lit "textDocument") with
      | some (.obj document) =>
        match field document (lit "uri") with
        | some (.str uri) => do
          let version ← parseVersion (field document (lit "version")) label
          addEdits host files uri (field fields (lit "edits")) (label ++ lit ".edits") version
        | _ => .error (workspaceEditError (label ++ lit ".textDocument.uri must be a string."))
      | _ => .error (workspaceEditError (label ++ lit ".textDocument.uri must be a string."))
  | _ => .error (workspaceEditError (label ++ lit " must be an object."))

def parseChanges (host : Host) (changes : Json) : Except Failure (List WorkspaceFileEdits) :=
  match changes with
  | .obj entries =>
    entries.foldlM (fun files (uri, edits) =>
      addEdits host files uri (some edits) (lit "changes[" ++ quote uri ++ lit "]") .undefined) []
  | _ => .error (workspaceEditError (lit "Workspace edit changes must be an object."))

def parseDocumentChanges (host : Host) (changes : Json) :
    Except Failure (List WorkspaceFileEdits) :=
  match changes with
  | .arr items =>
    items.zipIdx.foldlM (fun files (change, index) => addDocumentChange host files change index) []
  | _ => .error (workspaceEditError (lit "Workspace edit documentChanges must be an array."))

def parseWorkspaceEdit (host : Host) (value : Json) : Except Failure (List WorkspaceFileEdits) :=
  match value with
  | .obj fields =>
    match field fields (lit "changes"), field fields (lit "documentChanges") with
    | some _, some _ =>
      .error (workspaceEditError
        (lit "Workspace edit cannot contain both changes and documentChanges."))
    | some changes, none => parseChanges host changes
    | none, some changes => parseDocumentChanges host changes
    | none, none => .ok []
  | _ => .error (workspaceEditError (lit "Workspace edit must be an object."))

-- -----
-- Text
-- -----

structure LineBounds where
  start : Nat
  stop : Nat
  deriving DecidableEq, Repr

def lineBoundsFrom (start index : Nat) : Str → List LineBounds
  | [] => [⟨start, index⟩]
  | 13 :: 10 :: rest => ⟨start, index⟩ :: lineBoundsFrom (index + 2) (index + 2) rest
  | 13 :: rest => ⟨start, index⟩ :: lineBoundsFrom (index + 1) (index + 1) rest
  | 10 :: rest => ⟨start, index⟩ :: lineBoundsFrom (index + 1) (index + 1) rest
  | _ :: rest => lineBoundsFrom start (index + 1) rest

def getLineBounds (content : Str) : List LineBounds := lineBoundsFrom 0 0 content

def positionOffset (lines : List LineBounds) (position : LspPosition) (label : Str) :
    Except Failure Nat :=
  match lines[position.line]? with
  | none => .error (workspaceEditError
      (label ++ lit " line " ++ decimal position.line ++ lit " is out of bounds."))
  | some line =>
    if position.character > line.stop - line.start then
      .error (workspaceEditError
        (label ++ lit " character " ++ decimal position.character ++ lit " is out of bounds."))
    else .ok (line.start + position.character)

structure OffsetEdit where
  start : Nat
  stop : Nat
  newText : Str
  index : Nat
  deriving DecidableEq, Repr

def offsetEdit (lines : List LineBounds) (file : WorkspaceFileEdits) (edit : LspTextEdit)
    (index : Nat) : Except Failure OffsetEdit := do
  let label := file.absolutePath ++ lit " edit " ++ decimal index
  let start ← positionOffset lines edit.range.start (label ++ lit " start")
  let stop ← positionOffset lines edit.range.stop (label ++ lit " end")
  if stop < start then .error (workspaceEditError (label ++ lit " has a reversed range."))
  else return ⟨start, stop, edit.newText, index⟩

/-- The order of the check for overlaps: by start, the longer range first. -/
def ascending (left right : OffsetEdit) : Prop :=
  left.start < right.start ∨ left.start = right.start ∧
    (right.stop < left.stop ∨ right.stop = left.stop ∧ left.index ≤ right.index)

instance : DecidableRel ascending := fun _ _ => inferInstanceAs (Decidable (_ ∨ _))

/-- The order of application: from the end of the text to its start. -/
def descending (left right : OffsetEdit) : Prop :=
  right.start < left.start ∨ right.start = left.start ∧ right.index ≤ left.index

instance : DecidableRel descending := fun _ _ => inferInstanceAs (Decidable (_ ∨ _))

def overlapping : List OffsetEdit → Bool
  | left :: right :: rest => right.start < left.stop || overlapping (right :: rest)
  | _ => false

def replaceRange (updated : Str) (edit : OffsetEdit) : Str :=
  updated.take edit.start ++ edit.newText ++ updated.drop edit.stop

def applyTextEdits (content : Str) (file : WorkspaceFileEdits) : Except Failure Str := do
  let lines := getLineBounds content
  let edits ← file.edits.zipIdx.mapM fun (edit, index) => offsetEdit lines file edit index
  if overlapping (edits.insertionSort ascending) then
    .error (workspaceEditError (file.absolutePath ++ lit " contains overlapping text edits."))
  else return (edits.insertionSort descending).foldl replaceRange content

end PiEnv.DevTools
