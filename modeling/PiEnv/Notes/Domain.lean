import PiEnv.Lib.JsString

/-!
# The notes domain

Limits, documents, requests and errors that the notes tool and its providers
share.
-/

namespace PiEnv.Notes

open Js (Str)

def MAX_NOTE_BYTES : Nat := 1048576
def MAX_REVISION_LENGTH : Nat := 256

inductive NotesProviderErrorCode where
  | invalidPath | invalidRevision | notFound | notANote | pathEscape | ambiguousEdit
  | missingEdit | conflict | unsupportedReference | invalidProvider | duplicateProvider
  | providerUnavailable | resourceLimit | io
  deriving DecidableEq, Repr

/-- What a tool action throws: the canonical provider error, or a plain one. -/
inductive NotesError where
  | provider (code : NotesProviderErrorCode) (message : Str)
  | plain (message : Str)
  deriving DecidableEq, Repr

/-- A read result, less its optional size and modification time. -/
structure NoteDocument where
  path : Str
  revision : Str
  content : Str
  deriving DecidableEq, Repr

/-- `expectedRevision = none` stands for null, which requires creation. -/
structure NotesWriteRequest where
  path : Str
  content : Str
  expectedRevision : Option Str
  deriving DecidableEq, Repr

structure NotesMutationResult where
  path : Str
  revision : Option Str
  deriving DecidableEq, Repr

inductive InboxItemKind where
  | note | followup
  deriving DecidableEq, Repr

end PiEnv.Notes
