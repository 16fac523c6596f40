import PiEnv.Lib.Json

/-!
# The session manifest

The records of one workspace's sessions, and the ways a catalog operation may
fail.
-/

namespace PiEnv.SessionManager

open Js

-- -----
-- Records
-- -----

inductive Persistence where
  | pending
  | materialized (sessionFile : Str)
  deriving DecidableEq, Repr

/-- A reference of the provider `notes`. -/
structure TaskRef where
  reference : Str
  deriving DecidableEq, Repr

structure RecordBase where
  sessionId : Str
  cwd : Str
  name : Option Str
  persistence : Persistence
  createdAt : Str
  lastOpenedAt : Str
  deriving DecidableEq, Repr

abbrev CoordinatorRecord := RecordBase

structure OpenSessionRecord extends RecordBase where
  taskRef : Option TaskRef
  explicitName : Bool
  deriving DecidableEq, Repr

inductive CloseSource where
  | ctrlD | sessionDone
  deriving DecidableEq, Repr

structure ClosedSessionRecord extends OpenSessionRecord where
  closedAt : Str
  closedBy : CloseSource
  deriving DecidableEq, Repr

inductive WorkRecord where
  | opened (record : OpenSessionRecord)
  | closed (record : ClosedSessionRecord)
  deriving DecidableEq, Repr

/-- What an open and a closed record have in common. -/
def WorkRecord.base : WorkRecord → OpenSessionRecord
  | .opened record => record
  | .closed record => record.toOpenSessionRecord

inductive SessionRecord where
  | coordinator (record : CoordinatorRecord)
  | work (record : WorkRecord)
  deriving DecidableEq, Repr

def SessionRecord.base : SessionRecord → RecordBase
  | .coordinator record => record
  | .work record => record.base.toRecordBase

structure SessionManifest where
  canonicalCwd : Str
  revision : Number
  updatedAt : Str
  coordinator : Option CoordinatorRecord
  sessions : List WorkRecord
  deriving DecidableEq, Repr

-- -----
-- Failures
-- -----

inductive Errno where
  | enoent | elocked | other
  deriving DecidableEq, Repr

/-- What a `ManifestOperationFailure` carries: the failure of a call, or what
the caller's transform threw. -/
inductive Cause (δ : Type) where
  | errno (code : Errno)
  | domain (error : δ)
  | verification
  deriving DecidableEq, Repr

inductive CatalogFailure (δ : Type) where
  | malformed (reason : Str)
  | unsupportedVersion (version : Json)
  | semantic (reason : Str)
  | readFailure
  | commitFailure
  | commitIndeterminate (revision : Number)
  | committedReleaseFailed (revision : Number)
  | lockCompromised
  | lockTimeout
  | operationFailure (cause : Cause δ)

end PiEnv.SessionManager
