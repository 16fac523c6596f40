import PiEnv.Lib.JsonText
import PiEnv.Lib.Transitions
import PiEnv.Lib.Utf8

/-!
# The output of a process

The output of a child is collected from two streams, within a limit of each and one
of both together. The first of an error, a limit that is exceeded, the timeout and an
interruption terminates the child, and the collection settles when it has closed.
-/

namespace PiEnv.Process

open Js
open Utf8 (Bytes decode)

-- -----
-- Failures
-- -----

inductive ProcessFailureKind where
  | spawn | exit | timeout | outputLimit | interrupted
  deriving DecidableEq, Repr

structure ProcessFailure where
  kind : ProcessFailureKind
  command : Str
  message : Str
  exitCode : Option Int := none
  stdout : Option Str := none
  stderr : Option Str := none
  deriving DecidableEq, Repr

structure ProcessOutput where
  stdout : Str
  stderr : Str
  deriving DecidableEq, Repr

def ProcessFailure.withOutput (failure : ProcessFailure) (output : ProcessOutput) : ProcessFailure :=
  { failure with stdout := some output.stdout, stderr := some output.stderr }

/-- What `resume` is called with: the output, with the exit code where it is preserved. -/
abbrev Outcome := Except ProcessFailure (ProcessOutput × Option Int)

-- -----
-- Options
-- -----

inductive OutputStream where
  | stdout | stderr
  deriving DecidableEq, Repr

def OutputStream.text : OutputStream → Str
  | .stdout => lit "stdout"
  | .stderr => lit "stderr"

inductive Stdio where
  | stdin | stdout | stderr
  deriving DecidableEq, Repr

structure StreamProcessOptions where
  timeoutMs : Option Number := none
  maxBuffer : Option Number := none
  killGraceMs : Option Number := none
  stdin : Option Bytes := none
  stdoutLimitBytes : Option Number := none
  stderrLimitBytes : Option Number := none
  combinedOutputLimitBytes : Option Number := none

/-- A call of `collectProcess` whose options are valid. -/
structure Config where
  command : Str
  preserveExit : Bool
  timeoutMs : Nat
  stdoutLimit : Nat
  stderrLimit : Nat
  combinedOutputLimitBytes : Option Nat
  killGraceMs : Nat
  stdin : Option Bytes

def Config.limit (config : Config) : OutputStream → Nat
  | .stdout => config.stdoutLimit
  | .stderr => config.stderrLimit

def validateInteger (least : Int) (kind : Str) (value : Number) (name command : Str) :
    Except ProcessFailure Nat :=
  let failure : ProcessFailure :=
    { kind := .spawn, command, message := name ++ lit " must be a " ++ kind ++ lit " integer" }
  match value.integer? with
  | some n => if least ≤ n then .ok n.toNat else .error failure
  | none => .error failure

def validatePositiveInteger := validateInteger 1 (lit "positive")

def validateNonNegativeInteger := validateInteger 0 (lit "non-negative")

/-- The options that `collectProcess` is called with, where they are valid. -/
def configure (command : Str) (preserveExit : Bool) (options : StreamProcessOptions) :
    Except ProcessFailure Config := do
  let maxBuffer := options.maxBuffer.getD (.ofInt (20 * 1024 * 1024))
  let timeoutMs ← validatePositiveInteger (options.timeoutMs.getD (.ofInt 120000)) (lit "timeoutMs")
    command
  let stdoutLimit ← validateNonNegativeInteger (options.stdoutLimitBytes.getD maxBuffer)
    (lit "stdoutLimitBytes") command
  let stderrLimit ← validateNonNegativeInteger (options.stderrLimitBytes.getD maxBuffer)
    (lit "stderrLimitBytes") command
  let combined ← options.combinedOutputLimitBytes.mapM fun value =>
    validateNonNegativeInteger value (lit "combinedOutputLimitBytes") command
  let killGraceMs ← validateNonNegativeInteger (options.killGraceMs.getD (.ofInt 1000))
    (lit "killGraceMs") command
  return ⟨command, preserveExit, timeoutMs, stdoutLimit, stderrLimit, combined, killGraceMs,
    options.stdin⟩

theorem validateInteger_ofInt {least : Int} {kind name command : Str} {n : Nat} (h : least ≤ n) :
    validateInteger least kind (.ofInt n) name command = .ok n := by
  have hinteger : (Number.ofInt n).integer? = some (n : Int) := rfl
  simp only [validateInteger, hinteger, if_pos h, Int.toNat_natCast]

def Config.options (config : Config) : StreamProcessOptions where
  timeoutMs := some (.ofInt config.timeoutMs)
  killGraceMs := some (.ofInt config.killGraceMs)
  stdin := config.stdin
  stdoutLimitBytes := some (.ofInt config.stdoutLimit)
  stderrLimitBytes := some (.ofInt config.stderrLimit)
  combinedOutputLimitBytes := config.combinedOutputLimitBytes.map fun (n : Nat) => .ofInt n

/-- Every choice of limits is valid, as long as there is some time. -/
theorem configure_options {config : Config} (h : 0 < config.timeoutMs) :
    configure config.command config.preserveExit config.options = .ok config := by
  have htimeout (name command : Str) :
      validatePositiveInteger (.ofInt config.timeoutMs) name command = .ok config.timeoutMs :=
    validateInteger_ofInt (Int.ofNat_le.mpr h)
  have hlimit (n : Nat) (name command : Str) :
      validateNonNegativeInteger (.ofInt n) name command = .ok n :=
    validateInteger_ofInt (Int.natCast_nonneg n)
  obtain ⟨command, preserveExit, timeoutMs, stdoutLimit, stderrLimit, combined, killGraceMs, stdin⟩ :=
    config
  cases combined with
  | none =>
    simp only [configure, Config.options, Option.getD_some, htimeout, hlimit]
    rfl
  | some combined =>
    simp only [configure, Config.options, Option.getD_some, Option.map_some, Option.mapM_some, htimeout,
      hlimit]
    rfl

-- -----
-- The state
-- -----

/-- The chunks that are retained of a stream, and how many bytes they have. -/
structure Retained where
  chunks : List Bytes
  bytes : Nat

/-- `Buffer.concat(chunks, bytes)`: the buffer has that many bytes, whatever the chunks have. -/
def Retained.concat (retained : Retained) : Bytes :=
  let all := retained.chunks.flatten
  all.take retained.bytes ++ List.replicate (retained.bytes - all.length) 0

def Retained.push (retained : Retained) (chunk : Bytes) (remaining : Nat) : Retained where
  chunks := if 0 < remaining then retained.chunks ++ [chunk.take remaining] else retained.chunks
  bytes := retained.bytes + min chunk.length remaining

/-- The promise of `terminateAndWait`: it waits for the child to close, unless the
child has exited already. -/
inductive Termination where
  | waiting | done
  deriving DecidableEq, Repr

/-- What is waited for: a promise that is resolved, or that of the termination. -/
inductive Promised where
  | resolved | termination
  deriving DecidableEq, Repr

structure Collection where
  /-- `child` is there: `spawn` did not throw. -/
  started : Bool := true
  /-- The child has an exit code or a signal. -/
  exited : Bool := false
  /-- The child has emitted `close`. -/
  childClosed : Bool := false
  /-- The listeners of `data` and of `close`, which come and go together. -/
  listening : Bool := true
  /-- The listener of `error`, which hears one error. -/
  hearing : Bool := true
  timeoutTimer : Bool := true
  retained : OutputStream → Retained := fun _ => ⟨[], 0⟩
  settled : Bool := false
  closed : Bool := false
  terminalError : Option ProcessFailure := none
  termination : Option Termination := none
  /-- The failure to settle with after the termination. -/
  failing : Option (Promised × ProcessFailure) := none
  /-- What the release of an interruption waits for. -/
  releasing : Option Promised := none
  released : Bool := false
  /-- What `resume` was called with. -/
  resumed : List Outcome := []
  /-- The error events that had no listener while the collection was pending. -/
  unheard : List Str := []

namespace Collection

variable (config : Config)

/-- The collection has neither settled nor been released. -/
def pending (s : Collection) : Bool := !s.settled && !s.released

def output (s : Collection) : ProcessOutput :=
  ⟨decode (s.retained .stdout).concat, decode (s.retained .stderr).concat⟩

def removeListeners (s : Collection) : Collection := { s with listening := false, hearing := false }

def settle (effect : Outcome) (s : Collection) : Collection :=
  if s.settled then s
  else { s.removeListeners with
    settled := true
    timeoutTimer := false
    resumed := s.resumed ++ [effect] }

def beginTermination (s : Collection) : Collection × Promised :=
  if s.termination.isSome then (s, .termination)
  else if !s.started || s.closed then (s, .resolved)
  else ({ s with termination := some (if s.exited then .done else .waiting) }, .termination)

def fails (error : ProcessFailure) (s : Collection) : Collection :=
  { s with terminalError := some error }

def failAndTerminate (error : ProcessFailure) (s : Collection) : Collection :=
  if s.terminalError.isSome || s.settled then s else (s.fails error).beginTermination.1

/-- `...output()`, with what the failure says. -/
def failure (s : Collection) (kind : ProcessFailureKind) (message : Str) : ProcessFailure :=
  { kind, command := config.command, message : ProcessFailure }.withOutput s.output

def combinedRemaining (s : Collection) : Option Int :=
  config.combinedOutputLimitBytes.map fun (combined : Nat) =>
    (combined : Int) - (s.retained .stdout).bytes - (s.retained .stderr).bytes

/-- How many bytes of a stream the limits still allow. -/
def remaining (s : Collection) (stream : OutputStream) : Nat :=
  let own : Int := (config.limit stream : Int) - (s.retained stream).bytes
  ((s.combinedRemaining config).elim own (min own)).toNat

def exceededMessage (s : Collection) (stream : OutputStream) (chunk : Bytes) : Str :=
  match config.combinedOutputLimitBytes, s.combinedRemaining config with
  | some combined, some remaining =>
    if remaining < chunk.length then
      lit "combined output exceeded " ++ (Number.ofInt combined).text ++ lit " bytes"
    else own
  | _, _ => own
where
  own : Str :=
    stream.text ++ lit " exceeded " ++ (Number.ofInt (config.limit stream)).text ++ lit " bytes"

def keep (s : Collection) (stream : OutputStream) (chunk : Bytes) : Collection :=
  { s with retained := fun other =>
      if other = stream then (s.retained stream).push chunk (s.remaining config stream)
      else s.retained other }

def collect (stream : OutputStream) (chunk : Bytes) (s : Collection) : Collection :=
  if s.terminalError.isSome || s.settled then s
  else
    let kept := s.keep config stream chunk
    if s.remaining config stream < chunk.length then
      kept.failAndTerminate (kept.failure config .outputLimit (s.exceededMessage config stream chunk))
    else kept

def onError (cause : Str) (s : Collection) : Collection :=
  s.failAndTerminate (s.failure config .spawn cause)

def onTimeout (s : Collection) : Collection :=
  s.failAndTerminate (s.failure config .timeout
    (lit "Process timed out after " ++ (Number.ofInt config.timeoutMs).text ++ lit "ms: " ++
      config.command))

def exitMessage (code : Option Int) (closeSignal : Option Str) : Str :=
  lit "Process exited with code " ++ (code.elim (lit "unknown") decimalInt) ++
    (closeSignal.elim [] fun signal => lit " (" ++ signal ++ lit ")") ++ lit ": " ++ config.command

/-- What a child that closed by itself gives. -/
def closing (s : Collection) (code : Option Int) (closeSignal : Option Str) : Outcome :=
  let failed : Outcome :=
    .error { s.failure config .exit (exitMessage config code closeSignal) with exitCode := code }
  if code.isNone && closeSignal.isSome then failed
  else if config.preserveExit then .ok (s.output, some (code.getD 1))
  else if code = some 0 then .ok (s.output, none)
  else failed

def onClose (code : Option Int) (closeSignal : Option Str) (s : Collection) : Collection :=
  match s.terminalError with
  | some error => { s with
      closed := true
      failing := some (if s.termination.isSome then .termination else .resolved,
        error.withOutput s.output) }
  | none => { s with closed := true }.settle (s.closing config code closeSignal)

/-- `terminalError`, once the fiber is interrupted. -/
def interruption (s : Collection) : ProcessFailure :=
  s.terminalError.getD
    (s.failure config .interrupted (lit "Process interrupted: " ++ config.command))

/-- The start of the release, up to what it waits for. -/
def interrupt (s : Collection) : Collection :=
  let begun := (s.fails (s.interruption config)).beginTermination
  { begun.1 with releasing := some begun.2 }

/-- The rest of the release, after the termination. -/
def release (s : Collection) : Collection :=
  { s.removeListeners with timeoutTimer := false, releasing := none, released := true }

/-- An error event that nobody listens to. -/
def unhear (cause : Str) (s : Collection) : Collection :=
  if s.pending then { s with unheard := s.unheard ++ [cause] } else s

def emitData (stream : OutputStream) (chunk : Bytes) (s : Collection) : Collection :=
  if s.listening then s.collect config stream chunk else s

/-- The listener of `error` is gone before it is called. -/
def emitError (cause : Str) (s : Collection) : Collection :=
  if s.hearing then { s with hearing := false }.onError config cause else s.unhear cause

def emitClose (code : Option Int) (closeSignal : Option Str) (s : Collection) : Collection :=
  if s.listening then { s with childClosed := true }.onClose config code closeSignal
  else { s with childClosed := true }

def awaited (s : Collection) : Promised → Bool
  | .resolved => true
  | .termination => s.termination = some .done

end Collection

/-- The state after the call: `spawn` gives a child or throws. -/
def start (config : Config) : Except Str Unit → Collection
  | .ok _ => {}
  | .error cause =>
    let s : Collection := { started := false, listening := false, hearing := false }
    s.settle (.error (s.failure config .spawn cause))

-- -----
-- Events
-- -----

inductive Event where
  | data (stream : OutputStream) (chunk : Bytes)
  | error (cause : Str)
  | streamError (stream : Stdio) (cause : Str)
  | exit
  | close (code : Option Int) (closeSignal : Option Str)
  | timeout
  /-- The termination is over. -/
  | terminated
  /-- The failure that waited for the termination is settled with. -/
  | fail
  | abort
  /-- The release that waited for the termination goes on. -/
  | release
  deriving DecidableEq, Repr

def step (config : Config) (s : Collection) : Event → Option Collection
  | .data stream chunk => if s.started then some (s.emitData config stream chunk) else none
  | .error cause => if s.started then some (s.emitError config cause) else none
  | .streamError stream cause =>
    -- No listener is ever added to the errors of a stream.
    if s.started && (stream != .stdin || config.stdin.isSome) then some (s.unhear cause) else none
  | .exit => if s.started && !s.exited then some { s with exited := true } else none
  | .close code closeSignal =>
    if s.exited && !s.childClosed then some (s.emitClose config code closeSignal) else none
  | .timeout =>
    if s.timeoutTimer then some ({ s with timeoutTimer := false }.onTimeout config) else none
  | .terminated =>
    if s.termination = some .waiting && s.childClosed then some { s with termination := some .done }
    else none
  | .fail =>
    match s.failing with
    | some (promised, error) =>
      if s.awaited promised then some ({ s with failing := none }.settle (.error error)) else none
    | none => none
  | .abort => if s.releasing.isNone && !s.released then some (s.interrupt config) else none
  | .release =>
    match s.releasing with
    | some promised => if s.awaited promised then some s.release else none
    | none => none

end PiEnv.Process
