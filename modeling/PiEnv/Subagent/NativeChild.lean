import Mathlib.Data.List.Basic
import PiEnv.Lib.Transitions

/-!
# The owner of a native child

What `schedule` puts on the child, its inputs, and how it is closed, from one
await to the next. What is awaited outside, and the admission of the supervisor,
answers in any order, with or without success.
-/

namespace PiEnv.Subagent.NativeChild

-- -----
-- State
-- -----

inductive NativeChildState where
  | idle | running | queued | closing | closed
  deriving DecidableEq, Repr

/-- What a scheduled operation waits for. -/
inductive Phase where
  | acquiring
  | starting
  | operating
  /-- The `catch` block of an initial run: the abort, then the teardown. -/
  | aborting
  | tearing
  /-- The `finally` block: the inputs that are pending, then the idle session. -/
  | draining
  | idling
  /-- The promise is settled, its own `finally` has not been called. -/
  | settled
  | finished
  deriving DecidableEq, Repr

structure Operation where
  initial : Bool
  phase : Phase
  acquired : Bool
  /-- How often its lease has been released. -/
  releases : Nat
  /-- Its controller, or another signal of its lease, has aborted. -/
  aborted : Bool
  /-- The inputs that were pending at its end. -/
  awaited : List Nat
  deriving DecidableEq, Repr

inductive Teardown where
  | running
  | settled (succeeded : Bool)
  deriving DecidableEq, Repr

/-- What the promise of the first close waits for. -/
inductive Closing where
  | operation (pending : Option Nat)
  | inputs (pending : List Nat)
  | aborting
  | tearing
  | settled (succeeded : Bool)
  deriving DecidableEq, Repr

/-- The promise that a call of `close` has returned. -/
inductive Returned where
  | closing | teardown | resolved
  deriving DecidableEq, Repr

structure State where
  state : NativeChildState
  session : Bool
  startupServices : Bool
  /-- The scheduled operations by their numbers. -/
  operations : List Operation
  operation : Option Nat
  controller : Option Nat
  /-- The steer and follow-up inputs by their numbers, and whether they have settled. -/
  inputs : List Bool
  closing : Option Closing
  teardown : Option Teardown
  /-- How often the body of `teardownNative` has been run. -/
  teardowns : Nat
  closes : List Returned
  /-- How many leases were held whenever a close resolved. -/
  heldAtClose : List Nat

def initial : State := ⟨.idle, false, false, [], none, none, [], none, none, 0, [], []⟩

def Phase.isOver : Phase → Bool
  | .settled | .finished => true
  | _ => false

def Operation.held (operation : Operation) : Bool :=
  operation.acquired && operation.releases == 0

namespace State

def put (s : State) (i : Nat) (operation : Operation) : State :=
  { s with operations := s.operations.set i operation }

/-- `[...this.pendingInputs]` -/
def pendingInputs (s : State) : List Nat :=
  (List.range s.inputs.length).filter fun i => s.inputs[i]? == some false

def inputsSettled (s : State) (pending : List Nat) : Bool :=
  pending.all fun i => s.inputs[i]? == some true

/-- The number of leases that are held. -/
def held (s : State) : Nat := s.operations.countP (·.held)

-- -----
-- Teardown
-- -----

/-- `teardownNative`; where there is nothing to emit to, it is over at once. -/
def teardownNative (s : State) : State :=
  match s.teardown with
  | some _ => s
  | none =>
    let s := { s with teardowns := s.teardowns + 1 }
    if s.session || s.startupServices then { s with teardown := some .running }
    else { s with teardown := some (.settled true), state := .closed }

def teardownDone (s : State) (succeeded : Bool) : Option State :=
  match s.teardown with
  | some .running =>
    some { s with
      teardown := some (.settled succeeded)
      startupServices := false
      state := .closed }
  | _ => none

-- -----
-- Scheduled operations
-- -----

/-- `schedule`, as far as it runs at once. -/
def schedule (s : State) (initial : Bool) : State :=
  if s.state ≠ .idle then s
  else
    { s with
      state := .queued
      operations := s.operations ++ [⟨initial, .acquiring, false, 0, false, []⟩]
      operation := some s.operations.length
      controller := some s.operations.length }

/-- The `finally` block begins. -/
def drain (s : State) (i : Nat) (operation : Operation) : State :=
  s.put i { operation with phase := .draining, awaited := s.pendingInputs }

/-- Something was thrown behind the admission. -/
def throw (s : State) (i : Nat) (operation : Operation) : State :=
  if operation.initial then
    { s with state := .closing }.put i { operation with phase := .aborting }
  else s.drain i operation

/-- The check behind the start, and the operation itself. -/
def operate (s : State) (i : Nat) (operation : Operation) : State :=
  if operation.aborted ∨ s.state = .closing then s.throw i operation
  else { s with state := .running }.put i { operation with phase := .operating }

/-- The `finally` of the promise that `schedule` returns. -/
def finish (s : State) (i : Nat) (operation : Operation) : State :=
  let state : NativeChildState :=
    if s.state = .closing ∨ s.state = .closed then s.state else .idle
  { s with state, operation := none, controller := none }.put i { operation with phase := .finished }

/-- What an operation waits for is over, with or without success. -/
def turn (s : State) (i : Nat) (operation : Operation) (succeeded : Bool) : Option State :=
  match operation.phase with
  | .acquiring =>
    if succeeded then
      let operation := { operation with acquired := true }
      if operation.initial then some (s.put i { operation with phase := .starting })
      else some (s.operate i operation)
    else some (s.put i { operation with phase := .settled })
  | .starting => some (if succeeded then s.operate i operation else s.throw i operation)
  | .operating => some (if succeeded then s.drain i operation else s.throw i operation)
  | .aborting =>
    if succeeded || !s.session then
      some (s.teardownNative.put i { operation with phase := .tearing })
    else some (s.drain i operation)
  | .tearing =>
    match s.teardown with
    | some (.settled _) => some (s.drain i operation)
    | _ => none
  | .draining =>
    if s.inputsSettled operation.awaited then some (s.put i { operation with phase := .idling })
    else none
  | .idling =>
    if succeeded || !s.session then
      some (s.put i { operation with phase := .settled, releases := operation.releases + 1 })
    else some (s.put i { operation with phase := .settled })
  | .settled => some (s.finish i operation)
  | .finished => none

/-- `start` has its services, or its session. -/
def starting (s : State) (i : Nat) (session : Bool) : Option State :=
  s.operations[i]?.bind fun operation =>
    if operation.phase = .starting ∧ s.startupServices = session then
      some { s with session := s.session || session, startupServices := !session }
    else none

/-- A signal of the lease of an operation aborts. -/
def abort (s : State) (i : Nat) : State :=
  match s.operations[i]? with
  | none => s
  | some operation => s.put i { operation with aborted := true }

/-- `this.controller?.abort()` -/
def abortController (s : State) : State :=
  match s.controller with
  | none => s
  | some i => s.abort i

/-- A steer or follow-up input, which a streaming child takes. -/
def input (s : State) (streaming : Bool) : State :=
  if s.state = .running ∧ streaming then { s with inputs := s.inputs ++ [false] } else s

-- -----
-- Closing
-- -----

/-- `close`, as far as it runs at once. -/
def close (s : State) : State :=
  match s.closing with
  | some _ => { s with closes := s.closes ++ [.closing] }
  | none =>
    if s.state = .closed then
      { s with closes := s.closes ++ [if s.teardown.isSome then .teardown else .resolved] }
    else
      { s.abortController with
        state := .closing
        closing := some (.operation s.operation)
        closes := s.closes ++ [.closing] }

/-- What the promise of the first close waits for is over. -/
def closingTurn (s : State) (succeeded : Bool) : Option State :=
  match s.closing with
  | some (.operation pending) =>
    if pending.all fun i => s.operations[i]?.any (·.phase.isOver) then
      some { s with closing := some (.inputs s.pendingInputs) }
    else none
  | some (.inputs pending) =>
    if s.inputsSettled pending then some { s with closing := some .aborting } else none
  | some .aborting =>
    if succeeded || !s.session then some { s.teardownNative with closing := some .tearing }
    else some { s with closing := some (.settled false) }
  | some .tearing =>
    match s.teardown with
    | some (.settled succeeded) => some { s with closing := some (.settled succeeded) }
    | _ => none
  | some (.settled _) | none => none

def resolves (s : State) : Returned → Bool
  | .closing => s.closing == some (.settled true)
  | .teardown => s.teardown == some (.settled true)
  | .resolved => true

end State

inductive Event where
  | schedule (initial : Bool)
  | input (streaming : Bool)
  | inputSettled (input : Nat)
  | turn (operation : Nat) (succeeded : Bool)
  | servicesCreated (operation : Nat)
  | sessionCreated (operation : Nat)
  /-- The deadline of a run, the signal of its caller or the supervisor. -/
  | aborted (operation : Nat)
  | cancel
  | close
  | closingTurn (succeeded : Bool)
  | teardownDone (succeeded : Bool)
  | closeResolved (call : Nat)
  deriving Repr

def step (s : State) : Event → Option State
  | .schedule initial => some (s.schedule initial)
  | .input streaming => some (s.input streaming)
  | .inputSettled i => some { s with inputs := s.inputs.set i true }
  | .turn i succeeded => s.operations[i]?.bind fun operation => s.turn i operation succeeded
  | .servicesCreated i => s.starting i false
  | .sessionCreated i => s.starting i true
  | .aborted i => some (s.abort i)
  | .cancel => some s.abortController
  | .close => some s.close
  | .closingTurn succeeded => s.closingTurn succeeded
  | .teardownDone succeeded => s.teardownDone succeeded
  | .closeResolved call =>
    s.closes[call]?.bind fun returned =>
      if s.resolves returned then some { s with heldAtClose := s.held :: s.heldAtClose } else none

end PiEnv.Subagent.NativeChild
