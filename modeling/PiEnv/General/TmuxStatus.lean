import PiEnv.General.Tmux
import PiEnv.Lib.JsMap
import PiEnv.Lib.Transitions

/-!
# Window statuses in tmux

`TmuxStatus` in any number of processes that share one server. Every command
of a call of tmux is a step of its own. A call that has timed out may still be
run by the server, in whole, in part or not at all.
-/

namespace PiEnv.General

open Js Tmux

-- -----
-- Statuses of panes
-- -----

inductive StatusState where
  | idle | done | error | running
  deriving DecidableEq, Repr

namespace StatusState

def priority : StatusState → Nat
  | idle => 0
  | done => 1
  | error => 2
  | running => 3

def glyph : StatusState → Str
  | idle => lit "○"
  | done => lit "✓"
  | error => lit "✗"
  | running => lit "⠾"

def name : StatusState → Str
  | idle => lit "idle"
  | done => lit "done"
  | error => lit "error"
  | running => lit "running"

/-- `isStatusState`, with the state that has the name. -/
def ofName (value : Str) : Option StatusState :=
  [idle, done, error, running].find? fun state => state.name = value

end StatusState

def isHexDigit (u : UInt16) : Bool := isDigit u || (97 ≤ u && u ≤ 102) || (65 ≤ u && u ≤ 70)

/-- `[0-9]|[1-9][0-9]|1[0-9]{2}|2[0-4][0-9]|25[0-5]` -/
def colourIndex : Str → Bool
  | [a] => isDigit a
  | [a, b] => a != 48 && isDigit a && isDigit b
  | [a, b, c] =>
    (a == 49 && isDigit b && isDigit c) || (a == 50 && 48 ≤ b && b ≤ 52 && isDigit c) ||
      (a == 50 && b == 53 && 48 ≤ c && c ≤ 53)
  | _ => false

def colorPattern (color : Str) : Bool :=
  match color with
  | 35 :: digits => digits.length == 6 && digits.all isHexDigit
  | _ => (lit "colour").isPrefixOf color && colourIndex (color.drop 6)

def isUuidUnit (u : UInt16) : Bool := isDigit u || (97 ≤ u && u ≤ 102) || u == 45

/-- `/^[1-9]\d*-[0-9a-f-]{36}$/`, with the number before the first dash. -/
def ownerPid (owner : Str) : Option Nat :=
  let digits := owner.takeWhile isDigit
  match owner.dropWhile isDigit with
  | 45 :: uuid =>
    if digits ≠ [] && digits.head? != some 48 && uuid.length == 36 && uuid.all isUuidUnit then
      some (digitsValue digits)
    else none
  | _ => none

structure PaneStatus where
  pane : Nat
  window : Nat
  owner : Str
  value : Str
  state : StatusState
  seen : Bool
  color : Str
  deriving DecidableEq, Repr

def bar (fields : List Str) : Str := join [124] fields

/-- `parsePane` of a line with these ids and this text behind them. -/
def parseText (pane window : Nat) (text : Str) : Option PaneStatus :=
  match split [124] text with
  | owner :: state :: seen :: color :: frame :: _ =>
    match ownerPid owner, StatusState.ofName state with
    | some _, some status =>
      if (seen = lit "0" ∨ seen = lit "1") ∧ colorPattern color ∧ frame.length = 1 ∧
          frame.all isDigit then
        some ⟨pane, window, owner, bar [state, seen, color, frame], status, seen = lit "1", color⟩
      else none
    | _, _ => none
  | _ => none

def parsePane (row : Row) : Option PaneStatus := parseText row.pane row.window row.text

def guarded (pane : PaneStatus) (body : List SetOption) : Command :=
  .ifShell (.pane pane.pane) (.both (.equal .owner pane.owner) (.equal .status pane.value)) body

def unsetBoth (pane : Nat) : List SetOption := [.unset pane .owner, .unset pane .status]

-- -----
-- Snapshots of windows
-- -----

def windowStep : List Nat × JsMap Nat (List Row) → Row → List Nat × JsMap Nat (List Row)
  | (visited, windows), row =>
    if row.pane ∈ visited then (visited, windows)
    else (row.pane :: visited,
      windows.set row.window ((windows.get row.window).getD [] ++ [row]))

/-- Rows by window, the first for each pane. -/
def windowRows (rows : List Row) : JsMap Nat (List Row) :=
  (rows.foldl windowStep ([], JsMap.empty)).2

/-- `values` stand with the numbers that `parseInt` reads from them. -/
structure WindowSnapshot where
  panes : List PaneStatus
  values : List (Nat × Str)
  commands : List Command

def maxSafeInteger : Nat := 9007199254740991

/-- Whether the process of an owner is there; `alive` is the answer of the system. -/
def ownerAlive (alive : Nat → Bool) (pane : PaneStatus) : Bool :=
  (ownerPid pane.owner).any fun pid => pid ≤ maxSafeInteger && alive pid

def acknowledged (pane : PaneStatus) : Str := bar [pane.state.name, lit "1", pane.color, lit "0"]

/-- The text that the row's pane will have, its status and the commands for it. -/
def acknowledgeRow (alive : Nat → Bool) (viewed : Bool) (row : Row) :
    Str × Option PaneStatus × List Command :=
  match parsePane row with
  | none =>
    match split [124] row.text with
    | token :: fields => (token ++ 124 :: bar fields, none, [])
    | [] => ([], none, [])
  | some pane =>
    if ownerAlive alive pane then
      if viewed && !pane.seen then
        (pane.owner ++ 124 :: acknowledged pane, some { pane with seen := true },
          [guarded pane [.set pane.pane .status (acknowledged pane)]])
      else (row.text, some pane, [])
    else (lit "|", none, [guarded pane (unsetBoth pane.pane)])

def acknowledge (alive : Nat → Bool) (rows : List Row) (viewed : Bool) : WindowSnapshot :=
  let each := rows.map fun row => (row.pane, acknowledgeRow alive viewed row)
  { panes := each.filterMap (·.2.2.1)
    values := each.map fun (pane, value, _) => (pane, entry pane value)
    commands := each.flatMap (·.2.2.2) }

/-- Not behind another status in the order of windowCommand. -/
def PaneStatus.before (a b : PaneStatus) : Prop :=
  b.state.priority < a.state.priority ∨ (b.state.priority = a.state.priority ∧ a.pane ≤ b.pane)

instance : DecidableRel PaneStatus.before := fun a b =>
  inferInstanceAs (Decidable (b.state.priority < a.state.priority ∨
    (b.state.priority = a.state.priority ∧ a.pane ≤ b.pane)))

def indicator (winner : PaneStatus) : Str :=
  lit "#[fg=" ++ winner.color ++ lit ",nodim" ++ (if winner.seen then [] else lit ",bold") ++
    lit "]" ++ winner.state.glyph

def rank (winner : PaneStatus) : Str := decimal winner.state.priority ++ winner.color

/-- `[a-zA-Z0-9|#%~\-]` -/
def isAdmitted (u : UInt16) : Bool :=
  (97 ≤ u && u ≤ 122) || (65 ≤ u && u ≤ 90) || isDigit u ||
    u == 124 || u == 35 || u == 37 || u == 126 || u == 45

def windowBody (window : Nat) : Option PaneStatus → List SetOption
  | some winner =>
    [.setWindow window .status (indicator winner), .setWindow window .rank (rank winner)]
  | none => [.unsetWindow window .status, .unsetWindow window .rank]

def expectedText (snapshot : WindowSnapshot) : Str :=
  (snapshot.values.insertionSort (·.1 ≤ ·.1)).flatMap (·.2)

def windowCommand (window : Nat) (snapshot : WindowSnapshot) : Option Command :=
  let winner := (snapshot.panes.insertionSort PaneStatus.before).head?
  let expected := expectedText snapshot
  if expected.all isAdmitted then
    some (.ifShell (.window window) (.panes expected) (windowBody window winner))
  else none

def aggregateCommands (alive : Nat → Bool) (rows : List Row) (viewed : List Nat) : List Command :=
  (windowRows rows).entries.flatMap fun (window, rows) =>
    let snapshot := acknowledge alive rows (window ∈ viewed)
    snapshot.commands ++ (windowCommand window snapshot).toList

-- -----
-- Processes
-- -----

/-- What a `TmuxStatus` is made with. -/
structure Setup where
  pane : Nat
  /-- Whether the text for the pane was its id; otherwise nothing is done. -/
  valid : Bool
  pid : Nat
  uuid : Str
  uuid_units : ∀ u ∈ uuid, isUuidUnit u = true

def Setup.owner (setup : Setup) : Str := decimal setup.pid ++ 45 :: setup.uuid

inductive Task where
  | update (state : StatusState) (color : Str) (revision : Option Int)
  | close

/-- Where the running task waits for tmux. -/
inductive Await where
  | write | clear | listPanes | listClients (rows : List Row) | commit

/-- A call of tmux: the commands that the server has left to run, the rows that
they were made from, and what has been printed. -/
structure Call where
  awaits : Await
  commands : List Command
  based : List Row
  panes : List Row
  clients : List Nat
  failed : Bool

structure Transport where
  claimed : Bool
  closed : Bool
  state : Option StatusState
  revision : Option Int
  /-- The tasks behind the running one. -/
  pending : List Task
  call : Option Call

def Transport.initial : Transport := ⟨false, false, none, none, [], none⟩

/-- What the server has left to run of a call that nobody waits for. -/
structure Late (ι : Type) where
  process : ι
  commands : List Command
  based : List Row

structure State (ι : Type) where
  server : Server
  transports : ι → Transport
  late : List (Late ι)

def State.initial {ι : Type} (server : Server) : State ι := ⟨server, fun _ => .initial, []⟩

def Call.of (awaits : Await) (commands : List Command) (based : List Row) : Call :=
  ⟨awaits, commands, based, [], [], false⟩

def claimCommands (setup : Setup) (state : StatusState) (color : Str) : List Command :=
  [.set (.set setup.pane .owner setup.owner),
    .set (.set setup.pane .status (bar [state.name, lit "0", color, lit "0"]))]

/-- The status with its acknowledgement, where that is read as it is written. -/
def statusFormat (state : StatusState) (unchanged : Bool) (color : Str) : List Piece :=
  [.text (state.name ++ lit "|"), if unchanged then .seen state.name else .text (lit "0"),
    .text (lit "|" ++ color ++ lit "|0")]

def ifOwner (setup : Setup) (body : List SetOption) : Command :=
  .ifShell (.pane setup.pane) (.equal .owner setup.owner) body

namespace Transport

def task (setup : Setup) (t : Transport) : Task → Transport
  | .update state color revision =>
    let unchanged := some state == t.state && revision == t.revision
    let commands :=
      if t.claimed then
        [ifOwner setup [.setFormat setup.pane .status (statusFormat state unchanged color)]]
      else claimCommands setup state color
    { t with state := some state, revision, call := some (.of .write commands []) }
  | .close =>
    if t.claimed then
      { t with call := some (.of .clear [ifOwner setup (unsetBoth setup.pane)] []) }
    else t

def list (t : Transport) : Transport := { t with call := some (.of .listPanes [.listPanes] []) }

def finish (t : Transport) : Transport := { t with call := none }

/-- The promise of a call of tmux is resolved; `printed` is false for `undefined`. -/
def resume (t : Transport) (call : Call) (printed : Bool) (alive : Nat → Bool) : Transport :=
  match call.awaits with
  | .write => if printed then { t with claimed := true }.list else t.finish
  | .clear => t.list
  | .listPanes =>
    if printed then { t with call := some (.of (.listClients call.panes) [.listClients] []) }
    else t.finish
  | .listClients rows =>
    let commands := aggregateCommands alive rows call.clients
    if printed && commands ≠ [] then { t with call := some (.of .commit commands rows) }
    else t.finish
  | .commit => t.finish

end Transport

-- -----
-- Steps
-- -----

/-- The next command of a call is run. An error drops what is behind it. -/
def Call.ran (call : Call) (s : Server) (command : Command) (rest : List Command) : Call :=
  match command with
  | .listPanes => { call with commands := rest, panes := s.listPanes }
  | .listClients => { call with commands := rest, clients := s.clients }
  | _ => if (s.run command).isSome then { call with commands := rest }
    else { call with commands := [], failed := true }

inductive Event (ι : Type) where
  | update (i : ι) (state : StatusState) (color : Str) (revision : Option Int)
  | close (i : ι)
  /-- The next task of a process starts. -/
  | start (i : ι)
  /-- The server runs the next command of the call that a process waits for. -/
  | exec (i : ι)
  | answer (i : ι) (alive : Nat → Bool)
  | timeout (i : ι)
  /-- The server runs the next command of a call that has timed out. -/
  | late (n : Nat)
  | drop (n : Nat)
  | arrange (layout : List (Nat × Nat)) (sessions : List (List Nat)) (clients : List Nat)
      (active : Nat → Nat) (names : Nat → UInt16 → Str)

section
variable {ι : Type} [DecidableEq ι] (setups : ι → Setup)

namespace State

def set (s : State ι) (i : ι) (t : Transport) : State ι :=
  { s with transports := fun j => if j = i then t else s.transports j }

def update (s : State ι) (i : ι) (state : StatusState) (color : Str) (revision : Option Int) :
    State ι :=
  let t := s.transports i
  if t.closed || !(setups i).valid || !colorPattern color then s
  else s.set i { t with pending := t.pending ++ [.update state color revision] }

def close (s : State ι) (i : ι) : State ι :=
  let t := s.transports i
  if t.closed then s
  else if !(setups i).valid then s.set i { t with closed := true }
  else s.set i { t with closed := true, pending := t.pending ++ [.close] }

def start (s : State ι) (i : ι) : Option (State ι) :=
  let t := s.transports i
  match t.call, t.pending with
  | none, task :: rest => some (s.set i ({ t with pending := rest }.task (setups i) task))
  | _, _ => none

def exec (s : State ι) (i : ι) : Option (State ι) :=
  let t := s.transports i
  match t.call with
  | none => none
  | some call =>
    match call.commands with
    | [] => none
    | command :: rest =>
      some { s.set i { t with call := some (call.ran s.server command rest) } with
        server := (s.server.run command).getD s.server }

def answer (s : State ι) (i : ι) (alive : Nat → Bool) : Option (State ι) :=
  let t := s.transports i
  match t.call with
  | none => none
  | some call =>
    if call.commands = [] then some (s.set i (t.resume call (!call.failed) alive)) else none

def timeout (s : State ι) (i : ι) : Option (State ι) :=
  let t := s.transports i
  match t.call with
  | none => none
  | some call =>
    some { s.set i (t.resume call false fun _ => false) with
      late := ⟨i, call.commands, call.based⟩ :: s.late }

def runLate (s : State ι) (n : Nat) : Option (State ι) :=
  match s.late[n]? with
  | none => none
  | some call =>
    match call.commands with
    | [] => none
    | command :: rest =>
      let left := if (s.server.run command).isSome then rest else []
      some { s with
        server := (s.server.run command).getD s.server
        late := s.late.set n { call with commands := left } }

end State

/-- Ids of panes are distinct. -/
def step (s : State ι) : Event ι → Option (State ι)
  | .update i state color revision => some (s.update setups i state color revision)
  | .close i => some (s.close setups i)
  | .start i => s.start setups i
  | .exec i => s.exec i
  | .answer i alive => s.answer i alive
  | .timeout i => s.timeout i
  | .late n => s.runLate n
  | .drop n => some { s with late := s.late.eraseIdx n }
  | .arrange layout sessions clients active names =>
    if (layout.map (·.1)).Nodup then
      some { s with server := s.server.arrange layout sessions clients active names }
    else none

end

end PiEnv.General
