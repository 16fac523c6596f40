import Mathlib.Data.List.Sort
import PiEnv.Lib.Framing
import PiEnv.Lib.JsString

/-!
# The tmux server

What `TmuxStatus` uses of tmux: options of panes and windows, and the formats
in its commands. In a format `##` stands for `#`, and `#` with a letter that
is an alias for the value that the pane has under it.
-/

namespace PiEnv.General

open Js

namespace Tmux

-- -----
-- State
-- -----

/-- A pane and its options `ownerOption` and `paneOption`, which are empty
where they are not set. -/
structure Pane where
  id : Nat
  window : Nat
  owner : Str
  status : Str
  deriving DecidableEq, Repr

/-- `windowOption` and `rankOption` -/
inductive WindowOption where
  | status | rank
  deriving DecidableEq, Repr

structure Server where
  /-- In the order of the layouts. -/
  panes : List Pane
  /-- The windows that are linked into each session. -/
  sessions : List (List Nat)
  /-- The windows that clients look at. -/
  clients : List Nat
  active : Nat → Nat
  /-- What a pane has under the letter of an alias other than its id. -/
  names : Nat → UInt16 → Str
  windowOption : Nat → WindowOption → Option Str

def paneId (id : Nat) : Str := 37 :: decimal id

/-- A line of `list-panes -a` with `ownerOption` and `paneOption`. -/
structure Row where
  pane : Nat
  window : Nat
  owner : Str
  status : Str
  deriving DecidableEq, Repr

/-- The line behind the ids. -/
def Row.text (row : Row) : Str := row.owner ++ 124 :: row.status

def Pane.row (pane : Pane) : Row := ⟨pane.id, pane.window, pane.owner, pane.status⟩

namespace Server

def panesOf (s : Server) (window : Nat) : List Pane := s.panes.filter (·.window = window)

def pane? (s : Server) (id : Nat) : Option Pane := s.panes.find? (·.id = id)

theorem pane?_id (s : Server) {id : Nat} {pane : Pane} (h : s.pane? id = some pane) : pane.id = id := by
  simpa using List.find?_some h

/-- Panes are listed once for each session that their window is linked into. -/
def listPanes (s : Server) : List Row :=
  s.sessions.flatMap fun windows => windows.flatMap fun window => (s.panesOf window).map Pane.row

end Server

inductive Target where
  | pane (id : Nat)
  | window (id : Nat)
  deriving DecidableEq, Repr

/-- A window stands for its active pane. -/
def Server.paneAt (s : Server) : Target → Option Pane
  | .pane id => s.pane? id
  | .window id => ((s.panesOf id).find? (·.id = s.active id)).or (s.panesOf id).head?

-- -----
-- Formats
-- -----

/-- The letters behind `#` that are an alias: `D F H I P S T W h`. -/
def aliases : List UInt16 := [68, 70, 72, 73, 80, 83, 84, 87, 104]

/-- `#D` is the pane's id; the others are what windows, sessions and hosts are called. -/
def Server.aliasOf (s : Server) (pane : Pane) (letter : UInt16) : Option Str :=
  if letter = 68 then some (paneId pane.id)
  else if letter ∈ aliases then some (s.names pane.id letter)
  else none

/-- A text as it is read in a format. -/
def expand (aliasOf : UInt16 → Option Str) : Str → Str
  | 35 :: u :: rest =>
    if u = 35 then 35 :: expand aliasOf rest
    else match aliasOf u with
      | some value => value ++ expand aliasOf rest
      | none => 35 :: u :: expand aliasOf rest
  | u :: rest => u :: expand aliasOf rest
  | [] => []

inductive PaneOption where
  | owner | status
  deriving DecidableEq, Repr

def Pane.get (pane : Pane) : PaneOption → Str
  | .owner => pane.owner
  | .status => pane.status

def Pane.set (pane : Pane) : PaneOption → Str → Pane
  | .owner, value => { pane with owner := value }
  | .status, value => { pane with status := value }

inductive Condition where
  /-- `#{==:#{option},value}` -/
  | equal (option : PaneOption) (value : Str)
  /-- `#{&&:first,second}` -/
  | both (first second : Condition)
  /-- `#{==:#{P:#{pane_id}|#{ownerOption}|#{paneOption}~},expected}` -/
  | panes (expected : Str)
  deriving DecidableEq, Repr

/-- `#{pane_id}|#{ownerOption}|#{paneOption}~` -/
def entry (id : Nat) (text : Str) : Str := paneId id ++ 124 :: (text ++ [126])

/-- `P:` goes through the panes of a window by their ids. -/
def Server.paneTexts (s : Server) (window : Nat) : Str :=
  ((s.panesOf window).insertionSort (·.id ≤ ·.id)).flatMap fun pane => entry pane.id pane.row.text

def Condition.holds (s : Server) (pane : Pane) : Condition → Bool
  | .equal option value => pane.get option == expand (s.aliasOf pane) value
  | .both first second => first.holds s pane && second.holds s pane
  | .panes expected => s.paneTexts pane.window == expand (s.aliasOf pane) expected

/-- A part of a value that `set-option -F` reads as a format. -/
inductive Piece where
  | text (value : Str)
  /-- `#{?#{m:state|1|*,#{paneOption}},1,0}` -/
  | seen (state : Str)
  deriving DecidableEq, Repr

def Piece.read (s : Server) (pane : Pane) : Piece → Str
  | .text value => expand (s.aliasOf pane) value
  | .seen state => if (state ++ lit "|1|").isPrefixOf pane.status then lit "1" else lit "0"

-- -----
-- Commands
-- -----

inductive SetOption where
  | set (pane : Nat) (option : PaneOption) (value : Str)
  | setFormat (pane : Nat) (option : PaneOption) (value : List Piece)
  | unset (pane : Nat) (option : PaneOption)
  | setWindow (window : Nat) (option : WindowOption) (value : Str)
  | unsetWindow (window : Nat) (option : WindowOption)
  deriving DecidableEq, Repr

inductive Command where
  | set (option : SetOption)
  | ifShell (target : Target) (condition : Condition) (body : List SetOption)
  | listPanes
  | listClients
  deriving DecidableEq, Repr

namespace Server

def update (s : Server) (id : Nat) (f : Pane → Pane) : Server :=
  { s with panes := s.panes.map fun pane => if pane.id = id then f pane else pane }

def updateWindow (s : Server) (window : Nat) (option : WindowOption) (value : Option Str) : Server :=
  { s with
    windowOption := fun w o => if w = window ∧ o = option then value else s.windowOption w o }

/-- `none` is the error that the target is not found. -/
def setOption (s : Server) : SetOption → Option Server
  | .set id option value => (s.pane? id).map fun _ => s.update id (·.set option value)
  | .setFormat id option value =>
    (s.pane? id).map fun pane => s.update id (·.set option (value.flatMap (·.read s pane)))
  | .unset id option => (s.pane? id).map fun _ => s.update id (·.set option [])
  | .setWindow window option value =>
    (s.paneAt (.window window)).map fun _ => s.updateWindow window option (some value)
  | .unsetWindow window option =>
    (s.paneAt (.window window)).map fun _ => s.updateWindow window option none

def setOptions (s : Server) : List SetOption → Option Server
  | [] => some s
  | option :: rest => (s.setOption option).bind (·.setOptions rest)

def run (s : Server) : Command → Option Server
  | .set option => s.setOption option
  | .ifShell target condition body =>
    (s.paneAt target).bind fun pane => if condition.holds s pane then s.setOptions body else some s
  | .listPanes | .listClients => some s

def takesEffect (s : Server) : Command → Bool
  | .ifShell target condition _ =>
    match s.paneAt target with
    | some pane => condition.holds s pane
    | none => false
  | _ => true

theorem effect_holds (s : Server) {target : Target} {condition : Condition} {body : List SetOption}
    (h : s.takesEffect (.ifShell target condition body) = true) :
    ∃ pane, s.paneAt target = some pane ∧ condition.holds s pane = true := by
  rw [takesEffect] at h
  split at h
  case h_1 pane hpane => exact ⟨pane, hpane, h⟩
  case h_2 => cases h

/-- Panes and windows come, go and move, and users look at other windows. A
pane that comes has no options. -/
def arrange (s : Server) (layout : List (Nat × Nat)) (sessions : List (List Nat))
    (clients : List Nat) (active : Nat → Nat) (names : Nat → UInt16 → Str) : Server :=
  { s with
    panes := layout.map fun (id, window) =>
      match s.pane? id with
      | some pane => { pane with window }
      | none => ⟨id, window, [], []⟩
    sessions, clients, active, names }

end Server

-- -----
-- What commands store
-- -----

/-- The values that a `set-option` may give an option of a pane. -/
inductive SetOption.Stores : SetOption → Nat → PaneOption → Str → Prop
  | set (id : Nat) (option : PaneOption) (value : Str) : Stores (.set id option value) id option value
  | setFormat (id : Nat) (option : PaneOption) (value : List Piece) (s : Server) (pane : Pane) :
    Stores (.setFormat id option value) id option (value.flatMap (·.read s pane))
  | unset (id : Nat) (option : PaneOption) : Stores (.unset id option) id option []

def Command.options : Command → List SetOption
  | .set option => [option]
  | .ifShell _ _ body => body
  | .listPanes | .listClients => []

/-- What holds of every option of a pane. -/
def Server.Options (s : Server) (K : Nat → PaneOption → Str → Prop) : Prop :=
  ∀ pane ∈ s.panes, ∀ option, K pane.id option (pane.get option)

section
variable {K : Nat → PaneOption → Str → Prop} {s s' : Server}

theorem Server.Options.set (h : s.Options K) {id : Nat} {option : PaneOption} {value : Str}
    (hvalue : K id option value) : (s.update id (·.set option value)).Options K := by
  intro pane' hpane' option'
  obtain ⟨pane, hpane, rfl⟩ := List.mem_map.mp hpane'
  have hold := h pane hpane option'
  split
  case isTrue hid =>
    subst hid
    cases option <;> cases option' <;> first | exact hold | exact hvalue
  case isFalse => exact hold

theorem Server.Options.setOption (h : s.Options K) {o : SetOption}
    (hstores : ∀ id option value, o.Stores id option value → K id option value)
    (hrun : s.setOption o = some s') : s'.Options K := by
  cases o with
  | set id option value =>
    obtain ⟨_, -, rfl⟩ := Option.map_eq_some_iff.mp hrun
    exact h.set (hstores _ _ _ (.set id option value))
  | setFormat id option value =>
    obtain ⟨pane, -, rfl⟩ := Option.map_eq_some_iff.mp hrun
    exact h.set (hstores _ _ _ (.setFormat id option value s pane))
  | unset id option =>
    obtain ⟨_, -, rfl⟩ := Option.map_eq_some_iff.mp hrun
    exact h.set (hstores _ _ _ (.unset id option))
  | setWindow | unsetWindow =>
    obtain ⟨_, -, rfl⟩ := Option.map_eq_some_iff.mp hrun
    exact h

theorem Server.Options.setOptions {os : List SetOption} (h : s.Options K)
    (hstores : ∀ o ∈ os, ∀ id option value, o.Stores id option value → K id option value)
    (hrun : s.setOptions os = some s') : s'.Options K := by
  induction os generalizing s with
  | nil =>
    cases hrun
    exact h
  | cons o rest ih =>
    obtain ⟨between, hone, hrest⟩ := Option.bind_eq_some_iff.mp hrun
    exact ih (h.setOption (hstores o (by simp)) hone) (fun o ho => hstores o (by simp [ho])) hrest

/-- What holds of the options and of all that a command may store holds behind it. -/
theorem Server.Options.run (h : s.Options K) {command : Command}
    (hstores : ∀ o ∈ command.options, ∀ id option value, o.Stores id option value →
      K id option value)
    (hrun : s.run command = some s') : s'.Options K := by
  cases command with
  | set o => exact h.setOption (hstores o (by simp [Command.options])) hrun
  | ifShell target condition body =>
    obtain ⟨pane, -, hbody⟩ := Option.bind_eq_some_iff.mp hrun
    split at hbody
    · exact h.setOptions hstores hbody
    · cases hbody
      exact h
  | listPanes | listClients =>
    cases hrun
    exact h

theorem Server.Options.arrange (h : s.Options K) (hnil : ∀ id option, K id option [])
    (layout : List (Nat × Nat)) (sessions : List (List Nat)) (clients : List Nat)
    (active : Nat → Nat) (names : Nat → UInt16 → Str) :
    (s.arrange layout sessions clients active names).Options K := by
  intro pane' hpane' option
  obtain ⟨⟨id, window⟩, -, rfl⟩ := List.mem_map.mp hpane'
  dsimp only
  split
  case h_1 pane hpane => cases option <;> exact h pane (List.mem_of_find?_eq_some hpane) _
  case h_2 => cases option <;> exact hnil id _

end

end Tmux

end PiEnv.General
