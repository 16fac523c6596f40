import Mathlib.Data.Fintype.Basic
import PiEnv.General.TmuxSnapshots

/-!
# Window statuses over whole runs

Every command that the server runs comes from a listing with plain texts or
from a claim of the process's own pane. A window command that takes effect
then shows the statuses as they are, and a status is written only where the
owner still stands that the command was made for.
-/

namespace PiEnv.General

open Js Tmux Framing

-- -----
-- What is promised
-- -----

/-- The pane whose status is set, cleared or written anew. -/
def Tmux.SetOption.statusPane : SetOption → Option Nat
  | .set pane .status _ | .setFormat pane .status _ | .unset pane .status => some pane
  | _ => none

/-- The process and its listing have nothing of another owner of the pane. -/
def Unclaimed (setup : Setup) (based : List Row) (pane : Pane) : Prop :=
  pane.owner = [] ∨ pane.owner = setup.owner ∨
    ∃ row ∈ based, ∃ p, parsePane row = some p ∧ p.pane = pane.id ∧ p.owner = pane.owner

/-- A command of a process, made from a listing, does what it is there for. -/
structure Sound (setup : Setup) (based : List Row) (s : Server) (command : Command) (s' : Server) :
    Prop where
  shows : ∀ window expected body, command = .ifShell (.window window) (.panes expected) body →
    s.takesEffect command = true → Shows s' window (validPanes s window)
  unclaimed : ∀ o ∈ command.options, ∀ id, o.statusPane = some id →
    s.takesEffect command = true → ∀ pane, s.pane? id = some pane → Unclaimed setup based pane

def halfClaim : List Command → Option Nat
  | .set (.set pane .status _) :: _ => some pane
  | _ => none

/-- The pane that comes next to be claimed, and for whom. -/
def nextClaim : List Command → Option (Nat × Str)
  | .set (.set pane .owner owner) :: _ => some (pane, owner)
  | _ => none

section
variable {ι : Type} (setups : ι → Setup)

/-- Nobody else is in the middle of a claim of the pane that these commands claim. -/
def Alone (s : State ι) (commands : List Command) : Prop :=
  ∀ claim ∈ nextClaim commands,
    (∀ i, ∀ call ∈ (s.transports i).call, halfClaim call.commands = some claim.1 →
      (setups i).owner = claim.2) ∧
    ∀ call ∈ s.late, halfClaim call.commands = some claim.1 → (setups call.process).owner = claim.2

/-- Colors are not read as aliases, and claims of a pane do not overlap. -/
def Undisturbed (s : State ι) : Event ι → Prop
  | .update _ _ color _ => colorPattern color = true → Steady color
  | .exec i => ∀ call ∈ (s.transports i).call, Alone setups s call.commands
  | .late n => ∀ call ∈ s.late[n]?, Alone setups s call.commands
  | _ => True

instance [Fintype ι] (s : State ι) (commands : List Command) :
    Decidable (Alone setups s commands) :=
  inferInstanceAs (Decidable (∀ claim ∈ nextClaim commands, _ ∧ _))

instance [Fintype ι] (s : State ι) : ∀ event, Decidable (Undisturbed setups s event)
  | .update _ _ color _ => inferInstanceAs (Decidable (colorPattern color = true → Steady color))
  | .exec i =>
    inferInstanceAs (Decidable (∀ call ∈ (s.transports i).call, Alone setups s call.commands))
  | .late n => inferInstanceAs (Decidable (∀ call ∈ s.late[n]?, Alone setups s call.commands))
  | .close _ | .start _ | .answer _ _ | .timeout _ | .drop _ | .arrange .. => .isTrue trivial

/-- The command that an event runs, whose it is and the listing it was made from. -/
def State.ranBy (s : State ι) : Event ι → Option (ι × List Row × Command)
  | .exec i => (s.transports i).call.bind fun call => call.commands.head?.map (i, call.based, ·)
  | .late n => s.late[n]?.bind fun call => call.commands.head?.map (call.process, call.based, ·)
  | _ => none

end

-- -----
-- Commands of a process
-- -----

/-- The commands behind a claim. -/
inductive Sent (setup : Setup) (based : List Row) : Command → Prop
  | write (state : StatusState) (unchanged : Bool) {color : Str} (h : Plain color) :
    Sent setup based
      (ifOwner setup [.setFormat setup.pane .status (statusFormat state unchanged color)])
  | clear : Sent setup based (ifOwner setup (unsetBoth setup.pane))
  | acknowledge {row : Row} {p : PaneStatus} (hrow : row ∈ based) (hplain : Plain row.text)
    (h : parsePane row = some p) :
    Sent setup based (guarded p [.set p.pane .status (acknowledged p)])
  | remove {row : Row} {p : PaneStatus} (hrow : row ∈ based) (h : parsePane row = some p) :
    Sent setup based (guarded p (unsetBoth p.pane))
  | window {command : Command} (window : Nat) (alive : Nat → Bool) (viewed : Bool) (rows : List Row)
    (hrows : ∀ row ∈ rows, Plain row.text)
    (h : windowCommand window (acknowledge alive rows viewed) = some command) :
    Sent setup based command
  | listPanes : Sent setup based .listPanes
  | listClients : Sent setup based .listClients

/-- The owner of the process's pane is its own or none. -/
def Owned (setup : Setup) (id : Nat) (option : PaneOption) (value : Str) : Prop :=
  id = setup.pane → option = .owner → value = [] ∨ value = setup.owner

/-- What can be left of a call. -/
inductive Inflight (setup : Setup) (based : List Row) (s : Server) : List Command → Prop
  | claim {value : Str} (h : Plain value) :
    Inflight setup based s
      [.set (.set setup.pane .owner setup.owner), .set (.set setup.pane .status value)]
  | half {value : Str} (h : Plain value) (howned : s.Options (Owned setup)) :
    Inflight setup based s [.set (.set setup.pane .status value)]
  | sent {commands : List Command} (h : ∀ command ∈ commands, Sent setup based command) :
    Inflight setup based s commands

section
variable {setup : Setup} {based : List Row} {s s' : Server} {command : Command}

theorem Fields.plain_color {text : Str} {p : PaneStatus} (h : Fields text p) (ht : Plain text) :
    Plain p.color := by
  rw [← bar_split text, plain_bar] at ht
  exact ht _ h.color

theorem plain_acknowledged {row : Row} {p : PaneStatus} (h : parsePane row = some p)
    (hplain : Plain row.text) : Plain (acknowledged p) :=
  plain_status p.state (.inr rfl) ((parseText_fields h).2.2.plain_color hplain)

/-- The acknowledgement that a status is written with. -/
def seenText (pane : Pane) (state : StatusState) (unchanged : Bool) : Str :=
  if unchanged && (state.name ++ lit "|1|").isPrefixOf pane.status then lit "1" else lit "0"

theorem seenText_cases (pane : Pane) (state : StatusState) (unchanged : Bool) :
    seenText pane state unchanged = lit "0" ∨ seenText pane state unchanged = lit "1" := by
  rw [seenText]
  split
  · exact .inr rfl
  · exact .inl rfl

/-- Of what a status is written from only the color is read as a format. -/
theorem read_status (s : Server) (pane : Pane) (state : StatusState) (unchanged : Bool)
    (color : Str) :
    (statusFormat state unchanged color).flatMap (·.read s pane) =
      bar [state.name, seenText pane state unchanged, expand (s.aliasOf pane) color, lit "0"] := by
  have hmark : s.aliasOf pane 124 = none := aliasOf_none s pane (by decide)
  have htext : ∀ {text : Str}, Plain text → expand (s.aliasOf pane) text = text := fun ht =>
    expand_steady (fun u hu => aliasOf_none s pane hu) _ ht.steady
  have hname : (Piece.text (state.name ++ lit "|")).read s pane = state.name ++ lit "|" :=
    htext ((@plain_mark 124 (by decide) (by decide) _ _).mpr ⟨state.plain_name, plain_nil⟩)
  have hcolor : (Piece.text (lit "|" ++ color ++ lit "|0")).read s pane =
      lit "|" ++ expand (s.aliasOf pane) color ++ lit "|0" := by
    have hback := expand_mark (by decide) hmark color (lit "0")
    have hfront := expand_mark (by decide) hmark [] (color ++ 124 :: lit "0")
    rw [htext (by decide : Plain (lit "0"))] at hback
    rw [hback] at hfront
    simpa [Piece.read, lit, units, expand] using hfront
  have hseen : (if unchanged then Piece.seen state.name else .text (lit "0")).read s pane =
      seenText pane state unchanged := by
    cases unchanged with
    | false => exact htext (by decide : Plain (lit "0"))
    | true => simp [Piece.read, seenText]
  simp only [statusFormat, List.flatMap_cons, List.flatMap_nil, hname, hseen, hcolor]
  simp [bar, join, List.intercalate, lit, units]

theorem read_statusFormat (s : Server) (pane : Pane) (state : StatusState) (unchanged : Bool)
    {color : Str} (h : Plain color) :
    Plain ((statusFormat state unchanged color).flatMap (·.read s pane)) := by
  rw [read_status, expand_steady (fun u hu => aliasOf_none s pane hu) _ h.steady]
  exact plain_status state (seenText_cases pane state unchanged) h

theorem Sent.windowCommand_eq {window : Nat} {snapshot : WindowSnapshot}
    (h : windowCommand window snapshot = some command) :
    ∃ winner, command =
      .ifShell (.window window) (.panes (expectedText snapshot)) (windowBody window winner) := by
  rw [windowCommand] at h
  split at h
  case isTrue => exact ⟨_, (Option.some.inj h).symm⟩
  case isFalse => cases h

/-- Window commands leave the options of panes. -/
theorem windowBody_stores {window : Nat} {winner : Option PaneStatus} {o : SetOption}
    (ho : o ∈ windowBody window winner) {id : Nat} {option : PaneOption} {value : Str} :
    ¬ o.Stores id option value := by
  intro hstores
  cases winner <;> cases hstores <;> simp [windowBody] at ho

/-- What is sent stores plain texts, and never an owner. -/
theorem Sent.stores (h : Sent setup based command) :
    ∀ o ∈ command.options, ∀ id option value, o.Stores id option value →
      Plain value ∧ (option = .owner → value = []) := by
  have hunset : ∀ pane, ∀ o ∈ unsetBoth pane, ∀ id option value, o.Stores id option value →
      Plain value ∧ (option = .owner → value = []) := by
    intro pane o ho id option value hstores
    rcases List.mem_pair.mp ho with rfl | rfl <;> cases hstores <;> exact ⟨plain_nil, fun _ => rfl⟩
  cases h with
  | write state unchanged hcolor =>
    intro o ho id option value hstores
    obtain rfl := List.mem_singleton.mp ho
    cases hstores with
    | setFormat _ _ _ s pane => exact ⟨read_statusFormat s pane state unchanged hcolor, nofun⟩
  | clear => exact hunset setup.pane
  | acknowledge hrow hplain hp =>
    intro o ho id option value hstores
    obtain rfl := List.mem_singleton.mp ho
    cases hstores with
    | set => exact ⟨plain_acknowledged hp hplain, nofun⟩
  | remove => exact hunset _
  | window w alive viewed rows hrows hcommand =>
    obtain ⟨winner, rfl⟩ := Sent.windowCommand_eq hcommand
    exact fun o ho _ _ _ hstores => absurd hstores (windowBody_stores ho)
  | listPanes | listClients => exact fun o ho => nomatch ho

-- -----
-- What a command does
-- -----

theorem ownerPid_steady {owner : Str} {pid : Nat} (h : ownerPid owner = some pid) : Steady owner := by
  refine (plain_of_mem fun u hu => ?_).steady
  rw [ownerPid] at h
  split at h
  case h_2 => cases h
  case h_1 uuid huuid =>
    split at h
    case isFalse => cases h
    case isTrue hok =>
      have hunits : uuid.all isUuidUnit = true := (Bool.and_eq_true_iff.mp hok).2
      rw [← List.takeWhile_append_dropWhile (p := isDigit) (l := owner), huuid] at hu
      rcases List.mem_append.mp hu with hdigit | hrest
      · exact isDigit_plain (List.mem_takeWhile_imp hdigit)
      · rcases List.mem_cons.mp hrest with rfl | hmem
        · decide
        · exact isUuidUnit_plain (List.all_eq_true.mp hunits u hmem)

/-- A guard that holds has found its owner. -/
theorem guard_owner {pane : Pane} {owner : Str} (hsteady : Steady owner)
    (h : (Condition.equal .owner owner).holds s pane = true) : pane.owner = owner := by
  rw [Condition.holds, expand_steady (fun u hu => aliasOf_none s pane hu) _ hsteady] at h
  exact eq_of_beq h

theorem guarded_unclaimed {row : Row} {p : PaneStatus} {body : List SetOption} {pane : Pane}
    (hrow : row ∈ based) (hp : parsePane row = some p)
    (heffect : s.takesEffect (guarded p body) = true) (hpane : s.pane? p.pane = some pane) :
    Unclaimed setup based pane := by
  obtain ⟨found, hfound, hholds⟩ := s.effect_holds heffect
  obtain rfl : pane = found := Option.some.inj (hpane.symm.trans hfound)
  obtain ⟨pid, hpid⟩ := (parseText_fields hp).2.2.pid
  have howner := guard_owner (ownerPid_steady hpid) (Bool.and_eq_true_iff.mp hholds).1
  have hid : pane.id = p.pane := s.pane?_id hpane
  exact .inr (.inr ⟨row, hrow, p, hp, hid.symm, howner.symm⟩)

theorem ifOwner_unclaimed {body : List SetOption} {pane : Pane}
    (heffect : s.takesEffect (ifOwner setup body) = true)
    (hpane : s.pane? setup.pane = some pane) : Unclaimed setup based pane := by
  obtain ⟨found, hfound, hholds⟩ := s.effect_holds heffect
  obtain rfl : pane = found := Option.some.inj (hpane.symm.trans hfound)
  exact .inr (.inl (guard_owner setup.plain_owner.steady hholds))

/-- The statuses that a command sent to guard a pane may write are that pane's. -/
theorem statusPane_unset {pane id : Nat} {o : SetOption} (ho : o ∈ unsetBoth pane)
    (h : o.statusPane = some id) : id = pane := by
  rcases List.mem_pair.mp ho with rfl | rfl
  · cases h
  · exact (Option.some.inj h).symm

/-- Nothing in the body of a window command fails. -/
theorem run_windowBody {window : Nat} {pane : Pane} (hpane : s.paneAt (.window window) = some pane)
    (winner : Option PaneStatus) : ∃ s', s.setOptions (windowBody window winner) = some s' := by
  have hkept : ∀ option value, (s.updateWindow window option value).paneAt (.window window) =
      some pane := fun _ _ => hpane
  rw [← Option.isSome_iff_exists]
  cases winner <;> simp [windowBody, Server.setOptions, Server.setOption, hpane, hkept]

theorem Sent.sound (h : Sent setup based command)
    (hplain : ∀ pane ∈ s.panes, Plain pane.row.text) :
    Sound setup based s command ((s.run command).getD s) := by
  cases h with
  | write state unchanged hcolor =>
    refine ⟨fun _ _ _ h => by simp [ifOwner] at h, fun o ho id hid heffect pane hpane => ?_⟩
    obtain rfl := List.mem_singleton.mp ho
    obtain rfl := Option.some.inj hid
    exact ifOwner_unclaimed heffect hpane
  | clear =>
    refine ⟨fun _ _ _ h => by simp [ifOwner] at h, fun o ho id hid heffect pane hpane => ?_⟩
    obtain rfl := statusPane_unset ho hid
    exact ifOwner_unclaimed heffect hpane
  | acknowledge hrow _ hp =>
    refine ⟨fun _ _ _ h => by simp [guarded] at h, fun o ho id hid heffect pane hpane => ?_⟩
    obtain rfl := List.mem_singleton.mp ho
    obtain rfl := Option.some.inj hid
    exact guarded_unclaimed hrow hp heffect hpane
  | remove hrow hp =>
    refine ⟨fun _ _ _ h => by simp [guarded] at h, fun o ho id hid heffect pane hpane => ?_⟩
    obtain rfl := statusPane_unset ho hid
    exact guarded_unclaimed hrow hp heffect hpane
  | window w alive viewed rows hrows hcommand =>
    refine ⟨fun window expected body h heffect => ?_, fun o ho id hid => ?_⟩
    · obtain ⟨winner, hcommand'⟩ := Sent.windowCommand_eq hcommand
      obtain rfl : w = window := by
        rw [hcommand'] at h
        simp only [Command.ifShell.injEq, Target.window.injEq] at h
        exact h.1
      have heffect' := heffect
      rw [hcommand'] at heffect'
      obtain ⟨pane, hpane, hholds⟩ := s.effect_holds heffect'
      obtain ⟨s', hbody⟩ := run_windowBody hpane winner
      have hrun : s.run command = some s' := by
        rw [hcommand', Server.run, hpane, Option.bind_some, if_pos hholds, hbody]
      rw [hrun]
      exact windowCommand_shows hrows
        (fun pane hm => hplain pane (List.mem_of_mem_filter hm)) hcommand heffect hrun
    · obtain ⟨winner, rfl⟩ := Sent.windowCommand_eq hcommand
      cases winner <;> rcases List.mem_pair.mp ho with rfl | rfl <;> cases hid
  | listPanes | listClients => exact ⟨fun _ _ _ h => (by cases h), fun o ho => (by cases ho)⟩

/-- What is left of a call does what it is there for, command by command. -/
theorem Inflight.sound {rest : List Command} (h : Inflight setup based s (command :: rest))
    (hplain : ∀ pane ∈ s.panes, Plain pane.row.text) :
    Sound setup based s command ((s.run command).getD s) := by
  cases h with
  | claim => exact ⟨nofun, fun o ho id hid => by obtain rfl := List.mem_singleton.mp ho; cases hid⟩
  | half _ howned =>
    refine ⟨nofun, fun o ho id hid _ pane hpane => ?_⟩
    obtain rfl := List.mem_singleton.mp ho
    obtain rfl := Option.some.inj hid
    have hid' : pane.id = setup.pane := s.pane?_id hpane
    have howner := howned pane (List.mem_of_find?_eq_some hpane) .owner hid' rfl
    exact howner.elim .inl fun h => .inr (.inl h)
  | sent hall => exact (hall command (by simp)).sound hplain

-- -----
-- What a command leaves
-- -----

theorem stores_set {pane id : Nat} {option option' : PaneOption} {value value' : Str}
    (h : (SetOption.set pane option value).Stores id option' value') :
    id = pane ∧ option' = option ∧ value' = value := by
  cases h
  exact ⟨rfl, rfl, rfl⟩

theorem Inflight.options {rest : List Command} (h : Inflight setup based s (command :: rest))
    (hplain : s.Options fun _ _ value => Plain value) (hrun : s.run command = some s') :
    s'.Options fun _ _ value => Plain value := by
  refine hplain.run (fun o ho id option value hstores => ?_) hrun
  cases h with
  | claim =>
    obtain rfl := List.mem_singleton.mp ho
    cases hstores
    exact setup.plain_owner
  | half hvalue =>
    obtain rfl := List.mem_singleton.mp ho
    cases hstores
    exact hvalue
  | sent hall => exact ((hall command (by simp)).stores o ho id option value hstores).1

/-- Who has written the owner into the pane finds it there. -/
theorem Inflight.ran {rest : List Command} (h : Inflight setup based s (command :: rest))
    (hrun : s.run command = some s') : Inflight setup based s' rest := by
  cases h with
  | claim hvalue =>
    obtain ⟨_, -, rfl⟩ := Option.map_eq_some_iff.mp hrun
    refine .half hvalue fun pane' hpane' option hid hoption => ?_
    subst hoption
    obtain ⟨pane, -, rfl⟩ := List.mem_map.mp hpane'
    have hid' : pane.id = setup.pane := by
      split at hid
      · exact hid
      · exact hid
    rw [if_pos hid']
    exact .inr rfl
  | half => exact .sent nofun
  | sent hall => exact .sent fun other hother => hall other (List.mem_cons_of_mem _ hother)

variable {other : Setup} {listing : List Row}

/-- A command leaves what others have in flight, if it claims nothing that they are claiming. -/
theorem Inflight.keep {rest commands : List Command} (hother : Inflight other listing s commands)
    (h : Inflight setup based s (command :: rest)) (hrun : s.run command = some s')
    (halone : ∀ pane owner, command = .set (.set pane .owner owner) →
      halfClaim commands = some pane → other.owner = owner) :
    Inflight other listing s' commands := by
  cases hother with
  | claim hvalue => exact .claim hvalue
  | sent hall => exact .sent hall
  | half hvalue howned =>
    refine .half hvalue (howned.run (fun o ho id option value hstores hid hoption => ?_) hrun)
    cases h with
    | claim =>
      obtain rfl := List.mem_singleton.mp ho
      obtain ⟨rfl, -, rfl⟩ := stores_set hstores
      exact .inr (halone _ _ rfl (congrArg some hid.symm)).symm
    | half =>
      obtain rfl := List.mem_singleton.mp ho
      obtain ⟨-, rfl, -⟩ := stores_set hstores
      cases hoption
    | sent hall => exact .inl (((hall command (by simp)).stores o ho _ _ _ hstores).2 hoption)

theorem Inflight.arranged {commands : List Command} (h : Inflight setup based s commands)
    (layout : List (Nat × Nat)) (sessions : List (List Nat)) (clients : List Nat)
    (active : Nat → Nat) (names : Nat → UInt16 → Str) :
    Inflight setup based (s.arrange layout sessions clients active names) commands := by
  cases h with
  | claim hvalue => exact .claim hvalue
  | half hvalue howned =>
    exact .half hvalue (Server.Options.arrange howned (fun _ _ _ _ => .inl rfl) _ _ _ _ _)
  | sent hall => exact .sent hall

end

-- -----
-- The commands of a snapshot
-- -----

theorem windowRows_mem (rows : List Row) {window : Nat} {group : List Row}
    (h : (window, group) ∈ (windowRows rows).entries) : ∀ row ∈ group, row ∈ rows := by
  suffices hfold : ∀ (left : List Row) (visited : List Nat) (windows : JsMap Nat (List Row)),
      (∀ row ∈ left, row ∈ rows) →
      (∀ w g, windows.get w = some g → ∀ row ∈ g, row ∈ rows) →
      ∀ w g, (left.foldl windowStep (visited, windows)).2.get w = some g → ∀ row ∈ g, row ∈ rows from
    hfold rows [] JsMap.empty (fun _ h => h) (by simp) window group (JsMap.get_of_mem h)
  intro left
  induction left with
  | nil => exact fun _ _ _ hwindows => hwindows
  | cons row left ih =>
    intro visited windows hleft hwindows
    have hrest : ∀ r ∈ left, r ∈ rows := fun r hr => hleft r (List.mem_cons_of_mem _ hr)
    rw [List.foldl_cons, windowStep]
    split
    · exact ih visited windows hrest hwindows
    · refine ih _ _ hrest fun w g hget r hr => ?_
      rw [JsMap.get_set] at hget
      split at hget
      case isFalse => exact hwindows w g hget r hr
      case isTrue =>
        obtain rfl := Option.some.inj hget
        rcases List.mem_append.mp hr with hold | hnew
        · cases hgot : windows.get row.window with
          | none => simp [hgot] at hold
          | some g => exact hwindows _ g hgot r (by simpa [hgot] using hold)
        · obtain rfl := List.mem_singleton.mp hnew
          exact hleft _ List.mem_cons_self

theorem aggregateCommands_sent (setup : Setup) (alive : Nat → Bool) {rows : List Row}
    (viewed : List Nat) (hrows : ∀ row ∈ rows, Plain row.text) :
    ∀ command ∈ aggregateCommands alive rows viewed, Sent setup rows command := by
  intro command hcommand
  obtain ⟨⟨window, group⟩, hgroup, hmem⟩ := List.mem_flatMap.mp hcommand
  have hsub := windowRows_mem rows hgroup
  rcases List.mem_append.mp hmem with hown | hwindow
  · obtain ⟨pair, hpair, hown⟩ := List.mem_flatMap.mp hown
    obtain ⟨row, hrow, rfl⟩ := List.mem_map.mp hpair
    have hcase := acknowledgeRow_cases alive (window ∈ viewed) row
    generalize acknowledgeRow alive (window ∈ viewed) row = result at hcase hown
    cases hcase with
    | invalid | kept => exact nomatch hown
    | gone p hp =>
      obtain rfl := List.mem_singleton.mp hown
      exact .remove (hsub row hrow) hp
    | seen p hp =>
      obtain rfl := List.mem_singleton.mp hown
      exact .acknowledge (hsub row hrow) (hrows row (hsub row hrow)) hp
  · exact .window window alive (window ∈ viewed) group (fun row hrow => hrows row (hsub row hrow))
      (Option.mem_toList.mp hwindow)

-- -----
-- The invariant
-- -----

theorem colourIndex_digits {text : Str} (h : colourIndex text = true) :
    ∀ u ∈ text, isDigit u = true := by
  have hrange : ∀ {u low high : UInt16}, 48 ≤ low → high ≤ 57 → low ≤ u → u ≤ high →
      isDigit u = true := fun hl hh hlow hhigh => by
    simp only [isDigit, Bool.and_eq_true, decide_eq_true_eq]
    exact ⟨UInt16.le_trans hl hlow, UInt16.le_trans hhigh hh⟩
  rw [colourIndex.eq_def] at h
  split at h
  case h_1 a => simpa using h
  case h_2 a b =>
    simp only [Bool.and_eq_true] at h
    simpa using ⟨h.1.2, h.2⟩
  case h_3 a b c =>
    simp only [Bool.or_eq_true, Bool.and_eq_true, beq_iff_eq, decide_eq_true_eq] at h
    rcases h with (⟨⟨rfl, hb⟩, hc⟩ | ⟨⟨⟨rfl, hlow⟩, hhigh⟩, hc⟩) | ⟨⟨⟨rfl, rfl⟩, hlow⟩, hhigh⟩
    · simpa using ⟨(by decide : isDigit 49 = true), hb, hc⟩
    · simpa using ⟨(by decide : isDigit 50 = true), hrange (by decide) (by decide) hlow hhigh, hc⟩
    · simpa using ⟨(by decide : isDigit 50 = true), (by decide : isDigit 53 = true),
        hrange (by decide) (by decide) hlow hhigh⟩
  case h_4 => cases h

theorem not_mem_color {color : Str} (mark : UInt16) (h : colorPattern color = true)
    (hmark : isHexDigit mark = false ∧ mark ∉ lit "colour")
    (hsharp : mark = 35 → color.head? ≠ some 35) : mark ∉ color := by
  obtain ⟨hhex, hname⟩ := hmark
  intro hmem
  rw [colorPattern.eq_def] at h
  split at h
  case h_1 digits =>
    rcases List.mem_cons.mp hmem with rfl | hdigit
    · exact hsharp rfl rfl
    · have hall := List.all_eq_true.mp (Bool.and_eq_true_iff.mp h).2 mark hdigit
      exact Bool.noConfusion (hhex.symm.trans hall)
  case h_2 =>
    obtain ⟨hcolour, hindex⟩ := Bool.and_eq_true_iff.mp h
    obtain ⟨rest, rfl⟩ := List.isPrefixOf_iff_prefix.mp hcolour
    have hdrop : (lit "colour" ++ rest).drop 6 = rest := List.drop_left' rfl
    rw [hdrop] at hindex
    rcases List.mem_append.mp hmem with hletter | hdigit
    · exact hname hletter
    · simp [isHexDigit, colourIndex_digits hindex mark hdigit] at hhex

theorem colorPattern_plain {color : Str} (h : colorPattern color = true) (hsteady : Steady color) :
    Plain color := by
  have hnot : (126 : UInt16) ∉ color := not_mem_color 126 h (by decide) nofun
  exact ⟨hsteady, isChain_of_mem fun u hu _ hm => hnot (hm.1 ▸ hu)⟩

structure CallOk (setup : Setup) (s : Server) (call : Call) : Prop where
  left : Inflight setup call.based s call.commands
  panes : ∀ row ∈ call.panes, Plain row.text
  listed : ∀ rows, call.awaits = .listClients rows → ∀ row ∈ rows, Plain row.text

structure TransportOk (setup : Setup) (s : Server) (t : Transport) : Prop where
  tasks : ∀ state color revision, .update state color revision ∈ t.pending → Plain color
  call : ∀ call, t.call = some call → CallOk setup s call

section
variable {setup : Setup} {s s' : Server} {t : Transport}

theorem CallOk.of {awaits : Await} {commands : List Command} {based : List Row}
    (h : Inflight setup based s commands)
    (hlisted : ∀ rows, awaits = .listClients rows → ∀ row ∈ rows, Plain row.text) :
    CallOk setup s (.of awaits commands based) :=
  ⟨h, nofun, hlisted⟩

theorem TransportOk.waiting (h : TransportOk setup s t) {call : Call} (hcall : CallOk setup s call) :
    TransportOk setup s { t with call := some call } :=
  ⟨h.tasks, fun other hother => by obtain rfl := Option.some.inj hother; exact hcall⟩

theorem TransportOk.finish (h : TransportOk setup s t) : TransportOk setup s t.finish :=
  ⟨h.tasks, nofun⟩

theorem TransportOk.list (h : TransportOk setup s t) : TransportOk setup s t.list :=
  h.waiting (.of (.sent fun command hc => by
    obtain rfl := List.mem_singleton.mp hc
    exact .listPanes) nofun)

theorem TransportOk.task (h : TransportOk setup s t) {task : Task}
    (hcolor : ∀ state color revision, task = .update state color revision → Plain color) :
    TransportOk setup s (t.task setup task) := by
  cases task with
  | update state color revision =>
    have hplain := hcolor state color revision rfl
    refine ⟨h.tasks, fun call hcall => ?_⟩
    obtain rfl := Option.some.inj hcall
    refine .of ?_ nofun
    split
    · refine .sent fun command hc => ?_
      obtain rfl := List.mem_singleton.mp hc
      exact .write state _ hplain
    · exact .claim (plain_status state (.inl rfl) hplain)
  | close =>
    rw [Transport.task]
    split
    · refine h.waiting (.of (.sent fun command hc => ?_) nofun)
      obtain rfl := List.mem_singleton.mp hc
      exact .clear
    · exact h

theorem TransportOk.resume (h : TransportOk setup s t) {call : Call} (hcall : CallOk setup s call)
    (printed : Bool) (alive : Nat → Bool) : TransportOk setup s (t.resume call printed alive) := by
  rw [Transport.resume]
  split
  · split
    · exact TransportOk.list ⟨h.tasks, h.call⟩
    · exact h.finish
  · exact h.list
  · split
    · refine h.waiting (.of (.sent fun command hc => ?_) fun rows heq => ?_)
      · obtain rfl := List.mem_singleton.mp hc
        exact .listClients
      · cases heq
        exact hcall.panes
    · exact h.finish
  case h_4 rows hawaits =>
    dsimp only
    split
    · exact h.waiting (.of (.sent (aggregateCommands_sent setup alive call.clients
        (hcall.listed rows hawaits))) nofun)
    · exact h.finish
  · exact h.finish

/-- What another server state leaves of a process. -/
theorem TransportOk.mono (h : TransportOk setup s t)
    (hleft : ∀ call, t.call = some call → Inflight setup call.based s' call.commands) :
    TransportOk setup s' t :=
  ⟨h.tasks, fun call hcall =>
    ⟨hleft call hcall, (h.call call hcall).panes, (h.call call hcall).listed⟩⟩

end

section
variable {ι : Type} {setups : ι → Setup} {s s' : State ι}

structure Inv (setups : ι → Setup) (s : State ι) : Prop where
  options : s.server.Options fun _ _ value => Plain value
  transports : ∀ i, TransportOk (setups i) s.server (s.transports i)
  late : ∀ call ∈ s.late, Inflight (setups call.process) call.based s.server call.commands

theorem Inv.rows (h : Inv setups s) : ∀ pane ∈ s.server.panes, Plain pane.row.text := fun pane hm =>
  (plain_mark (by decide) (by decide)).mpr ⟨h.options pane hm .owner, h.options pane hm .status⟩

theorem inv_initial (setups : ι → Setup) {server : Server}
    (h : ∀ pane ∈ server.panes, Plain pane.row.text) : Inv setups (State.initial server) := by
  refine ⟨fun pane hm option => ?_, fun i => ⟨nofun, nofun⟩, nofun⟩
  obtain ⟨howner, hstatus⟩ := (plain_mark (by decide) (by decide)).mp (h pane hm)
  cases option
  · exact howner
  · exact hstatus

/-- A command that runs leaves everything that is in flight besides it. -/
theorem Inv.others (h : Inv setups s) {i : ι} {based : List Row} {command : Command}
    {rest : List Command} {server : Server}
    (hown : Inflight (setups i) based s.server (command :: rest))
    (halone : Alone setups s (command :: rest)) (hrun : s.server.run command = some server) :
    (∀ j call, (s.transports j).call = some call →
      Inflight (setups j) call.based server call.commands) ∧
    ∀ call ∈ s.late, Inflight (setups call.process) call.based server call.commands := by
  constructor
  · intro j call hcall
    refine ((h.transports j).call call hcall).left.keep hown hrun fun pane owner hset hhalf => ?_
    subst hset
    exact (halone _ rfl).1 j call hcall hhalf
  · intro call hcall
    refine (h.late call hcall).keep hown hrun fun pane owner hset hhalf => ?_
    subst hset
    exact (halone _ rfl).2 call hcall hhalf

/-- The call of the command that has run, as far as it is left. -/
theorem CallOk.ran {setup : Setup} {server : Server} {call : Call} {command : Command}
    {rest : List Command} (h : CallOk setup server call) (hcommands : call.commands = command :: rest)
    (hrows : ∀ pane ∈ server.panes, Plain pane.row.text) :
    CallOk setup ((server.run command).getD server) (call.ran server command rest) := by
  have hleft := h.left
  rw [hcommands] at hleft
  rw [Call.ran.eq_def]
  split
  · refine ⟨hleft.ran rfl, fun row hrow => ?_, h.listed⟩
    obtain ⟨windows, -, hwindows⟩ := List.mem_flatMap.mp hrow
    obtain ⟨window, -, hwindow⟩ := List.mem_flatMap.mp hwindows
    obtain ⟨pane, hpane, rfl⟩ := List.mem_map.mp hwindow
    exact hrows pane (List.mem_of_mem_filter hpane)
  · exact ⟨hleft.ran rfl, h.panes, h.listed⟩
  · cases hrun : server.run command with
    | some after => exact ⟨hleft.ran hrun, h.panes, h.listed⟩
    | none => exact ⟨.sent nofun, h.panes, h.listed⟩

theorem Inv.runLate (h : Inv setups s) {n : Nat} {call : Late ι} {command : Command}
    {rest : List Command} (hcall : s.late[n]? = some call)
    (hcommands : call.commands = command :: rest) (halone : Alone setups s call.commands) :
    Inv setups { s with
      server := (s.server.run command).getD s.server
      late := s.late.set n
        { call with commands := if (s.server.run command).isSome then rest else [] } } := by
  have hleft := h.late call (List.mem_of_getElem? hcall)
  rw [hcommands] at hleft halone
  cases hrun : s.server.run command with
  | none =>
    refine ⟨h.options, h.transports, fun other hother => ?_⟩
    rcases List.mem_or_eq_of_mem_set hother with hold | rfl
    · exact h.late other hold
    · exact .sent nofun
  | some server =>
    obtain ⟨hothers, hlate⟩ := h.others hleft halone hrun
    refine ⟨hleft.options h.options hrun, fun j => (h.transports j).mono (hothers j), ?_⟩
    intro other hother
    rcases List.mem_or_eq_of_mem_set hother with hold | rfl
    · exact hlate other hold
    · exact hleft.ran hrun

variable [DecidableEq ι]

theorem Inv.set (h : Inv setups s) {i : ι} {t : Transport} (ht : TransportOk (setups i) s.server t) :
    Inv setups (s.set i t) :=
  ⟨h.options, fun j => by
    by_cases hj : j = i
    · subst hj
      simpa [State.set] using ht
    · simpa [State.set, hj] using h.transports j, h.late⟩


theorem Inv.exec (h : Inv setups s) {i : ι} {call : Call} {command : Command} {rest : List Command}
    (hcall : (s.transports i).call = some call) (hcommands : call.commands = command :: rest)
    (halone : Alone setups s call.commands) :
    Inv setups { s.set i { s.transports i with call := some (call.ran s.server command rest) } with
      server := (s.server.run command).getD s.server } := by
  have hok := (h.transports i).call call hcall
  have hran := hok.ran hcommands h.rows
  have hleft := hok.left
  rw [hcommands] at hleft halone
  cases hrun : s.server.run command with
  | none =>
    rw [hrun] at hran
    exact h.set ((h.transports i).waiting hran)
  | some server =>
    rw [hrun] at hran
    obtain ⟨hothers, hlate⟩ := h.others hleft halone hrun
    refine ⟨hleft.options h.options hrun, fun j => ?_, hlate⟩
    by_cases hj : j = i
    · subst hj
      simpa [State.set] using ((h.transports j).mono (hothers j)).waiting hran
    · simpa [State.set, hj] using (h.transports j).mono (hothers j)

theorem inv_step (s : State ι) (event : Event ι) (s' : State ι) (h : Inv setups s)
    (hok : Undisturbed setups s event) (hstep : step setups s event = some s') : Inv setups s' := by
  cases event with
  | update i state color revision =>
    obtain rfl := Option.some.inj hstep
    rw [State.update]
    split
    · exact h
    case isFalse hopen =>
      have hpattern : colorPattern color = true := by
        simp only [Bool.or_eq_true, Bool.not_eq_true', not_or] at hopen
        simpa using hopen.2
      refine h.set ⟨fun state' color' revision' hmem => ?_, (h.transports i).call⟩
      rcases List.mem_append.mp hmem with hold | hnew
      · exact (h.transports i).tasks _ _ _ hold
      · cases List.mem_singleton.mp hnew
        exact colorPattern_plain hpattern (hok hpattern)
  | close i =>
    obtain rfl := Option.some.inj hstep
    rw [State.close]
    split
    · exact h
    · split
      · exact h.set ⟨(h.transports i).tasks, (h.transports i).call⟩
      · refine h.set ⟨fun state color revision hmem => ?_, (h.transports i).call⟩
        rcases List.mem_append.mp hmem with hold | hnew
        · exact (h.transports i).tasks _ _ _ hold
        · cases List.mem_singleton.mp hnew
  | start i =>
    simp only [step, State.start] at hstep
    split at hstep
    case h_2 => cases hstep
    case h_1 task rest hcall hpending =>
      obtain rfl := Option.some.inj hstep
      have htasks := (h.transports i).tasks
      rw [hpending] at htasks
      have hleft : TransportOk (setups i) s.server { s.transports i with pending := rest } :=
        ⟨fun _ _ _ hmem => htasks _ _ _ (List.mem_cons_of_mem _ hmem), (h.transports i).call⟩
      refine h.set (hleft.task fun state color revision htask => ?_)
      exact htasks state color revision (htask ▸ List.mem_cons_self)
  | exec i =>
    simp only [step, State.exec] at hstep
    split at hstep
    case h_1 => cases hstep
    case h_2 call hcall =>
      split at hstep
      case h_1 => cases hstep
      case h_2 command rest hcommands =>
        obtain rfl := Option.some.inj hstep
        exact h.exec hcall hcommands (hok call hcall)
  | answer i alive =>
    simp only [step, State.answer] at hstep
    split at hstep
    case h_1 => cases hstep
    case h_2 call hcall =>
      split at hstep
      case isFalse => cases hstep
      case isTrue =>
        obtain rfl := Option.some.inj hstep
        exact h.set ((h.transports i).resume ((h.transports i).call call hcall) _ _)
  | timeout i =>
    simp only [step, State.timeout] at hstep
    split at hstep
    case h_1 => cases hstep
    case h_2 call hcall =>
      obtain rfl := Option.some.inj hstep
      have hcallOk := (h.transports i).call call hcall
      have hset := h.set ((h.transports i).resume hcallOk false fun _ => false)
      refine ⟨hset.options, hset.transports, fun other hother => ?_⟩
      rcases List.mem_cons.mp hother with rfl | hold
      · exact hcallOk.left
      · exact h.late other hold
  | late n =>
    simp only [step, State.runLate] at hstep
    split at hstep
    case h_1 => cases hstep
    case h_2 call hcall =>
      split at hstep
      case h_1 => cases hstep
      case h_2 command rest hcommands =>
        obtain rfl := Option.some.inj hstep
        exact h.runLate hcall hcommands (hok call hcall)
  | drop n =>
    obtain rfl := Option.some.inj hstep
    exact ⟨h.options, h.transports, fun call hcall => h.late call (List.mem_of_mem_eraseIdx hcall)⟩
  | arrange layout sessions clients active names =>
    simp only [step] at hstep
    split at hstep
    case isFalse => cases hstep
    case isTrue =>
      obtain rfl := Option.some.inj hstep
      refine ⟨Server.Options.arrange h.options (fun _ _ => plain_nil) _ _ _ _ _, fun i => ?_, ?_⟩
      · exact (h.transports i).mono fun call hcall =>
          ((h.transports i).call call hcall).left.arranged ..
      · exact fun call hcall => (h.late call hcall).arranged ..

omit [DecidableEq ι] in
theorem Inv.ranBy (h : Inv setups s) {event : Event ι} {i : ι} {based : List Row} {command : Command}
    (hran : s.ranBy event = some (i, based, command)) :
    ∃ rest, Inflight (setups i) based s.server (command :: rest) := by
  cases event with
  | exec j =>
    obtain ⟨call, hcall, hhead⟩ := Option.bind_eq_some_iff.mp hran
    obtain ⟨first, hfirst, heq⟩ := Option.map_eq_some_iff.mp hhead
    cases heq
    obtain ⟨rest, hcons⟩ := List.head?_eq_some_iff.mp hfirst
    exact ⟨rest, hcons ▸ ((h.transports i).call call hcall).left⟩
  | late n =>
    obtain ⟨call, hcall, hhead⟩ := Option.bind_eq_some_iff.mp hran
    obtain ⟨first, hfirst, heq⟩ := Option.map_eq_some_iff.mp hhead
    cases heq
    obtain ⟨rest, hcons⟩ := List.head?_eq_some_iff.mp hfirst
    exact ⟨rest, hcons ▸ h.late call (List.mem_of_getElem? hcall)⟩
  | update | close | start | answer | timeout | drop | arrange => cases hran

theorem step_server {event : Event ι} {i : ι} {based : List Row} {command : Command}
    (hran : s.ranBy event = some (i, based, command)) (hstep : step setups s event = some s') :
    s'.server = (s.server.run command).getD s.server := by
  cases event with
  | exec j =>
    obtain ⟨call, hcall, hhead⟩ := Option.bind_eq_some_iff.mp hran
    obtain ⟨first, hfirst, heq⟩ := Option.map_eq_some_iff.mp hhead
    cases heq
    obtain ⟨rest, hcons⟩ := List.head?_eq_some_iff.mp hfirst
    simp only [step, State.exec, hcall, hcons, Option.some.injEq] at hstep
    rw [← hstep]
  | late n =>
    obtain ⟨call, hcall, hhead⟩ := Option.bind_eq_some_iff.mp hran
    obtain ⟨first, hfirst, heq⟩ := Option.map_eq_some_iff.mp hhead
    cases heq
    obtain ⟨rest, hcons⟩ := List.head?_eq_some_iff.mp hfirst
    simp only [step, State.runLate, hcall, hcons, Option.some.injEq] at hstep
    rw [← hstep]
  | update | close | start | answer | timeout | drop | arrange => cases hran

/-- In every run from plain options, of colors that are no aliases and claims
that do not overlap: a window command that takes effect stores the highest
status of the window's panes as they are, and a status is written only where no
other owner has come to stand. -/
theorem statuses_current (setups : ι → Setup) {server : Server}
    (hserver : ∀ pane ∈ server.panes, Plain pane.row.text) {events : List (Event ι)} {s : State ι}
    (hrun : Transitions.run (step setups) (State.initial server) events = some s)
    (hmet : Transitions.AllMeet (step setups) (Undisturbed setups) (State.initial server) events)
    {event : Event ι} {s' : State ι} (hstep : step setups s event = some s')
    {i : ι} {based : List Row} {command : Command}
    (hran : s.ranBy event = some (i, based, command)) :
    Sound (setups i) based s.server command s'.server := by
  have hinv := Transitions.invariant inv_step (inv_initial setups hserver) hmet hrun
  obtain ⟨rest, hleft⟩ := hinv.ranBy hran
  rw [step_server hran hstep]
  exact hleft.sound hinv.rows

end

-- -----
-- Runs on one server
-- -----

/-- Two processes, each for the pane of its name. -/
def processes (pane : Bool → Nat) (i : Bool) : Setup where
  pane := pane i
  valid := true
  pid := if i then 200 else 100
  uuid := lit "00000000-0000-4000-8000-000000000000"
  uuid_units := List.all_eq_true.mp (by decide)

/-- Two windows of one pane each, nothing claimed. -/
def unclaimedServer : Server where
  panes := [⟨1, 1, [], []⟩, ⟨2, 2, [], []⟩]
  sessions := [[1, 2]]
  clients := []
  active := id
  names := fun _ _ => []
  windowOption := fun _ _ => none

def apart (i : Bool) : Nat := if i then 2 else 1

/-- A first update, up to its listings. -/
def claiming (i : Bool) (state : StatusState) (color : Str) : List (Event Bool) :=
  [.update i state color none, .start i, .exec i, .exec i, .answer i fun _ => true]

/-- The listings of a process, up to the call that is made from them. -/
def listing (i : Bool) : List (Event Bool) :=
  [.exec i, .answer i fun _ => true, .exec i, .answer i fun _ => true]

def firstUpdate : List (Event Bool) := claiming false .running (lit "#123456") ++ listing false

/-- The window command of a first update. -/
theorem firstUpdate_current : ∃ (s s' : State Bool) (ran : Bool × List Row × Command),
    Transitions.run (step (processes apart)) (State.initial unclaimedServer) firstUpdate = some s ∧
    step (processes apart) s (.exec false) = some s' ∧ s.ranBy (.exec false) = some ran ∧
    s.server.takesEffect ran.2.2 = true ∧
    Sound (processes apart ran.1) ran.2.1 s.server ran.2.2 s'.server := by
  have hruns : (Transitions.run (step (processes apart)) (State.initial unclaimedServer)
      firstUpdate).any (fun s => (step (processes apart) s (.exec false)).isSome &&
        (s.ranBy (.exec false)).any fun ran => s.server.takesEffect ran.2.2) = true := by
    decide +kernel
  obtain ⟨s, hrun, hnext⟩ := (Option.any_eq_true _ _).mp hruns
  obtain ⟨hstep, hran⟩ := Bool.and_eq_true_iff.mp hnext
  obtain ⟨s', hs'⟩ := Option.isSome_iff_exists.mp hstep
  obtain ⟨ran, hran, heffect⟩ := (Option.any_eq_true _ _).mp hran
  have hmet : Transitions.AllMeet (step (processes apart)) (Undisturbed (processes apart))
      (State.initial unclaimedServer) firstUpdate := by
    decide +kernel
  exact ⟨s, s', ran, hrun, hs', hran, heffect,
    statuses_current (processes apart) (by decide) hrun hmet hs' hran⟩

/-- The color is read as the pane's id when it is written again, and when the
command of the other process is run that was made in between. -/
def aliasedColor : List (Event Bool) :=
  claiming false .running (lit "#D12345") ++ [.timeout false] ++
    claiming true .idle (lit "colour8") ++ listing true ++
    [.update false .running (lit "#D12345") none, .start false, .exec false]

/-- Both processes claim one pane, the second while the first has half done it. -/
def overlappingClaims : List (Event Bool) :=
  [.update false .running (lit "#123456") none, .start false, .exec false,
    .update true .idle (lit "colour8") none, .start true, .exec true, .exec true]

/-- What the second process has made of the first one's status. -/
def aliasedCommand : Command :=
  let owner := (processes apart false).owner
  let value := bar [lit "running", lit "0", lit "#D12345", lit "0"]
  .ifShell (.window 1) (.panes (entry 1 (owner ++ 124 :: value)))
    (windowBody 1 (some ⟨1, 1, owner, value, .running, false, lit "#D12345"⟩))

def claimedStatus : Command :=
  .set (.set 1 .status (bar [lit "running", lit "0", lit "#123456", lit "0"]))

/-- A window command stores a status that no pane has any more, and a process
writes its status into a pane that another has claimed. -/
theorem status_stale :
    (∃ (s s' : State Bool) (ran : Bool × List Row × Command),
      Transitions.run (step (processes apart)) (State.initial unclaimedServer) aliasedColor = some s ∧
      step (processes apart) s (.exec true) = some s' ∧ s.ranBy (.exec true) = some ran ∧
      ¬ Sound (processes apart ran.1) ran.2.1 s.server ran.2.2 s'.server) ∧
    ∃ (s s' : State Bool) (ran : Bool × List Row × Command),
      Transitions.run (step (processes fun _ => 1)) (State.initial unclaimedServer)
        overlappingClaims = some s ∧
      step (processes fun _ => 1) s (.exec false) = some s' ∧ s.ranBy (.exec false) = some ran ∧
      ¬ Sound (processes (fun _ => 1) ran.1) ran.2.1 s.server ran.2.2 s'.server := by
  constructor
  · have hruns : (Transitions.run (step (processes apart)) (State.initial unclaimedServer)
        aliasedColor).any (fun s => (step (processes apart) s (.exec true)).any (fun s' =>
          (s'.server.windowOption 1 .status).isSome && (validPanes s.server 1).isEmpty) &&
          (s.ranBy (.exec true)).any fun ran =>
            ran.2.2 == aliasedCommand && s.server.takesEffect aliasedCommand) = true := by
      decide +kernel
    obtain ⟨s, hrun, hnext⟩ := (Option.any_eq_true _ _).mp hruns
    obtain ⟨hstep, hran⟩ := Bool.and_eq_true_iff.mp hnext
    obtain ⟨s', hs', hshown⟩ := (Option.any_eq_true _ _).mp hstep
    obtain ⟨hsome, hempty⟩ := Bool.and_eq_true_iff.mp hshown
    obtain ⟨ran, hran, hcommand⟩ := (Option.any_eq_true _ _).mp hran
    obtain ⟨heq, heffect⟩ := Bool.and_eq_true_iff.mp hcommand
    refine ⟨s, s', ran, hrun, hs', hran, fun hsound => ?_⟩
    have heq' : ran.2.2 = aliasedCommand := eq_of_beq heq
    have hshows := hsound.shows 1 _ _ heq' (heq' ▸ heffect)
    rw [List.isEmpty_iff.mp hempty] at hshows
    rcases hshows with ⟨-, hnone, -⟩ | ⟨p, hp, -⟩
    · rw [hnone] at hsome
      cases hsome
    · exact nomatch hp.1
  · have hruns : (Transitions.run (step (processes fun _ => 1)) (State.initial unclaimedServer)
        overlappingClaims).any (fun s => (step (processes fun _ => 1) s (.exec false)).isSome &&
          (s.ranBy (.exec false)).any (fun ran =>
            ran.1 == false && ran.2.1 == [] && ran.2.2 == claimedStatus) &&
          (s.server.pane? 1).any fun pane => pane.owner == (processes (fun _ => 1) true).owner) =
        true := by
      decide +kernel
    obtain ⟨s, hrun, hnext⟩ := (Option.any_eq_true _ _).mp hruns
    obtain ⟨hfirst, hpane⟩ := Bool.and_eq_true_iff.mp hnext
    obtain ⟨hstep, hran⟩ := Bool.and_eq_true_iff.mp hfirst
    obtain ⟨s', hs'⟩ := Option.isSome_iff_exists.mp hstep
    obtain ⟨⟨i, based, command⟩, hran, hcommand⟩ := (Option.any_eq_true _ _).mp hran
    obtain ⟨pane, hpane, howner⟩ := (Option.any_eq_true _ _).mp hpane
    simp only [Bool.and_eq_true, beq_iff_eq] at hcommand howner
    obtain ⟨⟨rfl, rfl⟩, rfl⟩ := hcommand
    refine ⟨s, s', _, hrun, hs', hran, fun hsound => ?_⟩
    have hunclaimed := hsound.unclaimed _ (List.mem_singleton.mpr rfl) 1 rfl rfl pane hpane
    rcases hunclaimed with hnil | hown | ⟨row, hrow, -⟩
    · exact absurd (howner.symm.trans hnil) (by decide)
    · exact absurd (howner.symm.trans hown) (by decide)
    · exact nomatch hrow

end PiEnv.General
