import PiEnv.General.TmuxRuns

/-!
# Statuses that are read back

One `TmuxStatus` and the server, from one call of `update` to the next. A
first status is stored as it is written. The ones behind it are written as
formats, in which a color that starts with `#D` or `#F` is another text.
-/

namespace PiEnv.General

open Js Tmux Framing

namespace Publication

-- -----
-- Sequences of updates
-- -----

structure Session where
  transport : Transport
  server : Server

/-- Updates of colors that are not accepted do nothing and are no events. -/
inductive Event where
  /-- The server runs the commands of the update without an error. -/
  | update (state : StatusState) (color : Str) (revision : Option Int)
  /-- The call for the update fails. What the server has run of it belongs to
  what comes `meanwhile`. -/
  | failed (state : StatusState) (color : Str) (revision : Option Int)
  /-- What polls, other processes and users have made of the server. -/
  | meanwhile (server : Server)

def runAll : Server → List Command → Option Server
  | s, [] => some s
  | s, command :: rest => (s.run command).bind (runAll · rest)

section
variable (setup : Setup)

def Session.initial (server : Server) : Session := ⟨.initial, server⟩

/-- The call for an update, and the transport that waits for it. -/
def Session.write (s : Session) (state : StatusState) (color : Str) (revision : Option Int) :
    Transport × List Command :=
  let t := s.transport.task setup (.update state color revision)
  (t, (t.call.map (·.commands)).getD [])

def Session.update (s : Session) (state : StatusState) (color : Str) (revision : Option Int) :
    Option Session :=
  let (t, commands) := s.write setup state color revision
  (runAll s.server commands).map fun server => ⟨{ t with claimed := true }.finish, server⟩

def step (s : Session) : Event → Option Session
  | .update state color revision =>
    if setup.valid && colorPattern color then s.update setup state color revision else none
  | .failed state color revision =>
    if setup.valid && colorPattern color then
      some { s with transport := (s.write setup state color revision).1.finish }
    else none
  | .meanwhile server => some { s with server }

-- -----
-- What is promised
-- -----

/-- The state and the revision of the last update. -/
def announced (last : Option (StatusState × Option Int)) :
    Event → Option (StatusState × Option Int)
  | .update state _ revision | .failed state _ revision => some (state, revision)
  | .meanwhile _ => last

def previous (before : List Event) : Option (StatusState × Option Int) :=
  before.foldl announced none

/-- Nobody else has taken the pane since it was claimed. The guard of the
commands refuses a write otherwise. -/
def Session.Own (s : Session) : Prop :=
  s.transport.claimed = true →
    ∀ pane, s.server.pane? setup.pane = some pane → pane.owner = setup.owner

/-- The pane holds the state as seen. -/
def Session.Acknowledged (s : Session) (state : StatusState) : Prop :=
  ∃ pane, s.server.pane? setup.pane = some pane ∧ state.name ++ lit "|1|" <+: pane.status

/-- The pane's option parses to what has been published. -/
structure Published (before : List Event) (s s' : Session) (state : StatusState) (color : Str)
    (revision : Option Int) (pane : Pane) (p : PaneStatus) : Prop where
  stored : s'.server.pane? setup.pane = some pane
  parsed : parsePane pane.row = some p
  state_eq : p.state = state
  color_eq : p.color = color
  seen : p.seen = true → previous before = some (state, revision) ∧ s.Acknowledged setup state

def Survives (before : List Event) (s : Session) : Event → Prop
  | .update state color revision =>
    s.Own setup → ∀ s', step setup s (.update state color revision) = some s' →
      ∃ pane p, Published setup before s s' state color revision pane p
  | _ => True

/-- The start of a color that is an alias in a format. -/
def aliased (color : Str) : Bool := (lit "#D").isPrefixOf color || (lit "#F").isPrefixOf color

/-- A color that is written as a format is read as it is written. -/
def Unread (s : Session) : Event → Prop
  | .update _ color _ => s.Own setup → s.transport.claimed = true → aliased color = false
  | _ => True

end

/-- The letters of window flags do not have an `F` among them. -/
def Flags (s : Server) : Prop := ∀ id, (70 : UInt16) ∉ s.names id 70

-- -----
-- What an update stores
-- -----

theorem pane?_update (s : Server) (id : Nat) {f : Pane → Pane} (hf : ∀ pane, (f pane).id = pane.id) :
    (s.update id f).pane? id = (s.pane? id).map f := by
  simp only [Server.pane?, Server.update]
  induction s.panes with
  | nil => rfl
  | cons pane rest ih =>
    by_cases hid : pane.id = id
    · simp [hid, hf]
    · simpa [hid] using ih

theorem pane?_set (s : Server) (id : Nat) (option : PaneOption) (value : Str) :
    (s.update id (·.set option value)).pane? id = (s.pane? id).map (·.set option value) :=
  pane?_update s id fun _ => by cases option <;> rfl

section
variable {setup : Setup} {s s' : Session} {state : StatusState} {color : Str} {revision : Option Int}

def Session.unchanged (s : Session) (state : StatusState) (revision : Option Int) : Bool :=
  some state == s.transport.state && revision == s.transport.revision

/-- The status that an update gives the pane. -/
def Session.status (s : Session) (pane : Pane) (state : StatusState) (color : Str)
    (revision : Option Int) : Str :=
  if s.transport.claimed then
    bar [state.name, seenText pane state (s.unchanged state revision),
      expand (s.server.aliasOf pane) color, lit "0"]
  else bar [state.name, lit "0", color, lit "0"]

theorem runAll_claim {server server' : Server}
    (h : runAll server (claimCommands setup state color) = some server') :
    ∃ pane, server.pane? setup.pane = some pane ∧ server'.pane? setup.pane =
      some { pane with owner := setup.owner, status := bar [state.name, lit "0", color, lit "0"] } := by
  obtain ⟨claimed, hclaim, hrest⟩ := Option.bind_eq_some_iff.mp h
  obtain ⟨stored, hstore, hdone⟩ := Option.bind_eq_some_iff.mp hrest
  obtain ⟨pane, hpane, rfl⟩ := Option.map_eq_some_iff.mp hclaim
  obtain ⟨_, -, rfl⟩ := Option.map_eq_some_iff.mp hstore
  obtain rfl := Option.some.inj hdone
  refine ⟨pane, hpane, ?_⟩
  rw [pane?_set, pane?_set, hpane]
  rfl

theorem runAll_write {server server' : Server} {unchanged : Bool}
    (hown : ∀ pane, server.pane? setup.pane = some pane → pane.owner = setup.owner)
    (h : runAll server [ifOwner setup [.setFormat setup.pane .status
      (statusFormat state unchanged color)]] = some server') :
    ∃ pane, server.pane? setup.pane = some pane ∧ server'.pane? setup.pane =
      some { pane with
        owner := setup.owner
        status := bar [state.name, seenText pane state unchanged,
          expand (server.aliasOf pane) color, lit "0"] } := by
  obtain ⟨written, hwrite, hdone⟩ := Option.bind_eq_some_iff.mp h
  obtain rfl := Option.some.inj hdone
  obtain ⟨pane, hpane, hbody⟩ := Option.bind_eq_some_iff.mp hwrite
  have howner := hown pane hpane
  have hholds : (Condition.equal .owner setup.owner).holds server pane = true := by
    rw [Condition.holds, expand_steady (fun u hu => aliasOf_none server pane hu) _
      setup.plain_owner.steady]
    exact beq_iff_eq.mpr howner
  rw [if_pos hholds] at hbody
  obtain ⟨stored, hstore, hrest⟩ := Option.bind_eq_some_iff.mp hbody
  obtain rfl := Option.some.inj hrest
  obtain ⟨found, hfound, rfl⟩ := Option.map_eq_some_iff.mp hstore
  obtain rfl := Option.some.inj (hpane.symm.trans hfound)
  refine ⟨pane, hpane, ?_⟩
  rw [pane?_set, hfound, read_status, ← howner]
  rfl

/-- An update sets the owner and the status of a pane that is still its own. -/
theorem step_update (hown : s.Own setup)
    (h : step setup s (.update state color revision) = some s') :
    colorPattern color = true ∧ ∃ pane, s.server.pane? setup.pane = some pane ∧
      s'.server.pane? setup.pane =
        some { pane with owner := setup.owner, status := s.status pane state color revision } := by
  rw [step] at h
  split at h
  case isFalse => cases h
  case isTrue hok =>
    obtain ⟨server, hrun, rfl⟩ := Option.map_eq_some_iff.mp h
    refine ⟨(Bool.and_eq_true_iff.mp hok).2, ?_⟩
    by_cases hclaimed : s.transport.claimed = true
    · simp only [Transport.task, hclaimed, if_true] at hrun
      obtain ⟨pane, hpane, hstored⟩ := runAll_write (hown hclaimed) hrun
      exact ⟨pane, hpane, by simpa [Session.status, hclaimed, Session.unchanged] using hstored⟩
    · simp only [Transport.task, hclaimed] at hrun
      obtain ⟨pane, hpane, hstored⟩ := runAll_claim hrun
      exact ⟨pane, hpane, by simpa [Session.status, hclaimed] using hstored⟩

end

-- -----
-- What is read of it
-- -----

theorem ownerPid_owner {setup : Setup} (hpid : 0 < setup.pid) (huuid : setup.uuid.length = 36) :
    ownerPid setup.owner = some setup.pid := by
  have hdigits : ∀ u ∈ decimal setup.pid, isDigit u = true := fun u hu => isDigit_decimal hu
  have htake : setup.owner.takeWhile isDigit = decimal setup.pid := by
    rw [Setup.owner, List.takeWhile_append_of_pos hdigits]
    simp [isDigit]
  have hdrop : setup.owner.dropWhile isDigit = 45 :: setup.uuid := by
    rw [Setup.owner, List.dropWhile_append_of_pos hdigits]
    simp [isDigit]
  simp only [ownerPid, htake, hdrop, digitsValue_decimal]
  simpa [decimal_ne_nil, decimal_head hpid, huuid] using setup.uuid_units

theorem bar_not_mem_owner (setup : Setup) : (124 : UInt16) ∉ setup.owner := by
  intro hmem
  rcases List.mem_append.mp hmem with hdigit | hrest
  · exact absurd (isDigit_decimal hdigit) (by decide)
  · rcases List.mem_cons.mp hrest with hdash | huuid
    · cases hdash
    · exact absurd (setup.uuid_units 124 huuid) (by decide)

/-- The color of a status that is read starts what stands in the color's place. -/
theorem parseText_color {pane window : Nat} {owner seen value : Str} {state : StatusState}
    {p : PaneStatus} (howner : (124 : UInt16) ∉ owner) (hseen : (124 : UInt16) ∉ seen)
    (h : parseText pane window (owner ++ 124 :: bar [state.name, seen, value, lit "0"]) = some p) :
    p.color <+: value := by
  obtain ⟨first, rest, hvalue⟩ := List.exists_cons_of_ne_nil (split_ne_nil [124] value)
  have hsplit : split [124] (owner ++ 124 :: bar [state.name, seen, value, lit "0"]) =
      owner :: state.name :: seen :: first :: (rest ++ [lit "0"]) := by
    have hcut : ∀ (text rest : Str), (124 : UInt16) ∉ text →
        split [124] (text ++ 124 :: rest) = text :: split [124] rest := fun text rest htext => by
      have hcons : split [124] (text ++ [124] ++ rest) = text :: split [124] rest := split_cons htext
      simpa using hcons
    have hlast := split_append (c := 124) value (lit "0")
    have hzero : split [124] (lit "0") = [lit "0"] := by decide
    rw [hvalue, hzero] at hlast
    have hbar : bar [state.name, seen, value, lit "0"] =
        state.name ++ 124 :: (seen ++ 124 :: (value ++ [124] ++ lit "0")) := by
      simp [bar, join, List.intercalate]
    rw [hbar, hcut _ _ howner, hcut _ _ (bar_not_mem_name state), hcut _ _ hseen, hlast]
    rfl
  have hcolor : p.color = first := by
    rw [parseText, hsplit] at h
    split at h
    case h_2 => cases h
    case h_1 hfields =>
      split at h
      case h_2 => cases h
      case h_1 =>
        split at h
        case isFalse => cases h
        case isTrue =>
          cases h
          simp only [List.cons.injEq] at hfields
          exact hfields.2.2.2.1.symm
  rw [hcolor, ← bar_split value, hvalue]
  cases rest with
  | nil => simp [bar, join]
  | cons next rest => exact ⟨124 :: bar (next :: rest), by simp [bar, join, List.intercalate_cons_cons]⟩

theorem hex_not_alias {u : UInt16} (h : isHexDigit u = true) :
    u ≠ 35 ∧ (u ∈ aliases → u = 68 ∨ u = 70) := by
  constructor
  · rintro rfl
    exact absurd h (by decide)
  · intro hmem
    simp only [aliases, List.mem_cons, List.not_mem_nil, or_false] at hmem
    rcases hmem with rfl | rfl | rfl | rfl | rfl | rfl | rfl | rfl | rfl
    · exact .inl rfl
    · exact .inr rfl
    all_goals exact absurd h (by decide)

theorem steady_of_hex {digits : Str} (h : ∀ u ∈ digits, isHexDigit u = true) : Steady digits :=
  isChain_of_mem fun u hu _ hm => (hex_not_alias (h u hu)).1 hm.1

theorem steady_of_unread {color : Str} (h : colorPattern color = true)
    (ha : aliased color = false) : Steady color := by
  cases color with
  | nil => exact List.IsChain.nil
  | cons head digits =>
    by_cases hsharp : head = 35
    · subst hsharp
      have hhex := List.all_eq_true.mp (Bool.and_eq_true_iff.mp h).2
      cases digits with
      | nil => exact List.IsChain.singleton 35
      | cons letter rest =>
        refine List.isChain_cons_cons.mpr ⟨fun hm => ?_, steady_of_hex hhex⟩
        obtain ⟨hno, halias⟩ := hex_not_alias (hhex letter List.mem_cons_self)
        rcases hm.2 with heq | hmem
        · exact hno heq
        · rcases halias hmem with rfl | rfl <;> simp [aliased, lit, units] at ha
    · have hno := not_mem_color 35 h (by decide) fun _ => by simpa using hsharp
      exact isChain_of_mem fun u hu _ hm => hno (hm.1 ▸ hu)

theorem aliased_cases {color : Str} (h : colorPattern color = true) (ha : aliased color = true) :
    ∃ letter rest, color = 35 :: letter :: rest ∧ rest.length = 5 ∧ Steady rest ∧
      (letter = 68 ∨ letter = 70) := by
  obtain ⟨letter, rest, rfl, hletter⟩ : ∃ letter rest, color = 35 :: letter :: rest ∧
      (letter = 68 ∨ letter = 70) := by
    rcases Bool.or_eq_true_iff.mp ha with hD | hF
    · obtain ⟨rest, rfl⟩ := List.isPrefixOf_iff_prefix.mp hD
      exact ⟨68, rest, rfl, .inl rfl⟩
    · obtain ⟨rest, rfl⟩ := List.isPrefixOf_iff_prefix.mp hF
      exact ⟨70, rest, rfl, .inr rfl⟩
  obtain ⟨hlength, hhex⟩ := Bool.and_eq_true_iff.mp h
  have hrest : ∀ u ∈ rest, isHexDigit u = true := fun u hu =>
    List.all_eq_true.mp hhex u (List.mem_cons_of_mem _ hu)
  exact ⟨letter, rest, rfl, by simpa using hlength, steady_of_hex hrest, hletter⟩

/-- A color that is an alias has become another text. -/
theorem aliased_read {s : Server} {pane : Pane} {color : Str} (h : colorPattern color = true)
    (hflags : Flags s) (ha : aliased color = true) :
    ¬ color <+: expand (s.aliasOf pane) color := by
  obtain ⟨letter, rest, rfl, hlength, hsteady, hletter⟩ := aliased_cases h ha
  have hrest := expand_steady (fun u hu => aliasOf_none s pane hu) rest hsteady
  rcases hletter with rfl | rfl
  · have hread : expand (s.aliasOf pane) (35 :: 68 :: rest) = paneId pane.id ++ rest := by
      simp [expand, Server.aliasOf, hrest]
    rw [hread]
    exact fun hpre => absurd (List.cons_prefix_cons.mp hpre).1 (by decide)
  · have hread : expand (s.aliasOf pane) (35 :: 70 :: rest) = s.names pane.id 70 ++ rest := by
      simp [expand, Server.aliasOf, aliases, hrest]
    have hno := hflags pane.id
    rw [hread]
    intro hpre
    have hshort := hpre.length_le
    -- the flags are at least as long as the alias, and start with it
    generalize s.names pane.id 70 = flags at hpre hshort hno
    rcases flags with _ | ⟨first, _ | ⟨second, more⟩⟩
    · simp only [List.length_cons, List.length_append, List.length_nil] at hshort
      omega
    · simp only [List.length_cons, List.length_append, List.length_nil] at hshort
      omega
    · obtain ⟨-, hnext⟩ := List.cons_prefix_cons.mp hpre
      obtain ⟨rfl, -⟩ := List.cons_prefix_cons.mp hnext
      simp at hno

-- -----
-- An update in steps
-- -----

section
variable {ι : Type} [DecidableEq ι] {setups : ι → Setup}

def Writes : Command → Prop
  | .set _ | .ifShell .. => True
  | .listPanes | .listClients => False

theorem execs (setups : ι → Setup) (i : ι) (t : Transport) {commands : List Command}
    (hwrites : ∀ c ∈ commands, Writes c) :
    ∀ (s : State ι) (call : Call) {server : Server},
      s.transports i = { t with call := some call } → call.commands = commands →
      runAll s.server commands = some server →
      ∃ s', Transitions.run (General.step setups) s (commands.map fun _ => .exec i) = some s' ∧
        s'.server = server ∧ s'.transports i = { t with call := some { call with commands := [] } } := by
  induction commands with
  | nil =>
    intro s call server ht hcommands hrun
    refine ⟨s, rfl, Option.some.inj hrun, ?_⟩
    rw [ht, ← hcommands]
  | cons command rest ih =>
    intro s call server ht hcommands hrun
    obtain ⟨between, hone, hrest⟩ := Option.bind_eq_some_iff.mp hrun
    have hran : call.ran s.server command rest = { call with commands := rest } := by
      have hwrite := hwrites command List.mem_cons_self
      cases command with
      | set | ifShell => simp [Call.ran, hone]
      | listPanes | listClients => cases hwrite
    have hexec : General.step setups s (.exec i) =
        some { s.set i { t with call := some { call with commands := rest } } with server := between } := by
      simp [General.step, State.exec, ht, hcommands, hran, hone]
    obtain ⟨s', hsteps, hserver, ht'⟩ := ih (fun c hc => hwrites c (List.mem_cons_of_mem _ hc))
      { s.set i { t with call := some { call with commands := rest } } with server := between }
      { call with commands := rest } (by simp [State.set]) rfl hrest
    refine ⟨s', ?_, hserver, ht'⟩
    rw [List.map_cons, Transitions.run, hexec]
    exact hsteps

theorem writes_update (setup : Setup) (s : Session) (state : StatusState) (color : Str)
    (revision : Option Int) : ∀ c ∈ (s.write setup state color revision).2, Writes c := by
  intro c hc
  by_cases hclaimed : s.transport.claimed = true
  · simp only [Session.write, Transport.task, hclaimed] at hc
    obtain rfl := List.mem_singleton.mp hc
    trivial
  · simp only [Session.write, Transport.task, hclaimed] at hc
    rcases List.mem_pair.mp hc with rfl | rfl <;> trivial

theorem task_update (setup : Setup) (t : Transport) (state : StatusState) (color : Str)
    (revision : Option Int) :
    ∃ call, (t.task setup (.update state color revision)).call = some call ∧
      call.awaits = .write ∧ call.failed = false := by
  refine ⟨_, rfl, rfl, rfl⟩

/-- An update is what its steps come to where nothing else happens between them. -/
theorem update_steps {s : State ι} {i : ι} {t : Transport} {state : StatusState} {color : Str}
    {revision : Option Int} {s₁ : Session} (alive : Nat → Bool) (hidle : t.call = none)
    (ht : s.transports i = { t with pending := .update state color revision :: t.pending })
    (h : Session.update (setups i) ⟨t, s.server⟩ state color revision = some s₁) :
    ∃ events s', Transitions.run (General.step setups) s events = some s' ∧
      s'.server = s₁.server ∧ (s'.transports i).finish = s₁.transport := by
  obtain ⟨claimed, closed, last, revised, pending, _⟩ := t
  obtain rfl := hidle
  obtain ⟨server, hrun, rfl⟩ := Option.map_eq_some_iff.mp h
  have hwrites := writes_update (setups i) ⟨⟨claimed, closed, last, revised, pending, none⟩, s.server⟩
    state color revision
  obtain ⟨call, hcall, hwrite, hfailed⟩ := task_update (setups i)
    ⟨claimed, closed, last, revised, pending, none⟩ state color revision
  simp only [Session.write, hcall, Option.map_some, Option.getD_some] at hrun hwrites
  have hstart : General.step setups s (.start i) = some (s.set i (Transport.task (setups i)
      ⟨claimed, closed, last, revised, pending, none⟩ (.update state color revision))) := by
    simp [General.step, State.start, ht]
  dsimp only
  generalize Transport.task (setups i) ⟨claimed, closed, last, revised, pending, none⟩
    (.update state color revision) = waiting at hcall hstart ⊢
  obtain ⟨s', hsteps, hserver, hwaits⟩ := execs setups i waiting hwrites (s.set i waiting) call
    (by simp [State.set, ← hcall]) rfl hrun
  refine ⟨.start i :: ((call.commands.map fun _ => .exec i) ++ [.answer i alive]),
    s'.set i ((s'.transports i).resume { call with commands := [] } true alive), ?_, hserver, ?_⟩
  · rw [Transitions.run, hstart, Option.bind_some, Transitions.run_append hsteps]
    simp [Transitions.run, General.step, State.answer, hwaits, hfailed]
  · simp [State.set, hwaits, Transport.resume, hwrite, Transport.list, Transport.finish]

end

-- -----
-- Every update of a run
-- -----

theorem names_setOption {s s' : Server} {option : SetOption} (h : s.setOption option = some s') :
    s'.names = s.names := by
  cases option <;> obtain ⟨_, -, rfl⟩ := Option.map_eq_some_iff.mp h <;> rfl

theorem names_setOptions {s s' : Server} {options : List SetOption}
    (h : s.setOptions options = some s') : s'.names = s.names := by
  induction options generalizing s with
  | nil => rw [← Option.some.inj h]
  | cons option rest ih =>
    obtain ⟨between, hone, hrest⟩ := Option.bind_eq_some_iff.mp h
    rw [ih hrest, names_setOption hone]

theorem names_run {s s' : Server} {command : Command} (h : s.run command = some s') :
    s'.names = s.names := by
  cases command with
  | set option => exact names_setOption h
  | ifShell target condition body =>
    obtain ⟨pane, -, hbody⟩ := Option.bind_eq_some_iff.mp h
    split at hbody
    · exact names_setOptions hbody
    · rw [← Option.some.inj hbody]
  | listPanes | listClients => rw [← Option.some.inj h]

theorem names_runAll {s s' : Server} {commands : List Command}
    (h : runAll s commands = some s') : s'.names = s.names := by
  induction commands generalizing s with
  | nil => rw [← Option.some.inj h]
  | cons command rest ih =>
    obtain ⟨between, hone, hrest⟩ := Option.bind_eq_some_iff.mp h
    rw [ih hrest, names_run hone]

/-- The transport remembers the last update, and flags remain flags. -/
structure Recorded (before : List Event) (s : Session) : Prop where
  state : s.transport.state = (previous before).map Prod.fst
  revision : s.transport.revision = (previous before).bind Prod.snd
  flags : (∀ server, .meanwhile server ∈ before → Flags server) → Flags s.server

theorem recorded_step {setup : Setup} {before : List Event} {s s' : Session} {event : Event}
    (h : Recorded before s) (hstep : step setup s event = some s') :
    Recorded (before ++ [event]) s' := by
  have hprevious : previous (before ++ [event]) = announced (previous before) event := by
    simp [previous]
  have hflags : (∀ server, .meanwhile server ∈ before ++ [event] → Flags server) →
      Flags s.server := fun hall =>
    h.flags fun server hmem => hall server (List.mem_append_left _ hmem)
  cases event with
  | update state color revision =>
    simp only [step] at hstep
    split at hstep
    case isFalse => cases hstep
    case isTrue =>
      obtain ⟨server, hrun, rfl⟩ := Option.map_eq_some_iff.mp hstep
      refine ⟨?_, ?_, fun hall id => ?_⟩
      · rw [hprevious]
        rfl
      · rw [hprevious]
        rfl
      · rw [names_runAll hrun]
        exact hflags hall id
  | failed state color revision =>
    simp only [step] at hstep
    split at hstep
    case isFalse => cases hstep
    case isTrue =>
      obtain rfl := Option.some.inj hstep
      refine ⟨?_, ?_, hflags⟩
      · rw [hprevious]
        rfl
      · rw [hprevious]
        rfl
  | meanwhile server =>
    obtain rfl := Option.some.inj hstep
    refine ⟨?_, ?_, fun hall => hall server (by simp)⟩
    · rw [hprevious]
      exact h.state
    · rw [hprevious]
      exact h.revision

section
variable {setup : Setup} {before : List Event} {s s' : Session} {state : StatusState} {color : Str}
  {revision : Option Int}

theorem Recorded.unchanged (h : Recorded before s) (hu : s.unchanged state revision = true) :
    previous before = some (state, revision) := by
  simp only [Session.unchanged, h.state, h.revision, Bool.and_eq_true, beq_iff_eq] at hu
  cases hlast : previous before with
  | none => simp [hlast] at hu
  | some last =>
    simp only [hlast, Option.map_some, Option.bind_some, Option.some.injEq] at hu
    rw [hu.1, hu.2]

theorem seenText_one {pane : Pane} {unchanged : Bool} (h : seenText pane state unchanged = lit "1") :
    unchanged = true ∧ state.name ++ lit "|1|" <+: pane.status := by
  rw [seenText] at h
  split at h
  case isTrue hboth =>
    obtain ⟨hunchanged, hpre⟩ := Bool.and_eq_true_iff.mp hboth
    exact ⟨hunchanged, List.isPrefixOf_iff_prefix.mp hpre⟩
  case isFalse => exact absurd h (by decide)

theorem status_read (pane : Pane) (revision : Option Int) (hpattern : colorPattern color = true)
    (hunread : s.transport.claimed = true → aliased color = false) :
    ∃ seen, (seen = lit "0" ∨ seen = lit "1") ∧
      s.status pane state color revision = bar [state.name, seen, color, lit "0"] ∧
      (seen = lit "1" → s.unchanged state revision = true ∧ state.name ++ lit "|1|" <+: pane.status) := by
  by_cases hclaimed : s.transport.claimed = true
  · have hread : expand (s.server.aliasOf pane) color = color :=
      expand_steady (fun u hu => aliasOf_none s.server pane hu) color
        (steady_of_unread hpattern (hunread hclaimed))
    refine ⟨_, seenText_cases pane state (s.unchanged state revision), ?_, seenText_one⟩
    rw [Session.status, if_pos hclaimed, hread]
  · refine ⟨lit "0", .inl rfl, ?_, fun hone => absurd hone (by decide)⟩
    rw [Session.status, if_neg hclaimed]

/-- A status that is still read as it was written survives; an alias does not. -/
theorem published_iff (hpid : 0 < setup.pid) (huuid : setup.uuid.length = 36)
    (hrecorded : Recorded before s) (hflags : Flags s.server) (hown : s.Own setup)
    (hstep : step setup s (.update state color revision) = some s') :
    (∃ pane p, Published setup before s s' state color revision pane p) ↔
      (s.transport.claimed = true → aliased color = false) := by
  obtain ⟨hpattern, pane, hpane, hstored⟩ := step_update hown hstep
  have howner := ownerPid_owner hpid huuid
  have hbar := not_mem_color 124 hpattern (by decide) nofun
  constructor
  · rintro ⟨pane', p, hpublished⟩ hclaimed
    by_contra haliased
    obtain rfl := Option.some.inj (hstored.symm.trans hpublished.stored)
    have hparsed := hpublished.parsed
    simp only [parsePane, Pane.row, Row.text, Session.status, hclaimed, if_true] at hparsed
    have hseen : (124 : UInt16) ∉ seenText pane state (s.unchanged state revision) := by
      rcases seenText_cases pane state (s.unchanged state revision) with heq | heq <;>
        rw [heq] <;> decide
    have hcolor := parseText_color (bar_not_mem_owner setup) hseen hparsed
    rw [hpublished.color_eq] at hcolor
    exact aliased_read hpattern hflags (by simpa using haliased) hcolor
  · intro hunread
    obtain ⟨seen, hcases, hstatus, hone⟩ := status_read pane revision hpattern hunread
    rw [hstatus] at hstored
    refine ⟨_, ⟨pane.id, pane.window, setup.owner, _, state, seen = lit "1", color⟩, hstored,
      parseText_status state howner (bar_not_mem_owner setup) hcases hpattern hbar, rfl, rfl,
      fun hseen => ?_⟩
    obtain ⟨hunchanged, hpre⟩ := hone (of_decide_eq_true hseen)
    exact ⟨hrecorded.unchanged hunchanged, pane, hpane, hpre⟩

end

/-- In every run each update that no error meets is read back, and as seen only
where it repeats the last one on a pane that was acknowledged, if and only if no
color that starts with `#D` or `#F` is written again after the pane is claimed. -/
theorem statuses_survive (setup : Setup) (hpid : 0 < setup.pid) (huuid : setup.uuid.length = 36)
    {server : Server} (hserver : Flags server) {events : List Event}
    (hmeanwhile : ∀ later, .meanwhile later ∈ events → Flags later) {s : Session}
    (hrun : Transitions.run (step setup) (Session.initial server) events = some s) :
    Transitions.EachMeets (step setup) (Survives setup) (Session.initial server) events ↔
      Transitions.EachMeets (step setup) (fun _ => Unread setup) (Session.initial server) events := by
  have hone : ∀ before event rest s₁, events = before ++ event :: rest →
      Transitions.run (step setup) (Session.initial server) before = some s₁ →
      (Survives setup before s₁ event ↔ Unread setup s₁ event) := by
    intro before event rest s₁ hevents hbefore
    have hrecorded : Recorded before s₁ := Transitions.along
      (fun _ _ _ _ h hstep => recorded_step h hstep) ⟨rfl, rfl, fun _ => hserver⟩ hbefore
    have hflags : Flags s₁.server := hrecorded.flags fun later hmem =>
      hmeanwhile later (hevents ▸ List.mem_append_left _ hmem)
    rw [hevents, Transitions.run_append hbefore] at hrun
    obtain ⟨s₂, hstep, -⟩ := Option.bind_eq_some_iff.mp hrun
    cases event with
    | update state color revision =>
      constructor
      · intro h hown
        exact (published_iff hpid huuid hrecorded hflags hown hstep).mp (h hown s₂ hstep)
      · intro h hown s' hstep'
        exact (published_iff hpid huuid hrecorded hflags hown hstep').mpr (h hown)
    | failed | meanwhile => exact Iff.rfl
  constructor
  · exact fun h before event rest s₁ hevents hbefore =>
      (hone before event rest s₁ hevents hbefore).mp (h before event rest s₁ hevents hbefore)
  · exact fun h before event rest s₁ hevents hbefore =>
      (hone before event rest s₁ hevents hbefore).mpr (h before event rest s₁ hevents hbefore)

-- -----
-- A color that is an alias
-- -----

/-- The pane has been looked at, and its window is the current one. -/
def viewedServer (setup : Setup) : Server where
  panes := [⟨1, 1, setup.owner, lit "running|1|#123456|0"⟩]
  sessions := [[1]]
  clients := [1]
  active := fun _ => 1
  names := fun _ _ => lit "*"
  windowOption := fun _ _ => none

def repeated : List Event :=
  [.update .running (lit "#123456") none, .meanwhile (viewedServer (processes apart false)),
    .update .running (lit "#ABCDEF") none]

theorem repeated_survives : ∃ s,
    Transitions.run (step (processes apart false)) (Session.initial unclaimedServer) repeated = some s ∧
    Transitions.EachMeets (step (processes apart false)) (Survives (processes apart false))
      (Session.initial unclaimedServer) repeated := by
  have hsome : (Transitions.run (step (processes apart false)) (Session.initial unclaimedServer)
      repeated).isSome = true := by
    decide +kernel
  obtain ⟨s, hrun⟩ := Option.isSome_iff_exists.mp hsome
  have hserver : Flags unclaimedServer := fun id => List.not_mem_nil
  have hmeanwhile : ∀ later, .meanwhile later ∈ repeated → Flags later := by
    intro later hmem id
    simp only [repeated, List.mem_cons, reduceCtorEq, Event.meanwhile.injEq, List.not_mem_nil,
      or_false, false_or] at hmem
    subst hmem
    exact (by decide : (70 : UInt16) ∉ lit "*")
  have hunread : ∀ event ∈ repeated, ∀ s, Unread (processes apart false) s event := by
    intro event hmem s
    simp only [repeated, List.mem_cons, List.not_mem_nil, or_false] at hmem
    rcases hmem with rfl | rfl | rfl
    · exact fun _ _ => by decide
    · trivial
    · exact fun _ _ => by decide
  refine ⟨s, hrun, (statuses_survive (processes apart false) (by decide) (by decide) hserver
    hmeanwhile hrun).mpr ?_⟩
  intro before event rest s₁ hevents _
  exact hunread event (by simp [hevents]) s₁

/-- The second status is stored with the pane's id in the color's place. -/
def recolored : List Event :=
  [.update .running (lit "#D0D0D0") none, .update .running (lit "#D0D0D0") none]

theorem recolored_lost : ∃ s,
    Transitions.run (step (processes apart false)) (Session.initial unclaimedServer) recolored = some s ∧
    ¬ Transitions.EachMeets (step (processes apart false)) (Survives (processes apart false))
      (Session.initial unclaimedServer) recolored := by
  have hruns : (Transitions.run (step (processes apart false)) (Session.initial unclaimedServer)
      (recolored.take 1)).any (fun s₁ =>
        ((s₁.server.pane? 1).all fun pane => pane.owner == (processes apart false).owner) &&
        (step (processes apart false) s₁ (.update .running (lit "#D0D0D0") none)).any fun s₂ =>
          (s₂.server.pane? 1).all fun pane => (parsePane pane.row).isNone) = true := by
    decide +kernel
  obtain ⟨s₁, hbefore, hnext⟩ := (Option.any_eq_true _ _).mp hruns
  obtain ⟨howner, hafter⟩ := Bool.and_eq_true_iff.mp hnext
  obtain ⟨s₂, hstep, hnone⟩ := (Option.any_eq_true _ _).mp hafter
  refine ⟨s₂, ?_, fun h => ?_⟩
  · rw [show recolored = recolored.take 1 ++ recolored.drop 1 from rfl,
      Transitions.run_append hbefore]
    simpa [recolored, Transitions.run] using hstep
  · have hown : s₁.Own (processes apart false) := fun _ pane hpane => by
      have hpane' : s₁.server.pane? 1 = some pane := hpane
      simpa [hpane'] using howner
    obtain ⟨pane, p, hpublished⟩ := h (recolored.take 1) _ [] s₁ rfl hbefore hown s₂ hstep
    have hstored : s₂.server.pane? 1 = some pane := hpublished.stored
    simp [hstored, hpublished.parsed] at hnone

end Publication

end PiEnv.General
