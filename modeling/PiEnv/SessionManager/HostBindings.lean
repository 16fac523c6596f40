import PiEnv.Lib.Triple
import PiEnv.SessionManager.HostServer

/-!
# What the binding lock keeps

What a step of a host operation may do, whatever the others do in between, and
what an operation knows while it holds the lock: which windows it may write to,
and which do not carry the id it gives out. From it: the window of a live owner
is left alone, and where listings cover the windows that matter, no session id
is given out twice.
-/

namespace PiEnv.SessionManager.Host

open Js Effects

section
variable {ι π : Type} {S : Setting ι π} {i : ι}

-- -----
-- Windows
-- -----

theorem windowAt_lt {windows : Windows} {w : WindowId} {window : Window}
    (h : windowAt windows w = some window) : w < windows.length :=
  (List.getElem?_eq_some_iff.mp (Option.join_eq_some_iff.mp h)).1

theorem windowAt_set {windows : Windows} {w : WindowId} {window : Window} (hw : w < windows.length)
    (w' : WindowId) : windowAt (windows.set w (some window)) w' =
      if w' = w then some window else windowAt windows w' := by
  unfold windowAt
  rw [List.getElem?_set]
  by_cases h : w = w'
  · subst h
    simp [hw]
  · simp [h, Ne.symm h]

theorem windowAt_append {windows : Windows} {window : Window} {w : WindowId} :
    windowAt (windows ++ [some window]) w =
      if w = windows.length then some window else windowAt windows w := by
  unfold windowAt
  rcases Nat.lt_trichotomy w windows.length with h | h | h
  · rw [List.getElem?_append_left h, if_neg (Nat.ne_of_lt h)]
  · subst h
    simp
  · rw [List.getElem?_eq_none (by simp; omega), if_neg (Nat.ne_of_gt h),
      List.getElem?_eq_none (Nat.le_of_lt h)]

theorem tagAt_eq_some {windows : Windows} {w : WindowId} {sessionId : Str} :
    tagAt windows w = some sessionId ↔
      ∃ window, windowAt windows w = some window ∧ window.session = some sessionId :=
  Option.bind_eq_some_iff

theorem TagsKept.refl (windows : Windows) : TagsKept windows windows :=
  ⟨Nat.le_refl _, fun _ window h => .inl ⟨window, h, rfl, rfl⟩⟩

theorem TagsKept.append {windows : Windows} {input : NewWindow} {title : Str} :
    TagsKept windows (windows ++ [some (input.open title)]) := by
  refine ⟨by simp, fun w window' h => ?_⟩
  rw [windowAt_append] at h
  split at h
  · rename_i hw
    cases h
    exact .inr ⟨Nat.le_of_eq hw.symm, rfl, rfl⟩
  · exact .inl ⟨window', h, rfl, rfl⟩

theorem TagsKept.tag {windows windows' : Windows} (h : TagsKept windows windows') {w : WindowId}
    {sessionId : Str} (htag : tagAt windows' w = some sessionId) :
    tagAt windows w = some sessionId := by
  obtain ⟨window', hwindow', hsession⟩ := tagAt_eq_some.mp htag
  rcases h.kept w window' hwindow' with ⟨window, hwindow, hkept, -⟩ | ⟨-, hnone, -⟩
  · exact tagAt_eq_some.mpr ⟨window, hwindow, hkept ▸ hsession⟩
  · rw [hnone] at hsession
    cases hsession

theorem TagsKept.unique {windows windows' : Windows} (h : TagsKept windows windows')
    (hunique : UniqueTags windows) : UniqueTags windows' :=
  fun w w' sessionId hne htag htag' => hunique w w' sessionId hne (h.tag htag) (h.tag htag')

-- -----
-- Steps
-- -----

/-- A window that was bound when the lock was taken, to the session of another
process that has been alive since. -/
def ProtectedBy (S : Setting ι π) (s : Server ι S.pid) (i : ι) (w : WindowId) (q : π) : Prop :=
  ∃ window, windowAt s.opening.windows w = some window ∧ window.binding ≠ none ∧
    window.ownerPid = some (S.pid q) ∧ q ≠ S.process i ∧
    s.opening.processes.life q = .alive ∧ s.alive q

def Protected (S : Setting ι π) (s : Server ι S.pid) (i : ι) (w : WindowId) : Prop :=
  ∃ q, ProtectedBy S s i w q

/-- What a step of an operation may do. -/
structure Own (S : Setting ι π) (i : ι) (s s' : Server ι S.pid) : Prop where
  processes : s'.processes = s.processes
  current : ∀ j, j ≠ i → s'.current j = s.current j
  waits : s.holder ≠ some i → s'.windows = s.windows ∧
    (s.holder = none ∨ s'.holder = s.holder ∧ s'.opening = s.opening)
  undisturbed : ∀ w, Protected S s i w → s'.window w = s.window w
  unique : S.covering = true → UniqueTags s.windows → UniqueTags s'.windows

theorem Own.refl (s : Server ι S.pid) : Own S i s s :=
  ⟨rfl, fun _ _ => rfl, fun _ => ⟨rfl, .inr ⟨rfl, rfl⟩⟩, fun _ _ => rfl, fun _ h => h⟩

-- -----
-- Knowledge
-- -----

/-- The window an operation found itself in, the windows it may write to, whom
those it has asked about belong to, and which do not carry its session id. -/
structure Knowledge (π : Type) where
  current : Option WindowId
  writable : WindowId → Prop
  owned : WindowId → Nat → Prop
  absent : WindowId → Prop

/-- What is known while the lock is held. -/
structure Facts (S : Setting ι π) (i : ι) (k : Knowledge π) (s : Server ι S.pid) : Prop where
  alive : s.alive (S.process i)
  holder : s.holder = some i
  current : s.current i = k.current
  length : s.opening.windows.length ≤ s.windows.length
  born : ∀ q, s.opening.processes.life q = .alive → s.processes.life q ≠ .unborn
  intact : ∀ w window, Protected S s i w → s.window w = some window →
    ∃ before, windowAt s.opening.windows w = some before ∧ window.session = before.session ∧
      window.owner = before.owner
  writable : ∀ w, k.writable w → ¬ Protected S s i w
  owned : ∀ w pid, k.owned w pid → ∀ q, ProtectedBy S s i w q → S.pid q = pid
  absent : S.covering = true → (S.task i).sessionId ≠ [] → ∀ w, k.absent w →
    s.tag w ≠ some (S.task i).sessionId

/-- A process that has ended knows nothing and does nothing. -/
def Holds (S : Setting ι π) (i : ι) (k : Knowledge π) (s : Server ι S.pid) : Prop :=
  s.processes.life (S.process i) ≠ .gone → Facts S i k s

variable {k : Knowledge π} {s s' : Server ι S.pid}

theorem ProtectedBy.back {w : WindowId} {q : π} (h : ProtectedBy S s' i w q)
    (hopening : s'.opening = s.opening)
    (halive : s.opening.processes.life q = .alive → s'.alive q → s.alive q) :
    ProtectedBy S s i w q := by
  obtain ⟨window, hwindow, hbound, howner, hother, hopen, hq⟩ := h
  rw [hopening] at hwindow hopen
  exact ⟨window, hwindow, hbound, howner, hother, hopen, halive hopen hq⟩

/-- Before it takes the lock, an operation has not found itself anywhere. -/
def Nowhere (i : ι) (s : Server ι S.pid) : Prop := s.current i = none

/-- What is known as soon as the lock is taken. -/
def Knowledge.start : Knowledge π := ⟨none, fun _ => False, fun _ _ => False, fun _ => False⟩

theorem Facts.start (hlive : s.alive (S.process i)) (hnowhere : Nowhere i s) :
    Facts S i .start { s with holder := some i, opening := ⟨s.windows, s.processes⟩ } where
  alive := hlive
  holder := rfl
  current := hnowhere
  length := Nat.le_refl _
  born := fun q hq => by
    rw [hq]
    nofun
  intact := fun w window _ hwindow => ⟨window, hwindow, rfl, rfl⟩
  writable := nofun
  owned := nofun
  absent := fun _ _ _ => nofun

/-- What the others do to the windows leaves the knowledge true. -/
theorem Facts.kept (h : Facts S i k s) (alive : s'.alive (S.process i))
    (holder : s'.holder = some i) (current : s'.current i = s.current i)
    (opening : s'.opening = s.opening)
    (back : ∀ q, s.opening.processes.life q = .alive → s'.alive q → s.alive q)
    (born : ∀ q, s.processes.life q ≠ .unborn → s'.processes.life q ≠ .unborn)
    (tags : TagsKept s.windows s'.windows) : Facts S i k s' := by
  have hback : ∀ {w q}, ProtectedBy S s' i w q → ProtectedBy S s i w q :=
    fun {_ q} hq => hq.back opening (back q)
  refine ⟨alive, holder, current.trans h.current, ?_, fun q hq => ?_, fun w window hw hwindow => ?_,
    fun w hw ⟨q, hq⟩ => h.writable w hw ⟨q, hback hq⟩,
    fun w pid hw q hq => h.owned w pid hw q (hback hq),
    fun hcovering hne w hw htag => h.absent hcovering hne w hw (tags.tag htag)⟩
  · rw [opening]
    exact Nat.le_trans h.length tags.length
  · rw [opening] at hq
    exact born q (h.born q hq)
  · rw [opening]
    obtain ⟨q, hq⟩ := hw
    obtain ⟨before, hbefore, -⟩ := hback hq
    rcases tags.kept w window hwindow with ⟨between, hbetween, hsession, howner⟩ | ⟨hnew, -⟩
    · obtain ⟨before, hbefore, hsession', howner'⟩ := h.intact w between ⟨q, hback hq⟩ hbetween
      exact ⟨before, hbefore, hsession.trans hsession', howner.trans howner'⟩
    · exact absurd (Nat.lt_of_lt_of_le (windowAt_lt hbefore) h.length) (Nat.not_lt.mpr hnew)

theorem Facts.other (h : Facts S i k s) {j : ι} (hj : j ≠ i) (hown : Own S j s s') :
    Facts S i k s' := by
  have hholder : s.holder ≠ some j := by
    rw [h.holder]
    exact fun he => hj (Option.some.inj he).symm
  have halive : ∀ q, s'.alive q ↔ s.alive q := fun q => by
    rw [Server.alive, hown.processes]
    rfl
  obtain ⟨hwindows, hnone | ⟨hsame, hopening⟩⟩ := hown.waits hholder
  · rw [h.holder] at hnone
    cases hnone
  · exact h.kept ((halive _).mpr h.alive) (hsame.trans h.holder) (hown.current i hj.symm) hopening
      (fun q _ hq => (halive q).mp hq) (fun q hq => by rwa [hown.processes])
      (hwindows ▸ TagsKept.refl _)

/-- What is known only grows. -/
structure Knowledge.Grows (k k' : Knowledge π) : Prop where
  writable : ∀ w, k.writable w → k'.writable w
  absent : ∀ w, k.absent w → k'.absent w

theorem Knowledge.Grows.refl (k : Knowledge π) : k.Grows k := ⟨fun _ h => h, fun _ h => h⟩

theorem Knowledge.Grows.trans {k k' k'' : Knowledge π} (h : k.Grows k') (h' : k'.Grows k'') :
    k.Grows k'' :=
  ⟨fun w hw => h'.writable w (h.writable w hw), fun w hw => h'.absent w (h.absent w hw)⟩

-- -----
-- One window written
-- -----

theorem put_window {w : WindowId} {window window' : Window} (hw : s.window w = some window)
    (w' : WindowId) :
    (s.put w window').window w' = if w' = w then some window' else s.window w' :=
  windowAt_set (windowAt_lt hw) w'

theorem put_tag {w : WindowId} {window window' : Window} (hw : s.window w = some window)
    {w' : WindowId} {sessionId : Str} (htag : (s.put w window').tag w' = some sessionId) :
    w' = w ∧ window'.session = some sessionId ∨ w' ≠ w ∧ s.tag w' = some sessionId := by
  obtain ⟨found, hfound, hsession⟩ := tagAt_eq_some.mp htag
  have hput : some found = if w' = w then some window' else s.window w' :=
    hfound.symm.trans (put_window hw w')
  split at hput
  · rename_i h
    exact .inl ⟨h, Option.some.inj hput ▸ hsession⟩
  · rename_i h
    exact .inr ⟨h, tagAt_eq_some.mpr ⟨found, hput.symm, hsession⟩⟩

theorem Facts.put (h : Facts S i k s) {w : WindowId} {window window' : Window}
    (hw : s.window w = some window) (hsafe : ¬ Protected S s i w)
    (htags : ∀ w', k.absent w' → ∀ sessionId, (s.put w window').tag w' = some sessionId →
      s.tag w' = some sessionId) : Facts S i k (s.put w window') := by
  refine ⟨h.alive, h.holder, h.current, ?_, h.born, fun w' found hprotected hfound => ?_, h.writable,
    h.owned, fun hcovering hne w' habsent htag => h.absent hcovering hne w' habsent
      (htags w' habsent _ htag)⟩
  · rw [Server.put, List.length_set]
    exact h.length
  · have hne : w' ≠ w := fun heq => hsafe (heq ▸ hprotected)
    rw [put_window hw, if_neg hne] at hfound
    exact h.intact w' found hprotected hfound

theorem Own.put (h : Facts S i k s) {w : WindowId} {window window' : Window}
    (hw : s.window w = some window) (hsafe : ¬ Protected S s i w)
    (hunique : S.covering = true → UniqueTags s.windows → UniqueTags (s.put w window').windows) :
    Own S i s (s.put w window') := by
  refine ⟨rfl, fun _ _ => rfl, fun hholder => absurd h.holder hholder, fun w' hprotected => ?_,
    hunique⟩
  have hne : w' ≠ w := fun heq => hsafe (heq ▸ hprotected)
  rw [put_window hw, if_neg hne]

/-- A change that gives out no id. -/
def Change.Plain : Change → Prop
  | .createSession _ => False
  | _ => True

theorem Change.apply_create {window window' : Window} {sessionId : Str}
    (h : (Change.createSession sessionId).apply window = some window') :
    window.session = none ∧ window' = { window with session := some sessionId } := by
  by_cases hnone : window.session = none
  · rw [apply, if_pos hnone] at h
    exact ⟨hnone, (Option.some.inj h).symm⟩
  · rw [apply, if_neg hnone] at h
    cases h

theorem Change.apply_session {window window' : Window} {change : Change} (hplain : change.Plain)
    (h : change.apply window = some window') {sessionId : Str}
    (hsession : window'.session = some sessionId) : window.session = some sessionId := by
  cases change with
  | createSession => exact hplain.elim
  | unsetSession =>
    cases h
    cases hsession
  | setOwner text => cases h; exact hsession
  | unsetOwner => cases h; exact hsession
  | automaticRename value => cases h; exact hsession
  | rename name => cases h; exact hsession

-- -----
-- The environment
-- -----

variable [DecidableEq π]

theorem Facts.started (h : Facts S i k s) {p : π} (unborn : s.processes.life p = .unborn)
    (free : ∀ q, s.alive q → S.pid q ≠ S.pid p) :
    Facts S i k { s with processes := s.processes.start p free } := by
  have hother : S.process i ≠ p := by
    rintro rfl
    rw [h.alive] at unborn
    cases unborn
  refine h.kept ?_ h.holder rfl rfl (fun q hopen hq => ?_) (fun q hq => ?_) (TagsKept.refl _)
  · simpa [Server.alive, Processes.start, hother] using h.alive
  · by_cases hqp : q = p
    · subst hqp
      exact absurd unborn (h.born q hopen)
    · simpa [Server.alive, Processes.start, hqp] using hq
  · by_cases hqp : q = p
    · simp [Processes.start, hqp]
    · simpa [Processes.start, hqp] using hq

theorem Facts.exited (h : Facts S i k s) {p : π} (hp : S.process i ≠ p) :
    Facts S i k { s with
      processes := s.processes.exit p
      holder := s.holder.filter fun i => S.process i ≠ p } := by
  refine h.kept ?_ ?_ rfl rfl (fun q _ hq => ?_) (fun q hq => ?_) (TagsKept.refl _)
  · simpa [Server.alive, Processes.exit, hp] using h.alive
  · simp [h.holder, hp]
  · by_cases hqp : q = p
    · simp [Server.alive, Processes.exit, hqp] at hq
    · simpa [Server.alive, Processes.exit, hqp] using hq
  · by_cases hqp : q = p
    · simp [Processes.exit, hqp]
    · simpa [Processes.exit, hqp] using hq

def Rely (S : Setting ι π) (i : ι) (s s' : Server ι S.pid) : Prop :=
  (∃ j, j ≠ i ∧ Own S j s s') ∨ HostEnv S s s'

theorem Holds.stable (h : Holds S i k s) (hr : Rely S i s s') : Holds S i k s' := by
  intro hlife
  rcases hr with ⟨j, hj, hown⟩ | henv
  · exact (h (by rwa [← hown.processes])).other hj hown
  · cases henv with
    | used kept =>
      have hf := h hlife
      exact hf.kept hf.alive hf.holder rfl rfl (fun _ _ hq => hq) (fun _ hq => hq) kept
    | @started p unborn free =>
      refine (h fun hgone => ?_).started unborn free
      by_cases hp : S.process i = p
      · rw [hp, unborn] at hgone
        cases hgone
      · exact hlife (by simpa [Processes.start, hp] using hgone)
    | @exited p gone =>
      have hp : S.process i ≠ p := by
        rintro rfl
        exact hlife (by simp [Processes.exit])
      exact (h (by simpa [Processes.exit, hp] using hlife)).exited hp

theorem Nowhere.stable (h : Nowhere i s) (hr : Rely S i s s') : Nowhere i s' := by
  rcases hr with ⟨j, hj, hown⟩ | henv
  · exact (hown.current i hj.symm).trans h
  · cases henv <;> exact h

variable [DecidableEq ι]

theorem compatible (S : Setting ι π) : Compatible (hostMachine S) (Rely S) (Own S) :=
  ⟨fun hij h => .inl ⟨_, Ne.symm hij, h⟩, fun h => .inr h⟩

def logic (S : Setting ι π) (i : ι) : Logic HostOp HostRes (Server ι S.pid) (Knowledge π) where
  exec := HostExec S i
  rely := Rely S i
  guarantee := Own S i
  Holds := Holds S i
  stable := Holds.stable

-- -----
-- Commands
-- -----

variable {α β ε : Type}

/-- What a success adds to what is known. -/
def Learns (Q : α → Knowledge π → Prop) (r : Except ε α) (k' : Knowledge π) : Prop :=
  ∀ a, r = .ok a → Q a k'

theorem learns_bind {x : ExceptT ε HostProg α} {f : α → ExceptT ε HostProg β}
    {P : α → Knowledge π → Prop} {Q : β → Knowledge π → Prop}
    (h : (logic S i).Triple k x.run (Learns P))
    (hf : ∀ a k', P a k' → (logic S i).Triple k' (f a).run (Learns Q)) :
    (logic S i).Triple k (x >>= f).run (Learns Q) :=
  h.bindExcept (fun a k' ha => hf a k' (ha a rfl)) nofun

theorem learns_ret {a : α} {Q : α → Knowledge π → Prop} (h : Q a k) :
    (logic S i).Triple k (.ret (.ok a) : HostProg (Except ε α)) (Learns Q) :=
  .ret fun _ ha => Except.ok.inj ha ▸ h

theorem learns_throw {e : ε} {Q : α → Knowledge π → Prop} :
    (logic S i).Triple k (.ret (.error e) : HostProg (Except ε α)) (Learns Q) :=
  .ret nofun

theorem learns_mapError {ε' : Type} {command : HostProg (Except ε α)} {f : ε → ε'}
    {Q : α → Knowledge π → Prop} (h : (logic S i).Triple k command (Learns Q)) :
    (logic S i).Triple k (Except.mapError f <$> command) (Learns Q) :=
  h.map fun _ _ hr a ha => hr a (mapError_eq_ok.mp ha)

theorem run_triple {operation : Str} {command : HostProg (Except Str α)}
    {Q : α → Knowledge π → Prop} (h : (logic S i).Triple k command (Learns Q)) :
    (logic S i).Triple k (run operation command).run (Learns Q) :=
  learns_mapError (learns_mapError h)

theorem command_triple {o : HostOp} {P : HostRes o → Knowledge π → Prop}
    (h : ∀ s r s', Facts S i k s → HostCall S i s o r s' →
      Own S i s s' ∧ ∃ k', Facts S i k' s' ∧ P r k') :
    (logic S i).Triple k (call o) P :=
  Logic.Triple.call fun s r s' hs he => by
    have hlife : s.processes.life (S.process i) ≠ .gone := by
      rw [he.alive]
      nofun
    obtain ⟨hown, k', hk', hr⟩ := h s r s' (hs hlife) he.run
    exact ⟨hown, k', fun _ => hk', hr⟩

/-- A command that leaves the server as it is may still tell something of it. -/
theorem quiet_triple {o : HostOp} {P : HostRes o → Knowledge π → Prop}
    (h : ∀ s r s', Facts S i k s → HostCall S i s o r s' →
      s' = s ∧ ∃ k', Facts S i k' s ∧ P r k') :
    (logic S i).Triple k (call o) P :=
  command_triple fun s r s' hs he => by
    obtain ⟨rfl, k', hk', hr⟩ := h s r s' hs he
    exact ⟨.refl s', k', hk', hr⟩

theorem socket_triple (paneId : Nat) :
    (logic S i).Triple k (@call HostOp HostRes (.socket paneId)) (Learns fun _ k' => k' = k) :=
  quiet_triple fun s r s' hs he => by
    cases he <;> exact ⟨rfl, k, hs, fun _ _ => rfl⟩

theorem session_triple (paneId : Nat) :
    (logic S i).Triple k (@call HostOp HostRes (.session paneId)) (Learns fun _ k' => k' = k) :=
  quiet_triple fun s r s' hs he => by
    cases he <;> exact ⟨rfl, k, hs, fun _ _ => rfl⟩

theorem window_triple (paneId : Nat) :
    (logic S i).Triple k (@call HostOp HostRes (.window paneId)) (Learns fun w k' =>
      k' = { k with current := some (k.current.getD w) }) :=
  command_triple fun s r s' hs he => by
    cases he with
    | @window _ _ w pane =>
      refine ⟨⟨rfl, fun j hj => Function.update_of_ne hj _ _,
        fun hholder => absurd hs.holder hholder, fun _ _ => rfl, fun _ h => h⟩,
        { k with current := some (k.current.getD w) }, { hs with current := ?_ },
        fun w' hw' => by rw [Except.ok.inj hw']⟩
      rw [← hs.current]
      exact Function.update_self ..
    | windowFails => exact ⟨.refl s, k, hs, nofun⟩

/-- What a listing says of the windows that are not in it. -/
def Knowledge.lists (S : Setting ι π) (i : ι) (k : Knowledge π) (ids : List WindowId) :
    Knowledge π :=
  { k with absent := fun w => k.absent w ∨ ¬ (S.task i).Spares k.current w ∧
      (w ∉ ids ∨ trim (S.task i).sessionId ≠ (S.task i).sessionId) }

theorem list_triple (target : TmuxSession) :
    (logic S i).Triple k (@call HostOp HostRes (.listWindows target))
      (Learns fun ids k' => k' = k.lists S i ids) :=
  quiet_triple fun s r s' hs he => by
    cases he with
    | @listed _ _ ids all covers =>
      refine ⟨rfl, k.lists S i ids, { hs with absent := ?_ },
        fun ids' hids => by rw [Except.ok.inj hids]⟩
      intro hcovering hne w hw htag
      rcases hw with hw | ⟨hspares, hw⟩
      · exact hs.absent hcovering hne w hw htag
      · obtain ⟨window, hwindow, -⟩ := tagAt_eq_some.mp htag
        rcases covers hcovering w (windowAt_lt hwindow) htag with hspared | ⟨hshown, htrim⟩
        · exact hspares (hs.current ▸ hspared)
        · rcases hw with hw | hw
          · exact hw ((all w).mpr hshown)
          · exact hw htrim
    | listFails => exact ⟨rfl, k, hs, nofun⟩

/-- What the tag of a window says of it. -/
def Knowledge.reads (S : Setting ι π) (i : ι) (k : Knowledge π) (w : WindowId) (tag : Str) :
    Knowledge π :=
  { k with absent := fun w' => k.absent w' ∨
      (w' = w ∧ tag ≠ (S.task i).sessionId ∧ trim (S.task i).sessionId = (S.task i).sessionId) }

theorem readSession_triple (w : WindowId) :
    (logic S i).Triple k (@call HostOp HostRes (.show w .session))
      (Learns fun raw k' => k' = k.reads S i w (trim raw)) :=
  quiet_triple fun s r s' hs he => by
    cases he with
    | @shown _ _ _ window raw found text =>
      refine ⟨rfl, k.reads S i w (trim raw), { hs with absent := ?_ },
        fun raw' hraw => by rw [Except.ok.inj hraw]⟩
      intro hcovering hne w' hw htag
      rcases hw with hw | ⟨rfl, hw, htrim⟩
      · exact hs.absent hcovering hne w' hw htag
      · obtain ⟨window', hwindow', hsession⟩ := tagAt_eq_some.mp htag
        obtain rfl : window = window' := Option.some.inj (found.symm.trans hwindow')
        rw [text, Shown.text, hsession] at hw
        exact hw htrim
    | showFails => exact ⟨rfl, k, hs, nofun⟩

theorem readName_triple (w : WindowId) :
    (logic S i).Triple k (@call HostOp HostRes (.show w .name)) (Learns fun _ k' => k' = k) :=
  quiet_triple fun s r s' hs he => by
    cases he <;> exact ⟨rfl, k, hs, fun _ _ => rfl⟩

/-- What its owner tag says of a window: unless it names another process, the
window may be written to. -/
def Knowledge.asks (S : Setting ι π) (i : ι) (k : Knowledge π) (w : WindowId) (owner : Option Nat) :
    Knowledge π :=
  { k with
    writable := fun w' => k.writable w' ∨
      w' = w ∧ ∀ pid, owner = some pid → pid = S.pid (S.process i)
    owned := fun w' pid => w' = w ∧ owner = some pid }

theorem readOwner_triple (w : WindowId) :
    (logic S i).Triple k (@call HostOp HostRes (.show w .owner))
      (Learns fun raw k' => k' = k.asks S i w (parsePid (trim raw))) :=
  quiet_triple fun s r s' hs he => by
    cases he with
    | @shown _ _ _ window raw found text =>
      have howner : ∀ q, ProtectedBy S s i w q → parsePid (trim raw) = some (S.pid q) := by
        intro q hq
        obtain ⟨before, hbefore, -, hpid, -⟩ := id hq
        obtain ⟨before', hbefore', -, hsame⟩ := hs.intact w window ⟨q, hq⟩ found
        obtain rfl : before = before' := Option.some.inj (hbefore.symm.trans hbefore')
        rw [text, ← hpid, Window.ownerPid, ← hsame]
        rfl
      refine ⟨rfl, k.asks S i w (parsePid (trim raw)), { hs with writable := ?_, owned := ?_ },
        fun raw' hraw => by rw [Except.ok.inj hraw]⟩
      · rintro w' (hw | ⟨rfl, hpid⟩)
        · exact hs.writable w' hw
        · rintro ⟨q, hq⟩
          obtain ⟨_, -, -, -, hother, -, hlive⟩ := id hq
          exact hother (s.processes.distinct hlive hs.alive (hpid _ (howner q hq)))
      · rintro w' pid ⟨rfl, hpid⟩ q hq
        exact Option.some.inj ((howner q hq).symm.trans hpid)
    | showFails => exact ⟨rfl, k, hs, nofun⟩

/-- A window whose owner is not alive may be written to. -/
def Knowledge.hears (k : Knowledge π) (pid : Nat) (answer : Bool) : Knowledge π :=
  { k with writable := fun w => k.writable w ∨ answer = false ∧ k.owned w pid }

theorem ownerAlive_triple (pid : Nat) :
    (logic S i).Triple k (ownerAlive pid) fun answer k' => k' = k.hears pid answer :=
  quiet_triple fun s r s' hs he => by
    cases he with
    | asked alive =>
      refine ⟨rfl, k.hears pid r, { hs with writable := ?_ }, rfl⟩
      rintro w (hw | ⟨hno, hw⟩)
      · exact hs.writable w hw
      · rintro ⟨q, hq⟩
        have hpid := hs.owned w pid hw q hq
        obtain ⟨_, -, -, -, -, -, hlive⟩ := hq
        have hyes := alive.mpr ⟨q, hlive, hpid⟩
        rw [hno] at hyes
        cases hyes

-- -----
-- Changes
-- -----

theorem change_triple {operation : Str} {w : WindowId} {c : Change} (hplain : c.Plain)
    (hw : k.writable w) :
    (logic S i).Triple k (change operation w c).run (Learns fun _ k' => k' = k) :=
  run_triple (command_triple fun s r s' hs he => by
    cases he with
    | @changed _ _ _ window window' found applied =>
      have hkeeps : ∀ w' sessionId, (s.put w window').tag w' = some sessionId →
          s.tag w' = some sessionId := by
        intro w' sessionId htag
        rcases put_tag found htag with ⟨rfl, hsession⟩ | ⟨-, hold⟩
        · exact tagAt_eq_some.mpr ⟨window, found, Change.apply_session hplain applied hsession⟩
        · exact hold
      have hsafe := hs.writable w hw
      refine ⟨Own.put hs found hsafe fun _ hunique w₁ w₂ sessionId hne h₁ h₂ => ?_, k,
        hs.put found hsafe fun w' _ => hkeeps w', fun _ _ => rfl⟩
      exact hunique w₁ w₂ sessionId hne (hkeeps w₁ sessionId h₁) (hkeeps w₂ sessionId h₂)
    | changeFails => exact ⟨.refl s, k, hs, nofun⟩)

/-- What a tag given to a window changes in what is known. -/
def Knowledge.tags (k : Knowledge π) (w : WindowId) (done : Prop) : Knowledge π :=
  { k with
    writable := fun w' => k.writable w' ∨ w' = w ∧ done
    absent := fun w' => k.absent w' ∧ w' ≠ w }

theorem create_triple {w : WindowId}
    (hfree : (S.task i).sessionId ≠ [] → ∀ w', w' ≠ w → k.absent w') :
    (logic S i).Triple k (@call HostOp HostRes (.change w (.createSession (S.task i).sessionId)))
      fun r k' => k' = k.tags w (r = .ok ()) :=
  command_triple fun s r s' hs he => by
    have hkept : ∀ done, ¬ done → Facts S i (k.tags w done) s := by
      intro done hdone
      refine { hs with writable := ?_, absent := ?_ }
      · exact fun w' hw' => hs.writable w' (hw'.resolve_right fun h => hdone h.2)
      · exact fun hcovering hne w' hw' => hs.absent hcovering hne w' hw'.1
    cases he with
    | @changed _ _ _ window window' found applied answer =>
      obtain ⟨hnone, rfl⟩ := Change.apply_create applied
      have hsafe : ¬ Protected S s i w := fun hprotected => by
        obtain ⟨before, hbefore, hsession, -⟩ := hs.intact w window hprotected found
        obtain ⟨q, before', hbefore', hbound, -⟩ := hprotected
        obtain rfl : before = before' := Option.some.inj (hbefore.symm.trans hbefore')
        rw [Window.binding, ← hsession, hnone] at hbound
        exact hbound rfl
      refine ⟨Own.put hs found hsafe fun hcovering hunique w₁ w₂ sessionId hne h₁ h₂ => ?_, _, ?_,
        rfl⟩
      · have hother : ∀ w', w' ≠ w → (S.task i).sessionId = sessionId →
            s.tag w' ≠ some sessionId := by
          rintro w' hw' rfl
          exact hs.absent hcovering hne w' (hfree hne w' hw')
        rcases put_tag found h₁ with ⟨rfl, hid⟩ | ⟨hw₁, hold₁⟩ <;>
          rcases put_tag found h₂ with ⟨rfl, hid'⟩ | ⟨hw₂, hold₂⟩
        · rfl
        · exact absurd hold₂ (hother w₂ hw₂ (Option.some.inj hid))
        · exact absurd hold₁ (hother w₁ hw₁ (Option.some.inj hid'))
        · exact hunique w₁ w₂ sessionId hne hold₁ hold₂
      · have hput : Facts S i (k.tags w False)
            (s.put w { window with session := some (S.task i).sessionId }) :=
          (hkept False id).put found hsafe fun w' hw' sessionId htag =>
            ((put_tag found htag).resolve_left fun h => hw'.2 h.1).2
        refine { hput with writable := ?_ }
        rintro w' (hw' | ⟨rfl, -⟩)
        · exact hs.writable w' hw'
        · exact hsafe
    | changeFails => exact ⟨.refl s, _, hkept _ nofun, rfl⟩

/-- A window that was just opened may be written to. -/
def Knowledge.opens (k : Knowledge π) (w : WindowId) : Knowledge π :=
  { k with writable := fun w' => k.writable w' ∨ w' = w }

theorem newWindow_triple (input : NewWindow) :
    (logic S i).Triple k (@call HostOp HostRes (.newWindow input))
      (Learns fun w k' => k' = k.opens w) :=
  command_triple fun s r s' hs he => by
    cases he with
    | openFails => exact ⟨.refl s, k, hs, nofun⟩
    | opened title answer id =>
      have hkept : TagsKept s.windows (s.append (input.open title)).windows := TagsKept.append
      have hfacts : Facts S i k (s.append (input.open title)) :=
        hs.kept hs.alive hs.holder rfl rfl (fun _ _ hq => hq) (fun _ hq => hq) hkept
      have hnew : ¬ Protected S s i s.windows.length := by
        rintro ⟨q, before, hbefore, -⟩
        exact absurd (windowAt_lt hbefore) (Nat.not_lt.mpr hs.length)
      refine ⟨⟨rfl, fun _ _ => rfl, fun hholder => absurd hs.holder hholder, fun w hw => ?_,
        fun _ => hkept.unique⟩, ?_⟩
      · have hne : w ≠ s.windows.length := fun heq => hnew (heq ▸ hw)
        exact windowAt_append.trans (if_neg hne)
      · cases r with
        | error reason => exact ⟨k, hfacts, nofun⟩
        | ok w =>
          refine ⟨k.opens w, { hfacts with writable := ?_ }, fun w' hw' => by
            rw [Except.ok.inj hw']⟩
          rintro w' (hw' | rfl)
          · exact hfacts.writable w' hw'
          · rw [id w' rfl]
            exact hnew

-- -----
-- Inspection
-- -----

theorem readText_triple {operation : Str} {w : WindowId} {what : Shown}
    {Q : Str → Knowledge π → Prop}
    (h : (logic S i).Triple k (@call HostOp HostRes (.show w what))
      (Learns fun raw k' => Q (trim raw) k')) :
    (logic S i).Triple k (readText operation w what).run (Learns Q) :=
  learns_bind (run_triple h) fun _ _ hraw => learns_ret hraw

/-- What an entry says of its window. -/
def Tells (S : Setting ι π) (i : ι) (k' : Knowledge π) (entry : Binding) : Prop :=
  trim (S.task i).sessionId = (S.task i).sessionId → entry.sessionId ≠ (S.task i).sessionId →
    k'.absent entry.windowId

theorem readBinding_triple (w : WindowId) :
    (logic S i).Triple k (readBinding w).run (Learns fun entry k' =>
      k.Grows k' ∧ k'.current = k.current ∧ entry.windowId = w ∧ Tells S i k' entry) := by
  refine learns_bind (P := fun tag k' => k' = k.reads S i w tag) (readText_triple (readSession_triple w)) ?_
  rintro tag k' rfl
  exact learns_ret ⟨⟨fun _ h => h, fun _ h => .inl h⟩, rfl, rfl,
    fun htrim hne => .inr ⟨rfl, hne, htrim⟩⟩

theorem readBindings_triple (ids : List WindowId) :
    (logic S i).Triple k (ids.mapM readBinding).run (Learns fun tagged k' =>
      k.Grows k' ∧ k'.current = k.current ∧ tagged.map (·.windowId) = ids ∧
        ∀ entry ∈ tagged, Tells S i k' entry) := by
  induction ids generalizing k with
  | nil => exact learns_ret ⟨.refl k, rfl, rfl, nofun⟩
  | cons w ids ih =>
    rw [List.mapM_cons]
    refine learns_bind (readBinding_triple w) ?_
    rintro entry k₁ ⟨hgrows, hcurrent, hid, htells⟩
    refine learns_bind ih ?_
    rintro tagged k₂ ⟨hgrows', hcurrent', hids, htells'⟩
    refine learns_ret ⟨hgrows.trans hgrows', hcurrent'.trans hcurrent, ?_, ?_⟩
    · rw [List.map_cons, hid, hids]
    · intro other hother
      rcases List.mem_cons.mp hother with rfl | hother
      · exact fun htrim hne => hgrows'.absent _ (htells htrim hne)
      · exact htells' other hother

/-- What an inspection tells: a window that it does not show to carry the id
does not carry it, unless the operation need not know. -/
structure Inspected (S : Setting ι π) (i : ι) (k : Knowledge π) (window : CurrentWindow)
    (k' : Knowledge π) : Prop where
  grows : k.Grows k'
  current : k.current = none → k'.current = some window.windowId
  absent : (S.task i).sessionId ≠ [] → ∀ w, ¬ (S.task i).Spares k'.current w →
    ⟨w, (S.task i).sessionId⟩ ∉ window.bindings → k'.absent w

theorem inspectCurrent_triple (paneId : Nat) :
    (logic S i).Triple k (inspectCurrent paneId).run (Learns (Inspected S i k)) := by
  refine learns_bind (run_triple (socket_triple paneId)) ?_
  rintro socketPath _ rfl
  refine learns_bind (run_triple (session_triple paneId)) ?_
  rintro tmuxSessionId k rfl
  refine learns_bind (run_triple (window_triple paneId)) ?_
  rintro windowId k₁ hk₁
  refine learns_bind (run_triple (list_triple tmuxSessionId)) ?_
  rintro ids k₂ rfl
  refine learns_bind (readBindings_triple ids) ?_
  rintro tagged k₂ ⟨hgrows, hcurrent, hids, htells⟩
  have hkept : k₂.current = some (k.current.getD windowId) := by
    rw [hcurrent, hk₁]
    rfl
  refine learns_ret ⟨⟨fun w hw => hgrows.writable w ?_, fun w hw => hgrows.absent w ?_⟩,
    fun hnone => ?_, fun hne w hspares hmem => ?_⟩
  · rw [hk₁]
    exact hw
  · rw [hk₁]
    exact .inl hw
  · rw [hkept, hnone]
    rfl
  · by_cases hlisted : w ∈ ids ∧ trim (S.task i).sessionId = (S.task i).sessionId
    · rw [← hids, List.mem_map] at hlisted
      obtain ⟨⟨entry, hentry, rfl⟩, htrim⟩ := hlisted
      refine htells entry hentry htrim fun hid => hmem (List.mem_filter.mpr ⟨?_, ?_⟩)
      · rw [← hid]
        exact hentry
      · exact decide_eq_true hne
    · refine hgrows.absent w (.inr ⟨fun hspared => hspares (hcurrent ▸ hspared), ?_⟩)
      exact not_and_or.mp hlisted

theorem mem_duplicates {window : CurrentWindow} {sessionId : Str} {w : WindowId} :
    w ∈ window.duplicates sessionId ↔ ⟨w, sessionId⟩ ∈ window.bindings ∧ w ≠ window.windowId := by
  simp only [CurrentWindow.duplicates, List.mem_map, List.mem_filter, decide_eq_true_eq]
  constructor
  · rintro ⟨⟨w, found⟩, ⟨hmem, rfl, hne⟩, rfl⟩
    exact ⟨hmem, hne⟩
  · rintro ⟨hmem, hne⟩
    exact ⟨_, ⟨hmem, rfl, hne⟩, rfl⟩

theorem assertBinding_ok {window : CurrentWindow} {sessionId : Str}
    (h : assertBinding window sessionId = .ok ()) :
    (∀ bound, window.boundSessionId = some bound → bound = sessionId) ∧
      window.duplicates sessionId = [] := by
  have hduplicates : ∀ {duplicates : List WindowId} {e : SessionHostError},
      (if duplicates ≠ [] then throw e else pure () : Except SessionHostError Unit) = .ok () →
        duplicates = [] := by
    intro duplicates e hok
    by_contra hne
    rw [if_pos hne] at hok
    cases hok
  unfold assertBinding at h
  split at h
  · rename_i bound hbound
    by_cases hsame : bound = sessionId
    · rw [if_neg (not_not.mpr hsame)] at h
      refine ⟨fun bound' hbound' => ?_, hduplicates h⟩
      rw [← hsame, Option.some.inj (hbound.symm.trans hbound')]
    · rw [if_pos hsame] at h
      cases h
  · rename_i hnone
    refine ⟨fun bound hbound => ?_, hduplicates h⟩
    rw [hnone] at hbound
    cases hbound

-- -----
-- Owners
-- -----

theorem assertLiveOwner_triple (window : CurrentWindow) :
    (logic S i).Triple k (assertLiveOwner (S.pid (S.process i)) window).run
      (Learns fun _ k' => k.Grows k' ∧ k'.current = k.current ∧ k'.writable window.windowId) := by
  refine learns_bind (P := fun owner k' => k' = k.asks S i window.windowId (parsePid owner))
    (readText_triple (readOwner_triple _)) ?_
  rintro owner k' hk'
  have hgrows : k.Grows k' := by
    rw [hk']
    exact ⟨fun _ h => .inl h, fun _ h => h⟩
  have hcurrent : k'.current = k.current := by rw [hk']; rfl
  cases hpid : parsePid owner with
  | none =>
    refine learns_ret ⟨hgrows, hcurrent, ?_⟩
    rw [hk', hpid]
    exact .inr ⟨rfl, nofun⟩
  | some pid =>
    dsimp only
    have howned : k'.owned window.windowId pid := by
      rw [hk', hpid]
      exact ⟨rfl, rfl⟩
    split
    · refine Logic.Triple.bindLift (ownerAlive_triple pid) ?_
      rintro alive _ rfl
      cases alive with
      | true => exact learns_throw
      | false =>
        exact learns_ret ⟨⟨fun w hw => .inl (hgrows.writable w hw), hgrows.absent⟩, hcurrent,
          .inr ⟨rfl, howned⟩⟩
    · rename_i hown
      refine learns_ret ⟨hgrows, hcurrent, ?_⟩
      rw [hk', hpid]
      exact .inr ⟨rfl, fun pid' hpid' => by rw [← Option.some.inj hpid', not_not.mp hown]⟩

theorem unsetBinding_triple {operation : Str} {window : CurrentWindow}
    (hw : k.writable window.windowId) :
    (logic S i).Triple k (unsetBinding operation window).run (Learns fun _ k' => k' = k) := by
  refine learns_bind (change_triple trivial hw) ?_
  rintro ⟨⟩ _ rfl
  exact change_triple trivial hw

/-- What is left of a binding after a stale one is reclaimed: a window that is
still bound may be written to. -/
structure Reclaimed (k : Knowledge π) (sessionId : Str) (window window' : CurrentWindow)
    (k' : Knowledge π) : Prop where
  grows : k.Grows k'
  windowId : window'.windowId = window.windowId
  duplicates : window'.duplicates sessionId = window.duplicates sessionId
  writable : window'.boundSessionId ≠ none → k'.writable window.windowId

theorem reclaimStaleBinding_triple (window : CurrentWindow) (sessionId : Str) :
    (logic S i).Triple k (reclaimStaleBinding (S.pid (S.process i)) window sessionId).run
      (Learns (Reclaimed k sessionId window)) := by
  unfold reclaimStaleBinding
  split
  · rename_i hnone
    exact learns_ret ⟨.refl k, rfl, rfl, fun hbound => absurd hnone hbound⟩
  · refine learns_bind (assertLiveOwner_triple window) ?_
    rintro pid k' ⟨hgrows, -, hwritable⟩
    cases pid with
    | none => exact learns_ret ⟨hgrows, rfl, rfl, fun _ => hwritable⟩
    | some pid =>
      dsimp only
      split
      · exact learns_ret ⟨hgrows, rfl, rfl, fun _ => hwritable⟩
      · refine learns_bind (unsetBinding_triple hwritable) ?_
        rintro ⟨⟩ _ rfl
        refine learns_ret ⟨hgrows, rfl, ?_, fun hbound => absurd rfl hbound⟩
        rw [CurrentWindow.duplicates, CurrentWindow.duplicates, List.filter_filter]
        congr 1
        refine List.filter_congr fun entry _ => ?_
        simp

-- -----
-- Operations
-- -----

theorem learns_check {x : Except SessionHostError α} {f : α → HostM β} {Q : β → Knowledge π → Prop}
    (h : ∀ a, x = .ok a → (logic S i).Triple k (f a).run (Learns Q)) :
    (logic S i).Triple k ((liftM x : HostM α) >>= f).run (Learns Q) := by
  cases hx : x with
  | ok a => exact h a hx
  | error e => exact learns_throw

theorem learns_guard {c : Prop} [Decidable c] {e : SessionHostError} {rest : Unit → HostM β}
    {Q : β → Knowledge π → Prop} (h : ¬ c → (logic S i).Triple k (rest ()).run (Learns Q)) :
    (logic S i).Triple k (if c then throw e >>= rest else rest ()).run (Learns Q) := by
  split
  · exact learns_throw
  · rename_i hc
    exact h hc

theorem learns_when {c : Prop} [Decidable c] {x : HostM Unit} {rest : Unit → HostM β}
    {Q : β → Knowledge π → Prop} (P : Knowledge π → Prop)
    (hx : c → (logic S i).Triple k x.run (Learns fun _ k' => P k')) (hskip : ¬ c → P k)
    (h : ∀ k', P k' → (logic S i).Triple k' (rest ()).run (Learns Q)) :
    (logic S i).Triple k (if c then x >>= rest else rest ()).run (Learns Q) := by
  split
  · rename_i hc
    exact learns_bind (hx hc) fun _ k' hk' => h k' hk'
  · rename_i hc
    exact h k (hskip hc)

theorem bindCurrent_triple (paneId : Nat) (name : Option Str) (hcurrent : k.current = none)
    (hspares : ∀ current w, (S.task i).Spares current w → current = some w) :
    (logic S i).Triple k
      (bindCurrent (S.pid (S.process i)) paneId (S.task i).sessionId name).run
      (Learns fun _ _ => True) := by
  refine learns_bind (inspectCurrent_triple paneId) ?_
  rintro inspected k₁ hinspected
  refine learns_bind (reclaimStaleBinding_triple inspected _) ?_
  rintro window k₂ hreclaimed
  refine learns_check fun _ hassert => ?_
  have hduplicates := (assertBinding_ok hassert).2
  have hfree : (S.task i).sessionId ≠ [] → ∀ w, w ≠ window.windowId → k₂.absent w := by
    intro hne w hw
    refine hreclaimed.grows.absent w (hinspected.absent hne w (fun hspared => hw ?_) fun hmem => ?_)
    · rw [hreclaimed.windowId]
      exact Option.some.inj ((hspares _ w hspared).symm.trans (hinspected.current hcurrent))
    · rw [hreclaimed.duplicates] at hduplicates
      have hduplicate := mem_duplicates.mpr ⟨hmem, hreclaimed.windowId ▸ hw⟩
      rw [hduplicates] at hduplicate
      cases hduplicate
  refine learns_when (fun k' => k'.writable window.windowId) (fun _ => ?_) (fun hbound => ?_) ?_
  · refine run_triple ((create_triple hfree).mono fun r k' hk' _ hr => ?_)
    rw [hk']
    exact .inr ⟨rfl, hr⟩
  · rw [hreclaimed.windowId]
    exact hreclaimed.writable hbound
  · intro k₃ hwritable
    refine learns_bind (change_triple trivial hwritable) ?_
    rintro ⟨⟩ _ rfl
    refine learns_bind (change_triple trivial hwritable) ?_
    rintro ⟨⟩ _ rfl
    refine learns_bind (change_triple trivial hwritable) ?_
    rintro ⟨⟩ _ rfl
    refine learns_bind (inspectCurrent_triple paneId) fun verified k₄ _ => ?_
    exact learns_guard fun _ => learns_check fun _ _ => learns_ret trivial

theorem renameCurrent_triple (paneId : Nat) (sessionId name : Str) :
    (logic S i).Triple k (renameCurrent (S.pid (S.process i)) paneId sessionId name).run
      (Learns fun _ _ => True) := by
  refine learns_bind (inspectCurrent_triple paneId) fun window k₁ _ => ?_
  refine learns_check fun _ _ => ?_
  refine learns_bind (assertLiveOwner_triple window) ?_
  rintro _ k₂ ⟨-, -, hwritable⟩
  refine learns_guard fun _ => ?_
  refine learns_bind (change_triple trivial hwritable) ?_
  rintro ⟨⟩ _ rfl
  exact Logic.Triple.mono (change_triple trivial hwritable) fun _ _ _ _ _ => trivial

theorem releaseCurrent_triple (paneId : Nat) (sessionId : Str) :
    (logic S i).Triple k (releaseCurrent (S.pid (S.process i)) paneId sessionId).run
      (Learns fun _ _ => True) := by
  refine learns_bind (inspectCurrent_triple paneId) fun window k₁ _ => ?_
  refine learns_check fun _ _ => ?_
  refine learns_bind (assertLiveOwner_triple window) ?_
  rintro _ k₂ ⟨-, -, hwritable⟩
  split
  · exact learns_ret trivial
  · refine learns_bind (unsetBinding_triple hwritable) ?_
    rintro ⟨⟩ k₂ rfl
    refine learns_bind (P := fun _ k' => k' = k₂) (readText_triple (readName_triple _)) ?_
    rintro windowName _ rfl
    split
    · exact learns_ret trivial
    · exact Logic.Triple.mono (change_triple trivial hwritable) fun _ _ _ _ _ => trivial

theorem tagRestored_triple {w : WindowId} (hw : k.writable w)
    (hfree : (S.task i).sessionId ≠ [] → ∀ w', w' ≠ w → k.absent w') :
    (logic S i).Triple k (tagRestored w (S.task i).sessionId).run
      (Learns fun _ k' => k'.writable w) := by
  have hkept : ∀ {k' : Knowledge π} {done : Prop}, k' = k.tags w done → k'.writable w := by
    rintro _ _ rfl
    exact .inl hw
  refine Logic.Triple.bind (P := fun _ k' => k'.writable w)
    ((create_triple hfree).map fun r k' hk' => hkept hk') ?_
  intro r k' hwritable
  cases r with
  | ok => exact learns_ret hwritable
  | error e =>
    refine learns_bind (P := fun _ k'' => k''.writable w) (readText_triple
      ((readSession_triple w).mono fun raw k'' hk'' tag htag => ?_)) fun existing k'' hwritable' => ?_
    · rw [hk'' tag htag]
      exact hwritable
    · exact learns_guard fun _ => learns_ret hwritable'

theorem restoreWindow_triple {input : RestoreWindowInput} (htask : S.task i = .restore input) :
    (logic S i).Triple k (restoreWindow input).run (Learns fun _ _ => True) := by
  refine learns_bind (inspectCurrent_triple input.paneId) ?_
  rintro current k₁ hinspected
  have hid : input.sessionId = (S.task i).sessionId := by
    rw [htask]
    rfl
  rw [hid]
  split
  · exact learns_ret trivial
  · rename_i hnone
    have hfree : (S.task i).sessionId ≠ [] → ∀ w, k₁.absent w := by
      intro hne w
      refine hinspected.absent hne w ?_ fun hmem => ?_
      · rw [htask]
        exact id
      · exact List.filter_eq_nil_iff.mp hnone _ hmem (decide_eq_true rfl)
    refine learns_bind (run_triple (newWindow_triple _)) ?_
    rintro w _ rfl
    refine learns_bind (tagRestored_triple (.inr rfl) fun hne w' _ => hfree hne w') ?_
    rintro ⟨⟩ k₂ hwritable
    refine learns_when (fun _ => True) (fun _ => ?_) (fun _ => trivial) fun k₃ _ => ?_
    · exact Logic.Triple.mono (change_triple trivial hwritable) fun _ _ _ _ _ => trivial
    · refine learns_bind (P := fun _ _ => True) (readText_triple
        ((readSession_triple w).mono fun _ _ _ _ _ => trivial)) fun verified k₄ _ => ?_
      exact learns_guard fun _ => learns_ret trivial
  · exact learns_throw

-- -----
-- Whole operations
-- -----

theorem withBindingLock_safe {operation : HostM α} (paneId : Nat) (hs : Nowhere i s)
    (h : (logic S i).Triple .start operation.run (Learns fun _ _ => True)) :
    Safe (HostExec S i) (Rely S i) (Own S i) (withBindingLock paneId operation).run
      (fun _ _ => True) s := by
  have hend : ∀ (r : Except SessionHostError α) s, Safe (HostExec S i) (Rely S i) (Own S i)
      (.ret r) (fun _ _ => True) s := fun r s => fun _ _ => trivial
  refine Safe.bindExcept (fun _ s => Nowhere i s) (Safe.map (Safe.map ?_)) (fun path s hs => ?_)
    fun e s _ => hend _ s
  · refine Safe.op (Nowhere i) (fun _ _ h hr => h.stable hr) hs fun s r s' hs he => ?_
    have hsame : s' = s := by
      cases he.run <;> rfl
    subst hsame
    exact ⟨.refl s', Safe.ret (Nowhere i) (fun _ _ h hr => h.stable hr) hs fun _ hs => hs⟩
  refine Safe.bindExcept (fun r s => r = .ok () → Holds S i .start s) (Safe.map (Safe.map ?_))
    (fun _ s hs => ?_) fun e s _ => hend _ s
  · refine Safe.op (Nowhere i) (fun _ _ h hr => h.stable hr) hs fun s r s' hs he => ?_
    cases he.run with
    | lockFails => exact ⟨.refl s, fun _ _ => nofun⟩
    | locked free =>
      refine ⟨⟨rfl, fun _ _ => rfl, fun _ => ⟨rfl, .inl free⟩, fun _ _ => rfl, fun _ h => h⟩, ?_⟩
      exact Safe.ret (Holds S i .start) (fun _ _ h hr => h.stable hr)
        (fun _ => Facts.start he.alive hs) fun _ hs _ => hs
  · refine Safe.bind ((h s (hs rfl)).mono fun result s _ => ?_)
    refine Safe.op (fun _ => True) (fun _ _ _ _ => trivial) trivial fun s r s' _ he => ?_
    cases he.run with
    | unlocked =>
      exact ⟨⟨rfl, fun _ _ => rfl, fun hholder => ⟨rfl, .inr ⟨if_neg hholder, rfl⟩⟩,
        fun _ _ => rfl, fun _ h => h⟩, hend _ _⟩

theorem ends_map {f : α → β} {x : HostM α}
    (h : (logic S i).Triple k x.run (Learns fun _ _ => True)) :
    (logic S i).Triple k (f <$> x).run (Learns fun _ _ => True) := by
  rw [ExceptT.run_map]
  exact h.map fun _ _ _ _ _ => trivial

theorem threads_safe (hs : Nowhere i s) :
    Safe (HostExec S i) (Rely S i) (Own S i) (S.threads i) (fun _ _ => True) s := by
  unfold Setting.threads
  cases htask : S.task i with
  | bind paneId sessionId name =>
    have hid : sessionId = (S.task i).sessionId := by rw [htask]; rfl
    have hspares : ∀ current w, (S.task i).Spares current w → current = some w := by
      rw [htask]
      exact fun _ _ h => h
    rw [hid]
    exact withBindingLock_safe paneId hs (ends_map (bindCurrent_triple paneId name rfl hspares))
  | rename paneId sessionId name =>
    exact withBindingLock_safe paneId hs (ends_map (renameCurrent_triple paneId sessionId name))
  | release paneId sessionId =>
    exact withBindingLock_safe paneId hs (ends_map (releaseCurrent_triple paneId sessionId))
  | restore input =>
    exact withBindingLock_safe input.paneId hs (ends_map (restoreWindow_triple htask))

variable {c : Config ι HostOp HostRes (Except SessionHostError Outcome) (Server ι S.pid)}

theorem Reach.threads_safe (hstart : ∀ i, Nowhere i s)
    (hr : Reach (hostMachine S) ⟨s, S.threads⟩ c) :
    ∀ i, Safe (HostExec S i) (Rely S i) (Own S i) (c.threads i) (fun _ _ => True) c.shared :=
  Reach.safe (compatible S) hr fun i => Host.threads_safe (hstart i)

end

-- -----
-- Session ids
-- -----

section
variable {ι π : Type} [DecidableEq ι] [DecidableEq π] {S : Setting ι π} {s : Server ι S.pid}
  {c : Config ι HostOp HostRes (Except SessionHostError Outcome) (Server ι S.pid)}

/-- Where listings cover the windows that matter, no two windows of the server
ever carry the same session id. -/
theorem session_ids_unique (hcovering : S.covering = true) (hstart : ∀ i, Nowhere i s)
    (hunique : UniqueTags s.windows) (hr : Reach (hostMachine S) ⟨s, S.threads⟩ c) :
    UniqueTags c.shared.windows := by
  refine Reach.preserves (P := fun s => UniqueTags s.windows) (compatible S) hr
    (fun i => threads_safe (hstart i)) (fun i s s' hown => hown.unique hcovering)
    (fun s s' henv hunique => ?_) hunique
  cases henv with
  | used kept => exact kept.unique hunique
  | started => exact hunique
  | exited => exact hunique

end

def untagged (target : TmuxSession) : Option Window := some ⟨none, none, lit "sh", none, [target]⟩

def twoPids (p : Bool) : Nat := if p then 2 else 1

def twoAlive : Processes twoPids where
  life _ := .alive
  distinct := by decide

def quietServer (ι : Type) (windows : Windows) (panes : Nat → Option WindowId) :
    Server ι twoPids where
  windows
  panes
  processes := twoAlive
  holder := none
  opening := ⟨[], twoAlive⟩
  current _ := none

/-- Two processes bind the windows of their panes to one session. -/
def twoBinds (covering : Bool) : Setting Bool Bool where
  task i := .bind (if i then 1 else 0) (lit "s-1") none
  process := id
  pid := twoPids
  socketPath := lit "/tmp/tmux"
  covering

/-- The two windows are in the tmux sessions 0 and `other`. -/
def twoWindows (covering : Bool) (other : TmuxSession) : Server Bool (twoBinds covering).pid :=
  quietServer Bool [untagged 0, untagged other] some

theorem twoWindows_nowhere (covering : Bool) (other : TmuxSession) (i : Bool) :
    Nowhere i (twoWindows covering other) := rfl

theorem twoWindows_unique (covering : Bool) (other : TmuxSession) :
    UniqueTags (twoWindows covering other).windows := by
  intro w _ _ _ htag
  obtain ⟨window, hwindow, hsession⟩ := tagAt_eq_some.mp htag
  have hmem := List.mem_of_getElem? (Option.join_eq_some_iff.mp hwindow)
  simp only [twoWindows, quietServer, untagged, List.mem_cons, List.not_mem_nil, or_false,
    Option.some.injEq] at hmem
  rcases hmem with rfl | rfl <;> cases hsession

/-- One bind after the other, each as far as it gets. -/
def twoBindsRun (covering : Bool) (other : TmuxSession) :
    Option (Config Bool HostOp HostRes (Except SessionHostError Outcome)
      (Server Bool (twoBinds covering).pid)) :=
  hostRun (twoBinds covering) (twoWindows covering other) (fun _ _ => false) [(false, 60), (true, 60)]

/-- In one tmux session the second bind is refused. -/
theorem session_ids_unique_twoBinds : ∃ c,
    Reach (hostMachine (twoBinds true)) ⟨twoWindows true 0, (twoBinds true).threads⟩ c ∧
      c.shared.tag 0 = some (lit "s-1") ∧ c.shared.tag 1 = none ∧ UniqueTags c.shared.windows := by
  have hrun : (twoBindsRun true 0).map (fun c => (c.shared.tag 0, c.shared.tag 1)) =
      some (some (lit "s-1"), none) := by decide +kernel
  obtain ⟨c, hc, htags⟩ := Option.map_eq_some_iff.mp hrun
  have hreach : Reach (hostMachine (twoBinds true)) ⟨twoWindows true 0, (twoBinds true).threads⟩ c :=
    hostRun_reach hc
  exact ⟨c, hreach, congrArg Prod.fst htags, congrArg Prod.snd htags,
    session_ids_unique rfl (twoWindows_nowhere true 0) (twoWindows_unique true 0) hreach⟩

/-- In two tmux sessions both succeed: neither sees the window of the other. -/
theorem session_id_given_twice : ¬ ∀ {ι π : Type} [DecidableEq ι] [DecidableEq π]
    {S : Setting ι π} {s : Server ι S.pid}
    {c : Config ι HostOp HostRes (Except SessionHostError Outcome) (Server ι S.pid)},
    (∀ i, Nowhere i s) → UniqueTags s.windows →
      Reach (hostMachine S) ⟨s, S.threads⟩ c → UniqueTags c.shared.windows := by
  intro h
  have hrun : (twoBindsRun false 1).map (fun c => (c.shared.tag 0, c.shared.tag 1)) =
      some (some (lit "s-1"), some (lit "s-1")) := by decide +kernel
  obtain ⟨c, hc, htags⟩ := Option.map_eq_some_iff.mp hrun
  have hreach : Reach (hostMachine (twoBinds false)) ⟨twoWindows false 1, (twoBinds false).threads⟩ c :=
    hostRun_reach hc
  have hunique : UniqueTags c.shared.windows := h (twoWindows_nowhere false 1) (twoWindows_unique false 1) hreach
  exact absurd (hunique 0 1 (lit "s-1") nofun (congrArg Prod.fst htags) (congrArg Prod.snd htags))
    (by decide)

-- -----
-- Live owners
-- -----

section
variable {ι π : Type} [DecidableEq ι] [DecidableEq π] {S : Setting ι π} {s : Server ι S.pid}
  {c : Config ι HostOp HostRes (Except SessionHostError Outcome) (Server ι S.pid)}

/-- No step of an operation changes a window that was bound when the lock was
taken, to the session of another process that has been alive since. -/
theorem live_owner_undisturbed (hstart : ∀ i, Nowhere i s)
    (hr : Reach (hostMachine S) ⟨s, S.threads⟩ c) {i : ι} {o : HostOp}
    {next : HostRes o → HostProg (Except SessionHostError Outcome)} {r : HostRes o}
    {s' : Server ι S.pid} (hnext : c.threads i = .op o next) (hrun : HostExec S i c.shared o r s')
    {w : WindowId} (hw : Protected S c.shared i w) : s'.window w = c.shared.window w := by
  have hsafe := Reach.threads_safe hstart hr i
  rw [hnext] at hsafe
  exact (hsafe c.shared .refl r s' hrun).1.undisturbed w hw

end

/-- A process binds a window and releases it; another binds the same window. -/
def rebind : Setting (Fin 3) Bool where
  task
    | 0 => .bind 0 (lit "s-1") none
    | 1 => .release 0 (lit "s-1")
    | 2 => .bind 0 (lit "s-2") none
  process i := i = 2
  pid := twoPids
  socketPath := lit "/tmp/tmux"
  covering := false

def rebindServer : Server (Fin 3) rebind.pid := quietServer (Fin 3) [untagged 0] fun _ => some 0

theorem rebindServer_nowhere (i : Fin 3) : Nowhere i rebindServer := rfl

/-- The release takes away the session tag and fails to take away the owner tag. -/
def rebindRun (turns : List (Fin 3 × Nat)) :
    Option (Config (Fin 3) HostOp HostRes (Except SessionHostError Outcome)
      (Server (Fin 3) rebind.pid)) :=
  hostRun rebind rebindServer (fun i o => i = 1 ∧ o = .change 0 .unsetOwner) turns

def boundWindow (sessionId owner : String) : Window :=
  ⟨some (lit sessionId), some (lit owner), lit "pi-s-1", some false, [0]⟩

/-- Without the release, the second bind asks whether the owner is alive. -/
theorem live_owner_undisturbed_rebind : ∃ c next,
    Reach (hostMachine rebind) ⟨rebindServer, rebind.threads⟩ c ∧
      c.threads 2 = .op (.ownerAlive 1) next ∧
      c.shared.window 0 = some (boundWindow "s-1" "1") ∧
      ∀ r s', HostExec rebind 2 c.shared (.ownerAlive 1) r s' →
        s'.window 0 = c.shared.window 0 := by
  have hrun : (rebindRun [(0, 60), (2, 8)]).map (fun c => ((c.threads 2).next?, c.shared.window 0,
      windowAt c.shared.opening.windows 0, c.shared.opening.processes.life false,
      c.shared.processes.life false)) =
      some (some (.ownerAlive 1), some (boundWindow "s-1" "1"), some (boundWindow "s-1" "1"), .alive,
        .alive) := by decide +kernel
  obtain ⟨c, hc, hview⟩ := Option.map_eq_some_iff.mp hrun
  simp only [Prod.mk.injEq] at hview
  obtain ⟨hnext?, hwindow, hopening, hopen, hlive⟩ := hview
  obtain ⟨next, hnext⟩ := Prog.next?_eq_some hnext?
  have hreach : Reach (hostMachine rebind) ⟨rebindServer, rebind.threads⟩ c := hostRun_reach hc
  have hprotected : Protected rebind c.shared 2 0 :=
    ⟨false, boundWindow "s-1" "1", hopening, by decide, by decide, by decide, hopen, hlive⟩
  exact ⟨c, next, hreach, hnext, hwindow, fun r s' hrun =>
    live_owner_undisturbed rebindServer_nowhere hreach hnext hrun hprotected⟩

/-- After the release that failed half-way, the owner tag of a process that is
alive is replaced. -/
theorem live_owner_replaced : ¬ ∀ {ι π : Type} [DecidableEq ι] [DecidableEq π]
    {S : Setting ι π} {s : Server ι S.pid}
    {c : Config ι HostOp HostRes (Except SessionHostError Outcome) (Server ι S.pid)},
    (∀ i, Nowhere i s) → Reach (hostMachine S) ⟨s, S.threads⟩ c →
      ∀ {i : ι} {o : HostOp} {next : HostRes o → HostProg (Except SessionHostError Outcome)}
        {r : HostRes o} {s' : Server ι S.pid}, c.threads i = .op o next →
        HostExec S i c.shared o r s' → ∀ {w window q}, c.shared.window w = some window →
          window.ownerPid = some (S.pid q) → q ≠ S.process i → c.shared.alive q →
          ∃ window', s'.window w = some window' ∧ window'.session = window.session ∧
            window'.owner = window.owner ∧ window'.name = window.name := by
  intro h
  have hrun : (rebindRun [(0, 60), (1, 60), (2, 8)]).map (fun c => ((c.threads 2).next?,
      c.shared.window 0, c.shared.processes.life false, c.shared.processes.life true)) =
      some (some (.change 0 (.setOwner (lit "2"))), some (boundWindow "s-2" "1"), .alive, .alive) := by
    decide +kernel
  obtain ⟨c, hc, hview⟩ := Option.map_eq_some_iff.mp hrun
  simp only [Prod.mk.injEq] at hview
  obtain ⟨hnext?, hwindow, hlive, hself⟩ := hview
  obtain ⟨next, hnext⟩ := Prog.next?_eq_some hnext?
  have hreach : Reach (hostMachine rebind) ⟨rebindServer, rebind.threads⟩ c := hostRun_reach hc
  have hexec : HostExec rebind 2 c.shared (.change 0 (.setOwner (lit "2"))) (.ok ())
      (c.shared.put 0 (boundWindow "s-2" "2")) := ⟨hself, .changed hwindow rfl _⟩
  obtain ⟨window', hwindow', -, howner, -⟩ := h rebindServer_nowhere hreach hnext hexec hwindow
    (q := false) (by decide) (by decide) hlive
  rw [put_window hwindow, if_pos rfl] at hwindow'
  obtain rfl := Option.some.inj hwindow'
  exact absurd howner (by decide)

end PiEnv.SessionManager.Host
