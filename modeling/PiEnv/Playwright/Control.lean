import PiEnv.Playwright.Programs

/-!
# The human in control

No call that changes a page is issued while the human is in control, as long as
the human does not take it between the check of an action and its call. A
download checks in the turn in which it sets off, so nothing fits in between.
-/

namespace PiEnv.Playwright

open Js
open Effects
open Transitions

variable {setup : Setup} {ok : Op → Prop}

-- -----
-- What actions ask
-- -----

/-- Neither the control state nor a call that changes a page. -/
def Op.Quiet : Op → Prop
  | .controlState => False
  | .caught .. => False
  | .issue call => call.mutates = false
  | _ => True

theorem Op.Connects.quiet {o : Op} (ho : Op.Connects o) : Op.Quiet o := by
  cases o with
  | controlState => exact ho
  | caught => exact ho
  | issue => exact ho.elim
  | _ => trivial

abbrev Quiet {α : Type} (x : Action α) : Prop := Asks Op.Quiet x

namespace Quiet

theorem await {α : Type} {x : Action α} (hx : Quiet x) : Quiet (await x) := await_asks hx trivial

theorem ask {o : Op} (ho : Op.Quiet o) : Quiet (Playwright.ask o) := Asks.ask ho

theorem ensureConnected {target : BrowserTarget} : Quiet (ensureConnected setup target) :=
  Connects.ensureConnected.mono fun _ => Op.Connects.quiet

theorem cleanupStaleConnections {rounds : Nat} : Quiet (cleanupStaleConnections rounds) :=
  Connects.cleanupStaleConnections.mono fun _ => Op.Connects.quiet

theorem pages {target : BrowserTarget} {allowEmpty : Bool} :
    Quiet (pages setup target allowEmpty) := by
  refine Asks.bind ensureConnected.await fun _ => Asks.bind (Asks.ask trivial) fun cached => ?_
  cases cached with
  | none => exact Asks.throws
  | some browser =>
    refine Asks.bind (Asks.ask trivial) fun found => ?_
    cases found with
    | error e => exact Asks.throws
    | ok ids =>
      dsimp only
      split
      · exact Asks.throws
      · exact Asks.ret

theorem activePage {targetName : Str} : Quiet (activePage setup targetName) := by
  refine Asks.bind targetByName_asks fun target => Asks.bind pages.await fun pages =>
    Asks.bind (Asks.ask trivial) fun found => ?_
  cases found with
  | none => exact Asks.throws
  | some page => exact Asks.ret

theorem listPages {rounds : Nat} {targetName : Str} : Quiet (listPages setup rounds targetName) :=
  Asks.bind cleanupStaleConnections.await fun _ => Asks.bind targetByName_asks fun _ =>
    Asks.bind ensureConnected.await fun _ => Asks.bind pages.await fun _ =>
      Asks.bind (Asks.ask trivial) fun _ => Asks.bind (Asks.ask trivial) fun _ => Asks.ret

theorem selectPage {rounds : Nat} {targetName : Str} {selection : PageSelectionParams} :
    Quiet (selectPage setup rounds targetName selection) := by
  refine Asks.bind listPages.await fun pages => ?_
  split
  · exact Asks.throws
  · exact Asks.bind (Asks.ask trivial) fun _ => Asks.bind listPages.await fun _ => Asks.ret

theorem attempt {operation : PageOperation} {page : Page} (h : operation.mutates = false) :
    Quiet (attempt operation page) :=
  Asks.bind (Asks.ask h) fun _ => Asks.bind (Asks.ask trivial) fun _ => Asks.ret

theorem perform {operation : PageOperation} {page : Page} (h : operation.mutates = false) :
    Quiet (perform operation page) := by
  refine Asks.bind (Asks.ask h) fun _ => Asks.bind (Asks.ask trivial) fun outcome => ?_
  cases outcome with
  | ok => exact Asks.ret
  | error e => exact Asks.throws

theorem currentPageSummary {targetName : Str} : Quiet (currentPageSummary setup targetName) := by
  refine Asks.bind targetByName_asks fun target => Asks.bind ensureConnected.await fun _ =>
    Asks.bind pages.await fun pages => ?_
  split
  · exact Asks.ret
  · refine Asks.bind (Asks.ask trivial) fun index => Asks.bind (Asks.ask trivial) fun _ =>
      Asks.bind (Asks.ask trivial) fun _ => ?_
    split
    · exact attempt rfl
    · exact Asks.ret

theorem status {rounds : Nat} {targetName : Str} : Quiet (status setup rounds targetName) := by
  refine Asks.bind cleanupStaleConnections.await fun _ => Asks.bind targetByName_asks fun target =>
    Asks.bind (await (Asks.tryCatch (Asks.bind ensureConnected.await fun _ => Asks.ret)
      fun _ => Asks.ret)) fun connected => ?_
  split
  · exact Asks.bind listPages.await fun _ => Asks.ret
  · exact Asks.ret

theorem artifactPath : Quiet artifactPath := by
  refine Asks.bind (Asks.ask trivial) fun made => ?_
  cases made with
  | ok => exact Asks.ret
  | error e => exact Asks.throws

theorem snapshot {targetName : Str} : Quiet (snapshot setup targetName) :=
  Asks.bind activePage.await fun _ => Asks.bind (attempt rfl) fun _ =>
    Asks.bind (whenTrue_asks (attempt rfl)) fun _ => attempt rfl

theorem screenshot {targetName : Str} {fullPage : Bool} :
    Quiet (screenshot setup targetName fullPage) :=
  Asks.bind activePage.await fun _ => Asks.bind (attempt rfl) fun _ =>
    Asks.bind artifactPath.await fun _ => perform rfl

end Quiet

-- -----
-- The check and the call
-- -----

/-- The check was passed, and neither was a call that changes a page issued
since nor an error caught. -/
def admitted : History Op Res → Bool
  | [] => false
  | ⟨.controlState, state⟩ :: _ => state ≠ ControlState.human
  | ⟨.caught .., _⟩ :: _ => false
  | ⟨.issue call, _⟩ :: rest => !call.mutates && admitted rest
  | _ :: rest => admitted rest

theorem admitted_cons {o : Op} {r : Res o} {h : History Op Res} (ho : Op.Quiet o)
    (hh : admitted h = true) : admitted (⟨o, r⟩ :: h) = true := by
  cases o with
  | controlState => exact ho.elim
  | caught => exact ho.elim
  | issue call =>
    have hcall : call.mutates = false := ho
    simp only [admitted, hcall, hh, Bool.not_false, Bool.and_self]
  | _ => exact hh

/-- A call that changes a page is issued only after the check. -/
def checked (h : History Op Res) (o : Op) : Prop :=
  match o with
  | .issue call => call.mutates = true → admitted h = true
  | _ => True

theorem checked_of_quiet {h : History Op Res} {o : Op} (ho : Op.Quiet o) : checked h o := by
  cases o with
  | issue call =>
    intro hmutates
    have hcall : call.mutates = false := ho
    rw [hcall] at hmutates
    cases hmutates
  | _ => trivial

variable {α β : Type} {x : Action α} {h : History Op Res}

abbrev Checked (x : Action α) (P : α → History Op Res → Prop) (h : History Op Res) : Prop :=
  Yields checked x P h

theorem Quiet.checked (hx : Quiet x) (hh : admitted h = true) :
    Checked x (fun _ h' => admitted h' = true) h :=
  (Asks.yields hx fun _ _ => checked_of_quiet).mono fun _ _ _ hext =>
    hext.preserves (P := fun h => admitted h = true) (fun _ _ _ => admitted_cons) hh

theorem Quiet.anyway (hx : Quiet x) : Checked x (fun _ _ => True) h :=
  (Asks.yields hx fun _ _ => checked_of_quiet).mono fun _ _ _ _ => trivial

theorem Checked.seq {f : α → Action β} {P : β → History Op Res → Prop}
    (hx : Checked x (fun _ h' => admitted h' = true) h)
    (hf : ∀ a h', admitted h' = true → Checked (f a) P h') : Checked (x >>= f) P h :=
  Yields.bind hx fun a h' _ hh => hf a h' hh

theorem Quiet.before {f : α → Action β} {P : β → History Op Res → Prop} (hx : Quiet x)
    (hf : ∀ a h', Checked (f a) P h') : Checked (x >>= f) P h :=
  Yields.bind hx.anyway fun a h' _ _ => hf a h'

theorem assertCanMutate_checked {action : Str} :
    Checked (assertCanMutate action) (fun _ h' => admitted h' = true) h := by
  refine Yields.ask trivial fun state => ?_
  split
  case isTrue => exact Yields.throws
  case isFalse hstate => exact Yields.ret (decide_eq_true hstate)

theorem perform_checked {operation : PageOperation} {page : Page} (hh : admitted h = true) :
    Checked (perform operation page) (fun _ _ => True) h := by
  refine Yields.ask (fun _ => hh) fun _ => Yields.ask trivial fun outcome => ?_
  cases outcome with
  | ok => exact Yields.ret trivial
  | error e => exact Yields.throws

theorem await_checked {P : α → History Op Res → Prop}
    (hx : Checked x (fun a h' => P a (⟨.tick, ()⟩ :: h')) h) : Checked (await x) P h :=
  await_yields (fun _ => trivial) hx

/-- Nothing is asked of the result. -/
abbrev Sound (x : Action α) : Prop := ∀ h, Checked x (fun _ _ => True) h

theorem Quiet.sound (hx : Quiet x) : Sound x := fun _ => hx.anyway

theorem Sound.await (hx : Sound x) : Sound (Playwright.await x) := fun h =>
  await_checked (P := fun _ _ => True) (hx h)

theorem Sound.bind {f : α → Action β} (hx : Sound x) (hf : ∀ a, Sound (f a)) : Sound (x >>= f) :=
  fun h => Yields.bind (hx h) fun a h' _ _ => hf a h'

theorem title_sound {page : Page} : Sound (attempt .title page) := (Quiet.attempt rfl).sound

/-- What is done to a page once the check was passed. -/
theorem performed_checked {operation : PageOperation} {page : Page} (hh : admitted h = true) :
    Checked (do perform operation page; attempt .title page) (fun _ _ => True) h :=
  Yields.bind (perform_checked hh) fun _ h' _ _ => title_sound h'

-- -----
-- Actions
-- -----

theorem mutatePage_sound {name targetName : Str} {operation : PageOperation} :
    Sound (mutatePage setup name targetName operation) := fun _ =>
  assertCanMutate_checked.seq fun _ _ hh =>
    (Quiet.activePage.await.checked hh).seq fun _ _ hh => performed_checked hh

theorem click_sound {targetName : Str} {params : LocatorParams} :
    Sound (click setup targetName params) := fun _ =>
  assertCanMutate_checked.seq fun _ _ hh =>
    (Quiet.activePage.await.checked hh).seq fun _ _ hh =>
      (Quiet.checked located_asks hh).seq fun _ _ hh => performed_checked hh

theorem type_sound {targetName value : Str} {params : LocatorParams} {mode : TypeMode} :
    Sound (type setup targetName params value mode) := by
  intro h
  refine assertCanMutate_checked.seq fun _ _ hh =>
    (Quiet.activePage.await.checked hh).seq fun page _ hh => ?_
  split
  · cases mode with
    | fill => exact Yields.throws
    | type => exact performed_checked hh
  · exact (Quiet.checked located_asks hh).seq fun _ _ hh => performed_checked hh

theorem newPage_sound {targetName : Str} : Sound (newPage setup targetName) := by
  intro h
  refine assertCanMutate_checked.seq fun _ _ hh =>
    (Quiet.checked targetByName_asks hh).seq fun target _ hh =>
      (Quiet.ensureConnected.await.checked hh).seq fun _ _ hh =>
        ((Quiet.ask (o := .connection target.name) trivial).checked hh).seq fun cached _ hh => ?_
  cases cached with
  | none => exact Yields.throws
  | some browser =>
    refine ((Quiet.ask (o := .firstContext browser) trivial).checked hh).seq fun context _ hh => ?_
    cases context with
    | error e => exact Yields.throws
    | ok found =>
      cases found with
      | false => exact Yields.throws
      | true =>
        refine Yields.ask (fun _ => hh) fun _ => Yields.ask trivial fun opened => ?_
        cases opened with
        | error e => exact Yields.throws
        | ok id =>
          exact Quiet.pages.await.before fun _ _ => Yields.ask trivial fun _ =>
            Yields.ask trivial fun _ => title_sound _

theorem runTrigger_checked {trigger : Option PageOperation} {page : Page}
    (hh : trigger.isSome = true → admitted h = true) :
    Checked (runTrigger trigger page) (fun _ _ => True) h := by
  cases trigger with
  | none => exact Sound.await (fun _ => Yields.ret trivial) h
  | some operation => exact perform_checked (hh rfl)

theorem download_sound {targetName : Str} {args : BrowserArgs} :
    Sound (download setup targetName args) := by
  intro h
  refine Quiet.activePage.await.before fun page _ => (Quiet.before downloadTrigger_asks) fun trigger _ =>
    Yields.bind (P := fun _ h' => trigger.isSome = true → admitted h' = true) ?_ fun _ h' _ hh =>
      Yields.ask (fun hmutates => nomatch hmutates) fun _ =>
        Yields.bind (runTrigger_checked hh) fun _ _ _ _ => Yields.ask trivial fun downloaded =>
          (Quiet.before failOf_asks) fun _ _ => Yields.ask trivial fun failed =>
            (Quiet.before failOf_asks) fun failure _ => ?_
  · unfold whenTrue
    split
    case isTrue => exact assertCanMutate_checked.mono fun _ _ _ hh _ => hh
    case isFalse hnone => exact Yields.ret fun hsome => absurd hsome hnone
  · split
    · exact Yields.throws
    · exact Quiet.artifactPath.await.before fun _ _ => Yields.ask trivial fun saved =>
        (Quiet.before failOf_asks) fun _ h' => title_sound h'

theorem waitOperation_checked {args : BrowserArgs} :
    Checked (waitOperation setup args) (fun operation _ => operation.mutates = false) h := by
  unfold waitOperation
  split
  · exact Yields.ret rfl
  · split
    · exact (Quiet.before located_asks) fun _ _ => Yields.ret rfl
    · exact Yields.ret rfl

theorem wait_sound {targetName : Str} {args : BrowserArgs} :
    Sound (wait setup targetName args) := fun _ =>
  Quiet.activePage.await.before fun _ _ => Yields.bind waitOperation_checked fun _ h' _ hwaits =>
    ((Quiet.perform hwaits).sound.bind fun _ => title_sound) h'

theorem actionHandler_sound {rounds : Nat} {request : Request} :
    Sound (actionHandler setup rounds request) := by
  have hrequire : ∀ {name : Str} {f : Str → Action Unit}, (∀ target, Sound (f target)) →
      Sound (requireTarget name request.target >>= f) :=
    fun hf => (Quiet.sound requireTarget_asks).bind hf
  unfold actionHandler
  dsimp only
  cases request.action with
  | back => exact hrequire fun _ => mutatePage_sound.await
  | click => exact hrequire fun _ => click_sound.await
  | download => exact hrequire fun _ => download_sound.await
  | forward => exact hrequire fun _ => mutatePage_sound.await
  | navigate =>
    dsimp only
    split
    · exact fun _ => Yields.throws
    · exact hrequire fun _ => mutatePage_sound.await
  | newPage => exact hrequire fun _ => newPage_sound.await
  | pages =>
    refine hrequire fun targetName => ?_
    split
    · exact Quiet.selectPage.sound.await.bind fun _ _ => Yields.ret trivial
    · exact Quiet.listPages.sound.await.bind fun _ _ => Yields.ret trivial
  | reload => exact hrequire fun _ => mutatePage_sound.await
  | screenshot => exact hrequire fun _ => Quiet.screenshot.sound.await
  | snapshot => exact hrequire fun _ => Quiet.snapshot.sound.await
  | status => exact hrequire fun _ => Quiet.status.sound.await
  | type =>
    dsimp only
    split
    · exact fun _ => Yields.throws
    · exact hrequire fun _ => type_sound.await
  | wait => exact hrequire fun _ => wait_sound.await

theorem execute_guarded {rounds : Nat} {request : Request} :
    Guarded checked (execute setup rounds request) (fun _ _ => True) h := by
  have hexecute : Sound (executeBrowserAction setup rounds request) := fun h =>
    Yields.tryCatch (actionHandler_sound h) fun error h' _ => Yields.ask trivial fun dropped =>
      Yields.bind (Sound.await (Quiet.sound
        (Connects.closing.mono fun _ => Op.Connects.quiet)) _) fun _ _ _ _ => Yields.throws
  refine Guarded.ask trivial fun _ => Guarded.seq (hexecute.await _) fun _ h' _ _ => ?_
  split
  · exact Guarded.seq (Quiet.currentPageSummary.sound h') fun _ _ _ _ => trivial
  · trivial

-- -----
-- Turns
-- -----

variable {s s' : State}

/-- The human was not in control when a page was changed, and is not while an
action is between its check and its call. -/
def control : Assertion Op Res State where
  guard := checked
  shared s := ∀ entry ∈ s.issued, entry.1.mutates = true → entry.2 ≠ .human
  running s h := admitted h = true → s.controlState ≠ .human
  waiting s h o := o.isSome = true → admitted h = true → s.controlState ≠ .human

theorem touch_issued {target : Str} : (s.touch target).controlState = s.controlState ∧
    (s.touch target).issued = s.issued := by
  unfold State.touch
  split <;> exact ⟨rfl, rfl⟩

theorem answer_issued {o : Op} {r : Res o} (h : answer s o = some (r, s')) :
    s'.controlState = s.controlState ∧
      (s'.issued = s.issued ∨ ∃ call, o = .issue call ∧ s'.issued = (call, s.controlState) :: s.issued) := by
  cases o with
  | issue call =>
    cases h
    exact ⟨rfl, .inr ⟨call, rfl, rfl⟩⟩
  | touch target =>
    obtain ⟨-, rfl⟩ := Prod.mk.inj (Option.some.inj h)
    exact ⟨touch_issued.1, .inl touch_issued.2⟩
  | _ =>
    first
      | cases h; exact ⟨rfl, .inl rfl⟩
      | cases h

/-- Having an operation answered admits only where the state allows it. -/
theorem admitted_answer {o : Op} {r : Res o} (hanswer : answer s o = some (r, s'))
    (hh : admitted h = true → s.controlState ≠ .human) (hadmitted : admitted (⟨o, r⟩ :: h) = true) :
    s.controlState ≠ .human := by
  cases o with
  | controlState =>
    cases hanswer
    simpa [admitted] using hadmitted
  | issue call =>
    simp only [admitted, Bool.and_eq_true] at hadmitted
    exact hh hadmitted.2
  | caught => cases hadmitted
  | _ => exact hh hadmitted

theorem control_kept : Kept (client setup) control where
  answer {s s' h o r} hanswer hs hrunning hguard := by
    obtain ⟨hstate, hissued⟩ := answer_issued hanswer
    refine ⟨?_, fun hadmitted => hstate ▸ admitted_answer hanswer hrunning hadmitted,
      fun _ _ hwaiting hsome hadmitted => hstate ▸ hwaiting hsome hadmitted⟩
    rcases hissued with hsame | ⟨call, rfl, hnew⟩
    · intro entry hmem
      exact hs entry (hsame ▸ hmem)
    · intro entry hmem hmutates
      rw [hnew] at hmem
      rcases List.mem_cons.mp hmem with rfl | hold
      · exact hrunning (hguard hmutates)
      · exact hs entry hold hmutates
  pause _ hrunning _ := hrunning

theorem deliver_issued {o : Op} {reply r : Res o} (h : deliver setup s o reply = some (r, s')) :
    s'.controlState = s.controlState ∧ s'.issued = s.issued := by
  cases o with
  | connectOverCDP target => cases reply <;> cases h <;> exact ⟨rfl, rfl⟩
  | caught target error =>
    obtain ⟨-, rfl⟩ := Prod.mk.inj (Option.some.inj h)
    cases brokenTarget setup target error <;> exact ⟨rfl, rfl⟩
  | newPage browser =>
    cases reply with
    | ok page =>
      simp only [deliver] at h
      split at h
      · cases h
        exact ⟨rfl, rfl⟩
      · cases h
    | error e =>
      cases h
      exact ⟨rfl, rfl⟩
  | _ =>
    first
      | cases h; exact ⟨rfl, rfl⟩
      | cases h

/-- What is awaited admits nobody. -/
theorem admitted_deliver {o : Op} {reply r : Res o} (hdeliver : deliver setup s o reply = some (r, s'))
    (hadmitted : admitted (⟨o, r⟩ :: h) = true) : admitted h = true := by
  cases o with
  | controlState => cases hdeliver
  | issue => cases hdeliver
  | caught => cases hadmitted
  | _ => exact hadmitted

-- -----
-- Runs
-- -----

/-- The fiber has passed its check and has its call still to issue. -/
def inBetween (fiber : Fiber Op Res) : Bool :=
  (Fibers.awaited fiber).isSome && admitted fiber.history

/-- The human does not take control while an action is between its check and its call. -/
def unhurried (w : World) : Event → Bool
  | .setControlState .human => !w.fibers.any inBetween
  | _ => true

variable {w w' : World}

/-- A fiber that is not in between does not mind who takes control. -/
theorem takeControl_knows {fiber : Fiber Op Res} {state : ControlState}
    (hknows : control.Knows s fiber) (hhuman : state = .human → inBetween fiber = false) :
    control.Knows { s with controlState := state } fiber := by
  refine ⟨hknows.guarded, fun hsome hadmitted hstate => ?_⟩
  have hbetween := hhuman hstate
  rw [inBetween, hsome, hadmitted] at hbetween
  cases hbetween

theorem disconnecting_guarded {dropped : Option BrowserId} :
    Guarded checked (disconnecting dropped) (fun _ _ => True) h :=
  Guarded.seq (Quiet.sound (Connects.closing.mono fun _ => Op.Connects.quiet) h)
    fun _ _ _ _ => trivial

theorem control_step {event : Event} (hw : control.Holds w) (hok : unhurried w event = true)
    (hstep : step setup w event = some w') : control.Holds w' := by
  have hsame : ∀ {s : State}, s.controlState = w.shared.controlState →
      s.issued = w.shared.issued → control.shared s ∧ control.Framed w.shared s :=
    fun hstate hissued => ⟨fun entry hmem => hw.shared entry (hissued ▸ hmem),
      fun _ _ hwaiting hsome hadmitted => hstate ▸ hwaiting hsome hadmitted⟩
  have hstays : ∀ {s : State}, s.controlState = w.shared.controlState →
      s.issued = w.shared.issued → control.Holds ⟨s, w.fibers⟩ := fun hstate hissued =>
    ⟨(hsame hstate hissued).1, fun fiber hmem => (hw.fibers fiber hmem).framed (hsame hstate hissued).2⟩
  cases event with
  | passes time =>
    simp only [step] at hstep
    split at hstep
    · rw [← Option.some.inj hstep]
      exact hstays rfl rfl
    · cases hstep
  | execute request rounds =>
    rw [← Option.some.inj hstep]
    exact control_kept.start hw execute_guarded nofun
  | resume fiber reply =>
    simp only [step] at hstep
    split at hstep
    case isFalse => cases hstep
    refine control_kept.resume hw hstep fun _ hgiven hwaiting => ?_
    obtain ⟨hstate, hissued⟩ := deliver_issued hgiven
    exact ⟨(hsame hstate hissued).1,
      fun hadmitted => hstate ▸ hwaiting rfl (admitted_deliver hgiven hadmitted),
      fun _ _ hknows => hknows.framed (hsame hstate hissued).2⟩
  | setControlState state =>
    rw [← Option.some.inj hstep]
    refine ⟨hw.shared, fun fiber hmem => takeControl_knows (hw.fibers fiber hmem) ?_⟩
    rintro rfl
    simp only [unhurried, Bool.not_eq_true', List.any_eq_false] at hok
    exact Bool.eq_false_iff.mpr (hok fiber hmem)
  | changes browser isConnected contexts failing =>
    simp only [step] at hstep
    split at hstep
    · obtain ⟨shared, hchanges, rfl⟩ := Option.map_eq_some_iff.mp hstep
      obtain ⟨b, b', -, -, rfl⟩ := State.changes_eq_some hchanges
      exact hstays rfl rfl
    · cases hstep
  | loses browser =>
    rw [← Option.some.inj hstep]
    exact hstays rfl rfl
  | disconnected browser =>
    simp only [step] at hstep
    split at hstep
    case h_1 => cases hstep
    case h_2 b hb =>
      split at hstep
      · rw [← Option.some.inj hstep]
        exact control_kept.start (hstays rfl rfl) disconnecting_guarded nofun
      · cases hstep

theorem control_start : control.Holds start := ⟨nofun, nofun⟩

/-- In a run in which the human never takes control between the check of an
action and its call, no page is changed while the human is in control. -/
theorem human_control_respected (setup : Setup) (events : List Event) (w : World)
    (hok : AllMeet (step setup) (fun w event => unhurried w event) start events)
    (hrun : run (step setup) start events = some w) :
    ∀ call state, (call, state) ∈ w.shared.issued → call.mutates = true → state ≠ .human :=
  fun call state hmem => (@invariant _ _ (step setup)
    (fun w event => unhurried w event) _ (fun _ _ _ hw hmet hstep => control_step hw hmet hstep)
    _ _ _ control_start hok hrun).shared (call, state) hmem

/-- An action is refused under the human, who then gives control back for another. -/
def handedBack : List Event :=
  [.setControlState .human, calls .reload] ++ resumed [0, 0, 0, 0] ++
    [.setControlState .agent, calls .reload] ++ resumed (List.replicate 6 1)

theorem handedBack_respected : ∃ w, run (step home) start handedBack = some w ∧
    ∀ call state, (call, state) ∈ w.shared.issued → call.mutates = true → state ≠ .human := by
  obtain ⟨w, hw⟩ : ∃ w, run (step home) start handedBack = some w :=
    Option.isSome_iff_exists.mp (by decide +kernel)
  exact ⟨w, hw, human_control_respected home handedBack w (by decide +kernel) hw⟩

/-- The human takes control while an action that has passed its check is connecting. -/
def takenWhileConnecting : List Event :=
  [calls .reload] ++ resumed [0] ++ [.setControlState .human] ++ resumed [0, 0, 0, 0]

theorem reloaded_under_human : ∃ w, run (step home) start takenWhileConnecting = some w ∧
    (.page .reload ⟨0, 0⟩, .human) ∈ w.shared.issued := by
  have hrun : (run (step home) start takenWhileConnecting).map (·.shared.issued) =
      some [(.page .reload ⟨0, 0⟩, .human)] := by decide +kernel
  obtain ⟨w, hw, hissued⟩ := Option.map_eq_some_iff.mp hrun
  exact ⟨w, hw, hissued ▸ List.mem_cons_self⟩

end PiEnv.Playwright
