import PiEnv.Playwright.Programs

/-!
# Where actions look for their page

Whatever an action does to a page, it does to the one it looked up, and it
looks a page up in a list that it read in the same row of microtasks.
-/

namespace PiEnv.Playwright

open Js
open Effects

variable {setup : Setup} {α β : Type} {x : Action α} {h h' : History Op Res}

/-- The list of pages read, for a target and from its connection, with nothing
but a microtask since. -/
def captured : History Op Res → Option (Str × BrowserId × List PageId)
  | ⟨.select .., _⟩ :: h => captured h
  | ⟨.activePageIndex .., _⟩ :: h => captured h
  | ⟨.tick, _⟩ :: ⟨.pages browser, .ok ids⟩ :: ⟨.connection target, _⟩ :: _ => some (target, browser, ids)
  | ⟨.pages browser, .ok ids⟩ :: ⟨.connection target, _⟩ :: _ => some (target, browser, ids)
  | _ => none

/-- The tool call is one that selects a page. -/
def Request.selects (request : Request) : Bool :=
  request.action = .pages && request.args.selects

/-- A page is to be selected and is not yet. -/
def selecting : History Op Res → Bool
  | [] => false
  | ⟨.called request, _⟩ :: _ => request.selects
  | ⟨.select .., _⟩ :: _ => false
  | ⟨.caught .., _⟩ :: _ => false
  | _ :: h => selecting h

def LookedUp (h : History Op Res) (page : Page) : Prop :=
  ∃ target pages, ⟨.activePage target pages, some page⟩ ∈ h

/-- The page was in a list, or it is the new page of a call. -/
def Seen (h : History Op Res) (page : Page) : Prop :=
  (∃ ids, ⟨.pages page.browser, .ok ids⟩ ∈ h ∧ page.id ∈ ids) ∨
    ⟨.newPage page.browser, .ok page.id⟩ ∈ h

/-- The page is at the index of the list that the index is from. -/
def Placed (h : History Op Res) (target : Str) (index : Nat) (page : Page) : Prop :=
  (selecting h = true ∧
    ∃ ids, ⟨.pages page.browser, .ok ids⟩ ∈ h ∧ ids[index]? = some page.id) ∨
  ∃ browser ids, captured h = some (target, browser, ids) ∧
    (browser = page.browser → page.id ∈ ids → ids[index]? = some page.id)

def directed (h : History Op Res) (o : Op) : Prop :=
  match o with
  | .called _ => h = []
  | .pages browser => ∃ target rest, h = ⟨.connection target, some browser⟩ :: rest
  | .activePageIndex target pageCount =>
    ∃ browser ids, captured h = some (target, browser, ids) ∧ pageCount = ids.length
  | .activePage target pages =>
    ∃ browser ids, captured h = some (target, browser, ids) ∧ pages = ids.map (⟨browser, ·⟩)
  | .select target index page => Seen h page ∧ Placed h target index page
  | .issue (.page operation page) => operation ≠ .title → LookedUp h page
  | _ => True

abbrev Directed (x : Action α) (P : α → History Op Res → Prop) (h : History Op Res) : Prop :=
  Yields directed x P h

-- -----
-- What a longer history keeps
-- -----

theorem LookedUp.later {page : Page} (hpage : LookedUp h page) (hle : h <:+ h') :
    LookedUp h' page :=
  let ⟨target, pages, hmem⟩ := hpage
  ⟨target, pages, hle.subset hmem⟩

/-- Neither a selection nor the end of an action. -/
def Op.Selects : Op → Prop
  | .called _ => False
  | .select .. => False
  | .caught .. => False
  | _ => True

theorem selecting_cons {o : Op} {r : Res o} (ho : Op.Selects o) :
    selecting (⟨o, r⟩ :: h) = selecting h := by
  cases o with
  | called => exact ho.elim
  | select => exact ho.elim
  | caught => exact ho.elim
  | _ => rfl

theorem Op.Connects.directed {o : Op} (ho : Op.Connects o) : directed h o := by
  cases o with
  | called => exact ho.elim
  | pages => exact ho.elim
  | activePageIndex => exact ho.elim
  | activePage => exact ho.elim
  | select => exact ho.elim
  | issue => exact ho.elim
  | _ => trivial

theorem Op.Connects.selects {o : Op} (ho : Op.Connects o) : Op.Selects o := by
  cases o with
  | called => exact ho
  | select => exact ho
  | caught => exact ho
  | _ => trivial

/-- Nothing was selected, and no action ended. -/
def Keeps (h h' : History Op Res) : Prop := selecting h = true → selecting h' = true

theorem keeps_of_extends (hext : Extends Op.Connects h h') : Keeps h h' := fun hh =>
  hext.preserves (P := fun h => selecting h = true)
    (fun _ _ _ ho hsel => (selecting_cons ho.selects).trans hsel) hh

theorem Connects.directed (hx : Connects x) : Directed x (fun _ h' => Keeps h h') h :=
  (Asks.yields hx fun _ _ => Op.Connects.directed).mono fun _ _ _ hext => keeps_of_extends hext

/-- Of what asks nothing. -/
theorem directed_of_asks (hx : Asks (fun _ => False) x) : Directed x (fun _ h' => h' = h) h := by
  refine (Asks.yields hx fun _ _ => False.elim).mono fun _ h' _ hext => ?_
  obtain ⟨asked, rfl, hall⟩ := hext
  cases asked with
  | nil => rfl
  | cons entry asked => exact (hall entry List.mem_cons_self).elim

theorem await_directed {P : α → History Op Res → Prop}
    (hx : Directed x (fun a h' => P a (⟨.tick, ()⟩ :: h')) h) : Directed (await x) P h :=
  await_yields (fun _ => trivial) hx

-- -----
-- Pages
-- -----

/-- The list was just read. -/
structure Listed (h h' : History Op Res) (target : Str) (pages : List Page) : Prop where
  list : ∃ browser ids, pages = ids.map (⟨browser, ·⟩) ∧ captured h' = some (target, browser, ids) ∧
    ⟨.pages browser, .ok ids⟩ ∈ h'
  keeps : Keeps h h'

theorem pages_directed {target : BrowserTarget} {allowEmpty : Bool} :
    Directed (await (pages setup target allowEmpty)) (fun found h' => Listed h h' target.name found) h := by
  refine await_directed (Yields.bind Connects.ensureConnected.await.directed fun _ h₁ _ hkeeps =>
    Yields.ask trivial fun cached => ?_)
  cases cached with
  | none => exact Yields.throws
  | some browser =>
    refine Yields.ask ⟨_, _, rfl⟩ fun found => ?_
    cases found with
    | error e => exact Yields.throws
    | ok ids =>
      dsimp only
      split
      · exact Yields.throws
      · refine Yields.ret ⟨⟨browser, ids, rfl, rfl, ?_⟩, hkeeps⟩
        exact List.mem_cons_of_mem _ List.mem_cons_self

theorem activePage_directed {targetName : Str} :
    Directed (await (activePage setup targetName)) (fun page h' => LookedUp h' page) h := by
  refine await_directed (Yields.bind (directed_of_asks targetByName_asks) fun target h₁ _ _ =>
    Yields.bind pages_directed fun found h₂ _ hlisted => ?_)
  obtain ⟨⟨browser, ids, hfound, hcaptured, -⟩, -⟩ := hlisted
  refine Yields.ask ⟨browser, ids, hcaptured, hfound⟩ fun page => ?_
  cases page with
  | none => exact Yields.throws
  | some page => exact Yields.ret ⟨_, _, List.mem_cons_of_mem _ List.mem_cons_self⟩

theorem attempt_directed {operation : PageOperation} {page : Page}
    (hpage : operation ≠ .title → LookedUp h page) :
    Directed (attempt operation page) (fun _ _ => True) h :=
  Yields.ask hpage fun _ => Yields.ask trivial fun _ => Yields.ret trivial

theorem title_directed {page : Page} : Directed (attempt .title page) (fun _ _ => True) h :=
  attempt_directed fun hne => absurd rfl hne

theorem perform_directed {operation : PageOperation} {page : Page} (hpage : LookedUp h page) :
    Directed (perform operation page) (fun _ _ => True) h := by
  refine Yields.ask (fun _ => hpage) fun _ => Yields.ask trivial fun outcome => ?_
  cases outcome with
  | ok => exact Yields.ret trivial
  | error e => exact Yields.throws

-- -----
-- Actions
-- -----

/-- Once the page was looked up. -/
def OnPage (page : Page) (x : Action α) : Prop :=
  ∀ h, LookedUp h page → Directed x (fun _ _ => True) h

/-- Nothing is asked of what was before, or of the result. -/
def Anywhere (x : Action α) : Prop := ∀ h, Directed x (fun _ _ => True) h

namespace OnPage

variable {page : Page}

theorem bind {f : α → Action β} (hx : OnPage page x) (hf : ∀ a, OnPage page (f a)) :
    OnPage page (x >>= f) := fun h hpage =>
  Yields.bind (hx h hpage) fun a h' hle _ => hf a h' (hpage.later hle)

theorem ask {o : Op} {f : Res o → Action β} (ho : ∀ h, LookedUp h page → directed h o)
    (hf : ∀ r, OnPage page (f r)) : OnPage page (ask o >>= f) := fun h hpage =>
  Yields.ask (ho h hpage) fun r => hf r _ (hpage.later (List.suffix_cons ..))

theorem anywhere (hx : Anywhere x) : OnPage page x := fun h _ => hx h

theorem asks (hx : Asks (fun _ => False) x) : OnPage page x := fun _ _ =>
  (directed_of_asks hx).mono fun _ _ _ _ => trivial

theorem ret {a : α} : OnPage page (pure a : Action α) := fun _ _ => Yields.ret trivial

theorem throws {e : BrowserError} : OnPage page (throw e : Action α) := fun _ _ => Yields.throws

theorem await (hx : OnPage page x) : OnPage page (await x) := fun h hpage =>
  await_directed (P := fun _ _ => True) (hx h hpage)

theorem attempt {operation : PageOperation} : OnPage page (attempt operation page) :=
  fun _ hpage => attempt_directed fun _ => hpage

theorem perform {operation : PageOperation} : OnPage page (perform operation page) :=
  fun _ hpage => perform_directed hpage

/-- What is done to a page, with its title asked for in the end. -/
theorem performed {operation : PageOperation} :
    OnPage page (do Playwright.perform operation page; Playwright.attempt .title page) :=
  perform.bind fun _ => attempt

end OnPage

namespace Anywhere

theorem bind {f : α → Action β} (hx : Anywhere x) (hf : ∀ a, Anywhere (f a)) :
    Anywhere (x >>= f) := fun h => Yields.bind (hx h) fun a h' _ _ => hf a h'

theorem await (hx : Anywhere x) : Anywhere (await x) := fun h =>
  await_directed (P := fun _ _ => True) (hx h)

theorem asks (hx : Asks (fun _ => False) x) : Anywhere x := fun _ =>
  (directed_of_asks hx).mono fun _ _ _ _ => trivial

theorem connects (hx : Connects x) : Anywhere x := fun _ => hx.directed.mono fun _ _ _ _ => trivial

theorem assertCanMutate {action : Str} : Anywhere (assertCanMutate action) := by
  intro h
  refine Yields.ask trivial fun state => ?_
  split
  · exact Yields.throws
  · exact Yields.ret trivial

/-- An action that looks up its page, and what it does there. -/
theorem withPage {targetName : Str} {f : Page → Action β} (hf : ∀ page, OnPage page (f page)) :
    Anywhere (Playwright.await (activePage setup targetName) >>= f) := fun _ =>
  Yields.bind activePage_directed fun page h' _ hpage => hf page h' hpage

theorem mutatePage {name targetName : Str} {operation : PageOperation} :
    Anywhere (mutatePage setup name targetName operation) :=
  assertCanMutate.bind fun _ => withPage fun _ => OnPage.performed

theorem click {targetName : Str} {params : LocatorParams} :
    Anywhere (click setup targetName params) :=
  assertCanMutate.bind fun _ => withPage fun _ => (OnPage.asks located_asks).bind fun _ =>
    OnPage.performed

theorem type {targetName value : Str} {params : LocatorParams} {mode : TypeMode} :
    Anywhere (type setup targetName params value mode) := by
  refine assertCanMutate.bind fun _ => withPage fun page => ?_
  split
  · cases mode with
    | fill => exact OnPage.throws
    | type => exact OnPage.performed
  · exact (OnPage.asks located_asks).bind fun _ => OnPage.performed

theorem wait {targetName : Str} {args : BrowserArgs} : Anywhere (wait setup targetName args) :=
  withPage fun _ => (OnPage.asks waitOperation_asks).bind fun _ => OnPage.performed

theorem artifactPath : Anywhere artifactPath := by
  intro h
  refine Yields.ask trivial fun made => ?_
  cases made with
  | ok => exact Yields.ret trivial
  | error e => exact Yields.throws

theorem snapshot {targetName : Str} : Anywhere (snapshot setup targetName) := by
  refine withPage fun page => OnPage.attempt.bind fun _ => OnPage.bind ?_ fun _ => OnPage.attempt
  unfold whenTrue
  split
  · exact OnPage.attempt
  · exact OnPage.ret

theorem screenshot {targetName : Str} {fullPage : Bool} :
    Anywhere (screenshot setup targetName fullPage) :=
  withPage fun _ => OnPage.attempt.bind fun _ => (OnPage.anywhere artifactPath.await).bind fun _ =>
    OnPage.perform

theorem download {targetName : Str} {args : BrowserArgs} :
    Anywhere (download setup targetName args) := by
  refine withPage fun page => (OnPage.asks downloadTrigger_asks).bind fun trigger =>
    OnPage.bind ?_ fun _ => OnPage.ask (fun _ hpage _ => hpage) fun _ => OnPage.bind ?_ fun _ =>
      OnPage.ask (fun _ _ => trivial) fun _ => (OnPage.asks failOf_asks).bind fun _ =>
        OnPage.ask (fun _ _ => trivial) fun _ => (OnPage.asks failOf_asks).bind fun failure => ?_
  · unfold whenTrue
    split
    · exact OnPage.anywhere assertCanMutate
    · exact OnPage.ret
  · cases trigger with
    | none => exact OnPage.ret.await
    | some operation => exact OnPage.perform
  · split
    · exact OnPage.throws
    · exact (OnPage.anywhere artifactPath.await).bind fun _ => OnPage.ask (fun _ _ => trivial)
        fun _ => (OnPage.asks failOf_asks).bind fun _ => OnPage.attempt

theorem currentPageSummary {targetName : Str} : Anywhere (currentPageSummary setup targetName) := by
  refine (asks targetByName_asks).bind fun target => (connects Connects.ensureConnected.await).bind
    fun _ h => Yields.bind pages_directed fun pages h' _ hlisted => ?_
  obtain ⟨browser, ids, hpages, hcaptured, -⟩ := hlisted.list
  have hlength : pages.length = ids.length := by rw [hpages, List.length_map]
  split
  · exact Yields.ret trivial
  · refine Yields.ask ⟨browser, ids, hcaptured, hlength⟩ fun index =>
      Yields.ask ⟨browser, ids, hcaptured, hlength⟩ fun _ =>
        Yields.ask ⟨browser, ids, hcaptured, hlength⟩ fun _ => ?_
    split
    · exact title_directed
    · exact Yields.ret trivial

end Anywhere

/-- Each summary is of a page of one list, at its index. -/
structure Summarized (h h' : History Op Res) (summaries : List PageSummary) : Prop where
  list : ∃ browser ids, ⟨.pages browser, .ok ids⟩ ∈ h' ∧ ∀ summary ∈ summaries,
    summary.page.browser = browser ∧ ids[summary.index]? = some summary.page.id
  keeps : Keeps h h'

theorem mem_summarize {pages : List Page} {active : Nat} {described : List (Str × Str)}
    {summary : PageSummary} (hmem : summary ∈ summarize pages active described) :
    pages[summary.index]? = some summary.page := by
  obtain ⟨index, hlt, rfl⟩ := List.mem_mapIdx.mp hmem
  exact List.getElem?_eq_getElem hlt

theorem listPages_directed {rounds : Nat} {targetName : Str} :
    Directed (await (listPages setup rounds targetName)) (fun summaries h' => Summarized h h' summaries) h := by
  refine await_directed (Yields.bind Connects.cleanupStaleConnections.await.directed
    fun _ h₁ _ hcleaned => Yields.bind (directed_of_asks targetByName_asks) fun target h₂ _ hsame =>
      Yields.bind Connects.ensureConnected.await.directed fun _ h₃ _ hconnected =>
        Yields.bind pages_directed fun pages h₄ _ hlisted => ?_)
  subst hsame
  obtain ⟨browser, ids, hpages, hcaptured, hmem⟩ := hlisted.list
  have hlength : pages.length = ids.length := by rw [hpages, List.length_map]
  refine Yields.ask ⟨browser, ids, hcaptured, hlength⟩ fun active => Yields.ask trivial
    fun described => Yields.ret ⟨⟨browser, ids, ?_, fun summary hsummary => ?_⟩, ?_⟩
  · exact List.mem_cons_of_mem _ (List.mem_cons_of_mem _ (List.mem_cons_of_mem _ hmem))
  · have hpage := mem_summarize hsummary
    rw [hpages, List.getElem?_map] at hpage
    obtain ⟨id, hid, hsame⟩ := Option.map_eq_some_iff.mp hpage
    rw [← hsame]
    exact ⟨rfl, hid⟩
  · exact fun hselecting => hlisted.keeps (hconnected (hcleaned hselecting))

theorem selectPageSummary_mem {pages : List PageSummary} {selection : PageSelectionParams}
    {targetName : Str} {page : PageSummary}
    (hfound : selectPageSummary setup pages selection targetName = .ok page) : page ∈ pages := by
  unfold selectPageSummary at hfound
  split at hfound
  · dsimp only at hfound
    split at hfound
    · split at hfound
      case h_1 hget =>
        cases hfound
        exact List.mem_of_getElem? hget
      case h_2 => cases hfound
    · cases hfound
  · split at hfound
    · cases hfound
    · split at hfound
      case h_1 => cases hfound
      case h_2 hone =>
        cases hfound
        exact List.mem_of_mem_filter (hone ▸ List.mem_singleton_self _)
      case h_3 => cases hfound

theorem selectPage_directed {rounds : Nat} {targetName : Str} {selection : PageSelectionParams}
    (hselecting : selecting h = true) :
    Directed (await (selectPage setup rounds targetName selection)) (fun _ _ => True) h := by
  refine await_directed (P := fun _ _ => True) (Yields.bind listPages_directed
    fun pages h₁ _ hsummarized => ?_)
  split
  · exact Yields.throws
  case h_2 found hfound =>
    obtain ⟨browser, ids, hmem, hall⟩ := hsummarized.list
    obtain ⟨rfl, hid⟩ := hall found (selectPageSummary_mem hfound)
    refine Yields.ask ⟨.inl ⟨ids, hmem, List.mem_of_getElem? hid⟩,
      .inl ⟨hsummarized.keeps hselecting, ids, hmem, hid⟩⟩ fun _ => ?_
    exact Yields.bind listPages_directed fun _ _ _ _ => Yields.ret trivial

theorem status_anywhere {rounds : Nat} {targetName : Str} :
    Anywhere (status setup rounds targetName) := by
  refine (Anywhere.connects Connects.cleanupStaleConnections.await).bind fun _ =>
    (Anywhere.asks targetByName_asks).bind fun target =>
      (Anywhere.connects (Connects.await (Asks.tryCatch
        (Asks.bind Connects.ensureConnected.await fun _ => Asks.ret) fun _ => Asks.ret))).bind
          fun connected h => ?_
  split
  · exact Yields.bind listPages_directed fun _ _ _ _ => Yields.ret trivial
  · exact Yields.ret trivial

theorem idxOf_mem {pages : List Page} {page : Page} {n : Nat} (hmem : page ∈ pages) :
    pages[(pages.idxOf? page).getD n]? = some page := by
  obtain ⟨index, hindex⟩ := Option.isSome_iff_exists.mp (List.isSome_idxOf?.mpr hmem)
  obtain ⟨hlt, hfound, -⟩ := List.findIdx?_eq_some_iff_getElem.mp hindex
  rw [hindex, Option.getD_some, List.getElem?_eq_getElem hlt, eq_of_beq hfound]

theorem newPage_anywhere {targetName : Str} : Anywhere (newPage setup targetName) := by
  refine Anywhere.assertCanMutate.bind fun _ => (Anywhere.asks targetByName_asks).bind fun target =>
    (Anywhere.connects Connects.ensureConnected.await).bind fun _ _ => Yields.ask trivial
      fun cached => ?_
  cases cached with
  | none => exact Yields.throws
  | some browser =>
    refine Yields.ask trivial fun context => ?_
    cases context with
    | error e => exact Yields.throws
    | ok found =>
      cases found with
      | false => exact Yields.throws
      | true =>
        refine Yields.ask trivial fun _ => Yields.ask trivial fun opened => ?_
        cases opened with
        | error e => exact Yields.throws
        | ok id =>
          refine Yields.bind pages_directed fun pages h' hle hlisted => ?_
          obtain ⟨browser', ids, hpages, hcaptured, -⟩ := hlisted.list
          have hlength : pages.length = ids.length := by rw [hpages, List.length_map]
          refine Yields.ask ⟨.inr (hle.subset List.mem_cons_self), .inr ⟨browser', ids, hcaptured, ?_⟩⟩
            fun _ => Yields.ask ⟨browser', ids, hcaptured, hlength⟩ fun _ => title_directed
          rintro rfl hid
          have hpage : (⟨browser', id⟩ : Page) ∈ pages := hpages ▸ List.mem_map_of_mem hid
          have hget := idxOf_mem (n := pages.length - 1) hpage
          rw [hpages, List.getElem?_map] at hget
          obtain ⟨id', hid', hsame⟩ := Option.map_eq_some_iff.mp hget
          cases hsame
          rw [hpages]
          exact hid'

theorem actionHandler_directed {rounds : Nat} {request : Request}
    (hselecting : selecting h = request.selects) :
    Directed (actionHandler setup rounds request) (fun _ _ => True) h := by
  have hrequire : ∀ {name : Str} {f : Str → Action Unit}, (∀ target, Anywhere (f target)) →
      Directed (requireTarget name request.target >>= f) (fun _ _ => True) h :=
    fun hf => (Anywhere.asks requireTarget_asks).bind hf h
  unfold actionHandler
  dsimp only
  cases haction : request.action with
  | back => exact hrequire fun _ => Anywhere.mutatePage.await
  | click => exact hrequire fun _ => Anywhere.click.await
  | download => exact hrequire fun _ => Anywhere.download.await
  | forward => exact hrequire fun _ => Anywhere.mutatePage.await
  | navigate =>
    dsimp only
    split
    · exact Yields.throws
    · exact hrequire fun _ => Anywhere.mutatePage.await
  | newPage => exact hrequire fun _ => newPage_anywhere.await
  | pages =>
    refine Yields.bind (directed_of_asks requireTarget_asks) fun targetName h' _ hsame => ?_
    subst hsame
    split
    case isTrue hselects =>
      refine Yields.bind (P := fun _ _ => True) (selectPage_directed ?_) fun _ _ _ _ =>
        Yields.ret trivial
      rw [hselecting, Request.selects, haction, hselects]
      rfl
    case isFalse => exact Yields.bind listPages_directed fun _ _ _ _ => Yields.ret trivial
  | reload => exact hrequire fun _ => Anywhere.mutatePage.await
  | screenshot => exact hrequire fun _ => Anywhere.screenshot.await
  | snapshot => exact hrequire fun _ => Anywhere.snapshot.await
  | status => exact hrequire fun _ => status_anywhere.await
  | type =>
    dsimp only
    split
    · exact Yields.throws
    · exact hrequire fun _ => Anywhere.type.await
  | wait => exact hrequire fun _ => Anywhere.wait.await

theorem execute_directed {rounds : Nat} {request : Request} :
    Guarded directed (execute setup rounds request) (fun _ _ => True) [] := by
  refine Guarded.ask rfl fun _ => ?_
  have hexecute : Directed (executeBrowserAction setup rounds request) (fun _ _ => True)
      [⟨.called request, ()⟩] :=
    Yields.tryCatch (actionHandler_directed rfl) fun error h' _ => Yields.ask trivial fun dropped =>
      Yields.bind (Connects.closing.await.directed) fun _ _ _ _ => Yields.throws
  refine Guarded.seq (await_directed (P := fun _ _ => True) hexecute) fun _ h' _ _ => ?_
  split
  · exact Guarded.seq (Anywhere.currentPageSummary h') fun _ _ _ _ => trivial
  · trivial

theorem disconnecting_directed {dropped : Option BrowserId} :
    Guarded directed (disconnecting dropped) (fun _ _ => True) h :=
  Guarded.seq Connects.closing.directed fun _ _ _ _ => trivial

end PiEnv.Playwright
