import PiEnv.Playwright.Client

/-!
# Browser actions

The methods of the client as programs, and what runs one for a tool call. Only
what decides which operations are issued is returned; the texts for the reader
are left out. A run is finite, so some number of rounds is enough for each loop
over the connections in it.
-/

namespace PiEnv.Playwright

open Js
open Effects

abbrev Action := ExceptT BrowserError (Prog Op Res)

def ask (o : Op) : Action (Res o) := liftM (call o : Prog Op Res (Res o))

def fail {α : Type} (message : Str) : Action α := throw ⟨message, none⟩

def whenTrue (condition : Bool) (x : Action Unit) : Action Unit :=
  if condition = true then x else return ()

/-- `await` of a function that is called: who awaits goes on in a later turn. -/
def await {α : Type} (x : Action α) : Action α :=
  ExceptT.mk do
    let result ← x.run
    let _ ← (call Op.tick : Prog Op Res Unit)
    return result

-- -----
-- Locators
-- -----

def hasLocatorParams (params : LocatorParams) : Bool :=
  (given params.role).isSome || (given params.text).isSome || (given params.label).isSome ||
    (given params.placeholder).isSome || (given params.testId).isSome || (given params.selector).isSome

variable (setup : Setup)

/-- A method that is not on every page. -/
def locateBy (method label : Str) : Except Str Str :=
  if setup.supports method then .ok label
  else .error (lit "Current Playwright page object does not support " ++ method)

def locate (params : LocatorParams) : Except Str Str :=
  match given params.role, given params.label, given params.placeholder, given params.text,
    given params.testId, given params.selector with
  | some role, _, _, _, _, _ =>
    locateBy setup (lit "getByRole") (lit "role=" ++ role ++
      (match given params.name with | some name => lit " name=" ++ name | none => []))
  | _, some label, _, _, _, _ => locateBy setup (lit "getByLabel") (lit "label=" ++ label)
  | _, _, some placeholder, _, _, _ =>
    locateBy setup (lit "getByPlaceholder") (lit "placeholder=" ++ placeholder)
  | _, _, _, some text, _, _ => locateBy setup (lit "getByText") (lit "text=" ++ text)
  | _, _, _, _, some testId, _ => locateBy setup (lit "getByTestId") (lit "testId=" ++ testId)
  | _, _, _, _, _, some selector => .ok (lit "selector=" ++ selector)
  | _, _, _, _, _, _ => .error
    (lit "A locator is required: role/name, text, label, placeholder, testId, or selector")

def located (params : LocatorParams) : Action Str :=
  match locate setup params with
  | .ok locator => return locator
  | .error message => fail message

-- -----
-- Connections
-- -----

def CONNECTION_MAX_IDLE_MS : Nat := 10 * 60 * 1000

/-- What is left of `evictConnection`. -/
def closing (dropped : Option BrowserId) : Action Unit :=
  match dropped with
  | some browser => do
    let _ ← ask (.close browser)
    return ()
  | none => return ()

def evictConnection (target : Str) (reason : Stale) : Action Unit := do
  let dropped ← ask (.evict target reason)
  closing dropped

def connect (target : BrowserTarget) : Action Unit := do
  let loaded ← ask .load
  match loaded with
  | .error e => fail (lit "Playwright is not installed for playwright-client extension: " ++ e)
  | .ok _ =>
    let connected ← ask (.connectOverCDP target)
    match connected with
    | .error e => fail (lit "Unable to connect to Chrome CDP target " ++ target.name ++ lit " at " ++
        target.cdpUrl ++ lit ". Start Chrome with --remote-debugging-port and profile " ++
        setup.profilePath ++ lit ". " ++ e)
    | .ok _ => return ()

def ensureConnected (target : BrowserTarget) : Action Unit := do
  let existing ← ask (.connection target.name)
  match existing with
  | some browser =>
    let healthy ← ask (.isConnectionHealthy browser)
    if healthy = true then ask (.touch target.name)
    else do
      await (evictConnection target.name .unhealthy)
      connect setup target
  | none => connect setup target

def evictStale (now : Nat) (target : Str) (connection : BrowserConnection) : Action Unit := do
  let healthy ← ask (.isConnectionHealthy connection.browser)
  if healthy = false then await (evictConnection target .unhealthy)
  else
    whenTrue (now - connection.lastUsedAt > CONNECTION_MAX_IDLE_MS)
      (await (evictConnection target .idle))

def visit (now : Nat) : Nat → Option Nat → Action Unit
  | 0, _ => ask .never
  | rounds + 1, after => do
    let next ← ask (.nextConnection after)
    match next with
    | none => return ()
    | some (target, connection) =>
      evictStale now target connection
      visit now rounds (some connection.place)

def cleanupStaleConnections (rounds : Nat) : Action Unit := do
  let now ← ask .now
  visit now rounds none

def targetByName (name : Str) : Action BrowserTarget :=
  match setup.targets.find? (·.name = name) with
  | some target => return target
  | none => fail (lit "No browser target named " ++ name ++ lit ". Available targets: " ++
      join (lit ", ") (setup.targets.map (·.name)))

def pages (target : BrowserTarget) (allowEmpty : Bool) : Action (List Page) := do
  await (ensureConnected setup target)
  let cached ← ask (.connection target.name)
  match cached with
  | none => fail (lit "Not connected to browser target " ++ target.name)
  | some browser =>
    let found ← ask (.pages browser)
    match found with
    | .error e => throw ⟨e, some browser⟩
    | .ok ids =>
      if allowEmpty = false ∧ ids = [] then
        fail (lit "Connected to Chrome target " ++ target.name ++ lit ", but no pages are open")
      else return ids.map (⟨browser, ·⟩)

def activePage (targetName : Str) : Action Page := do
  let target ← targetByName setup targetName
  let pages ← await (pages setup target false)
  let found ← ask (.activePage target.name pages)
  match found with
  | some page => return page
  | none => fail (lit "Cannot read properties of undefined")

def assertCanMutate (action : Str) : Action Unit := do
  let state ← ask .controlState
  if state = .human then
    fail (lit "browser_" ++ action ++ lit " refused because browser control state is human; use " ++
      lit "/browser-resume or browser_control first")
  else return ()

-- -----
-- Pages
-- -----

structure PageSummary where
  page : Page
  index : Nat
  title : Str
  url : Str
  active : Bool
  deriving DecidableEq, Repr

def summarize (pages : List Page) (active : Nat) (described : List (Str × Str)) : List PageSummary :=
  pages.mapIdx fun index page =>
    let text := (described[index]?).getD ([], [])
    ⟨page, index, text.1, text.2, index = active⟩

def listPages (rounds : Nat) (targetName : Str) : Action (List PageSummary) := do
  await (cleanupStaleConnections rounds)
  let target ← targetByName setup targetName
  await (ensureConnected setup target)
  let pages ← await (pages setup target false)
  let active ← ask (.activePageIndex target.name pages.length)
  let described ← ask (.describe pages)
  return summarize pages active described

structure PageSelectionParams where
  pageId : Option Str
  title : Option Str
  url : Option Str
  deriving DecidableEq, Repr

def formatPageSelection (selection : PageSelectionParams) : Str :=
  join [space] ((
    [(lit "pageId=", selection.pageId), (lit "title~=", selection.title),
      (lit "url~=", selection.url)].filterMap fun field => (given field.2).map (field.1 ++ ·)))

def matchesSelection (selection : PageSelectionParams) (page : PageSummary) : Bool :=
  let within (needle : Option Str) (text : Str) : Bool :=
    (given needle).all fun needle => includes (setup.toLowerCase text) (setup.toLowerCase needle)
  within selection.title page.title && within selection.url page.url

def selectPageSummary (pages : List PageSummary) (selection : PageSelectionParams)
    (targetName : Str) : Except Str PageSummary :=
  match given selection.pageId with
  | some pageId =>
    let missing := lit "No browser page with id " ++ pageId ++ lit " for target " ++ targetName ++
      lit ". Use action=pages to list current pages."
    match setup.number pageId with
    | some (.ofNat index) =>
      match pages[index]? with
      | some page => .ok page
      | none => .error missing
    | _ => .error missing
  | none =>
    if given selection.title = none ∧ given selection.url = none then
      .error (lit "Page selection requires pageId, title, or url")
    else
      match pages.filter (matchesSelection setup selection) with
      | [] => .error (lit "No browser page matched " ++ formatPageSelection selection ++
          lit " for target " ++ targetName ++ lit ". Use action=pages to list current pages.")
      | [page] => .ok page
      | several => .error (lit "Multiple browser pages matched " ++ formatPageSelection selection ++
          lit " for target " ++ targetName ++ lit ": " ++
          join (lit ", ") (several.map fun page => decimal page.index ++ [space] ++
            (if page.title = [] then lit "(untitled)" else page.title)) ++
          lit ". Select by pageId.")

def selectPage (rounds : Nat) (targetName : Str) (selection : PageSelectionParams) :
    Action (Option PageSummary) := do
  let pages ← await (listPages setup rounds targetName)
  match selectPageSummary setup pages selection targetName with
  | .error message => fail message
  | .ok found =>
    let _ ← ask (.select targetName found.index found.page)
    let again ← await (listPages setup rounds targetName)
    return again[found.index]?

/-- One call of a method of the page, awaited. -/
def perform (operation : PageOperation) (page : Page) : Action Unit := do
  let _ ← ask (.issue (.page operation page))
  let outcome ← ask (.reply operation page)
  match outcome with
  | .ok _ => return ()
  | .error e => throw ⟨e, some page.browser⟩

/-- A call whose failure is ignored. -/
def attempt (operation : PageOperation) (page : Page) : Action Unit := do
  let _ ← ask (.issue (.page operation page))
  let _ ← ask (.reply operation page)
  return ()

def currentPageSummary (targetName : Str) : Action Unit := do
  let target ← targetByName setup targetName
  await (ensureConnected setup target)
  let pages ← await (pages setup target true)
  if pages = [] then return ()
  else
    let index ← ask (.activePageIndex target.name pages.length)
    let _ ← ask (.activePageIndex target.name pages.length)
    let _ ← ask (.activePageIndex target.name pages.length)
    match pages[index]? with
    | some page => attempt .title page
    | none => return ()

def status (rounds : Nat) (targetName : Str) : Action Unit := do
  await (cleanupStaleConnections rounds)
  let target ← targetByName setup targetName
  let connected ← await (tryCatch (do await (ensureConnected setup target); return true)
    fun _ => return false)
  if connected = true then do
    let _ ← await (listPages setup rounds target.name)
    return ()
  else return ()

def failOf {α : Type} (page : Page) (outcome : Except Str α) : Action α :=
  match outcome with
  | .ok a => return a
  | .error e => throw ⟨e, some page.browser⟩

def artifactPath : Action Unit := do
  let made ← ask .artifact
  match made with
  | .ok _ => return ()
  | .error e => fail e

def snapshot (targetName : Str) : Action Unit := do
  let page ← await (activePage setup targetName)
  attempt .title page
  whenTrue (setup.supports (lit "ariaSnapshot")) (attempt .ariaSnapshot page)
  attempt .innerText page

def screenshot (targetName : Str) (fullPage : Bool) : Action Unit := do
  let page ← await (activePage setup targetName)
  attempt .title page
  await artifactPath
  perform (.screenshot fullPage) page

def newPage (targetName : Str) : Action Unit := do
  assertCanMutate (lit "newPage")
  let target ← targetByName setup targetName
  await (ensureConnected setup target)
  let cached ← ask (.connection target.name)
  match cached with
  | none => noContext target
  | some browser =>
    let context ← ask (.firstContext browser)
    match context with
    | .error e => throw ⟨e, some browser⟩
    | .ok false => noContext target
    | .ok true =>
      let _ ← ask (.issue (.newPage browser))
      let opened ← ask (.newPage browser)
      match opened with
      | .error e => throw ⟨e, some browser⟩
      | .ok id =>
        let page : Page := ⟨browser, id⟩
        let pages ← await (pages setup target true)
        let index := (pages.idxOf? page).getD (pages.length - 1)
        let _ ← ask (.select target.name index page)
        let _ ← ask (.activePageIndex target.name pages.length)
        attempt .title page
where
  noContext (target : BrowserTarget) : Action Unit :=
    fail (lit "Connected to Chrome target " ++ target.name ++
      lit ", but no browser context is available")

/-- `navigate`, `back`, `forward` and `reload`. -/
def mutatePage (name : Str) (targetName : Str) (operation : PageOperation) : Action Unit := do
  assertCanMutate name
  let page ← await (activePage setup targetName)
  perform operation page
  attempt .title page

def navigate (targetName url : Str) : Action Unit :=
  mutatePage setup (lit "navigate") targetName (.goto url)

def back (targetName : Str) : Action Unit := mutatePage setup (lit "back") targetName .goBack

def forward (targetName : Str) : Action Unit :=
  mutatePage setup (lit "forward") targetName .goForward

def reload (targetName : Str) : Action Unit := mutatePage setup (lit "reload") targetName .reload

/-- What `wait` waits for. -/
def waitOperation (args : BrowserArgs) : Action PageOperation :=
  match given args.url with
  | some url => return .waitForURL url
  | none =>
    if hasLocatorParams args.toLocatorParams = true then do
      let locator ← located setup args.toLocatorParams
      return .waitFor locator (args.locatorState.getD (lit "visible"))
    else return .waitForLoadState (args.loadState.getD (lit "load"))

def wait (targetName : Str) (args : BrowserArgs) : Action Unit := do
  let page ← await (activePage setup targetName)
  let operation ← waitOperation setup args
  perform operation page
  attempt .title page

def click (targetName : Str) (params : LocatorParams) : Action Unit := do
  assertCanMutate (lit "click")
  let page ← await (activePage setup targetName)
  let locator ← located setup params
  perform (.click locator) page
  attempt .title page

/-- What sets off the download; none where it is only waited for. -/
def downloadTrigger (args : BrowserArgs) : Action (Option PageOperation) :=
  if hasLocatorParams args.toLocatorParams = true then do
    let locator ← located setup args.toLocatorParams
    return some (.click locator)
  else return (given args.url).map .goto

/-- `trigger.run()` -/
def runTrigger (trigger : Option PageOperation) (page : Page) : Action Unit :=
  match trigger with
  | some operation => perform operation page
  | none => await (return ())

def download (targetName : Str) (args : BrowserArgs) : Action Unit := do
  let page ← await (activePage setup targetName)
  let trigger ← downloadTrigger setup args
  whenTrue trigger.isSome (assertCanMutate (lit "download"))
  let _ ← ask (.issue (.page .waitForDownload page))
  runTrigger trigger page
  let downloaded ← ask (.reply .waitForDownload page)
  failOf page downloaded
  let failed ← ask (.failure page)
  let failure ← failOf page failed
  match given failure with
  | some failure => fail (lit "Browser download failed: " ++ failure)
  | none =>
    await artifactPath
    let saved ← ask (.saveAs page)
    failOf page saved
    attempt .title page

def type (targetName : Str) (params : LocatorParams) (value : Str) (mode : TypeMode) : Action Unit := do
  assertCanMutate (lit "type")
  let page ← await (activePage setup targetName)
  if hasLocatorParams params = false then
    match mode with
    | .fill => fail (lit "browser_type mode=fill requires a locator")
    | .type =>
      perform (.keyboardType value) page
      attempt .title page
  else
    let locator ← located setup params
    let operation : PageOperation := match mode with
      | .fill => .fill locator value
      | .type => .type locator value
    perform operation page
    attempt .title page

-- -----
-- Tool calls
-- -----

def requireTarget (name : Str) (target : Option Str) : Action Str :=
  match given target with
  | some target => return target
  | none => fail (lit "browser action=" ++ name ++
      lit " requires target. Use action=targets to list configured targets.")

def actionHandler (rounds : Nat) (request : Request) : Action Unit := do
  let args := request.args
  match request.action with
  | .back => await (back setup (← requireTarget (lit "back") request.target))
  | .click => await (click setup (← requireTarget (lit "click") request.target) args.toLocatorParams)
  | .download => await (download setup (← requireTarget (lit "download") request.target) args)
  | .forward => await (forward setup (← requireTarget (lit "forward") request.target))
  | .navigate =>
    match given args.url with
    | none => fail (lit "browser action=navigate requires args.url")
    | some url => await (navigate setup (← requireTarget (lit "navigate") request.target) url)
  | .newPage => await (newPage setup (← requireTarget (lit "newPage") request.target))
  | .pages =>
    let targetName ← requireTarget (lit "pages") request.target
    if args.selects = true then
      let _ ← await (selectPage setup rounds targetName ⟨args.pageId, args.pageTitle, args.pageUrl⟩)
    else
      let _ ← await (listPages setup rounds targetName)
  | .reload => await (reload setup (← requireTarget (lit "reload") request.target))
  | .screenshot =>
    await (screenshot setup (← requireTarget (lit "screenshot") request.target) args.fullPage)
  | .snapshot => await (snapshot setup (← requireTarget (lit "snapshot") request.target))
  | .status => await (status setup rounds (← requireTarget (lit "status") request.target))
  | .type =>
    match args.value with
    | none => fail (lit "browser action=type requires args.value")
    | some value =>
      let mode := args.mode.getD
        (if hasLocatorParams args.toLocatorParams then .fill else .type)
      await (type setup (← requireTarget (lit "type") request.target) args.toLocatorParams value mode)
  | .wait => await (wait setup (← requireTarget (lit "wait") request.target) args)

def executeBrowserAction (rounds : Nat) (request : Request) : Action Unit :=
  tryCatch (actionHandler setup rounds request) fun error => do
    let dropped ← ask (.caught request.target error)
    await (closing dropped)
    throw error

/-- `execute` of the tool: whatever becomes of the action, the page is looked at for the history. -/
def execute (rounds : Nat) (request : Request) : Prog Op Res Unit := do
  let _ ← (call (Op.called request) : Prog Op Res Unit)
  let _ ← (await (executeBrowserAction setup rounds request)).run
  match given request.target with
  | some target =>
    let _ ← (currentPageSummary setup target).run
    return ()
  | none => return ()

/-- What is left to do when a browser has reported that it was disconnected. -/
def disconnecting (dropped : Option BrowserId) : Prog Op Res Unit := do
  let _ ← (closing dropped).run
  return ()

-- -----
-- What happens
-- -----

inductive Event where
  | passes (time : Nat)
  /-- With so many rounds for each loop over the connections. -/
  | execute (request : Request) (rounds : Nat)
  | resume (fiber : Nat) (reply : (o : Op) → Res o)
  | setControlState (state : ControlState)
  /-- A browser opens and closes pages, and answers differently. -/
  | changes (browser : BrowserId) (isConnected : Option Bool) (contexts : List (List PageId))
    (failing : Option Str)
  | loses (browser : BrowserId)
  | disconnected (browser : BrowserId)

abbrev World := Fibers Op Res State

def Op.isMicrotask : Op → Bool
  | .tick | .caught .. => true
  | _ => false

/-- Nothing is left to do before the next event of the outside. -/
def drained (w : World) : Bool :=
  w.fibers.all fun fiber => (Fibers.awaited fiber).all (!·.isMicrotask)

/-- An attempt to connect ends with an event of the outside. -/
def mayResume (w : World) (fiber : Nat) : Bool :=
  match (w.fibers[fiber]?).bind Fibers.awaited with
  | some (.connectOverCDP _) => drained w
  | _ => true

/-- A page that was closed does not come back. -/
def Browser.change (b : Browser) (isConnected : Option Bool) (contexts : List (List PageId))
    (failing : Option Str) : Option Browser :=
  let b' := { b with isConnected, contexts, failing }
  if ∀ page ∈ b'.pages, page ∈ b.pages ∨ page ∉ b.known then
    some { b' with known := b.known ++ b'.pages }
  else none

theorem Browser.change_eq_some {b b' : Browser} {isConnected : Option Bool}
    {contexts : List (List PageId)} {failing : Option Str}
    (h : b.change isConnected contexts failing = some b') :
    b' = { b with isConnected, contexts, failing, known := b.known ++ b'.pages } ∧
      ∀ page ∈ b'.pages, page ∈ b.pages ∨ page ∉ b.known := by
  unfold Browser.change at h
  dsimp only at h
  split at h
  case isTrue hfresh =>
    rw [← Option.some.inj h]
    exact ⟨rfl, hfresh⟩
  case isFalse => cases h

def State.changes (s : State) (browser : BrowserId) (isConnected : Option Bool)
    (contexts : List (List PageId)) (failing : Option Str) : Option State :=
  match s.browsers[browser]? with
  | none => none
  | some b => (b.change isConnected contexts failing).map fun b' =>
    { s with browsers := s.browsers.set browser b' }

theorem State.changes_eq_some {s s' : State} {browser : BrowserId} {isConnected : Option Bool}
    {contexts : List (List PageId)} {failing : Option Str}
    (h : s.changes browser isConnected contexts failing = some s') :
    ∃ b b', s.browsers[browser]? = some b ∧ b.change isConnected contexts failing = some b' ∧
      s' = { s with browsers := s.browsers.set browser b' } := by
  unfold changes at h
  split at h
  case h_1 => cases h
  case h_2 b hb =>
    obtain ⟨b', hchange, rfl⟩ := Option.map_eq_some_iff.mp h
    exact ⟨b, b', hb, hchange, rfl⟩

def State.loses (s : State) (browser : BrowserId) : State :=
  { s with browsers := s.browsers.modify browser fun b =>
      { b with lost := true, isConnected := b.isConnected.map fun _ => false } }

def step (w : World) : Event → Option World
  | .passes time => if w.shared.time ≤ time then some { w with shared := { w.shared with time } } else none
  | .execute request rounds => some (w.start (client setup) (execute setup rounds request))
  | .resume fiber reply =>
    if mayResume w fiber then w.resume (client setup) fiber reply else none
  | .setControlState state => some { w with shared := { w.shared with controlState := state } }
  | .changes browser isConnected contexts failing =>
    if drained w then
      (w.shared.changes browser isConnected contexts failing).map fun shared => { w with shared }
    else none
  | .loses browser => some { w with shared := w.shared.loses browser }
  | .disconnected browser =>
    match w.shared.browsers[browser]? with
    | none => none
    | some b =>
      if b.closed ∨ b.lost then
        let (dropped, shared) := w.shared.evictConnection b.target (.disconnected browser)
        some (Fibers.start (client setup) ⟨shared, w.fibers⟩ (disconnecting dropped))
      else none

def start : World := ⟨initial, []⟩

-- -----
-- One target, with one page
-- -----

def localTarget : BrowserTarget := ⟨lit "local", lit "http://127.0.0.1:9222"⟩

def home : Setup where
  targets := [localTarget]
  profilePath := []
  toLowerCase s := s
  number _ := none
  supports _ := true

/-- Whatever is awaited succeeds. -/
def obliging : (o : Op) → Res o
  | .called _ => ()
  | .controlState => .agent
  | .now => 0
  | .connection _ => none
  | .isConnectionHealthy _ => true
  | .touch _ => ()
  | .nextConnection _ => none
  | .evict .. => none
  | .pages _ => .ok []
  | .firstContext _ => .ok true
  | .activePageIndex .. => 0
  | .activePage .. => none
  | .select .. => ()
  | .issue _ => ()
  | .tick => ()
  | .load => .ok ()
  | .connectOverCDP _ => .ok ⟨some true, [[0]], none⟩
  | .close _ => ()
  | .newPage _ => .ok 0
  | .reply .. => .ok ()
  | .describe _ => []
  | .artifact => .ok ()
  | .failure _ => .ok none
  | .saveAs _ => .ok ()
  | .caught .. => none
  | .never => ()

def bare : BrowserArgs :=
  ⟨⟨none, none, none, none, none, none, none⟩, none, none, none, none, none, none, false, none, none⟩

/-- A tool call for the one target. -/
def calls (action : BrowserAction) : Event := .execute ⟨action, some (lit "local"), bare⟩ 4

/-- The fibers that go on, one after the other. -/
def resumed (fibers : List Nat) : List Event := fibers.map fun fiber => .resume fiber obliging

end PiEnv.Playwright
