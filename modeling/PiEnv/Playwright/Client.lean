import PiEnv.Lib.JsMap
import PiEnv.Lib.JsString
import PiEnv.Lib.Transitions
import PiEnv.Lib.Turns

/-!
# The browser client and the browsers it connects to

The state of a client, what its operations do to it, and what happens on its
own: time passes, the human takes control, a browser opens and closes pages, is
lost, and reports that it was disconnected.
-/

namespace PiEnv.Playwright

open Js
open Effects

inductive ControlState where
  | agent | human | unlocked
  deriving DecidableEq, Repr

structure BrowserTarget where
  name : Str
  cdpUrl : Str
  deriving DecidableEq, Repr

/-- The numbers of browsers are in the order in which they were connected to. -/
abbrev BrowserId := Nat

abbrev PageId := Nat

structure Page where
  browser : BrowserId
  id : PageId
  deriving DecidableEq, Repr

/-- What a browser answers at the moment, and what was done to it. -/
structure Browser where
  target : Str
  /-- `isConnected`, where there is one. -/
  isConnected : Option Bool
  /-- The `pages()` of each of its contexts. -/
  contexts : List (List PageId)
  /-- What `contexts()` throws, where it does. -/
  failing : Option Str
  /-- Every page it ever had. -/
  known : List PageId
  /-- `close()` was called. -/
  closed : Bool
  lost : Bool

namespace Browser

def isConnectionHealthy (b : Browser) : Bool := b.isConnected ≠ some false && b.failing.isNone

/-- `contexts().flatMap((context) => context.pages())` -/
def pages (b : Browser) : List PageId := b.contexts.flatten

end Browser

structure BrowserConnection where
  browser : BrowserId
  lastUsedAt : Nat
  /-- Where the entry is among those of the map, for an iterator that stands before it. -/
  place : Nat
  deriving DecidableEq, Repr

-- -----
-- Arguments
-- -----

inductive TypeMode where
  | fill | type
  deriving DecidableEq, Repr

structure LocatorParams where
  role : Option Str
  name : Option Str
  text : Option Str
  label : Option Str
  placeholder : Option Str
  testId : Option Str
  selector : Option Str
  deriving DecidableEq, Repr

structure BrowserArgs extends LocatorParams where
  url : Option Str
  loadState : Option Str
  locatorState : Option Str
  pageId : Option Str
  pageTitle : Option Str
  pageUrl : Option Str
  fullPage : Bool
  value : Option Str
  mode : Option TypeMode
  deriving DecidableEq, Repr

inductive BrowserAction where
  | back | click | download | forward | navigate | newPage | pages | reload | screenshot | snapshot
  | status | type | wait
  deriving DecidableEq, Repr

structure Request where
  action : BrowserAction
  target : Option Str
  args : BrowserArgs
  deriving DecidableEq, Repr

/-- A text that is there and not empty. -/
def given (text : Option Str) : Option Str := text.filter (· ≠ [])

/-- Pages are selected, and not only listed. -/
def BrowserArgs.selects (args : BrowserArgs) : Bool :=
  (given args.pageId).isSome || (given args.pageTitle).isSome || (given args.pageUrl).isSome

-- -----
-- Operations
-- -----

inductive PageOperation where
  | goto (url : Str)
  | goBack | goForward | reload
  | waitForURL (url : Str)
  | waitForLoadState (state : Str)
  | waitForDownload
  | screenshot (fullPage : Bool)
  | title | ariaSnapshot | innerText
  | keyboardType (value : Str)
  | click (locator : Str)
  | fill (locator value : Str)
  | type (locator value : Str)
  | waitFor (locator state : Str)
  deriving DecidableEq, Repr

inductive Call where
  | newPage (browser : BrowserId)
  | page (operation : PageOperation) (page : Page)
  deriving DecidableEq, Repr

def PageOperation.mutates : PageOperation → Bool
  | .goto _ | .goBack | .goForward | .reload | .keyboardType _ | .click _ | .fill .. | .type .. => true
  | .waitForURL _ | .waitForLoadState _ | .waitForDownload | .screenshot _ | .title | .ariaSnapshot
  | .innerText | .waitFor .. => false

def Call.mutates : Call → Bool
  | .newPage _ => true
  | .page operation _ => operation.mutates

structure BrowserError where
  message : Str
  /-- The connection that the failed call was made on. -/
  browser : Option BrowserId
  deriving DecidableEq, Repr

inductive Stale where
  | unhealthy | idle
  deriving DecidableEq, Repr

inductive Op where
  /-- A tool call begins. -/
  | called (request : Request)
  | controlState
  | now
  | connection (target : Str)
  | isConnectionHealthy (browser : BrowserId)
  | touch (target : Str)
  /-- The next entry of an iterator over the connections. -/
  | nextConnection (after : Option Nat)
  | evict (target : Str) (reason : Stale)
  | pages (browser : BrowserId)
  /-- Whether there is a `contexts()[0]`. -/
  | firstContext (browser : BrowserId)
  | activePageIndex (target : Str) (pageCount : Nat)
  /-- `pages[this.activePageIndex(target, pages.length)]` -/
  | activePage (target : Str) (pages : List Page)
  /-- `activePageIndexes.set(target, index)`, for the page that is meant. -/
  | select (target : Str) (index : Nat) (page : Page)
  | issue (call : Call)
  -- awaited
  | tick
  | load
  | connectOverCDP (target : BrowserTarget)
  | close (browser : BrowserId)
  | newPage (browser : BrowserId)
  | reply (operation : PageOperation) (page : Page)
  | describe (pages : List Page)
  | artifact
  | failure (page : Page)
  | saveAs (page : Page)
  /-- An error is caught, and `cleanupAfterError` called with it. -/
  | caught (target : Option Str) (error : BrowserError)
  /-- Never answered. -/
  | never
  deriving DecidableEq, Repr

/-- A new connection, as far as it is not the client's. -/
structure Connected where
  isConnected : Option Bool
  contexts : List (List PageId)
  failing : Option Str

abbrev Res : Op → Type
  | .called _ => Unit
  | .controlState => ControlState
  | .now => Nat
  | .connection _ => Option BrowserId
  | .isConnectionHealthy _ => Bool
  | .touch _ => Unit
  | .nextConnection _ => Option (Str × BrowserConnection)
  | .evict .. => Option BrowserId
  | .pages _ => Except Str (List PageId)
  | .firstContext _ => Except Str Bool
  | .activePageIndex .. => Nat
  | .activePage .. => Option Page
  | .select .. => Unit
  | .issue _ => Unit
  | .tick => Unit
  | .load => Except Str Unit
  | .connectOverCDP _ => Except Str Connected
  | .close _ => Unit
  | .newPage _ => Except Str PageId
  | .reply .. => Except Str Unit
  | .describe _ => List (Str × Str)
  | .artifact => Except Str Unit
  | .failure _ => Except Str (Option Str)
  | .saveAs _ => Except Str Unit
  | .caught .. => Option BrowserId
  | .never => Unit

-- -----
-- The state
-- -----

inductive Cause where
  | stale (reason : Stale)
  | disconnected (browser : BrowserId)
  /-- A call on this connection, where there was one, failed as it does when a connection is broken. -/
  | failed (browser : Option BrowserId)
  deriving DecidableEq, Repr

/-- The connection an eviction is because of, where it is not the one it finds. -/
def Cause.browser : Cause → Option BrowserId
  | .stale _ => none
  | .disconnected browser => some browser
  | .failed browser => browser

structure Eviction where
  target : Str
  cause : Cause
  dropped : Option BrowserId
  /-- The connection was healthy when it was dropped. -/
  healthy : Bool
  deriving DecidableEq, Repr

/-- An action looks up the page to work on. -/
structure Lookup where
  target : Str
  found : Option Page
  /-- The page last selected, while it is open and its connection is the one in use. -/
  selected : Option Page
  deriving DecidableEq, Repr

structure Setup where
  targets : List BrowserTarget
  profilePath : Str
  toLowerCase : Str → Str
  /-- `Number(text)`, where it is an integer. -/
  number : Str → Option Int
  /-- Pages have this method to make a locator with. -/
  supports : Str → Bool

/-- `selected` and what follows it are only written. -/
structure State where
  time : Nat
  controlState : ControlState
  connections : JsMap Str BrowserConnection
  activePageIndexes : JsMap Str Nat
  browsers : List Browser
  selected : JsMap Str Page
  evictions : List Eviction
  lookups : List Lookup
  /-- The calls issued, and the control state when they were. -/
  issued : List (Call × ControlState)

def initial : State := ⟨0, .agent, .empty, .empty, [], .empty, [], [], []⟩

namespace State

/-- The connection cached for a target. -/
def cached (s : State) (target : Str) : Option BrowserId :=
  (s.connections.get target).map (·.browser)

def healthy (s : State) (browser : BrowserId) : Bool :=
  match s.browsers[browser]? with
  | some b => b.isConnectionHealthy
  | none => false

/-- `contexts()` -/
def contexts (s : State) (browser : BrowserId) : Except Str (List (List PageId)) :=
  match s.browsers[browser]? with
  | some b =>
    match b.failing with
    | some e => .error e
    | none => .ok b.contexts
  | none => .error []

def pages (s : State) (browser : BrowserId) : List PageId :=
  match s.browsers[browser]? with
  | some b => b.pages
  | none => []

def IsOpen (s : State) (page : Page) : Prop := page.id ∈ s.pages page.browser

instance (s : State) (page : Page) : Decidable (s.IsOpen page) :=
  inferInstanceAs (Decidable (_ ∈ _))

def selection (s : State) (target : Str) : Option Page :=
  (s.selected.get target).filter fun page =>
    s.cached target = some page.browser ∧ s.IsOpen page

/-- `evictConnection`, as far as it runs at once: it ends with the call of `close()`. -/
def evictConnection (s : State) (target : Str) (cause : Cause) : Option BrowserId × State :=
  let dropped := s.cached target
  (dropped, { s with
    connections := s.connections.delete target
    activePageIndexes := s.activePageIndexes.delete target
    browsers := match dropped with
      | some browser => s.browsers.modify browser fun b => { b with closed := true }
      | none => s.browsers
    evictions := ⟨target, cause, dropped, dropped.any s.healthy⟩ :: s.evictions })

/-- `connections.set(target, ...)`, with a new browser. A key that is there keeps its place. -/
def connect (s : State) (target : Str) (connected : Connected) : State :=
  let browser : Browser := ⟨target, connected.isConnected, connected.contexts,
    connected.failing, [], false, false⟩
  let place := ((s.connections.get target).map (·.place)).getD s.browsers.length
  { s with
    connections := s.connections.set target ⟨s.browsers.length, s.time, place⟩
    browsers := s.browsers ++ [{ browser with known := browser.pages }] }

def touch (s : State) (target : Str) : State :=
  match s.connections.get target with
  | some connection =>
    { s with connections := s.connections.set target { connection with lastUsedAt := s.time } }
  | none => s

def activePageIndex (s : State) (target : Str) (pageCount : Nat) : Nat × State :=
  let current := (s.activePageIndexes.get target).getD 0
  let next := if current ≥ pageCount then pageCount - 1 else current
  (next, { s with activePageIndexes := s.activePageIndexes.set target next })

def activePage (s : State) (target : Str) (pages : List Page) : Option Page × State :=
  let (index, s') := s.activePageIndex target pages.length
  (pages[index]?, { s' with lookups := ⟨target, pages[index]?, s.selection target⟩ :: s.lookups })

def select (s : State) (target : Str) (index : Nat) (page : Page) : State :=
  { s with
    activePageIndexes := s.activePageIndexes.set target index
    selected := s.selected.set target page }

def nextConnection (s : State) (after : Option Nat) : Option (Str × BrowserConnection) :=
  s.connections.entries.find? fun entry => after.all (· < entry.2.place)

end State

-- -----
-- What operations do
-- -----

def isConnectionBrokenError (setup : Setup) (error : BrowserError) : Bool :=
  [lit "target closed", lit "browser has been closed", lit "browser context closed",
    lit "page closed", lit "connection closed", lit "websocket", lit "econnreset",
    lit "econnrefused", lit "cdp"].any (includes (setup.toLowerCase error.message))

/-- The operations that are not awaited. -/
def answer (s : State) : (o : Op) → Option (Res o × State)
  | .called _ => some ((), s)
  | .controlState => some (s.controlState, s)
  | .now => some (s.time, s)
  | .connection target => some (s.cached target, s)
  | .isConnectionHealthy browser => some (s.healthy browser, s)
  | .touch target => some ((), s.touch target)
  | .nextConnection after => some (s.nextConnection after, s)
  | .evict target reason => some (s.evictConnection target (.stale reason))
  | .pages browser => some ((s.contexts browser).map List.flatten, s)
  | .firstContext browser => some ((s.contexts browser).map (!·.isEmpty), s)
  | .activePageIndex target pageCount => some (s.activePageIndex target pageCount)
  | .activePage target pages => some (s.activePage target pages)
  | .select target index page => some ((), s.select target index page)
  | .issue call => some ((), { s with issued := (call, s.controlState) :: s.issued })
  | _ => none

/-- The target whose connection is evicted after an error. -/
def brokenTarget (setup : Setup) (target : Option Str) (error : BrowserError) : Option Str :=
  (given target).filter fun _ => isConnectionBrokenError setup error

/-- `cleanupAfterError`, as far as it runs at once. -/
def State.cleanupAfterError (s : State) (setup : Setup) (target : Option Str) (error : BrowserError) :
    Option BrowserId × State :=
  match brokenTarget setup target error with
  | none => (none, s)
  | some target => s.evictConnection target (.failed error.browser)

/-- The operations that are awaited, when the outside answers them. -/
def deliver (setup : Setup) (s : State) : (o : Op) → Res o → Option (Res o × State)
  | .connectOverCDP _, .error e => some (.error e, s)
  | .connectOverCDP target, .ok connected => some (.ok connected, s.connect target.name connected)
  | .newPage browser, .ok page =>
    if (s.browsers[browser]?).any (page ∈ ·.known) then some (.ok page, s) else none
  | .newPage _, .error e => some (.error e, s)
  | .caught target error, _ => some (s.cleanupAfterError setup target error)
  | .tick, r => some (r, s)
  | .load, r => some (r, s)
  | .close _, r => some (r, s)
  | .reply .., r => some (r, s)
  | .describe _, r => some (r, s)
  | .artifact, r => some (r, s)
  | .failure _, r => some (r, s)
  | .saveAs _, r => some (r, s)
  | _, _ => none

def client (setup : Setup) : Scheduler Op Res State := ⟨answer, deliver setup⟩

end PiEnv.Playwright
