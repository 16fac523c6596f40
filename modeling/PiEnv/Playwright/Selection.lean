import PiEnv.Playwright.Lookups

/-!
# The page that is selected

A selection is remembered as an index into a list that the browser changes. As
long as the browser leaves the selected page where it is, and the pages listed
for a selection in progress, every action looks up the page that was selected
last.
-/

namespace PiEnv.Playwright

open Js
open Effects
open Transitions

variable {setup : Setup} {s s' : State} {h : History Op Res} {target : Str} {page : Page}

-- -----
-- The state
-- -----

/-- The browser has the page, or had it. -/
def Known (s : State) (page : Page) : Prop :=
  ∃ b, s.browsers[page.browser]? = some b ∧ page.id ∈ b.known

structure Selected (s : State) : Prop where
  cached : ∀ target browser, s.cached target = some browser → browser < s.browsers.length
  pages : ∀ page, s.IsOpen page → Known s page
  known : ∀ target page, s.selected.get target = some page → Known s page
  index : ∀ target page, s.selection target = some page →
    ∃ i, s.activePageIndexes.get target = some i ∧ (s.pages page.browser)[i]? = some page.id
  lookups : ∀ l ∈ s.lookups, ∀ page, l.selected = some page → l.found = some page

theorem selection_eq_some : s.selection target = some page ↔
    s.selected.get target = some page ∧ s.cached target = some page.browser ∧ s.IsOpen page := by
  unfold State.selection
  rw [Option.filter_eq_some_iff]
  simp

/-- Nothing that is known of pages is lost. -/
structure SamePages (s s' : State) : Prop where
  pages : ∀ browser, browser < s.browsers.length → s'.pages browser = s.pages browser
  known : ∀ page, Known s page → Known s' page

theorem Known.lt (hknown : Known s page) : page.browser < s.browsers.length :=
  let ⟨_, hb, _⟩ := hknown
  (List.getElem?_eq_some_iff.mp hb).1

/-- Of a state in which the same is cached, or less, and the same pages are there. -/
structure Quieter (s s' : State) : Prop where
  same : SamePages s s'
  pages : ∀ browser, s'.pages browser = s.pages browser
  length : s'.browsers.length = s.browsers.length
  cached : ∀ target, s'.cached target = s.cached target ∨ s'.cached target = none

namespace Quieter

theorem of_browsers (hbrowsers : s'.browsers = s.browsers)
    (hcached : ∀ target, s'.cached target = s.cached target ∨ s'.cached target = none) : Quieter s s' := by
  have hpages : ∀ browser, s'.pages browser = s.pages browser := fun browser => by
    unfold State.pages
    rw [hbrowsers]
  exact ⟨⟨fun browser _ => hpages browser, fun page ⟨b, hb, hknown⟩ => ⟨b, hbrowsers ▸ hb, hknown⟩⟩, hpages,
    congrArg List.length hbrowsers, hcached⟩

theorem of_eq (hbrowsers : s'.browsers = s.browsers) (hcached : ∀ target, s'.cached target = s.cached target) :
    Quieter s s' := of_browsers hbrowsers fun target => .inl (hcached target)

theorem refl : Quieter s s := of_eq rfl fun _ => rfl

/-- Of a change to one browser that leaves its pages as they are. -/
theorem of_modify {browser : BrowserId} {f : Browser → Browser}
    (hbrowsers : s'.browsers = s.browsers.modify browser f) (hpages : ∀ b, (f b).pages = b.pages)
    (hknown : ∀ b, (f b).known = b.known)
    (hcached : ∀ target, s'.cached target = s.cached target ∨ s'.cached target = none) : Quieter s s' := by
  have hall : ∀ other, s'.pages other = s.pages other := by
    intro other
    unfold State.pages
    rw [hbrowsers, List.getElem?_modify]
    cases s.browsers[other]? with
    | none => rfl
    | some b => by_cases hother : browser = other <;> simp [hother, hpages]
  refine ⟨⟨fun other _ => hall other, ?_⟩, hall, by rw [hbrowsers, List.length_modify], hcached⟩
  rintro page ⟨b, hb, hmem⟩
  refine ⟨if browser = page.browser then f b else b, ?_, ?_⟩
  · rw [hbrowsers, List.getElem?_modify, hb]
    rfl
  · split
    · rwa [hknown]
    · exact hmem

theorem evict {cause : Cause} : Quieter s (s.evictConnection target cause).2 := by
  have hcached : ∀ other, (s.evictConnection target cause).2.cached other = s.cached other ∨
      (s.evictConnection target cause).2.cached other = none := by
    intro other
    unfold State.evictConnection State.cached
    dsimp only
    rw [JsMap.get_delete]
    split
    · exact .inr rfl
    · exact .inl rfl
  cases hdropped : s.cached target with
  | none =>
    refine of_browsers ?_ hcached
    unfold State.evictConnection
    dsimp only
    rw [hdropped]
  | some browser =>
    refine @of_modify _ _ browser (fun b => { b with closed := true }) ?_ (fun _ => rfl)
      (fun _ => rfl) hcached
    unfold State.evictConnection
    dsimp only
    rw [hdropped]

theorem touch : Quieter s (s.touch target) := by
  unfold State.touch
  split
  case h_2 => exact refl
  case h_1 connection hget =>
    refine of_eq rfl fun other => ?_
    unfold State.cached
    dsimp only
    rw [JsMap.get_set]
    split
    case isTrue hsame =>
      rw [hsame, hget]
      rfl
    case isFalse => rfl

theorem cached_of (hquieter : Quieter s s') {browser : BrowserId} (hcached : s'.cached target = some browser) :
    s.cached target = some browser := by
  rcases hquieter.cached target with hsame | hnone
  · rwa [hsame] at hcached
  · rw [hnone] at hcached
    cases hcached

theorem selection_of (hquieter : Quieter s s') (hselected : s'.selected = s.selected)
    (hselection : s'.selection target = some page) : s.selection target = some page := by
  obtain ⟨hget, hcached, hopen⟩ := selection_eq_some.mp hselection
  refine selection_eq_some.mpr ⟨hselected ▸ hget, hquieter.cached_of hcached, ?_⟩
  unfold State.IsOpen at hopen
  rwa [hquieter.pages] at hopen

end Quieter

-- -----
-- Operations
-- -----

theorem Selected.framed (hs : Selected s) (hquieter : Quieter s s')
    (hindexes : ∀ target browser, s'.cached target = some browser →
      s'.activePageIndexes.get target = s.activePageIndexes.get target)
    (hselected : s'.selected = s.selected) (hlookups : s'.lookups = s.lookups) : Selected s' where
  cached target browser h := hquieter.length ▸ hs.cached target browser (hquieter.cached_of h)
  pages page h := by
    unfold State.IsOpen at h
    rw [hquieter.pages] at h
    exact hquieter.same.known page (hs.pages page h)
  known target page h := hquieter.same.known page (hs.known target page (hselected ▸ h))
  index target page h := by
    obtain ⟨i, hi, hat⟩ := hs.index target page (hquieter.selection_of hselected h)
    refine ⟨i, (hindexes target page.browser (selection_eq_some.mp h).2.1).trans hi, ?_⟩
    rwa [hquieter.pages]
  lookups l h := hs.lookups l (hlookups ▸ h)

theorem Selected.evict {cause : Cause} (hs : Selected s) : Selected (s.evictConnection target cause).2 := by
  refine hs.framed .evict (fun other browser hcached => ?_) rfl rfl
  refine JsMap.get_delete.trans (if_neg ?_)
  rintro rfl
  unfold State.evictConnection State.cached at hcached
  dsimp only at hcached
  rw [JsMap.get_delete, if_pos rfl] at hcached
  cases hcached

theorem Selected.touch (hs : Selected s) : Selected (s.touch target) := by
  have hquieter : Quieter s (s.touch target) := .touch
  unfold State.touch at hquieter ⊢
  split at hquieter
  · exact hs.framed hquieter (fun _ _ _ => rfl) rfl rfl
  · exact hs

/-- The list that was read is still right, for the connection it is from. -/
def Current (s : State) (target : Str) (browser : BrowserId) (ids : List PageId) : Prop :=
  s.pages browser = ids ∧ (s.cached target = none ∨ s.cached target = some browser)

theorem Current.browser {browser : BrowserId} {ids : List PageId}
    (hcurrent : Current s target browser ids) (hcached : s.cached target = some page.browser) :
    page.browser = browser ∧ s.pages page.browser = ids := by
  obtain ⟨hids, hnone | hsome⟩ := hcurrent
  · rw [hnone] at hcached
    cases hcached
  · have hsame := Option.some.inj (hcached.symm.trans hsome)
    exact ⟨hsame, hsame ▸ hids⟩

/-- Looking for the index of the selected page in a list that is right finds it. -/
theorem activePageIndex_selected {browser : BrowserId} {ids : List PageId} (hs : Selected s)
    (hcurrent : Current s target browser ids) (hselection : s.selection target = some page) :
    page.browser = browser ∧ s.activePageIndexes.get target = some (s.activePageIndex target ids.length).1 ∧
      ids[(s.activePageIndex target ids.length).1]? = some page.id := by
  obtain ⟨hsame, hids⟩ := hcurrent.browser (selection_eq_some.mp hselection).2.1
  obtain ⟨i, hi, hat⟩ := hs.index target page hselection
  rw [hids] at hat
  have hlt : i < ids.length := (List.getElem?_eq_some_iff.mp hat).1
  have hindex : (s.activePageIndex target ids.length).1 = i := by
    unfold State.activePageIndex
    dsimp only
    rw [hi, Option.getD_some, if_neg (Nat.not_le.mpr hlt)]
  rw [hindex]
  exact ⟨hsame, hi, hat⟩

theorem Selected.activePageIndex {browser : BrowserId} {ids : List PageId} (hs : Selected s)
    (hcurrent : Current s target browser ids) : Selected (s.activePageIndex target ids.length).2 where
  cached := hs.cached
  pages := hs.pages
  known := hs.known
  index other page hselection := by
    obtain ⟨i, hi, hat⟩ := hs.index other page hselection
    refine ⟨i, ?_, hat⟩
    refine JsMap.get_set.trans ?_
    split
    case isTrue hsame =>
      subst hsame
      exact (activePageIndex_selected hs hcurrent hselection).2.1.symm.trans hi
    case isFalse => exact hi
  lookups := hs.lookups

theorem Selected.activePage {browser : BrowserId} {ids : List PageId} (hs : Selected s)
    (hcurrent : Current s target browser ids) :
    Selected (s.activePage target (ids.map (⟨browser, ·⟩))).2 := by
  have hlength : (ids.map fun id => (⟨browser, id⟩ : Page)).length = ids.length := List.length_map _
  have hindex := hs.activePageIndex hcurrent
  unfold State.activePage
  rw [hlength]
  refine { hindex with lookups := fun l hmem page hselected => ?_ }
  rcases List.mem_cons.mp hmem with rfl | hold
  · obtain ⟨hsame, -, hat⟩ := activePageIndex_selected hs hcurrent hselected
    dsimp only
    rw [List.getElem?_map, hat, ← hsame]
    rfl
  · exact hs.lookups l hold page hselected

theorem Selected.select {index : Nat} (hs : Selected s) (hknown : Known s page)
    (hat : s.cached target = some page.browser → s.IsOpen page →
      (s.pages page.browser)[index]? = some page.id) : Selected (s.select target index page) where
  cached := hs.cached
  pages := hs.pages
  known other selected h := by
    unfold State.select at h
    dsimp only at h
    rw [JsMap.get_set] at h
    split at h
    case isTrue => exact Option.some.inj h ▸ hknown
    case isFalse => exact hs.known other selected h
  index other selected hselection := by
    obtain ⟨hget, hcached, hopen⟩ := selection_eq_some.mp hselection
    unfold State.select at hget ⊢
    dsimp only at hget ⊢
    rw [JsMap.get_set] at hget ⊢
    split at hget
    case isTrue hsame =>
      obtain rfl := Option.some.inj hget
      rw [if_pos hsame]
      exact ⟨index, rfl, hat (hsame ▸ hcached) hopen⟩
    case isFalse hother =>
      rw [if_neg hother]
      exact hs.index other selected (selection_eq_some.mpr ⟨hget, hcached, hopen⟩)
  lookups := hs.lookups

section
variable {connected : Connected}

theorem connect_browsers (s : State) (target : Str) (connected : Connected) :
    ∃ b, (s.connect target connected).browsers = s.browsers ++ [b] ∧
    b.known = b.pages := ⟨_, rfl, rfl⟩

theorem connect_cached {other : Str} : (s.connect target connected).cached other =
    if other = target then some s.browsers.length else s.cached other := by
  unfold State.connect State.cached
  dsimp only
  rw [JsMap.get_set]
  split <;> rfl

theorem connect_pages : SamePages s (s.connect target connected) := by
  obtain ⟨b, hbrowsers, -⟩ := connect_browsers s target connected
  constructor
  · intro browser hlt
    unfold State.pages
    rw [hbrowsers, List.getElem?_append_left hlt]
  · rintro page ⟨old, hold, hmem⟩
    exact ⟨old, by rw [hbrowsers, List.getElem?_append_left (Known.lt ⟨old, hold, hmem⟩), hold], hmem⟩

theorem Selected.connect (hs : Selected s) : Selected (s.connect target connected) where
  cached other browser h := by
    obtain ⟨b, hbrowsers, -⟩ := connect_browsers s target connected
    rw [connect_cached] at h
    rw [hbrowsers, List.length_append, List.length_singleton]
    split at h
    case isTrue => exact Option.some.inj h ▸ Nat.lt_succ_self _
    case isFalse => exact Nat.lt_succ_of_lt (hs.cached other browser h)
  pages page hopen := by
    obtain ⟨b, hbrowsers, hknown⟩ := connect_browsers s target connected
    rcases Nat.lt_or_ge page.browser s.browsers.length with hlt | hge
    · unfold State.IsOpen at hopen
      rw [connect_pages.pages _ hlt] at hopen
      exact connect_pages.known page (hs.pages page hopen)
    · unfold State.IsOpen State.pages at hopen
      unfold Known
      rw [hbrowsers, List.getElem?_append_right hge] at hopen ⊢
      cases hlast : [b][page.browser - s.browsers.length]? with
      | none =>
        rw [hlast] at hopen
        cases hopen
      | some b' =>
        rw [hlast] at hopen
        obtain rfl := List.mem_singleton.mp (List.mem_of_getElem? hlast)
        exact ⟨b', rfl, hknown ▸ hopen⟩
  known other page h := connect_pages.known page (hs.known other page h)
  index other page h := by
    obtain ⟨hget, hcached, hopen⟩ := selection_eq_some.mp h
    have hlt := (hs.known other page hget).lt
    rw [connect_cached] at hcached
    split at hcached
    case isTrue => exact absurd (Option.some.inj hcached) (Nat.ne_of_gt hlt)
    case isFalse =>
      unfold State.IsOpen at hopen
      rw [connect_pages.pages _ hlt] at hopen ⊢
      exact hs.index other page (selection_eq_some.mpr ⟨hget, hcached, hopen⟩)
  lookups := hs.lookups

end

-- -----
-- Turns
-- -----

def Reads (s : State) (h : History Op Res) : Prop :=
  ∀ target browser ids, captured h = some (target, browser, ids) → Current s target browser ids

/-- What a fiber has seen is known, and what it does it does to the page it looked up. -/
structure Remembers (s : State) (h : History Op Res) : Prop where
  listed : selecting h = true → ∀ browser ids, ⟨.pages browser, .ok ids⟩ ∈ h →
    ∀ (i : Nat) (id : PageId), ids[i]? = some id → id ∈ s.pages browser →
      (s.pages browser)[i]? = some id
  seen : ∀ page, Seen h page → Known s page
  issued : ∀ operation page, ⟨.issue (.page operation page), ()⟩ ∈ h → operation ≠ .title →
    LookedUp h page

def selection : Assertion Op Res State where
  guard := directed
  shared := Selected
  running s h := Reads s h ∧ Remembers s h ∧
    ∀ target r rest, h = ⟨.connection target, r⟩ :: rest → s.cached target = r
  waiting s h o := (o = some .tick → Reads s h) ∧ Remembers s h

theorem Remembers.framed (hremembers : Remembers s h) (hpages : SamePages s s') : Remembers s' h where
  listed hselecting browser ids hmem i id hid hopen := by
    have hknown := hremembers.seen ⟨browser, id⟩ (.inl ⟨ids, hmem, List.mem_of_getElem? hid⟩)
    rw [hpages.pages _ hknown.lt] at hopen ⊢
    exact hremembers.listed hselecting browser ids hmem i id hid hopen
  seen page hseen := hpages.known page (hremembers.seen page hseen)
  issued := hremembers.issued

/-- What has to hold of one more entry. -/
def Adds (s : State) (h : History Op Res) : (o : Op) → Res o → Prop
  | .called _, _ => False
  | .pages browser, .ok ids => ids = s.pages browser
  | .newPage browser, .ok id => Known s ⟨browser, id⟩
  | .issue (.page operation page), _ => operation ≠ .title → LookedUp h page
  | _, _ => True

theorem selecting_of_cons {o : Op} {r : Res o} (hadds : Adds s h o r)
    (hselecting : selecting (⟨o, r⟩ :: h) = true) : selecting h = true := by
  cases o with
  | called request => exact hadds.elim
  | select => cases hselecting
  | caught => cases hselecting
  | _ => exact hselecting

theorem Remembers.cons {o : Op} {r : Res o} (hremembers : Remembers s h) (hadds : Adds s h o r)
    (hs : Selected s) : Remembers s (⟨o, r⟩ :: h) where
  listed hselecting browser ids hmem i id hid hopen := by
    rcases List.mem_cons.mp hmem with heq | hold
    · cases heq
      have hids : ids = s.pages browser := hadds
      rwa [← hids]
    · exact hremembers.listed (selecting_of_cons hadds hselecting) browser ids hold i id hid hopen
  seen page hseen := by
    rcases hseen with ⟨ids, hmem, hid⟩ | hmem
    · rcases List.mem_cons.mp hmem with heq | hold
      · cases heq
        have hids : ids = s.pages page.browser := hadds
        exact hs.pages page (show page.id ∈ s.pages page.browser from hids ▸ hid)
      · exact hremembers.seen page (.inl ⟨ids, hold, hid⟩)
    · rcases List.mem_cons.mp hmem with heq | hold
      · cases heq
        exact hadds
      · exact hremembers.seen page (.inr hold)
  issued operation page hmem hne := by
    have hpage : LookedUp h page := by
      rcases List.mem_cons.mp hmem with heq | hold
      · cases heq
        exact hadds hne
      · exact hremembers.issued operation page hold hne
    exact hpage.later (List.suffix_cons ..)

theorem Remembers.nil : Remembers s [] := by
  refine ⟨nofun, fun page hseen => ?_, nofun⟩
  rcases hseen with ⟨_, hmem, _⟩ | hmem <;> cases hmem

theorem Reads.none (hnone : captured h = none) : Reads s h := by
  intro target browser ids hcaptured
  rw [hnone] at hcaptured
  cases hcaptured

theorem answer_pages {browser : BrowserId} {ids : List PageId} {r : Res (.pages browser)}
    (hanswer : answer s (.pages browser) = some (r, s')) (hr : r = .ok ids) :
    s' = s ∧ ids = s.pages browser := by
  subst hr
  simp only [answer, Option.some.injEq, Prod.mk.injEq] at hanswer
  obtain ⟨hids, rfl⟩ := hanswer
  refine ⟨rfl, ?_⟩
  unfold State.contexts at hids
  unfold State.pages
  cases hb : s.browsers[browser]? with
  | none =>
    rw [hb] at hids
    cases hids
  | some b =>
    simp only [hb] at hids
    split at hids
    · cases hids
    · exact (Except.ok.inj hids).symm

theorem Quieter.reads (hquieter : Quieter s s') (hreads : Reads s h) : Reads s' h := by
  intro target browser ids hcaptured
  obtain ⟨hids, hconnection⟩ := hreads target browser ids hcaptured
  refine ⟨(hquieter.pages browser).trans hids, ?_⟩
  rcases hquieter.cached target with hsame | hnone
  · rwa [hsame]
  · exact .inl hnone

theorem Quieter.framed (hquieter : Quieter s s') : selection.Framed s s' := fun _ _ hwaiting =>
  ⟨fun ho => hquieter.reads (hwaiting.1 ho), hwaiting.2.framed hquieter.same⟩

/-- What an answer has to establish. -/
def Answered (s s' : State) (h : History Op Res) (o : Op) (r : Res o) : Prop :=
  selection.shared s' ∧ selection.running s' (⟨o, r⟩ :: h) ∧ selection.Framed s s'

theorem answered {o : Op} {r : Res o} (hs' : Selected s') (hquieter : Quieter s s')
    (hreads : Reads s' (⟨o, r⟩ :: h)) (hremembers : Remembers s' (⟨o, r⟩ :: h))
    (ho : ∀ target, o ≠ .connection target) : Answered s s' h o r :=
  ⟨hs', ⟨hreads, hremembers, fun target _ _ heq =>
    absurd (congrArg Sigma.fst (List.cons.inj heq).1) (ho target)⟩, hquieter.framed⟩

theorem pages_answered {browser : BrowserId} {r : Res (.pages browser)}
    (hanswer : answer s (.pages browser) = some (r, s')) (hs : Selected s)
    (hrunning : selection.running s h) (hguard : directed h (.pages browser)) :
    Answered s s' h (.pages browser) r := by
  obtain ⟨target, rest, rfl⟩ := hguard
  obtain ⟨-, hremembers, hconnection⟩ := hrunning
  have hcached : s.cached target = some browser := hconnection target _ rest rfl
  cases r with
  | error e =>
    obtain ⟨-, rfl⟩ := Prod.mk.inj (Option.some.inj hanswer)
    exact answered hs .refl (.none rfl) (hremembers.cons trivial hs) nofun
  | ok ids =>
    obtain ⟨rfl, hids⟩ := answer_pages hanswer rfl
    refine answered hs .refl ?_ (hremembers.cons hids hs) nofun
    intro target' browser' ids' hcaptured
    cases hcaptured
    exact ⟨hids.symm, .inr hcached⟩

theorem selection_kept : Kept (client setup) selection where
  answer {s s' h o r} hanswer hs hrunning hguard := by
    obtain ⟨hreads, hremembers, hconnection⟩ := hrunning
    cases o with
    | called request =>
      obtain rfl : h = [] := hguard
      cases hanswer
      refine answered hs .refl (.none rfl) ?_ nofun
      refine ⟨nofun, fun page hseen => ?_, nofun⟩
      rcases hseen with ⟨ids, hmem, -⟩ | hmem <;> simp at hmem
    | pages browser =>
      exact pages_answered hanswer hs ⟨hreads, hremembers, hconnection⟩ hguard
    | activePageIndex target pageCount =>
      obtain ⟨browser, ids, hcaptured, rfl⟩ := hguard
      have hcurrent := hreads target browser ids hcaptured
      cases hanswer
      have hquieter : Quieter s (s.activePageIndex target ids.length).2 := .of_eq rfl fun _ => rfl
      have hs' := hs.activePageIndex hcurrent
      exact answered hs' hquieter (hquieter.reads hreads)
        ((hremembers.framed hquieter.same).cons trivial hs') nofun
    | activePage target pages =>
      obtain ⟨browser, ids, hcaptured, rfl⟩ := hguard
      have hcurrent := hreads target browser ids hcaptured
      obtain ⟨-, rfl⟩ := Prod.mk.inj (Option.some.inj hanswer)
      have hquieter : Quieter s (s.activePage target (ids.map (⟨browser, ·⟩))).2 :=
        .of_eq rfl fun _ => rfl
      have hs' := hs.activePage hcurrent
      exact answered hs' hquieter (.none rfl)
        ((hremembers.framed hquieter.same).cons trivial hs') nofun
    | select target index page =>
      obtain ⟨hseen, hplaced⟩ := hguard
      cases hanswer
      have hquieter : Quieter s (s.select target index page) := .of_eq rfl fun _ => rfl
      have hs' : Selected (s.select target index page) := by
        refine hs.select (hremembers.seen page hseen) fun hcached hopen => ?_
        rcases hplaced with ⟨hselecting, ids, hmem, hid⟩ | ⟨browser, ids, hcaptured, hat⟩
        · exact hremembers.listed hselecting page.browser ids hmem index page.id hid hopen
        · obtain ⟨hsame, hids⟩ := (hreads target browser ids hcaptured).browser hcached
          rw [hids]
          exact hat hsame.symm (hids ▸ hopen)
      exact answered hs' hquieter (hquieter.reads hreads)
        ((hremembers.framed hquieter.same).cons trivial hs') nofun
    | issue call =>
      cases hanswer
      have hquieter : Quieter s { s with issued := (call, s.controlState) :: s.issued } :=
        .of_eq rfl fun _ => rfl
      have hs' : Selected { s with issued := (call, s.controlState) :: s.issued } :=
        hs.framed hquieter (fun _ _ _ => rfl) rfl rfl
      refine answered hs' hquieter (.none rfl) ((hremembers.framed hquieter.same).cons ?_ hs') nofun
      cases call with
      | newPage => trivial
      | page operation page => exact hguard
    | evict target reason =>
      obtain ⟨-, rfl⟩ := Prod.mk.inj (Option.some.inj hanswer)
      exact answered hs.evict .evict (.none rfl)
        ((hremembers.framed Quieter.evict.same).cons trivial hs.evict) nofun
    | touch target =>
      obtain ⟨-, rfl⟩ := Prod.mk.inj (Option.some.inj hanswer)
      exact answered hs.touch .touch (.none rfl)
        ((hremembers.framed Quieter.touch.same).cons trivial hs.touch) nofun
    | connection target =>
      cases hanswer
      refine ⟨hs, ⟨.none rfl, hremembers.cons trivial hs, fun target' r rest heq => ?_⟩,
        Quieter.refl.framed⟩
      cases heq
      rfl
    | _ =>
      first
        | cases hanswer; exact answered hs .refl (.none rfl) (hremembers.cons trivial hs) nofun
        | cases hanswer
  pause _ hrunning := ⟨fun _ => hrunning.1, hrunning.2.1⟩

theorem captured_tick {r : Res .tick} {x : Str × BrowserId × List PageId}
    (hcaptured : captured (⟨.tick, r⟩ :: h) = some x) : captured h = some x := by
  unfold captured at hcaptured
  split at hcaptured
  case h_3 heq =>
    obtain ⟨-, rfl⟩ := List.cons.inj heq
    exact hcaptured
  all_goals simp_all

/-- What holds when the outside has answered. -/
theorem selection_delivered {o : Op} {reply r : Res o} (hs : Selected s)
    (hwaiting : selection.waiting s h (some o)) (hgiven : deliver setup s o reply = some (r, s')) :
    Selected s' ∧ selection.running s' (⟨o, r⟩ :: h) ∧ SamePages s s' ∧
      ((∃ target, o = .connectOverCDP target) ∨ Quieter s s') := by
  obtain ⟨hreads, hremembers⟩ := hwaiting
  cases o with
  | tick =>
    cases hgiven
    exact ⟨hs, ⟨fun _ _ _ hcaptured => hreads rfl _ _ _ (captured_tick hcaptured),
      hremembers.cons trivial hs, nofun⟩, Quieter.refl.same, .inr .refl⟩
  | connectOverCDP target =>
    cases reply with
    | ok connected =>
      cases hgiven
      exact ⟨hs.connect, ⟨.none rfl, (hremembers.framed connect_pages).cons trivial hs.connect, nofun⟩,
        connect_pages, .inl ⟨target, rfl⟩⟩
    | error e =>
      cases hgiven
      exact ⟨hs, ⟨.none rfl, hremembers.cons trivial hs, nofun⟩, Quieter.refl.same, .inr .refl⟩
  | newPage browser =>
    cases reply with
    | ok page =>
      simp only [deliver] at hgiven
      split at hgiven
      case isTrue hknown =>
        cases hgiven
        refine ⟨hs, ⟨.none rfl, hremembers.cons ?_ hs, nofun⟩, Quieter.refl.same, .inr .refl⟩
        cases hb : s.browsers[browser]? with
        | none =>
          rw [hb] at hknown
          cases hknown
        | some b =>
          rw [hb] at hknown
          exact ⟨b, hb, of_decide_eq_true hknown⟩
      case isFalse => cases hgiven
    | error e =>
      cases hgiven
      exact ⟨hs, ⟨.none rfl, hremembers.cons trivial hs, nofun⟩, Quieter.refl.same, .inr .refl⟩
  | caught target error =>
    obtain ⟨-, rfl⟩ := Prod.mk.inj (Option.some.inj hgiven)
    have hquieter : Quieter s (s.cleanupAfterError setup target error).2 := by
      unfold State.cleanupAfterError
      split
      · exact .refl
      · exact .evict
    have hs' : Selected (s.cleanupAfterError setup target error).2 := by
      unfold State.cleanupAfterError
      split
      · exact hs
      · exact hs.evict
    exact ⟨hs', ⟨.none rfl, (hremembers.framed hquieter.same).cons trivial hs', nofun⟩, hquieter.same,
      .inr hquieter⟩
  | _ =>
    first
      | cases hgiven
        exact ⟨hs, ⟨.none rfl, hremembers.cons trivial hs, nofun⟩, Quieter.refl.same, .inr .refl⟩
      | cases hgiven

-- -----
-- Changes of the browser
-- -----

/-- The page is at the index, unless it is closed. -/
def staysAt (ids : List PageId) (id : PageId) (index : Option Nat) : Bool :=
  id ∉ ids || index.bind (ids[·]?) = some id

def listing (browser : BrowserId) : (o : Op) × Res o → List (List PageId)
  | ⟨.pages other, .ok ids⟩ => if other = browser then [ids] else []
  | _ => []

/-- The lists of pages of the browser that were read. -/
def listings (browser : BrowserId) (h : History Op Res) : List (List PageId) :=
  h.flatMap (listing browser)

/-- When the browser changes its pages, a page that stays open is at the same
index as before if it is the selected one, or listed for a selection in progress. -/
def inPlace (w : World) : Event → Bool
  | .changes browser _ contexts _ =>
    (w.shared.selected.entries.all fun entry =>
      entry.2.browser ≠ browser || w.shared.cached entry.1 ≠ some browser ||
        staysAt contexts.flatten entry.2.id (w.shared.activePageIndexes.get entry.1)) &&
    w.fibers.all fun fiber => !selecting fiber.history ||
      (listings browser fiber.history).all fun ids =>
        ids.zipIdx.all fun entry => staysAt contexts.flatten entry.1 (some entry.2)
  | _ => true

theorem staysAt_iff {ids : List PageId} {id : PageId} {index : Option Nat} :
    staysAt ids id index = true ↔ (id ∈ ids → index.bind (ids[·]?) = some id) := by
  simp [staysAt, imp_iff_not_or]

theorem mem_listings {browser : BrowserId} {ids : List PageId}
    (hmem : ⟨.pages browser, .ok ids⟩ ∈ h) : ids ∈ listings browser h :=
  List.mem_flatMap.mpr ⟨_, hmem, by simp [listing]⟩

/-- What a change of a browser does to the lists of pages. -/
structure Changed (s s' : State) (browser : BrowserId) (ids : List PageId) : Prop where
  pages : ∀ other, s'.pages other = if other = browser then ids else s.pages other
  known : ∀ page, Known s page → Known s' page
  /-- A page that was closed does not come back. -/
  back : ∀ page, Known s page → s'.IsOpen page → s.IsOpen page
  opened : ∀ page, s'.IsOpen page → Known s' page ∨ s.IsOpen page
  length : s'.browsers.length = s.browsers.length

theorem changes_changed {browser : BrowserId} {isConnected : Option Bool}
    {contexts : List (List PageId)} {failing : Option Str}
    (hchanges : s.changes browser isConnected contexts failing = some s') :
    Changed s s' browser contexts.flatten := by
  obtain ⟨b, b', hb, hchange, rfl⟩ := State.changes_eq_some hchanges
  obtain ⟨hb', hfresh⟩ := Browser.change_eq_some hchange
  have hlt := (List.getElem?_eq_some_iff.mp hb).1
  have hids : b'.pages = contexts.flatten := by
    rw [hb']
    rfl
  have hknown : b'.known = b.known ++ b'.pages := congrArg Browser.known hb'
  have hpages : ∀ other, State.pages { s with browsers := s.browsers.set browser b' } other =
      if other = browser then contexts.flatten else s.pages other := by
    intro other
    unfold State.pages
    by_cases hother : browser = other
    · subst hother
      rw [List.getElem?_set_self hlt, if_pos rfl]
      exact hids
    · rw [List.getElem?_set_ne hother, if_neg (Ne.symm hother)]
  refine ⟨hpages, ?_, ?_, ?_, List.length_set⟩
  · rintro page ⟨old, hold, hmem⟩
    by_cases hother : browser = page.browser
    · rw [← hother, hb] at hold
      obtain rfl := Option.some.inj hold
      exact ⟨b', hother ▸ List.getElem?_set_self hlt, hknown ▸ List.mem_append_left _ hmem⟩
    · exact ⟨old, (List.getElem?_set_ne hother).trans hold, hmem⟩
  · rintro page ⟨old, hold, hmem⟩ hopen
    unfold State.IsOpen at hopen ⊢
    rw [hpages] at hopen
    split at hopen
    case isTrue hsame =>
      rw [hsame, hb] at hold
      obtain rfl := Option.some.inj hold
      rcases hfresh page.id (hids ▸ hopen) with hin | hnot
      · unfold State.pages
        rw [hsame, hb]
        exact hin
      · exact absurd hmem hnot
    case isFalse => exact hopen
  · intro page hopen
    unfold State.IsOpen at hopen ⊢
    rw [hpages] at hopen
    split at hopen
    case isTrue hsame =>
      refine .inl ⟨b', ?_, hknown ▸ List.mem_append_right _ (hids ▸ hopen)⟩
      rw [hsame]
      exact List.getElem?_set_self hlt
    case isFalse => exact .inr hopen

theorem Selected.changed {browser : BrowserId} {ids : List PageId} (hs : Selected s)
    (hchanged : Changed s s' browser ids) (hcached : ∀ target, s'.cached target = s.cached target)
    (hindexes : s'.activePageIndexes = s.activePageIndexes) (hselected : s'.selected = s.selected)
    (hlookups : s'.lookups = s.lookups)
    (hstays : ∀ target page, s.selected.get target = some page → page.browser = browser →
      s.cached target = some browser → page.id ∈ ids →
        (s.activePageIndexes.get target).bind (ids[·]?) = some page.id) : Selected s' where
  cached target other h := hchanged.length ▸ hs.cached target other (hcached target ▸ h)
  pages page hopen := (hchanged.opened page hopen).elim id fun hold => hchanged.known page (hs.pages page hold)
  known target page h := hchanged.known page (hs.known target page (hselected ▸ h))
  index target page hselection := by
    obtain ⟨hget, hin, hopen⟩ := selection_eq_some.mp hselection
    rw [hselected] at hget
    rw [hcached] at hin
    rw [hindexes, hchanged.pages]
    split
    case isTrue hsame =>
      unfold State.IsOpen at hopen
      rw [hchanged.pages, if_pos hsame] at hopen
      exact Option.bind_eq_some_iff.mp (hstays target page hget hsame (hsame ▸ hin) hopen)
    case isFalse =>
      have hbefore := hchanged.back page (hs.known target page hget) hopen
      exact hs.index target page (selection_eq_some.mpr ⟨hget, hin, hbefore⟩)
  lookups l hmem := hs.lookups l (hlookups ▸ hmem)

theorem Remembers.changed {browser : BrowserId} {ids : List PageId} (hremembers : Remembers s h)
    (hchanged : Changed s s' browser ids)
    (hstays : selecting h = true → ∀ listed ∈ listings browser h, ∀ (i : Nat) (id : PageId),
      listed[i]? = some id → id ∈ ids → ids[i]? = some id) : Remembers s' h where
  listed hselecting other listed hmem i id hid hopen := by
    rw [hchanged.pages] at hopen ⊢
    split at hopen
    case isTrue hsame =>
      rw [if_pos hsame]
      exact hstays hselecting listed (mem_listings (hsame ▸ hmem)) i id hid hopen
    case isFalse hother =>
      rw [if_neg hother]
      exact hremembers.listed hselecting other listed hmem i id hid hopen
  seen page hseen := hchanged.known page (hremembers.seen page hseen)
  issued := hremembers.issued

variable {w w' : World}

theorem drained_tick (hdrained : drained w = true) {fiber : Fiber Op Res} (hmem : fiber ∈ w.fibers) :
    Fibers.awaited fiber ≠ some .tick := by
  intro htick
  have hnot := List.all_eq_true.mp hdrained fiber hmem
  rw [htick] at hnot
  cases hnot

/-- A change in place, for a state and for its fibers. -/
theorem inPlace_iff {browser : BrowserId} {isConnected : Option Bool} {contexts : List (List PageId)}
    {failing : Option Str} (hok : inPlace w (.changes browser isConnected contexts failing) = true) :
    (∀ target page, w.shared.selected.get target = some page → page.browser = browser →
      w.shared.cached target = some browser → page.id ∈ contexts.flatten →
        (w.shared.activePageIndexes.get target).bind (contexts.flatten[·]?) = some page.id) ∧
    ∀ fiber ∈ w.fibers, selecting fiber.history = true → ∀ listed ∈ listings browser fiber.history,
      ∀ (i : Nat) (id : PageId), listed[i]? = some id → id ∈ contexts.flatten →
        contexts.flatten[i]? = some id := by
  obtain ⟨hselected, hfibers⟩ := Bool.and_eq_true_iff.mp hok
  refine ⟨fun target page hget hsame hcached hopen => ?_, fun fiber hmem hselecting listed hlisted i id hid hopen => ?_⟩
  · have hentry := List.all_eq_true.mp hselected (target, page) (JsMap.mem_of_get hget)
    simp only [hsame, hcached, ne_eq, not_true, decide_false, Bool.false_or] at hentry
    exact staysAt_iff.mp hentry hopen
  · have hfiber := List.all_eq_true.mp hfibers fiber hmem
    rw [hselecting] at hfiber
    have hids := List.all_eq_true.mp hfiber listed hlisted
    have hentry := List.all_eq_true.mp hids (id, i) (List.mem_zipIdx_iff_getElem?.mpr hid)
    exact staysAt_iff.mp hentry hopen

theorem selection_step {event : Event} (hw : selection.Holds w) (hok : inPlace w event = true)
    (hstep : step setup w event = some w') : selection.Holds w' := by
  have hstays : ∀ {s : State}, Selected s → Quieter w.shared s → selection.Holds ⟨s, w.fibers⟩ :=
    fun hs hquieter => ⟨hs, fun fiber hmem => (hw.fibers fiber hmem).framed hquieter.framed⟩
  have hnil : ∀ {s : State}, selection.running s [] := ⟨.none rfl, .nil, nofun⟩
  cases event with
  | passes time =>
    simp only [step] at hstep
    split at hstep
    · rw [← Option.some.inj hstep]
      exact hstays (hw.shared.framed (.of_eq rfl fun _ => rfl) (fun _ _ _ => rfl) rfl rfl)
        (.of_eq rfl fun _ => rfl)
    · cases hstep
  | execute request rounds =>
    rw [← Option.some.inj hstep]
    exact selection_kept.start hw execute_directed hnil
  | resume fiber reply =>
    simp only [step] at hstep
    split at hstep
    case isFalse => cases hstep
    case isTrue hmay =>
    refine selection_kept.resume hw hstep fun {h o k r s} hfiber hgiven hwaiting => ?_
    obtain ⟨hs, hrunning, hsame, hconnects⟩ := selection_delivered hw.shared hwaiting hgiven
    refine ⟨hs, hrunning, fun other hmem hknows => ?_⟩
    rcases hconnects with ⟨target, rfl⟩ | hquieter
    · simp only [mayResume, hfiber, Option.bind_some, Fibers.awaited] at hmay
      exact ⟨hknows.guarded, fun htick => absurd htick (drained_tick hmay hmem),
        hknows.waiting.2.framed hsame⟩
    · exact hknows.framed hquieter.framed
  | setControlState state =>
    rw [← Option.some.inj hstep]
    exact hstays (hw.shared.framed (.of_eq rfl fun _ => rfl) (fun _ _ _ => rfl) rfl rfl)
        (.of_eq rfl fun _ => rfl)
  | changes browser isConnected contexts failing =>
    simp only [step] at hstep
    split at hstep
    case isFalse => cases hstep
    case isTrue hdrained =>
    obtain ⟨shared, hchanges, rfl⟩ := Option.map_eq_some_iff.mp hstep
    have hchanged := changes_changed hchanges
    obtain ⟨hselected, hlisted⟩ := inPlace_iff hok
    obtain ⟨b, b', -, -, rfl⟩ := State.changes_eq_some hchanges
    refine ⟨hw.shared.changed hchanged (fun _ => rfl) rfl rfl rfl hselected, fun fiber hmem => ?_⟩
    have hknows := hw.fibers fiber hmem
    exact ⟨hknows.guarded, fun htick => absurd htick (drained_tick hdrained hmem),
      hknows.waiting.2.changed hchanged (hlisted fiber hmem)⟩
  | loses browser =>
    rw [← Option.some.inj hstep]
    have hquieter : Quieter w.shared (w.shared.loses browser) :=
      .of_modify rfl (fun _ => rfl) (fun _ => rfl) fun _ => .inl rfl
    exact hstays (hw.shared.framed hquieter (fun _ _ _ => rfl) rfl rfl) hquieter
  | disconnected browser =>
    simp only [step] at hstep
    split at hstep
    case h_1 => cases hstep
    case h_2 b hb =>
      split at hstep
      · rw [← Option.some.inj hstep]
        exact selection_kept.start (hstays hw.shared.evict .evict) disconnecting_directed hnil
      · cases hstep

theorem selection_start : selection.Holds start := by
  refine ⟨⟨nofun, fun page hopen => ?_, nofun, fun target page hselection => ?_, nofun⟩, nofun⟩
  · cases hopen
  · cases (selection_eq_some.mp hselection).1

-- -----
-- Runs
-- -----

/-- In a run in which the browser leaves the selected page where it is, every
action finds the page that was selected last, and works on the page it finds. -/
theorem selected_page_found (setup : Setup) (events : List Event) (w : World)
    (hok : AllMeet (step setup) (fun w event => inPlace w event) start events)
    (hrun : run (step setup) start events = some w) :
    (∀ l ∈ w.shared.lookups, ∀ page, l.selected = some page → l.found = some page) ∧
    ∀ fiber ∈ w.fibers, ∀ operation page, ⟨.issue (.page operation page), ()⟩ ∈ fiber.history →
      operation ≠ .title → LookedUp fiber.history page := by
  have hw : selection.Holds w := @invariant _ _ (step setup)
    (fun w event => inPlace w event) _ (fun _ _ _ hw hmet hstep => selection_step hw hmet hstep)
    _ _ _ selection_start hok hrun
  exact ⟨hw.shared.lookups, fun fiber hmem => (hw.fibers fiber hmem).waiting.2.issued⟩

/-- A call that makes page 1 the second of its browser. -/
def secondPage : List Event :=
  [calls .newPage] ++ resumed [0, 0, 0] ++ [.changes 0 (some true) [[0, 1]] none,
    .resume 0 fun | .newPage _ => .ok 1 | o => obliging o] ++ resumed (List.replicate 9 0)

/-- Another page is opened behind it and closed, and the second one is worked on. -/
def closedBehind : List Event :=
  secondPage ++ [.changes 0 (some true) [[0, 1, 2]] none, .changes 0 (some true) [[0, 1]] none,
    calls .snapshot] ++ resumed [1, 1, 1]

theorem closedBehind_found : ∃ w, run (step home) start closedBehind = some w ∧
    (∀ l ∈ w.shared.lookups, ∀ page, l.selected = some page → l.found = some page) ∧
    ∀ fiber ∈ w.fibers, ∀ operation page, ⟨.issue (.page operation page), ()⟩ ∈ fiber.history →
      operation ≠ .title → LookedUp fiber.history page := by
  obtain ⟨w, hw⟩ : ∃ w, run (step home) start closedBehind = some w :=
    Option.isSome_iff_exists.mp (by decide +kernel)
  exact ⟨w, hw, selected_page_found home closedBehind w (by decide +kernel) hw⟩

/-- Another page is opened behind it, and the one before it is closed. -/
def closedBefore : List Event :=
  secondPage ++ [.changes 0 (some true) [[0, 1, 2]] none, .changes 0 (some true) [[1, 2]] none,
    calls .snapshot] ++ resumed [1, 1, 1]

/-- The selected page is open and its connection in use, and another one is found. -/
theorem closedBefore_misses : ∃ w, run (step home) start closedBefore = some w ∧
    ⟨lit "local", some ⟨0, 2⟩, some ⟨0, 1⟩⟩ ∈ w.shared.lookups := by
  have hrun : (run (step home) start closedBefore).map (·.shared.lookups) =
      some [⟨lit "local", some ⟨0, 2⟩, some ⟨0, 1⟩⟩] := by decide +kernel
  obtain ⟨w, hw, hlookups⟩ := Option.map_eq_some_iff.mp hrun
  exact ⟨w, hw, hlookups ▸ List.mem_cons_self⟩

end PiEnv.Playwright
