import PiEnv.Notes.CollectionReads

/-!
# The earliest Inbox item

The search goes through the Inbox day by day from the first. A call looks at a
bounded number of days; one that finds nothing in them names the day the next
call goes on with.
-/

namespace PiEnv.Notes

open Js

/-- The groups of `/^inbox\/(\d{4})(\d{2})(\d{2})\.md$/`. -/
def matchInboxPath : Str → Option (Str × Str × Str)
  | [105, 110, 98, 111, 120, 47, y₁, y₂, y₃, y₄, m₁, m₂, d₁, d₂, 46, 109, 100] =>
    if [y₁, y₂, y₃, y₄, m₁, m₂, d₁, d₂].all isDigit then
      some ([y₁, y₂, y₃, y₄], [m₁, m₂], [d₁, d₂])
    else none
  | _ => none

def inboxDateFromPath (path : Str) : Option Str :=
  match matchInboxPath path with
  | none => none
  | some (y, m, d) => (requireIsoDate (y ++ lit "-" ++ m ++ lit "-" ++ d)).toOption

/-- The scope of the cursors of the search. -/
def earliest : Str := lit "earliest"

structure EarliestPage where
  items : List InboxItem
  nextCursor : Option Str
  /-- How many day notes were visited. -/
  scanned : Nat

section
variable (provider : NotesProvider)

def earliestItemFromPath (path : Str) (cursor : CursorPosition) :
    Except NotesError (Option InboxItem) :=
  match inboxDateFromPath path with
  | none => .ok none
  | some date =>
    (readOutcome path (provider.read path)).map fun note =>
      match note with
      | none => none
      | some note =>
        (extractInboxItems note.content date path)[
          if some path = cursor.location then cursor.offset else 0]?

/-- The loop of `earliestInboxRead` once it has started, after this many days. -/
def earliestStarted (cursor : CursorPosition) : Nat → List Str → Except NotesError EarliestPage
  | scanned, [] => .ok ⟨[], none, scanned⟩
  | scanned, path :: rest =>
    if scanned = MAX_COLLECTION_DOCUMENTS_PER_READ then
      .ok ⟨[], some (encodeCursor .inbox earliest 0 (some path)), scanned⟩
    else do
      match ← earliestItemFromPath provider path cursor with
      | some item =>
        let page ← page InboxItem.bytes [item] 1 0 fun next =>
          encodeCursor .inbox earliest next (some path)
        return ⟨page.items, page.nextCursor, scanned + 1⟩
      | none => earliestStarted cursor (scanned + 1) rest

variable (localeCompare : Str → Str → Ordering)

def earliestInboxRead (cursor : Option Str) : Except NotesError EarliestPage := do
  let cursor ← decodeCursor cursor .inbox earliest
  let paths ← canonicalPaths provider localeCompare (lit "inbox/") inboxDateFromPath .chronological
  match cursor.location with
  | none => earliestStarted provider cursor 0 paths
  | some location =>
    match paths.dropWhile (· != location) with
    | [] => .error invalidCollectionCursor
    | rest => earliestStarted provider cursor 0 rest
end

-- -----
-- What the search is for
-- -----

section
variable (provider : NotesProvider)

/-- The items of a day note; one that is gone has none. -/
def dayItems (path : Str) : Except NotesError (List InboxItem) :=
  match inboxDateFromPath path with
  | none => .ok []
  | some date =>
    (readOutcome path (provider.read path)).map fun note =>
      match note with
      | none => []
      | some note => extractInboxItems note.content date path

/-- The first item of the days in this order, where every note up to it can be
read and it fits in a page. -/
def firstItem : List Str → Except NotesError (Option InboxItem)
  | [] => .ok none
  | path :: rest => do
    match ← dayItems provider path with
    | [] => firstItem rest
    | item :: _ =>
      if item.bytes > MAX_COLLECTION_RESULT_BYTES then
        .error (.provider .resourceLimit
          (lit "One collection item exceeds the result byte limit."))
      else .ok (some item)

/-- The first item of the days of the Inbox. -/
def earliestInboxItem (localeCompare : Str → Str → Ordering) : Except NotesError (Option InboxItem) := do
  firstItem provider
    (← canonicalPaths provider localeCompare (lit "inbox/") inboxDateFromPath .chronological)

/-- The first item of the earliest day that has one. -/
def IsEarliest (entries : List NoteEntry) : Option InboxItem → Prop
  | none => ∀ entry ∈ entries, dayItems provider entry.path = .ok []
  | some item => ∃ entry ∈ entries, ∃ date more, inboxDateFromPath entry.path = some date ∧
      dayItems provider entry.path = .ok (item :: more) ∧
      ∀ other ∈ entries, ∀ date', inboxDateFromPath other.path = some date' → date' < date →
        dayItems provider other.path = .ok []

variable {provider}

theorem earliestItemFromPath_zero {cursor : CursorPosition} (h : cursor.offset = 0) (path : Str) :
    earliestItemFromPath provider path cursor = (dayItems provider path).map List.head? := by
  unfold earliestItemFromPath dayItems
  cases inboxDateFromPath path with
  | none => rfl
  | some date =>
    cases readOutcome path (provider.read path) with
    | error e => rfl
    | ok note =>
      cases note with
      | none => rfl
      | some note => simp [Except.map, h, List.head?_eq_getElem?]

theorem page_single {α : Type} (size : α → Nat) (value : α) (cursorFor : Nat → Str) :
    page size [value] 1 0 cursorFor =
      if size value > MAX_COLLECTION_RESULT_BYTES then
        .error (.provider .resourceLimit
          (lit "One collection item exceeds the result byte limit."))
      else .ok ⟨[value], none⟩ := by
  by_cases h : size value > MAX_COLLECTION_RESULT_BYTES
  · simp [page, takePage, h, bind, Except.bind]
  · simp [page, takePage, h, bind, Except.bind, Except.map, pure, Except.pure]

/-- What a call does with the days that are left: it ends the search, or looks
at as many of them as it may and passes on the rest. -/
inductive Searched (provider : NotesProvider) (todo : List Str) (scanned : Nat) :
    Except NotesError EarliestPage → Prop
  | ends {found : Option InboxItem} {visited : Nat} (h : firstItem provider todo = .ok found)
      (hv : visited ≤ MAX_COLLECTION_DOCUMENTS_PER_READ) :
      Searched provider todo scanned (.ok ⟨found.toList, none, visited⟩)
  | fails {e : NotesError} (h : firstItem provider todo = .error e) :
      Searched provider todo scanned (.error e)
  | cut {seen rest : List Str} {path : Str} (ht : todo = seen ++ path :: rest)
      (hs : scanned + seen.length = MAX_COLLECTION_DOCUMENTS_PER_READ)
      (h : firstItem provider todo = firstItem provider (path :: rest)) :
      Searched provider todo scanned
        (.ok ⟨[], some (encodeCursor .inbox earliest 0 (some path)),
          MAX_COLLECTION_DOCUMENTS_PER_READ⟩)

theorem firstItem_later {path : Str} (h : dayItems provider path = .ok []) (rest : List Str) :
    firstItem provider (path :: rest) = firstItem provider rest := by
  simp [firstItem, h, bind, Except.bind]

theorem firstItem_here {path : Str} {item : InboxItem} {more : List InboxItem}
    (h : dayItems provider path = .ok (item :: more)) (rest : List Str) :
    firstItem provider (path :: rest) =
      if item.bytes > MAX_COLLECTION_RESULT_BYTES then
        .error (.provider .resourceLimit
          (lit "One collection item exceeds the result byte limit."))
      else .ok (some item) := by
  simp [firstItem, h, bind, Except.bind]

theorem Searched.later {path : Str} {rest : List Str} {scanned : Nat}
    {outcome : Except NotesError EarliestPage} (h : dayItems provider path = .ok [])
    (hrest : Searched provider rest (scanned + 1) outcome) :
    Searched provider (path :: rest) scanned outcome := by
  have hfirst := firstItem_later h rest
  cases hrest with
  | ends hf hv => exact .ends (hfirst.trans hf) hv
  | fails hf => exact .fails (hfirst.trans hf)
  | @cut seen after next ht hs hf =>
    have hlen : scanned + (path :: seen).length = MAX_COLLECTION_DOCUMENTS_PER_READ := by
      rw [← hs, List.length_cons]
      omega
    exact .cut (by rw [ht, List.cons_append]) hlen (hfirst.trans hf)

theorem earliestStarted_searched {cursor : CursorPosition} (hc : cursor.offset = 0) (todo : List Str)
    {scanned : Nat} (hs : scanned ≤ MAX_COLLECTION_DOCUMENTS_PER_READ) :
    Searched provider todo scanned (earliestStarted provider cursor scanned todo) := by
  induction todo generalizing scanned with
  | nil =>
    have hempty : firstItem provider [] = .ok none := rfl
    exact .ends hempty hs
  | cons path rest ih =>
    unfold earliestStarted
    split
    · rename_i hfull
      have hnone : path :: rest = [] ++ path :: rest := rfl
      rw [hfull]
      exact .cut hnone (by simp) rfl
    · rename_i hroom
      have hlt := Nat.lt_of_le_of_ne hs hroom
      rw [earliestItemFromPath_zero hc]
      cases hday : dayItems provider path with
      | error e => exact .fails (by simp [firstItem, hday, bind, Except.bind])
      | ok items =>
        cases items with
        | nil => exact (ih hlt).later hday
        | cons item more =>
          have hfirst := firstItem_here hday rest
          simp only [Except.map, List.head?_cons, bind, Except.bind, page_single]
          by_cases hbytes : item.bytes > MAX_COLLECTION_RESULT_BYTES
          · rw [if_pos hbytes] at hfirst ⊢
            exact .fails hfirst
          · rw [if_neg hbytes] at hfirst ⊢
            exact .ends hfirst hlt

-- -----
-- Following the cursors
-- -----

/-- Where a cursor resumes the search. -/
inductive ResumesAt (paths : List Str) : Option Str → List Str → Prop
  | start : ResumesAt paths none paths
  | resume {seen rest : List Str} {path : Str} (h : paths = seen ++ path :: rest) :
      ResumesAt paths (some (encodeCursor .inbox earliest 0 (some path))) (path :: rest)

theorem earliestInboxRead_at {localeCompare : Str → Str → Ordering} {paths todo : List Str}
    {cursor : Option Str}
    (hpaths : canonicalPaths provider localeCompare (lit "inbox/") inboxDateFromPath .chronological =
      .ok paths) (hn : paths.Nodup) (hat : ResumesAt paths cursor todo) :
    Searched provider todo 0 (earliestInboxRead provider localeCompare cursor) := by
  cases hat with
  | start =>
    simp only [earliestInboxRead, decodeCursor, hpaths, bind, Except.bind]
    exact earliestStarted_searched rfl paths (Nat.zero_le _)
  | @resume seen rest path hsplit =>
    have hcursor : decodeCursor (some (encodeCursor .inbox earliest 0 (some path))) .inbox earliest =
        .ok ⟨0, some path⟩ := by
      rw [decodeCursor_encodeCursor (by decide), if_pos ⟨rfl, rfl⟩]
    have hseen : path ∉ seen := by
      rw [hsplit, List.nodup_append] at hn
      exact fun hm => hn.2.2 path hm path (by simp) rfl
    have hdrop : paths.dropWhile (· != path) = path :: rest := by
      rw [hsplit, dropWhile_location hseen]
    simp only [earliestInboxRead, hcursor, hpaths, bind, Except.bind, hdrop]
    exact earliestStarted_searched rfl _ (Nat.zero_le _)

/-- The calls end, with the first item of the days that are left or with the
refusal of its day. -/
theorem earliest_run {localeCompare : Str → Str → Ordering} {paths todo : List Str}
    {cursor : Option Str}
    (hpaths : canonicalPaths provider localeCompare (lit "inbox/") inboxDateFromPath .chronological =
      .ok paths) (hn : paths.Nodup) (hat : ResumesAt paths cursor todo) :
    (∀ found, firstItem provider todo = .ok found →
      ∃ pages, Paging.Follows (fun cursor _ => earliestInboxRead provider localeCompare cursor)
          EarliestPage.nextCursor (fun _ => 1) cursor pages ∧
        pages.flatMap EarliestPage.items = found.toList ∧
        ∀ page ∈ pages, page.scanned ≤ MAX_COLLECTION_DOCUMENTS_PER_READ) ∧
    ∀ e, firstItem provider todo = .error e →
      Paging.Fails (fun cursor _ => earliestInboxRead provider localeCompare cursor)
        EarliestPage.nextCursor (fun _ => 1) cursor e := by
  generalize hlen : todo.length = n
  induction n using Nat.strongRecOn generalizing todo cursor with
  | ind n ih =>
    have hcall := earliestInboxRead_at hpaths hn hat
    generalize hread : earliestInboxRead provider localeCompare cursor = outcome at hcall
    cases hcall with
    | @ends found visited h hv =>
      rw [h]
      refine ⟨fun found' he => ?_, fun _ he => by simp at he⟩
      cases he
      exact ⟨[⟨found.toList, none, visited⟩], .last hread rfl, by simp,
        List.forall_mem_singleton.mpr hv⟩
    | fails h =>
      rw [h]
      refine ⟨fun _ he => by simp at he, fun e he => ?_⟩
      cases he
      exact .now hread
    | @cut seen rest path ht hs h =>
      have hsplit : ∃ before, paths = before ++ path :: rest := by
        cases hat with
        | start => exact ⟨seen, ht⟩
        | @resume before after next hbefore => exact ⟨before ++ seen, by rw [hbefore, ht, List.append_assoc]⟩
      obtain ⟨before, hbefore⟩ := hsplit
      have hshort : (path :: rest).length < n := by
        rw [← hlen, ht, List.length_append]
        have : seen.length = 32 := by simpa [MAX_COLLECTION_DOCUMENTS_PER_READ] using hs
        omega
      obtain ⟨hfound, hfails⟩ := ih _ hshort (.resume hbefore) rfl
      rw [h]
      constructor
      · intro found he
        obtain ⟨pages, hf, hi, hg⟩ := hfound found he
        exact ⟨_ :: pages, .more hread rfl hf, by simpa using hi,
          List.forall_mem_cons.mpr ⟨le_rfl, hg⟩⟩
      · exact fun e he => .later hread rfl (hfails e he)

-- -----
-- The order of day notes
-- -----

theorem inboxDate_units {path date : Str} (h : inboxDateFromPath path = some date) :
    ∃ a b c d e f g i : UInt16,
      path = [105, 110, 98, 111, 120, 47, a, b, c, d, e, f, g, i, 46, 109, 100] ∧
        date = [a, b, c, d, 45, e, f, 45, g, i] := by
  unfold inboxDateFromPath matchInboxPath at h
  split at h
  · cases h
  · rename_i y m d hm
    split at hm
    · split at hm
      · obtain ⟨rfl, rfl, rfl⟩ : _ ∧ _ ∧ _ := by simpa using hm
        exact ⟨_, _, _, _, _, _, _, _, rfl, requireIsoDate_toOption h⟩
      · cases hm
    · cases hm

/-- Paths of day notes are in the order of their dates. -/
theorem inboxDate_le {p q dp dq : Str} (hp : inboxDateFromPath p = some dp)
    (hq : inboxDateFromPath q = some dq) : p ≤ q ↔ dp ≤ dq := by
  obtain ⟨a, b, c, d, e, f, g, i, rfl, rfl⟩ := inboxDate_units hp
  obtain ⟨a', b', c', d', e', f', g', i', rfl, rfl⟩ := inboxDate_units hq
  simp [List.cons_le_cons_iff]

/-- What the first item of these days is. -/
inductive FirstOf (provider : NotesProvider) (paths : List Str) : Option InboxItem → Prop
  | none (h : ∀ path ∈ paths, dayItems provider path = .ok []) : FirstOf provider paths none
  | some {before after : List Str} {path : Str} {item : InboxItem} {more : List InboxItem}
      (hp : paths = before ++ path :: after)
      (hb : ∀ earlier ∈ before, dayItems provider earlier = .ok [])
      (hi : dayItems provider path = .ok (item :: more)) : FirstOf provider paths (some item)

theorem firstOf {paths : List Str} {found : Option InboxItem}
    (h : firstItem provider paths = .ok found) : FirstOf provider paths found := by
  induction paths with
  | nil =>
    cases h
    exact .none (by simp)
  | cons path rest ih =>
    cases hday : dayItems provider path with
    | error e => simp [firstItem, hday, bind, Except.bind] at h
    | ok items =>
      cases items with
      | nil =>
        rw [firstItem_later hday] at h
        cases ih h with
        | none hall => exact .none (List.forall_mem_cons.mpr ⟨hday, hall⟩)
        | @some before after next item more hp hb hi =>
          have hp' : path :: rest = (path :: before) ++ next :: after := by rw [hp, List.cons_append]
          exact .some hp' (List.forall_mem_cons.mpr ⟨hday, hb⟩) hi
      | cons item more =>
        rw [firstItem_here hday] at h
        split at h
        · cases h
        · cases h
          have hp : path :: rest = [] ++ path :: rest := rfl
          exact .some hp (by simp) hday

theorem isEarliest_of_firstItem {localeCompare : Str → Str → Ordering} [Std.TransCmp localeCompare]
    (hdates : ∀ p q, inboxDateFromPath p ≠ none → inboxDateFromPath q ≠ none →
      ((localeCompare p q).isLE = true ↔ p ≤ q))
    {entries : List NoteEntry} (hentries : listComplete provider (lit "inbox/") = .ok entries)
    {paths : List Str}
    (hpaths : canonicalPaths provider localeCompare (lit "inbox/") inboxDateFromPath .chronological =
      .ok paths)
    {found : Option InboxItem} (h : firstItem provider paths = .ok found) :
    IsEarliest provider entries found := by
  have hmem := canonicalPaths_mem hentries hpaths
  have hlisted : ∀ entry ∈ entries, ∀ date, inboxDateFromPath entry.path = some date →
      entry.path ∈ paths :=
    fun entry hm date hd => (hmem _).mpr ⟨entry, hm, by simp [hd], rfl⟩
  cases firstOf h with
  | none hall =>
    intro entry hm
    cases hd : inboxDateFromPath entry.path with
    | none => simp [dayItems, hd]
    | some date => exact hall _ (hlisted entry hm date hd)
  | @some before after path item more hp hb hi =>
    obtain ⟨entry, hm, hdated, rfl⟩ := (hmem path).mp (by simp [hp])
    obtain ⟨date, hdate⟩ := Option.isSome_iff_exists.mp hdated
    refine ⟨entry, hm, date, more, hdate, hi, fun other ho date' hd' hlt => ?_⟩
    have hsorted := (canonicalPaths_sorted hdates inboxDate_le hpaths).2
    have hother := hlisted other ho date' hd'
    rw [hp] at hother hsorted
    rcases List.mem_append.mp hother with hbefore | hrest
    · exact hb _ hbefore
    · -- The found day, or a later one.
      rcases List.mem_cons.mp hrest with heq | hafter
      · rw [heq, hdate] at hd'
        cases hd'
        exact absurd hlt (List.lt_irrefl _)
      · have hle := (List.pairwise_cons.mp (List.pairwise_append.mp hsorted).2.1).1 _ hafter
          date date' hdate hd'
        exact absurd hlt hle

/-- A store with one day note, of one item. -/
def oneDay : NotesProvider where
  list _ := .ok (.entries [⟨lit "inbox/20260102.md", none, none, none⟩])
  read path := .ok ⟨path, lit "r", lit "## Notes\n- a\n"⟩

def longInbox (n : Nat) : NotesProvider where
  list _ := .ok (.entries [⟨lit "inbox/20260102.md", none, none, none⟩])
  read := (longStore n).read

/-- A listing reads no note. -/
theorem listPages_congr {provider provider' : NotesProvider} (h : provider.list = provider'.list)
    (pathPrefix : Str) (pages : Nat) (entries : List NoteEntry) (cursor : Option Str) :
    listPages provider pathPrefix pages entries cursor =
      listPages provider' pathPrefix pages entries cursor := by
  induction pages generalizing entries cursor with
  | zero => rfl
  | succ pages ih => simp only [listPages, h, ih]

theorem listComplete_longInbox (n : Nat) : listComplete (longInbox n) (lit "inbox/") =
    .ok [⟨lit "inbox/20260102.md", none, none, none⟩] := by
  have hlist : (longInbox n).list = oneDay.list := rfl
  have hone : listComplete oneDay (lit "inbox/") =
      .ok [⟨lit "inbox/20260102.md", none, none, none⟩] := by decide +kernel
  rw [listComplete, listPages_congr hlist, ← listComplete, hone]

theorem canonicalPaths_longInbox (n : Nat) :
    canonicalPaths (longInbox n) compareUnits (lit "inbox/") inboxDateFromPath .chronological =
      .ok [lit "inbox/20260102.md"] := by
  have hdate : (inboxDateFromPath (lit "inbox/20260102.md")).isSome = true := by decide +kernel
  simp only [canonicalPaths, listComplete_longInbox, bind, Except.bind, List.filter, hdate, List.map,
    sortPaths, List.mergeSort_singleton]
  rfl

theorem dayItems_longInbox {n : Nat} (h : byteLength (longNote n) ≤ MAX_NOTE_BYTES) :
    dayItems (longInbox n) (lit "inbox/20260102.md") =
      .ok [⟨⟨lit "2026-01-02", longText n, [], lit "inbox/20260102.md", 2⟩, .note, none⟩] := by
  have hdate : inboxDateFromPath (lit "inbox/20260102.md") = some (lit "2026-01-02") := by
    decide +kernel
  have hpath : inboxPath (lit "2026-01-02") = .ok (lit "inbox/20260102.md") := by decide +kernel
  have hitems := inboxItems_longStore n h
  have hread : (longInbox n).read = (longStore n).read := rfl
  simp only [inboxItems, hpath, bind, Except.bind] at hitems
  simp only [dayItems, hdate, hread]
  cases hr : readOutcome (lit "inbox/20260102.md") ((longStore n).read (lit "inbox/20260102.md")) with
  | error e => simp [hr] at hitems
  | ok note =>
    rw [hr] at hitems
    cases note <;> exact hitems

variable {n : Nat} in
theorem longInbox_stuck (hn : MAX_COLLECTION_RESULT_BYTES ≤ n) (hmax : n + 12 ≤ MAX_NOTE_BYTES) :
    ∃ entries item, listComplete (longInbox n) (lit "inbox/") = .ok entries ∧
      IsEarliest (longInbox n) entries (some item) ∧
      ¬ ∃ pages, Paging.Follows (fun cursor _ => earliestInboxRead (longInbox n) compareUnits cursor)
        EarliestPage.nextCursor (fun _ => 1) none pages := by
  have hday := dayItems_longInbox ((byteLength_longNote n).trans hmax)
  have hbytes := bytes_longItem n (lit "2026-01-02") (lit "inbox/20260102.md")
  have hpaths := canonicalPaths_longInbox n
  generalize (⟨⟨lit "2026-01-02", longText n, [], lit "inbox/20260102.md", 2⟩, .note, none⟩ :
    InboxItem) = item at hday hbytes
  have hdate : inboxDateFromPath (lit "inbox/20260102.md") = some (lit "2026-01-02") := by
    decide +kernel
  have hfirst := firstItem_here hday []
  rw [if_pos (hn.trans_lt hbytes)] at hfirst
  refine ⟨_, item, listComplete_longInbox n, ?_, ?_⟩
  · refine ⟨_, List.mem_singleton_self _, lit "2026-01-02", [], hdate, hday, ?_⟩
    intro other ho date' hd' hlt
    rw [List.mem_singleton.mp ho, hdate] at hd'
    cases hd'
    exact absurd hlt (List.lt_irrefl _)
  · rintro ⟨pages, hf⟩
    exact (((earliest_run hpaths (by simp) .start).2 _ hfirst).not_follows hf).elim
end

end PiEnv.Notes
