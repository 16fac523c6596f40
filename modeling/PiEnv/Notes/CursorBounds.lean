import PiEnv.Notes.EarliestInbox

/-!
# How long a cursor is

A cursor of a collection names its scope and the entry to go on with. Both come
from paths of notes; written out as JSON and in base64 they still fit in what is
accepted of a cursor.
-/

namespace PiEnv.Notes

open Js

theorem length_packJson (value : Json) :
    (packJson value).length = (4 * byteLength (stringify value) + 2) / 3 := by
  rw [packJson, Base64.length_encodeUrl, Utf8.length_encode]

/-- A length that a continuation of a read may have. -/
def Continues (collection : Collection) (scope cursor : Str) : Prop :=
  cursor.length ≤ MAX_LIST_CURSOR_LENGTH ∧
    ∃ position, decodeCursor (some cursor) collection scope = .ok position

/-- A cursor that a read of a collection answers with. -/
inductive Emits (localeCompare : Str → Str → Ordering) (provider : NotesProvider) :
    Collection → Str → Str → Prop
  | projects {cursor limit page next} (hread : projectsListAction localeCompare provider cursor limit = .ok page)
      (hnext : page.nextCursor = some next) : Emits localeCompare provider .projects (lit "all") next
  | wiki {raw target cursor limit page next} (htarget : wikiTarget raw = .ok target)
      (hread : wikiReadAction localeCompare provider raw cursor limit = .ok (.folder page))
      (hnext : page.nextCursor = some next) :
      Emits localeCompare provider .wiki (wikiScope target.target) next
  | datedInbox {raw date cursor limit page next} (hdate : requireIsoDate raw = .ok date)
      (hread : datedInboxRead provider date cursor limit = .ok page)
      (hnext : page.nextCursor = some next) : Emits localeCompare provider .inbox date next
  | earliestInbox {cursor page next} (hread : earliestInboxRead provider localeCompare cursor = .ok page)
      (hnext : page.nextCursor = some next) : Emits localeCompare provider .inbox earliest next
  | worklog {params now paths scope page next}
      (hpaths : worklogPaths provider localeCompare params.selector params.order now = .ok (paths, scope))
      (hread : worklogReadAction provider localeCompare params now = .ok page)
      (hnext : page.nextCursor = some next) : Emits localeCompare provider .worklog scope next

-- -----
-- Short scopes and locations
-- -----

theorem length_collectionText (collection : Collection) : collection.text.length ≤ 8 := by
  cases collection <;> decide

/-- The length of a cursor by those of its scope and location, each unit taken
for six bytes. -/
theorem length_encodeCursor {collection : Collection} {scope : Str} {offset : Nat} {location : Option Str}
    (h : scope.length + (location.getD []).length ≤ 1900) :
    (encodeCursor collection scope offset location).length ≤ MAX_LIST_CURSOR_LENGTH := by
  have hkeys : (lit "v").length = 1 ∧ (lit "collection").length = 10 ∧ (lit "scope").length = 5 ∧
      (lit "offset").length = 6 ∧ (lit "location").length = 8 := by decide
  have hobject := byteLength_object (cursorPayload collection scope offset location)
  have hversion := fieldBytes_num (lit "v") (.ofInt 1)
  have hcollection := fieldBytes_str (lit "collection") collection.text
  have hscope := fieldBytes_str (lit "scope") scope
  have hoffset := fieldBytes_num (lit "offset") (.ofInt offset)
  have htext := length_collectionText collection
  have hmax : MAX_LIST_CURSOR_LENGTH = 16384 := rfl
  rw [encodeCursor, length_packJson, hmax]
  cases location with
  | none =>
    simp only [cursorPayload, List.append_nil, List.map_cons, List.map_nil, List.sum_cons, List.sum_nil,
      Option.getD_none, List.length_nil] at hobject h ⊢
    omega
  | some location =>
    have hlocation := fieldBytes_str (lit "location") location
    simp only [cursorPayload, List.cons_append, List.nil_append, List.map_cons, List.map_nil, List.sum_cons,
      List.sum_nil, Option.getD_some] at hobject h ⊢
    omega

theorem continues_encodeCursor {collection : Collection} {scope : Str} {offset : Nat} {location : Option Str}
    (hlength : (encodeCursor collection scope offset location).length ≤ MAX_LIST_CURSOR_LENGTH)
    (hoffset : offset < maxSafe) : Continues collection scope (encodeCursor collection scope offset location) :=
  ⟨hlength, ⟨offset, location⟩, by rw [decodeCursor_encodeCursor hoffset, if_pos ⟨rfl, rfl⟩]⟩

-- -----
-- Cursors of the Wiki
-- -----

/-- What comes before the scope and between the scope and the location. -/
def wikiOpening : Str := lit "\x7b\"v\":1,\"collection\":\"wiki\",\"scope\":"

def wikiMiddle : Str := lit ",\"offset\":0,\"location\":"

theorem stringify_wikiCursor (scope location : Str) :
    stringify (.obj (cursorPayload .wiki scope 0 (some location))) =
      wikiOpening ++ (quote scope ++ (wikiMiddle ++ (quote location ++ [125]))) := by
  have hopening : wikiOpening = 123 :: (quote (lit "v") ++ 58 :: (Number.ofInt 1).text ++ 44 ::
      (quote (lit "collection") ++ 58 :: quote Collection.wiki.text ++ 44 :: (quote (lit "scope") ++ [58]))) := by
    decide +kernel
  have hmiddle : wikiMiddle = 44 :: (quote (lit "offset") ++ 58 :: (Number.ofInt (0 : Nat)).text ++ 44 ::
      (quote (lit "location") ++ [58])) := by
    decide +kernel
  rw [hopening, hmiddle]
  simp only [cursorPayload, List.cons_append, List.nil_append, stringify, stringifyFields, List.append_assoc]

theorem length_wikiCursor {scope front target : Str} (hfront : ∀ u ∈ front, IsPlainAscii u)
    (h : 6 * scope.length + front.length + 6 * target.length ≤ 12225) :
    (encodeCursor .wiki scope 0 (some (front ++ target))).length ≤ MAX_LIST_CURSOR_LENGTH := by
  have hopening : byteLength wikiOpening = 35 := by decide +kernel
  have hmiddle : byteLength wikiMiddle = 23 := by decide +kernel
  have hclosing : byteLength [125] = 1 := by decide
  have hscope := byteLength_quote scope
  have hlocation := byteLength_quote_plain hfront target
  have h₁ := byteLength_append wikiOpening
    (quote scope ++ (wikiMiddle ++ (quote (front ++ target) ++ [125])))
  have h₂ := byteLength_append (quote scope) (wikiMiddle ++ (quote (front ++ target) ++ [125]))
  have h₃ := byteLength_append wikiMiddle (quote (front ++ target) ++ [125])
  have h₄ := byteLength_append (quote (front ++ target)) [125]
  have hmax : MAX_LIST_CURSOR_LENGTH = 16384 := rfl
  rw [encodeCursor, length_packJson, stringify_wikiCursor, hmax]
  omega

/-- A child of a folder and the folder share the length of a path. -/
theorem wikiChild_lengths {folderTarget : Str} {entry : NoteEntry} {child : WikiChild}
    (hb : entry.path.length ≤ 1024) (h : wikiChild folderTarget entry = some child) :
    (folderTarget ≠ [] → folderTarget.length ≤ 1017) ∧ 5 + child.target.length ≤ 1024 ∧
      (child.kind = lit "folder" → 6 + child.target.length ≤ 1024) := by
  have hwiki : (lit "wiki/").length = 5 := by decide
  have hslash : (lit "/").length = 1 := by decide
  refine ⟨fun hne => ?_, ?_⟩
  · unfold wikiChild at h
    simp only [if_neg hne] at h
    split at h
    · cases h
    case isFalse hc =>
    simp only [Bool.or_eq_true, Bool.not_eq_eq_eq_not, Bool.not_true, decide_eq_true_eq, not_or,
      Bool.not_eq_false] at hc
    have hshort := hc.2
    rw [List.drop_eq_nil_iff] at hshort
    simp only [List.length_append, hwiki, hslash] at hshort
    omega
  · have hpath := wikiChild_path h
    cases child with
    | folder target path =>
      obtain ⟨rfl, rest, hentry⟩ := hpath
      rw [hentry] at hb
      simp only [List.length_append, hwiki, hslash] at hb
      simp only [WikiChild.target]
      omega
    | file item =>
      obtain ⟨rfl, hentry⟩ := hpath
      rw [hentry] at hb
      simp only [List.length_append, hwiki] at hb
      refine ⟨hb, fun hkind => ?_⟩
      exact absurd (show lit "file" = lit "folder" from hkind) (by decide)

/-- The kind of a child and its colon stand for themselves. -/
theorem kind_plain (child : WikiChild) : ∀ u ∈ child.kind ++ lit ":", IsPlainAscii u := by
  have hplain : ∀ kind ∈ [lit "folder", lit "file"],
      (kind ++ lit ":").all (fun u => escapeUnit u == [u] && decide (u < 0x80)) = true := by
    decide +kernel
  have hall : (child.kind ++ lit ":").all (fun u => escapeUnit u == [u] && decide (u < 0x80)) = true := by
    cases child with
    | folder target path => exact hplain (lit "folder") (by simp)
    | file item => exact hplain (lit "file") (by simp)
  intro u hu
  have hunit := List.all_eq_true.mp hall u hu
  simp only [Bool.and_eq_true, beq_iff_eq, decide_eq_true_eq] at hunit
  exact hunit

theorem length_childCursor {folderTarget : Str} {entry : NoteEntry} {child : WikiChild}
    (hb : entry.path.length ≤ 1024) (h : wikiChild folderTarget entry = some child) :
    (encodeCursor .wiki (wikiScope folderTarget) 0 (some (wikiChildCursorKey child))).length ≤
      MAX_LIST_CURSOR_LENGTH := by
  obtain ⟨hscope, htarget, hfolder⟩ := wikiChild_lengths hb h
  have hroot : (lit "/").length = 1 := by decide
  have hshort : (wikiScope folderTarget).length ≤ 1017 := by
    unfold wikiScope
    split
    · rw [hroot]
      omega
    case isFalse hne => exact hscope hne
  refine length_wikiCursor (kind_plain child) ?_
  have hkinds : (lit "folder" ++ lit ":").length = 7 ∧ (lit "file" ++ lit ":").length = 5 := by decide
  cases child with
  | folder target path =>
    have hfolder := hfolder rfl
    have hkind : (WikiChild.folder target path).kind = lit "folder" := rfl
    rw [hkind, hkinds.1]
    omega
  | file item =>
    have hkind : (WikiChild.file item).kind = lit "file" := rfl
    rw [hkind, hkinds.2]
    omega

-- -----
-- The cursor of a page
-- -----

theorem page_cursor {α : Type} {size : α → Nat} {values : List α} {limit offset : Nat}
    {cursorFor : Nat → Str} {answered : Page α} {next : Str}
    (h : page size values limit offset cursorFor = .ok answered) (hnext : answered.nextCursor = some next) :
    ∃ n < values.length, next = cursorFor n := by
  simp only [page, Effects.bind_eq_ok] at h
  obtain ⟨items, -, h⟩ := h
  obtain rfl := Except.ok.inj h
  obtain ⟨hmore, heq⟩ := Option.ite_none_right_eq_some.mp hnext
  exact ⟨_, hmore, (Option.some.inj heq).symm⟩

theorem pageByKey_cursor {α : Type} {size : α → Nat} {key : α → Str} {collection : Collection}
    {scope : Str} {values : List α} {cursor : Option Str} {limit : Option Nat} {answered : Page α}
    {next : Str} (h : pageByKey size key collection scope values cursor limit = .ok answered)
    (hnext : answered.nextCursor = some next) :
    ∃ value ∈ values, next = encodeCursor collection scope 0 (some (key value)) := by
  simp only [pageByKey, Effects.bind_eq_ok] at h
  obtain ⟨position, -, offset, -, hpage⟩ := h
  obtain ⟨n, hn, rfl⟩ := page_cursor hpage hnext
  refine ⟨values[n], List.getElem_mem hn, ?_⟩
  rw [List.getElem?_eq_getElem hn, Option.map_some]

theorem takeWorklogItems_next {items : List WorklogItem} {index limit byteLimit : Nat}
    {batch : WorklogBatch} (h : takeWorklogItems index limit byteLimit items = .ok batch) {next : Nat}
    (hnext : batch.nextIndex = some next) : next < index + items.length := by
  induction items generalizing index limit byteLimit batch with
  | nil =>
    obtain rfl := Except.ok.inj h
    cases hnext
  | cons item rest ih =>
    rw [List.length_cons]
    unfold takeWorklogItems at h
    split at h
    · cases h
    · split at h
      · obtain rfl := Except.ok.inj h
        obtain rfl := Option.some.inj hnext
        omega
      · cases hbatch : takeWorklogItems (index + 1) (limit - 1) (byteLimit - itemBytes item) rest with
        | error cause =>
          rw [hbatch] at h
          cases h
        | ok batch' =>
          rw [hbatch] at h
          obtain rfl := Except.ok.inj h
          have := ih hbatch hnext
          omega

section
variable {localeCompare : Str → Str → Ordering} {provider : NotesProvider}

theorem worklogItems_length {path : Str} {items : List WorklogItem}
    (h : worklogItemsFromPath provider path = .ok items) : items.length < maxSafe := by
  have hitems : recordItems provider path = items := by
    rw [recordItems, h]
    rfl
  exact hitems ▸ recordItems_length path

/-- Where the page of a Worklog stops: at an item of one of its records. -/
theorem collectStarted_cursor {cursor : CursorPosition} {scope : Str} {limit : Nat} {paths : List Str}
    {items : List WorklogItem} {bytes scanned : Nat} {answered : WorklogPage}
    (h : collectStarted provider cursor scope limit items bytes scanned paths = .ok answered) {next : Str}
    (hnext : answered.nextCursor = some next) :
    ∃ path ∈ paths, ∃ index < maxSafe, next = encodeCursor .worklog scope index (some path) := by
  induction paths generalizing items bytes scanned with
  | nil =>
    obtain rfl := Except.ok.inj h
    cases hnext
  | cons path rest ih =>
    unfold collectStarted at h
    split at h
    · obtain rfl := Except.ok.inj h
      exact ⟨path, List.mem_cons_self, 0, by decide, (Option.some.inj hnext).symm⟩
    · simp only [Effects.bind_eq_ok] at h
      obtain ⟨pathItems, hitems, batch, hbatch, h⟩ := h
      split at h
      case h_1 index hindex =>
        obtain rfl := Except.ok.inj h
        have hbefore := takeWorklogItems_next hbatch hindex
        have hlength := worklogItems_length hitems
        rw [List.length_drop] at hbefore
        refine ⟨path, List.mem_cons_self, index, ?_, (Option.some.inj hnext).symm⟩
        -- behind the last item nothing is taken
        rcases Nat.lt_or_ge (if some path = cursor.location then cursor.offset else 0) pathItems.length
          with hwithin | hbeyond
        · omega
        · rw [List.drop_of_length_le hbeyond] at hbatch
          obtain rfl := Except.ok.inj hbatch
          cases hindex
      case h_2 =>
        obtain ⟨path', hpath, rest⟩ := ih h
        exact ⟨path', List.mem_cons_of_mem _ hpath, rest⟩

-- -----
-- The reads
-- -----

theorem length_isoDate {value iso : Str} (h : requireIsoDate value = .ok iso) : iso.length = 10 := by
  obtain ⟨rfl, y, m, d, hmatch⟩ := requireIsoDate_ok h
  obtain ⟨⟨hy, hm, hd⟩, -, rfl⟩ := matchIsoDate_spec hmatch
  simp [join, List.intercalate_cons_cons, hy, hm, hd]

theorem length_worklogScope {selector : Option Str} {today : Str} {selection : WorklogSelection}
    (h : worklogSelection selector today = .ok selection) : selection.scope.length ≤ 22 := by
  unfold worklogSelection at h
  dsimp only at h
  generalize (if trim (selector.getD []) = [] then today else trim (selector.getD [])) = selected at h
  split at h
  · obtain rfl := Except.ok.inj h
    decide
  · split at h
    · simp only [Effects.bind_eq_ok] at h
      obtain ⟨start, hstart, stop, hstop, -, -, h⟩ := h
      obtain rfl := Except.ok.inj h
      have hdots : (lit "..").length = 2 := by decide
      rw [List.length_append, List.length_append, length_isoDate hstart, length_isoDate hstop, hdots]
    · simp only [Effects.bind_eq_ok] at h
      obtain ⟨exact, hexact, h⟩ := h
      obtain rfl := Except.ok.inj h
      rw [length_isoDate hexact]
      decide

/-- The records of a Worklog read have short paths, and its cursors a short scope. -/
theorem worklogPaths_lengths {selector : Option Str} {order : Option CollectionOrder} {now : CalendarDate}
    {paths : List Str} {scope : Str}
    (h : worklogPaths provider localeCompare selector order now = .ok (paths, scope)) :
    scope.length ≤ 36 ∧ ∀ path ∈ paths, path.length ≤ 21 := by
  simp only [worklogPaths, Effects.bind_eq_ok] at h
  obtain ⟨selection, hselection, all, -, h⟩ := h
  obtain ⟨rfl, rfl⟩ := Prod.mk.inj (Except.ok.inj h)
  refine ⟨?_, fun path hpath => ?_⟩
  · have hscope := length_worklogScope hselection
    have horder : ∀ order : CollectionOrder, order.text.length ≤ 13 := by
      intro order
      cases order <;> decide
    have hcolon : (lit ":").length = 1 := by decide
    have := horder (order.getD .newest)
    rw [List.length_append, List.length_append, hcolon]
    omega
  · have hmatches := List.of_mem_filter hpath
    split at hmatches
    case h_1 date hdate =>
      obtain ⟨_, _, _, _, _, _, _, _, rfl, -⟩ := recordDate_units hdate
      simp
    case h_2 => cases hmatches

theorem earliestStarted_cursor {cursor : CursorPosition} {scanned : Nat} {paths : List Str}
    {answered : EarliestPage} (h : earliestStarted provider cursor scanned paths = .ok answered) {next : Str}
    (hnext : answered.nextCursor = some next) :
    ∃ path ∈ paths, next = encodeCursor .inbox earliest 0 (some path) := by
  induction paths generalizing scanned with
  | nil =>
    obtain rfl := Except.ok.inj h
    cases hnext
  | cons path rest ih =>
    unfold earliestStarted at h
    split at h
    · obtain rfl := Except.ok.inj h
      exact ⟨path, List.mem_cons_self, (Option.some.inj hnext).symm⟩
    · rw [Effects.bind_eq_ok] at h
      obtain ⟨item, -, h⟩ := h
      cases item with
      | none =>
        obtain ⟨path', hpath, heq⟩ := ih h
        exact ⟨path', List.mem_cons_of_mem _ hpath, heq⟩
      | some item =>
        simp only [Effects.bind_eq_ok] at h
        obtain ⟨single, hpage, h⟩ := h
        obtain rfl := Except.ok.inj h
        obtain ⟨n, hn, rfl⟩ := page_cursor hpage hnext
        obtain rfl : n = 0 := by simpa using hn
        exact ⟨path, List.mem_cons_self, rfl⟩

theorem length_inboxPaths {paths : List Str} {order : CollectionOrder}
    (h : canonicalPaths provider localeCompare (lit "inbox/") inboxDateFromPath order = .ok paths) :
    ∀ path ∈ paths, path.length = 17 := by
  intro path hpath
  obtain ⟨entries, hentries⟩ : ∃ entries, listComplete provider (lit "inbox/") = .ok entries := by
    simp only [canonicalPaths, Effects.bind_eq_ok] at h
    obtain ⟨entries, hentries, -⟩ := h
    exact ⟨entries, hentries⟩
  obtain ⟨entry, -, hdate, rfl⟩ := (canonicalPaths_mem hentries h path).mp hpath
  obtain ⟨date, hdate⟩ := Option.isSome_iff_exists.mp hdate
  obtain ⟨_, _, _, _, _, _, _, _, hunits, -⟩ := inboxDate_units hdate
  rw [hunits]
  rfl

theorem projectItem_length {entry : NoteEntry} {item : ProjectItem} (hb : entry.path.length ≤ 1024)
    (h : projectItem entry = some item) : item.target.length ≤ 1024 := by
  obtain ⟨rfl, hpath, -⟩ := projectItem_eq_some.mp h
  rw [hpath, List.length_append] at hb
  omega

/-- Every cursor that a read of a collection answers with may be given back to it. -/
theorem emitted_continues {collection : Collection} {scope next : Str}
    (h : Emits localeCompare provider collection scope next) : Continues collection scope next := by
  cases h with
  | projects hread hnext =>
    simp only [projectsListAction, Effects.bind_eq_ok] at hread
    obtain ⟨entries, hentries, hread⟩ := hread
    obtain ⟨item, hitem, rfl⟩ := pageByKey_cursor hread hnext
    obtain ⟨entry, hentry, hitem⟩ := List.mem_filterMap.mp (List.mem_mergeSort.mp hitem)
    have htarget := projectItem_length (listComplete_bounded hentries entry hentry).path hitem
    have hall : (lit "all").length = 3 := by decide
    refine continues_encodeCursor (length_encodeCursor ?_) (by decide)
    rw [hall, Option.getD_some]
    omega
  | @wiki raw target cursor limit page next htarget hread hnext =>
    simp only [wikiReadAction, htarget, bind, Except.bind] at hread
    split at hread
    · split at hread
      · cases hread
      · split at hread
        · cases hread
        · cases hread
    · split at hread
      · cases hread
      case h_2 answered hfolder =>
      obtain rfl : answered = page := by simpa [pure, Except.pure] using hread
      simp only [wikiFolderRead, Effects.bind_eq_ok] at hfolder
      obtain ⟨entries, hentries, hpage⟩ := hfolder
      obtain ⟨child, hchild, rfl⟩ := pageByKey_cursor hpage hnext
      have hspec := (wikiChildren_spec localeCompare (listComplete_nodup hentries) target.target).2 child
      obtain ⟨entry, hentry, hsome⟩ := hspec.mp hchild
      exact continues_encodeCursor (length_childCursor (listComplete_bounded hentries entry hentry).path hsome)
        (by decide)
  | datedInbox hdate hread hnext =>
    simp only [datedInboxRead, Effects.bind_eq_ok] at hread
    obtain ⟨position, -, items, hitems, hpage⟩ := hread
    obtain ⟨n, hn, rfl⟩ := page_cursor hpage hnext
    refine continues_encodeCursor (length_encodeCursor ?_) (hn.trans (inboxItems_spec hitems).1)
    rw [length_isoDate hdate, Option.getD_none]
    decide
  | earliestInbox hread hnext =>
    simp only [earliestInboxRead, Effects.bind_eq_ok] at hread
    obtain ⟨position, -, paths, hpaths, hread⟩ := hread
    have hemitted : ∃ path ∈ paths, next = encodeCursor .inbox earliest 0 (some path) := by
      split at hread
      · exact earliestStarted_cursor hread hnext
      · split at hread
        · cases hread
        · obtain ⟨path, hpath, heq⟩ := earliestStarted_cursor hread hnext
          exact ⟨path, (List.dropWhile_sublist _).mem hpath, heq⟩
    obtain ⟨path, hpath, rfl⟩ := hemitted
    have hscope : earliest.length = 8 := by decide
    refine continues_encodeCursor (length_encodeCursor ?_) (by decide)
    rw [hscope, Option.getD_some, length_inboxPaths hpaths path hpath]
    decide
  | @worklog params now paths scope page next hpaths hread hnext =>
    simp only [worklogReadAction, hpaths, bind, Except.bind] at hread
    split at hread
    · cases hread
    obtain ⟨hscope, hlengths⟩ := worklogPaths_lengths hpaths
    have hemitted : ∃ path ∈ paths, ∃ index < maxSafe,
        next = encodeCursor .worklog scope index (some path) := by
      unfold collectWorklogPage at hread
      split at hread
      · exact collectStarted_cursor hread hnext
      · split at hread
        · cases hread
        · obtain ⟨path, hpath, heq⟩ := collectStarted_cursor hread hnext
          exact ⟨path, (List.dropWhile_sublist _).mem hpath, heq⟩
    obtain ⟨path, hpath, index, hindex, rfl⟩ := hemitted
    refine continues_encodeCursor (length_encodeCursor ?_) hindex
    have := hlengths path hpath
    rw [Option.getD_some]
    omega

end

/-- A store with one record of two items. -/
def twoItems : NotesProvider where
  list _ := .ok (.entries [])
  read path := .ok ⟨path, lit "r", lit "## Worklog\n\n- a\n- b\n"⟩

theorem emitted_continues_twoItems :
    Continues .worklog (lit "2026-01-02:newest")
      (encodeCursor .worklog (lit "2026-01-02:newest") 1 (some (lit "records/2026/01/02.md"))) := by
  let params : WorklogParams := ⟨some (lit "2026-01-02"), none, some 1, none⟩
  have hpaths : worklogPaths twoItems compareUnits params.selector params.order ⟨2026, 1, 2⟩ =
      .ok ([lit "records/2026/01/02.md"], lit "2026-01-02:newest") := by decide +kernel
  have hread : (worklogReadAction twoItems compareUnits params ⟨2026, 1, 2⟩).toOption.bind (·.nextCursor) =
      some (encodeCursor .worklog (lit "2026-01-02:newest") 1 (some (lit "records/2026/01/02.md"))) := by
    decide +kernel
  obtain ⟨page, hpage, hnext⟩ := Option.bind_eq_some_iff.mp hread
  cases hanswered : worklogReadAction twoItems compareUnits params ⟨2026, 1, 2⟩ with
  | error cause =>
    rw [hanswered] at hpage
    cases hpage
  | ok answered =>
    rw [hanswered] at hpage
    obtain rfl := Option.some.inj hpage
    exact emitted_continues (.worklog hpaths hanswered hnext)

end PiEnv.Notes
