import PiEnv.Lib.Paging
import PiEnv.Lib.Search
import PiEnv.Lib.Sorting
import PiEnv.Notes.Cursor
import PiEnv.Notes.Inventory

/-!
# Reading the Worklog

The day records a selector picks, and the pages of their items. Three budgets
end a page: items, bytes and documents.
-/

namespace PiEnv.Notes

open Js

inductive CollectionOrder where
  | newest | chronological
  deriving DecidableEq, Repr

def CollectionOrder.text : CollectionOrder → Str
  | .newest => lit "newest"
  | .chronological => lit "chronological"

/-- The groups of `/^records\/(\d{4})\/(\d{2})\/(\d{2})\.md$/`. -/
def matchRecordPath : Str → Option (Str × Str × Str)
  | [114, 101, 99, 111, 114, 100, 115, 47, y₁, y₂, y₃, y₄, 47, m₁, m₂, 47, d₁, d₂, 46, 109, 100] =>
    if [y₁, y₂, y₃, y₄, m₁, m₂, d₁, d₂].all isDigit then
      some ([y₁, y₂, y₃, y₄], [m₁, m₂], [d₁, d₂])
    else none
  | _ => none

def recordDateFromPath (path : Str) : Option Str :=
  match matchRecordPath path with
  | none => none
  | some (y, m, d) => (requireIsoDate (y ++ lit "-" ++ m ++ lit "-" ++ d)).toOption

structure WorklogSelection where
  scope : Str
  selects : Str → Bool

def worklogSelection (selector : Option Str) (today : Str) : Except NotesError WorklogSelection := do
  let trimmed := trim (selector.getD [])
  let selected := if trimmed = [] then today else trimmed
  if selected = lit "all" then return ⟨lit "all", fun _ => true⟩
  match indexOfText (lit "..") selected with
  | some separator =>
    let start ← requireIsoDate (selected.take separator)
    let stop ← requireIsoDate (selected.drop (separator + 2))
    throwIf (stop < start)
      (invalidSelector (lit "Worklog range start must not be after its end."))
    return ⟨start ++ lit ".." ++ stop, fun date => start ≤ date && date ≤ stop⟩
  | none =>
    let exact ← requireIsoDate selected
    return ⟨exact, fun date => date == exact⟩

-- -----
-- One page
-- -----

def itemBytes (item : WorklogItem) : Nat := byteLength (stringify item.toJson)

structure WorklogBatch where
  items : List WorklogItem
  bytes : Nat
  nextIndex : Option Nat

def WorklogBatch.cons (item : WorklogItem) (batch : WorklogBatch) : WorklogBatch :=
  ⟨item :: batch.items, itemBytes item + batch.bytes, batch.nextIndex⟩

/-- The loop of `takeWorklogItems` from an index on, with as many items and
bytes as are still allowed. -/
def takeWorklogItems (index limit byteLimit : Nat) :
    List WorklogItem → Except NotesError WorklogBatch
  | [] => .ok ⟨[], 0, none⟩
  | item :: rest =>
    if itemBytes item > MAX_COLLECTION_RESULT_BYTES then
      .error (.provider .resourceLimit (lit "One Worklog item exceeds the result byte limit."))
    else if limit = 0 ∨ itemBytes item > byteLimit then .ok ⟨[], 0, some index⟩
    else
      (takeWorklogItems (index + 1) (limit - 1) (byteLimit - itemBytes item) rest).map (·.cons item)

structure WorklogPage where
  items : List WorklogItem
  nextCursor : Option Str
  /-- How many records were visited. -/
  scanned : Nat

section
variable (provider : NotesProvider)

def worklogItemsFromPath (path : Str) : Except NotesError (List WorklogItem) :=
  match recordDateFromPath path with
  | none => .ok []
  | some date =>
    (readOutcome path (provider.read path)).map fun note =>
      match note with
      | none => []
      | some note => extractWorklogItems note.content date path

def invalidCollectionCursor : NotesError :=
  .provider .invalidPath
    (lit "Notes continuation cursor no longer matches the collection inventory.")

/-- The loop of `collectWorklogPage` once it has started, after these items and
records. -/
def collectStarted (cursor : CursorPosition) (scope : Str) (limit : Nat) :
    List WorklogItem → Nat → Nat → List Str → Except NotesError WorklogPage
  | items, _, scanned, [] => .ok ⟨items, none, scanned⟩
  | items, bytes, scanned, path :: rest =>
    if scanned = MAX_COLLECTION_DOCUMENTS_PER_READ then
      .ok ⟨items, some (encodeCursor .worklog scope 0 (some path)), scanned⟩
    else do
      let pathItems ← worklogItemsFromPath provider path
      let start := if some path = cursor.location then cursor.offset else 0
      let batch ← takeWorklogItems start (limit - items.length) (MAX_COLLECTION_RESULT_BYTES - bytes)
        (pathItems.drop start)
      match batch.nextIndex with
      | some index =>
        return ⟨items ++ batch.items, some (encodeCursor .worklog scope index (some path)),
          scanned + 1⟩
      | none =>
        collectStarted cursor scope limit (items ++ batch.items) (bytes + batch.bytes) (scanned + 1)
          rest

/-- The paths up to the one the cursor is at are passed over. -/
def collectWorklogPage (paths : List Str) (cursor : CursorPosition) (scope : Str) (limit : Nat) :
    Except NotesError WorklogPage :=
  match cursor.location with
  | none => collectStarted provider cursor scope limit [] 0 0 paths
  | some location =>
    match paths.dropWhile (· != location) with
    | [] => .error invalidCollectionCursor
    | rest => collectStarted provider cursor scope limit [] 0 0 rest

-- -----
-- The action
-- -----

variable (localeCompare : Str → Str → Ordering)

def sortPaths (paths : List Str) : List Str :=
  paths.mergeSort fun left right => (localeCompare left right).isLE

def canonicalPaths (pathPrefix : Str) (dateFromPath : Str → Option Str) (order : CollectionOrder) :
    Except NotesError (List Str) := do
  let entries ← listComplete provider pathPrefix
  let paths := sortPaths localeCompare
    ((entries.filter fun entry => (dateFromPath entry.path).isSome).map (·.path))
  return match order with
    | .newest => paths.reverse
    | .chronological => paths

structure WorklogParams where
  selector : Option Str
  order : Option CollectionOrder
  limit : Option Nat
  cursor : Option Str
  deriving DecidableEq, Repr

def collectionLimit (limit : Option Nat) : Nat :=
  min (limit.getD DEFAULT_COLLECTION_LIMIT) MAX_COLLECTION_LIMIT

/-- The records among which a selection picks. -/
def candidatePaths (selection : WorklogSelection) (today : Str) (order : CollectionOrder) :
    Except NotesError (List Str) :=
  if selection.scope = today ∨ (matchIsoDate selection.scope).isSome then
    (recordPath selection.scope).map fun path => [path]
  else canonicalPaths provider localeCompare (lit "records/") recordDateFromPath order

/-- The selected records in the requested order, and the scope of the read. -/
def worklogPaths (selector : Option Str) (order : Option CollectionOrder) (now : CalendarDate) :
    Except NotesError (List Str × Str) := do
  let today := localDate now
  let selection ← worklogSelection selector today
  let order := order.getD .newest
  let paths ← candidatePaths provider localeCompare selection today order
  let selectedPaths := paths.filter fun path =>
    match recordDateFromPath path with
    | some date => selection.selects date
    | none => false
  return (selectedPaths, selection.scope ++ lit ":" ++ order.text)

def worklogReadAction (params : WorklogParams) (now : CalendarDate) :
    Except NotesError WorklogPage := do
  let (selectedPaths, scope) ←
    worklogPaths provider localeCompare params.selector params.order now
  let cursor ← decodeCursor params.cursor .worklog scope
  collectWorklogPage provider selectedPaths cursor scope (collectionLimit params.limit)
end

-- -----
-- What one page takes
-- -----

def bytesOf (items : List WorklogItem) : Nat := (items.map itemBytes).sum

theorem takeWorklogItems_spec {items : List WorklogItem}
    (hfit : ∀ item ∈ items, itemBytes item ≤ MAX_COLLECTION_RESULT_BYTES)
    (index limit byteLimit : Nat) :
    ∃ k, k ≤ items.length ∧
      takeWorklogItems index limit byteLimit items =
        .ok ⟨items.take k, bytesOf (items.take k),
          if k = items.length then none else some (index + k)⟩ ∧
      k ≤ limit ∧ bytesOf (items.take k) ≤ byteLimit ∧
      (MAX_COLLECTION_RESULT_BYTES ≤ byteLimit → 0 < limit → items ≠ [] → 0 < k) := by
  induction items generalizing index limit byteLimit with
  | nil => exact ⟨0, by simp, rfl, by simp, by simp [bytesOf], by simp⟩
  | cons item rest ih =>
    have hitem := hfit item (by simp)
    unfold takeWorklogItems
    rw [if_neg (by omega)]
    split
    · rename_i hstop
      exact ⟨0, by simp, by simp [bytesOf], by simp, by simp [bytesOf], by omega⟩
    · rename_i hgo
      obtain ⟨k, hk, hrun, hlimit, hbytes, -⟩ := ih (fun i hi => hfit i (by simp [hi])) (index + 1)
        (limit - 1) (byteLimit - itemBytes item)
      refine ⟨k + 1, by simpa using hk, ?_, by omega, ?_, by omega⟩
      · rw [hrun]
        simp only [Except.map, WorklogBatch.cons, List.take_succ_cons, List.length_cons,
          Nat.add_right_cancel_iff, bytesOf, List.map_cons, List.sum_cons]
        congr 2
        split <;> simp
        omega
      · simp only [bytesOf, List.take_succ_cons, List.map_cons, List.sum_cons] at hbytes ⊢
        omega

section
variable {provider : NotesProvider} (scope : Str) {limit : Nat} {f : Str → List WorklogItem}

/-- A page that goes on after these items: what it takes, and where it stops. -/
structure PageOf (f : Str → List WorklogItem) (scope : Str) (limit : Nat) (items : List WorklogItem)
    (bytes : Nat) (paths : List Str) (page : WorklogPage) (taken : List WorklogItem) : Prop where
  items : page.items = items ++ taken
  limit : page.items.length ≤ limit
  bytes : bytes + bytesOf taken ≤ MAX_COLLECTION_RESULT_BYTES
  scanned : page.scanned ≤ MAX_COLLECTION_DOCUMENTS_PER_READ
  stop : (page.nextCursor = none ∧ taken = paths.flatMap f) ∨
    ∃ before path after index, paths = before ++ path :: after ∧ index ≤ (f path).length ∧
      page.nextCursor = some (encodeCursor .worklog scope index (some path)) ∧
      taken ++ ((f path).drop index ++ after.flatMap f) = paths.flatMap f

theorem collectStarted_spec {cursor : CursorPosition} {paths : List Str}
    (hread : ∀ path ∈ paths, worklogItemsFromPath provider path = .ok (f path))
    (hfit : ∀ path ∈ paths, ∀ item ∈ f path, itemBytes item ≤ MAX_COLLECTION_RESULT_BYTES)
    (hloc : ∀ path ∈ paths, some path ≠ cursor.location) {items : List WorklogItem}
    {bytes scanned : Nat} (hl : items.length ≤ limit) (hb : bytes ≤ MAX_COLLECTION_RESULT_BYTES)
    (hs : scanned ≤ MAX_COLLECTION_DOCUMENTS_PER_READ) :
    ∃ page taken, collectStarted provider cursor scope limit items bytes scanned paths = .ok page ∧
      PageOf f scope limit items bytes paths page taken := by
  induction paths generalizing items bytes scanned with
  | nil =>
    exact ⟨⟨items, none, scanned⟩, [], rfl, by simp, hl, by simpa [bytesOf] using hb, hs, .inl ⟨rfl, rfl⟩⟩
  | cons path rest ih =>
    unfold collectStarted
    split
    · exact ⟨_, [], rfl, by simp, hl, by simpa [bytesOf] using hb, hs,
        .inr ⟨[], path, rest, 0, rfl, by simp, rfl, by simp⟩⟩
    · rename_i hscanned
      obtain ⟨k, hk, htake, hlimit, hbytes, -⟩ := takeWorklogItems_spec (hfit path (by simp)) 0
        (limit - items.length) (MAX_COLLECTION_RESULT_BYTES - bytes)
      have hlength : (items ++ (f path).take k).length ≤ limit := by
        simp only [List.length_append, List.length_take]
        omega
      simp only [hread path (by simp), if_neg (hloc path (by simp)), List.drop_zero, htake, bind,
        Except.bind, Nat.zero_add]
      split
      · rename_i index hindex
        have hkeq : k = index := by
          split at hindex
          · cases hindex
          · exact Option.some.inj hindex
        subst hkeq
        refine ⟨_, (f path).take k, rfl, rfl, hlength, by omega, Nat.lt_of_le_of_ne hs hscanned, .inr
          ⟨[], path, rest, k, rfl, hk, rfl, ?_⟩⟩
        rw [← List.append_assoc, List.take_append_drop]
        rfl
      · rename_i hnone
        have hkeq : k = (f path).length := by
          split at hnone
          · assumption
          · cases hnone
        have hall : (f path).take k = f path := by rw [hkeq, List.take_length]
        rw [hall] at hlength hbytes ⊢
        have hbytes' : bytes + bytesOf (f path) ≤ MAX_COLLECTION_RESULT_BYTES := by omega
        obtain ⟨page, taken, hpage, hof⟩ := ih (fun p hp => hread p (by simp [hp]))
          (fun p hp => hfit p (by simp [hp])) (fun p hp => hloc p (by simp [hp])) hlength
          hbytes' (Nat.lt_of_le_of_ne hs hscanned)
        refine ⟨page, f path ++ taken, hpage, by rw [hof.items, List.append_assoc], hof.limit, ?_,
          hof.scanned, ?_⟩
        · have := hof.bytes
          simp only [bytesOf, List.map_append, List.sum_append] at this ⊢
          omega
        · rcases hof.stop with ⟨hn, ht⟩ | ⟨before, p, after, index, hp, hi, hn, ht⟩
          · exact .inl ⟨hn, by rw [ht]; rfl⟩
          · refine .inr ⟨path :: before, p, after, index, by rw [hp]; rfl, hi, hn, ?_⟩
            rw [List.append_assoc, ht]
            rfl
/-- The page at a cursor in the first of these records. -/
theorem collectStarted_head (cursor : CursorPosition) {path : Str} {rest : List Str}
    (hread : ∀ p ∈ path :: rest, worklogItemsFromPath provider p = .ok (f p))
    (hfit : ∀ p ∈ path :: rest, ∀ item ∈ f p, itemBytes item ≤ MAX_COLLECTION_RESULT_BYTES)
    (hloc : ∀ p ∈ rest, some p ≠ cursor.location) (offset : Nat)
    (hoff : (if some path = cursor.location then cursor.offset else 0) = offset)
    (hle : offset ≤ (f path).length) (hl : 0 < limit) :
    ∃ page, collectStarted provider cursor scope limit [] 0 0 (path :: rest) = .ok page ∧
      page.items.length ≤ limit ∧ bytesOf page.items ≤ MAX_COLLECTION_RESULT_BYTES ∧
      page.scanned ≤ MAX_COLLECTION_DOCUMENTS_PER_READ ∧
      ((page.nextCursor = none ∧ page.items = (f path).drop offset ++ rest.flatMap f) ∨
        ∃ before p after index, path :: rest = before ++ p :: after ∧ index ≤ (f p).length ∧
          page.nextCursor = some (encodeCursor .worklog scope index (some p)) ∧
          page.items ++ ((f p).drop index ++ after.flatMap f) =
            (f path).drop offset ++ rest.flatMap f ∧ (before = [] → page.items ≠ [])) := by
  have hleft : ∀ i ∈ (f path).drop offset, itemBytes i ≤ MAX_COLLECTION_RESULT_BYTES :=
    fun i hi => hfit path (by simp) i (List.mem_of_mem_drop hi)
  obtain ⟨k, hk, htake, hlimit, hbytes, hpos⟩ := takeWorklogItems_spec hleft offset limit
    MAX_COLLECTION_RESULT_BYTES
  rw [List.length_drop] at hk htake
  unfold collectStarted
  rw [if_neg (by decide)]
  simp only [hread path (by simp), hoff, List.length_nil, Nat.sub_zero, htake, bind, Except.bind,
    List.nil_append, Nat.zero_add]
  split
  · rename_i index hindex
    split at hindex
    · cases hindex
    rename_i hlt
    obtain rfl := Option.some.inj hindex
    have hsplit : ((f path).drop offset).take k ++ (f path).drop (offset + k) =
        (f path).drop offset := by
      rw [← List.drop_drop, List.take_append_drop]
    have hne : ((f path).drop offset).take k ≠ [] := by
      have hnil : (f path).drop offset ≠ [] := by
        rw [Ne, List.drop_eq_nil_iff]
        omega
      have := hpos le_rfl hl hnil
      simp only [Ne, List.take_eq_nil_iff, hnil, or_false]
      omega
    refine ⟨_, rfl, ?_, hbytes, show 1 ≤ 32 by omega, .inr ⟨[], path, rest, offset + k, rfl, by omega,
      rfl, ?_, fun _ => hne⟩⟩
    · simp only [List.length_take]
      omega
    · rw [← List.append_assoc, hsplit]
  · rename_i hnone
    split at hnone
    swap
    · cases hnone
    rename_i hkeq
    have hall : ((f path).drop offset).take k = (f path).drop offset := by
      rw [hkeq, ← List.length_drop, List.take_length]
    rw [hall] at hbytes ⊢
    have hlength : ((f path).drop offset).length ≤ limit := by
      rw [List.length_drop]
      omega
    have hreadRest : ∀ p ∈ rest, worklogItemsFromPath provider p = .ok (f p) :=
      fun p hp => hread p (by simp [hp])
    obtain ⟨page, taken, hpage, hof⟩ := collectStarted_spec scope hreadRest
      (fun p hp => hfit p (by simp [hp])) hloc hlength hbytes
      (show 1 ≤ MAX_COLLECTION_DOCUMENTS_PER_READ by decide)
    refine ⟨page, hpage, hof.limit, ?_, hof.scanned, ?_⟩
    · have := hof.bytes
      rw [hof.items]
      simpa only [bytesOf, List.map_append, List.sum_append] using this
    · rw [hof.items]
      rcases hof.stop with ⟨hn, ht⟩ | ⟨before, p, after, index, hp, hi, hn, ht⟩
      · exact .inl ⟨hn, by rw [ht]⟩
      · refine .inr ⟨path :: before, p, after, index, by rw [hp]; rfl, hi, hn, ?_, by simp⟩
        rw [List.append_assoc, ht]

/-- What a cursor stands for: what is left of the items, and a measure that
gets smaller from page to page. -/
inductive At (f : Str → List WorklogItem) (scope : Str) (paths : List Str) :
    Option Str → List WorklogItem → Nat → Prop
  | start : At f scope paths none (paths.flatMap f) (paths.length + (paths.flatMap f).length + 1)
  | resume (before : List Str) {after : List Str} {path : Str} {index : Nat}
      (hp : paths = before ++ path :: after) (hi : index ≤ (f path).length) :
      At f scope paths (some (encodeCursor .worklog scope index (some path)))
        ((f path).drop index ++ after.flatMap f)
        (after.length + 1 + ((f path).drop index ++ after.flatMap f).length)

def GoodPage (limit : Nat) (page : WorklogPage) : Prop :=
  page.items.length ≤ limit ∧ bytesOf page.items ≤ MAX_COLLECTION_RESULT_BYTES ∧
    page.scanned ≤ MAX_COLLECTION_DOCUMENTS_PER_READ

theorem dropWhile_location {before after : List Str} {path : Str} (h : path ∉ before) :
    (before ++ path :: after).dropWhile (· != path) = path :: after := by
  rw [List.dropWhile_append_of_pos]
  · simp
  · intro p hp
    simp only [bne_iff_ne]
    rintro rfl
    exact h hp

theorem collectWorklogPage_takes {paths : List Str}
    (hread : ∀ path ∈ paths, worklogItemsFromPath provider path = .ok (f path))
    (hfit : ∀ path ∈ paths, ∀ item ∈ f path, itemBytes item ≤ MAX_COLLECTION_RESULT_BYTES)
    (hsafe : ∀ path ∈ paths, (f path).length < maxSafe) (hn : paths.Nodup)
    {cursor : Option Str} {rest : List WorklogItem} {size : Nat}
    (hat : At f scope paths cursor rest size) (hl : 0 < limit) :
    ∃ page, (decodeCursor cursor .worklog scope >>= fun position =>
        collectWorklogPage provider paths position scope limit) = .ok page ∧
      Paging.Takes WorklogPage.nextCursor WorklogPage.items (At f scope paths) GoodPage
        limit rest size page := by
  cases hat with
  | start =>
    cases hpaths : paths with
    | nil =>
      exact ⟨⟨[], none, 0⟩, rfl, ⟨by simp, by simp [bytesOf], by simp⟩, fun _ => rfl, by simp⟩
    | cons path after =>
      subst hpaths
      obtain ⟨page, hpage, h1, h2, h3, hstop⟩ := collectStarted_head scope ⟨0, none⟩ hread
        hfit (by simp) 0 (by simp) (by simp) hl
      refine ⟨page, hpage, ⟨h1, h2, h3⟩, ?_, ?_⟩
      · intro hnext
        rcases hstop with ⟨-, hitems⟩ | ⟨_, _, _, _, _, _, hn', _⟩
        · simpa using hitems
        · rw [hnext] at hn'
          cases hn'
      · intro c hnext
        rcases hstop with ⟨hn', -⟩ | ⟨before, p, rest, index, hp, hi, hn', ht, hprog⟩
        · rw [hnext] at hn'
          cases hn'
        · rw [hnext] at hn'
          obtain rfl := Option.some.inj hn'
          refine ⟨_, _, by simpa using ht, ?_, .resume before hp hi⟩
          have hlen := congrArg List.length hp
          have hitems := congrArg List.length ht
          simp only [List.length_append, List.length_cons, List.flatMap_cons, List.drop_zero] at *
          omega
  | @resume before after path index hp hi =>
    have hmem : path ∈ paths := by simp [hp]
    have hsub : ∀ p ∈ path :: after, p ∈ paths := by
      intro p hmem
      rw [hp]
      exact List.mem_append_right _ hmem
    rw [hp, List.nodup_append] at hn
    obtain ⟨-, hafter, hdisj⟩ := hn
    have hbefore : path ∉ before := fun hm => hdisj path hm path (by simp) rfl
    have hloc : ∀ p ∈ after, some p ≠ some path := by
      rintro p hm ⟨rfl⟩
      exact (List.nodup_cons.mp hafter).1 hm
    have hreadLeft : ∀ p ∈ path :: after, worklogItemsFromPath provider p = .ok (f p) :=
      fun p hm => hread p (hsub p hm)
    obtain ⟨page, hpage, h1, h2, h3, hstop⟩ := collectStarted_head scope ⟨index, some path⟩
      hreadLeft (fun p hm => hfit p (hsub p hm)) hloc index (by simp) hi hl
    have hpos : decodeCursor (some (encodeCursor .worklog scope index (some path))) .worklog scope =
        .ok ⟨index, some path⟩ := by
      rw [decodeCursor_encodeCursor (lt_of_le_of_lt hi (hsafe path hmem)), if_pos ⟨rfl, rfl⟩]
    refine ⟨page, ?_, ⟨h1, h2, h3⟩, ?_, ?_⟩
    · rw [hpos, hp]
      simp only [bind, Except.bind, collectWorklogPage]
      rw [dropWhile_location hbefore]
      exact hpage
    · intro hnext
      rcases hstop with ⟨-, hitems⟩ | ⟨_, _, _, _, _, _, hn', _⟩
      · exact hitems
      · rw [hnext] at hn'
        cases hn'
    · intro c hnext
      rcases hstop with ⟨hn', -⟩ | ⟨before', p, rest, index', hp', hi', hn', ht, hprog⟩
      · rw [hnext] at hn'
        cases hn'
      · rw [hnext] at hn'
        obtain rfl := Option.some.inj hn'
        refine ⟨_, _, ht, ?_, .resume (before ++ before')
          (by rw [hp, hp', List.append_assoc]) hi'⟩
        have hlen := congrArg List.length hp'
        have hitems := congrArg List.length ht
        have hpos : before' = [] → 0 < page.items.length :=
          fun h => List.length_pos_iff.mpr (hprog h)
        cases before' with
        | nil =>
          have := hpos rfl
          simp only [List.length_append, List.length_cons, List.nil_append] at *
          omega
        | cons q qs =>
          simp only [List.length_append, List.length_cons] at *
          omega
end

-- -----
-- The order of day records
-- -----

theorem requireIsoDate_toOption {value iso : Str} (h : (requireIsoDate value).toOption = some iso) :
    iso = value := by
  cases hr : requireIsoDate value with
  | error e => simp [hr, Except.toOption] at h
  | ok v =>
    rw [hr] at h
    rw [← Option.some.inj h]
    exact (requireIsoDate_ok hr).1

/-- The units of a record's path that are not the same in every such path, and
its date. -/
theorem recordDate_units {path date : Str} (h : recordDateFromPath path = some date) :
    ∃ a b c d e f g i : UInt16,
      path = [114, 101, 99, 111, 114, 100, 115, 47, a, b, c, d, 47, e, f, 47, g, i, 46, 109, 100] ∧
        date = [a, b, c, d, 45, e, f, 45, g, i] := by
  unfold recordDateFromPath matchRecordPath at h
  split at h
  · cases h
  · rename_i y m d hm
    split at hm
    · split at hm
      · obtain ⟨rfl, rfl, rfl⟩ : _ ∧ _ ∧ _ := by simpa using hm
        exact ⟨_, _, _, _, _, _, _, _, rfl, requireIsoDate_toOption h⟩
      · cases hm
    · cases hm

/-- Paths of day records are in the order of their dates. -/
theorem recordDate_le {p q dp dq : Str} (hp : recordDateFromPath p = some dp)
    (hq : recordDateFromPath q = some dq) : (p ≤ q ↔ dp ≤ dq) ∧ (dp = dq → p = q) := by
  obtain ⟨a, b, c, d, e, f, g, i, rfl, rfl⟩ := recordDate_units hp
  obtain ⟨a', b', c', d', e', f', g', i', rfl, rfl⟩ := recordDate_units hq
  constructor
  · simp [List.cons_le_cons_iff]
  · simp

theorem sortPaths_perm (localeCompare : Str → Str → Ordering) (paths : List Str) :
    (sortPaths localeCompare paths).Perm paths := List.mergeSort_perm _ _

theorem sortPaths_sorted (localeCompare : Str → Str → Ordering) [Std.TransCmp localeCompare]
    (paths : List Str) :
    (sortPaths localeCompare paths).Pairwise fun p q => (localeCompare p q).isLE = true :=
  Sorting.mergeSort_sorted localeCompare paths

theorem itemsFrom_positions (kind : Option InboxItemKind) (date sourcePath : Str) (index : Nat)
    (marked : List (Str × Bool)) :
    ((itemsFrom kind date sourcePath index marked).map fun parsed => parsed.item.position).Pairwise
        (· < ·) ∧
      ∀ parsed ∈ itemsFrom kind date sourcePath index marked,
        index < parsed.item.position ∧ parsed.item.date = date := by
  induction marked generalizing index with
  | nil => simp [itemsFrom]
  | cons entry rest ih =>
    obtain ⟨line, visible⟩ := entry
    obtain ⟨hsorted, hall⟩ := ih (index + 1)
    have hmore : ∀ parsed ∈ itemsFrom kind date sourcePath (index + 1) rest,
        index < parsed.item.position ∧ parsed.item.date = date :=
      fun parsed hm => ⟨by have := (hall parsed hm).1; omega, (hall parsed hm).2⟩
    unfold itemsFrom
    split
    · refine ⟨List.pairwise_cons.mpr ⟨?_, hsorted⟩, List.forall_mem_cons.mpr ⟨⟨by simp, rfl⟩, hmore⟩⟩
      intro n hn
      obtain ⟨parsed, hm, rfl⟩ := List.mem_map.mp hn
      exact (hall parsed hm).1
    · exact ⟨hsorted, hmore⟩

theorem worklogItems_positions (content date sourcePath : Str) :
    ((extractWorklogItems content date sourcePath).map (·.position)).Pairwise (· < ·) ∧
      ∀ item ∈ extractWorklogItems content date sourcePath, item.date = date := by
  unfold extractWorklogItems extractListItems
  simp only
  split
  · simp
  · obtain ⟨hsorted, hall⟩ := itemsFrom_positions none date sourcePath _ _
    constructor
    · rw [List.map_map]
      exact hsorted
    · intro item hm
      obtain ⟨parsed, hp, rfl⟩ := List.mem_map.mp hm
      exact (hall parsed hp).2

/-- Days in the requested order, and the items of a day as its record lists
them. -/
def Precedes (order : CollectionOrder) (a b : WorklogItem) : Prop :=
  if a.date = b.date then a.position < b.position
  else
    match order with
    | .newest => b.date ≤ a.date
    | .chronological => a.date ≤ b.date

section
variable (provider : NotesProvider) (localeCompare : Str → Str → Ordering)

/-- All items of the selected records, in order. -/
def selectedItems (selector : Option Str) (order : Option CollectionOrder) (now : CalendarDate) :
    Except NotesError (List WorklogItem) := do
  let (paths, _) ← worklogPaths provider localeCompare selector order now
  let items ← paths.mapM (worklogItemsFromPath provider)
  return items.flatten

variable {provider localeCompare}

/-- What a record that can be read holds. -/
def recordItems (provider : NotesProvider) (path : Str) : List WorklogItem :=
  (worklogItemsFromPath provider path).toOption.getD []

theorem mapM_ok {α β : Type} {g : α → Except NotesError β} {xs : List α} {ys : List β}
    (h : xs.mapM g = .ok ys) {d : β} :
    (∀ x ∈ xs, g x = .ok ((g x).toOption.getD d)) ∧ ys = xs.map fun x => (g x).toOption.getD d := by
  induction xs generalizing ys with
  | nil => simp_all [pure, Except.pure]
  | cons x xs ih =>
    rw [List.mapM_cons, Effects.bind_eq_ok] at h
    obtain ⟨y, hy, h⟩ := h
    rw [Effects.bind_eq_ok] at h
    obtain ⟨zs, hzs, h⟩ := h
    obtain ⟨hall, rfl⟩ := ih hzs
    obtain rfl := Except.ok.inj h
    refine ⟨List.forall_mem_cons.mpr ⟨by simp [hy, Except.toOption], hall⟩, ?_⟩
    simp [hy, Except.toOption]

variable (provider) in
theorem recordItems_eq (path : Str) :
    recordItems provider path = [] ∨
      ∃ date note, recordDateFromPath path = some date ∧
        readOutcome path (provider.read path) = .ok (some note) ∧
        recordItems provider path = extractWorklogItems note.content date path := by
  unfold recordItems worklogItemsFromPath
  split
  · exact .inl rfl
  · rename_i date hdate
    cases hr : readOutcome path (provider.read path) with
    | error e => exact .inl rfl
    | ok note =>
      cases note with
      | none => exact .inl rfl
      | some note => exact .inr ⟨date, note, hdate, rfl, rfl⟩

/-- A note that was read is of bounded size. -/
theorem readOutcome_size {path : Str} {answer : Except NotesError NoteDocument}
    {note : NoteDocument} (h : readOutcome path answer = .ok (some note)) :
    byteLength note.content ≤ MAX_NOTE_BYTES := by
  unfold readOutcome at h
  split at h
  · rename_i read hread
    obtain rfl := Option.some.inj (Except.ok.inj h)
    cases answer with
    | error e => cases hread
    | ok document =>
      simp only [Except.bind, validateDocument, Effects.bind_eq_ok] at hread
      obtain ⟨path', -, hread⟩ := hread
      split at hread
      · cases hread
      split at hread
      · cases hread
      rw [Effects.bind_eq_ok] at hread
      obtain ⟨_, -, hread⟩ := hread
      rw [Effects.bind_eq_ok] at hread
      obtain ⟨_, hsize, hread⟩ := hread
      obtain rfl := Except.ok.inj hread
      unfold assertNoteSize at hsize
      split at hsize
      · cases hsize
      · omega
  · cases h
  · cases h

theorem recordItems_length (path : Str) : (recordItems provider path).length < maxSafe := by
  rcases recordItems_eq provider path with h | ⟨date, note, -, hr, h⟩
  · rw [h]
    decide
  · rw [h, extractWorklogItems, List.length_map]
    have hlen := length_extractListItems note.content .worklog none date path
    have hsize := readOutcome_size hr
    have hmax : MAX_NOTE_BYTES + 1 < maxSafe := by decide
    omega

variable (provider) in
theorem recordItems_positions (path : Str) :
    ((recordItems provider path).map (·.position)).Pairwise (· < ·) ∧
      ∀ item ∈ recordItems provider path, recordDateFromPath path = some item.date := by
  rcases recordItems_eq provider path with h | ⟨date, note, hdate, -, h⟩
  · simp [h]
  · obtain ⟨hsorted, hall⟩ := worklogItems_positions note.content date path
    rw [h]
    exact ⟨hsorted, fun item hm => by rw [hdate, hall item hm]⟩

/-- Paths whose days come in the requested order. -/
def DayOrder (dateFromPath : Str → Option Str) (order : CollectionOrder) (p q : Str) : Prop :=
  ∀ dp dq, dateFromPath p = some dp → dateFromPath q = some dq →
    match order with
    | .newest => dq ≤ dp
    | .chronological => dp ≤ dq

theorem canonicalPaths_mem {pathPrefix : Str} {dateFromPath : Str → Option Str}
    {order : CollectionOrder} {entries : List NoteEntry} {paths : List Str}
    (hentries : listComplete provider pathPrefix = .ok entries)
    (h : canonicalPaths provider localeCompare pathPrefix dateFromPath order = .ok paths) (path : Str) :
    path ∈ paths ↔ ∃ entry ∈ entries, (dateFromPath entry.path).isSome = true ∧ entry.path = path := by
  simp only [canonicalPaths, hentries, bind, Except.bind, pure, Except.pure, Except.ok.injEq] at h
  subst h
  cases order <;> simp [(sortPaths_perm localeCompare _).mem_iff, and_assoc]

/-- The day notes of an inventory: each once, and in order. -/
theorem canonicalPaths_sorted [Std.TransCmp localeCompare] {dateFromPath : Str → Option Str}
    (hdates : ∀ p q, dateFromPath p ≠ none → dateFromPath q ≠ none →
      ((localeCompare p q).isLE = true ↔ p ≤ q))
    (hle : ∀ {p q dp dq : Str}, dateFromPath p = some dp → dateFromPath q = some dq →
      (p ≤ q ↔ dp ≤ dq))
    {pathPrefix : Str} {order : CollectionOrder} {paths : List Str}
    (h : canonicalPaths provider localeCompare pathPrefix dateFromPath order = .ok paths) :
    paths.Nodup ∧ paths.Pairwise (DayOrder dateFromPath order) := by
  simp only [canonicalPaths, Effects.bind_eq_ok] at h
  obtain ⟨entries, hentries, h⟩ := h
  have hnodup : ((entries.filter fun entry => (dateFromPath entry.path).isSome).map
      (·.path)).Nodup :=
    (listComplete_nodup hentries).sublist (List.filter_sublist.map _)
  have hsorted := sortPaths_sorted localeCompare
    ((entries.filter fun entry => (dateFromPath entry.path).isSome).map (·.path))
  have hperm := sortPaths_perm localeCompare
    ((entries.filter fun entry => (dateFromPath entry.path).isSome).map (·.path))
  generalize sortPaths localeCompare _ = sorted at *
  have hdated : sorted.Pairwise (DayOrder dateFromPath .chronological) := by
    refine hsorted.imp fun {p q} hpq dp dq hp hq => ?_
    rw [hdates p q (by simp [hp]) (by simp [hq])] at hpq
    exact (hle hp hq).mp hpq
  have hn := hperm.nodup_iff.mpr hnodup
  obtain rfl := Except.ok.inj h
  cases order with
  | newest =>
    refine ⟨List.nodup_reverse.mpr hn, List.pairwise_reverse.mpr (hdated.imp ?_)⟩
    exact fun h dp dq hp hq => h dq dp hq hp
  | chronological => exact ⟨hn, hdated⟩

/-- The selected records: each once, and in order. -/
theorem worklogPaths_sorted [Std.TransCmp localeCompare]
    (hdates : ∀ p q, recordDateFromPath p ≠ none → recordDateFromPath q ≠ none →
      ((localeCompare p q).isLE = true ↔ p ≤ q))
    {selector : Option Str} {order : Option CollectionOrder} {now : CalendarDate}
    {paths : List Str} {scope : Str}
    (h : worklogPaths provider localeCompare selector order now = .ok (paths, scope)) :
    paths.Nodup ∧ paths.Pairwise (DayOrder recordDateFromPath (order.getD .newest)) := by
  simp only [worklogPaths, Effects.bind_eq_ok] at h
  obtain ⟨selection, -, all, hall, h⟩ := h
  obtain ⟨rfl, -⟩ := Prod.mk.inj (Except.ok.inj h)
  suffices hs : all.Nodup ∧ all.Pairwise (DayOrder recordDateFromPath (order.getD .newest)) from
    ⟨hs.1.filter _, hs.2.filter _⟩
  unfold candidatePaths at hall
  split at hall
  · cases hpath : recordPath selection.scope with
    | error e => simp [hpath, Except.map] at hall
    | ok path =>
      obtain rfl : [path] = all := by simpa [hpath, Except.map] using hall
      simp
  · exact canonicalPaths_sorted hdates (fun hp hq => (recordDate_le hp hq).1) hall

theorem recordItems_precede {order : CollectionOrder} {paths : List Str} (hn : paths.Nodup)
    (hs : paths.Pairwise (DayOrder recordDateFromPath order)) :
    (paths.flatMap (recordItems provider)).Pairwise (Precedes order) := by
  rw [List.pairwise_flatMap]
  constructor
  · intro path _
    obtain ⟨hsorted, hall⟩ := recordItems_positions provider path
    rw [List.pairwise_map] at hsorted
    refine hsorted.imp_of_mem fun {a b} ha hb hlt => ?_
    have hd : a.date = b.date := Option.some.inj ((hall a ha).symm.trans (hall b hb))
    unfold Precedes
    rwa [if_pos hd]
  · refine (hs.and hn).imp fun {p q} h a ha b hb => ?_
    have hp := (recordItems_positions provider p).2 a ha
    have hq := (recordItems_positions provider q).2 b hb
    have hd : a.date ≠ b.date := fun he => h.2 ((recordDate_le hp hq).2 he)
    unfold Precedes
    rw [if_neg hd]
    exact h.1 a.date b.date hp hq

/-- Comparison by code units. -/
def compareUnits (a b : Str) : Ordering := compareOfLessAndEq a b

theorem compareUnits_isLE {a b : Str} : (compareUnits a b).isLE = true ↔ a ≤ b :=
  isLE_compareOfLessAndEq List.le_antisymm List.not_le List.le_total

instance : Std.TransCmp compareUnits where
  eq_swap := compareOfLessAndEq_eq_swap List.le_antisymm List.le_total List.not_le
  isLE_trans h h' := compareUnits_isLE.mpr
    (List.le_trans (compareUnits_isLE.mp h) (compareUnits_isLE.mp h'))

/-- A store with one record, read by its day. -/
def oneRecord : NotesProvider where
  list _ := .ok (.entries [])
  read path := .ok ⟨path, lit "r", lit "## Worklog\n\n- a\n"⟩

end

end PiEnv.Notes
