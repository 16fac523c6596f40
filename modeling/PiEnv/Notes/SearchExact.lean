import PiEnv.Notes.ObsidianSnapshot

/-!
# What a search finds

A search gives the notes that hold its query up to its limit, and says nothing of
those behind it.
-/

namespace PiEnv.Notes.Obsidian

open Js

namespace Snapshot

def nodeAt (snapshot : Snapshot) (notePath : Str) : Node :=
  (snapshot.node (segmentsOf notePath)).getD default

def contentAt (snapshot : Snapshot) (notePath : Str) : Str := Utf8.decode (snapshot.nodeAt notePath).bytes

def sizeAt (snapshot : Snapshot) (notePath : Str) : Nat := (snapshot.nodeAt notePath).bytes.length

/-- A vault within the bounds of a search. -/
structure Scannable (snapshot : Snapshot) (localeCompare : Str → Str → Ordering) : Prop where
  allowed : snapshot.vault.Allowed localeCompare
  notes : ∀ note ∈ snapshot.listing localeCompare, snapshot.sizeAt note.path ≤ MAX_NOTE_BYTES
  total : ((snapshot.listing localeCompare).map fun note => snapshot.sizeAt note.path).sum ≤
    MAX_SEARCH_SCAN_BYTES

section
variable (snapshot : Snapshot) (localeCompare : Str → Str → Ordering) (lower : Str → Str)
  (revisionOf : Str → Attributes → Utf8.Bytes → Str)

/-- The path or the content of a note holds the query in some letter case. -/
def holds (query notePath : Str) : Bool :=
  isMatch lower (lower query) notePath (snapshot.contentAt notePath)

/-- The notes that hold a query. -/
def found (query : Str) : List NoteEntry :=
  (snapshot.listing localeCompare).filter fun note => snapshot.holds lower query note.path

/-- The first notes that hold the query are given, each once, and it is said when
some are left out. -/
def SearchExact (query : Str) (limit : Option Nat) : Prop :=
  ∃ answered, searchAction snapshot localeCompare lower revisionOf ⟨some query, limit⟩ = .ok answered ∧
    answered.results.map (·.path) =
      ((snapshot.found localeCompare lower query).take (limit.getD MAX_SEARCH_RESULTS)).map (·.path) ∧
    (answered.results.map (·.path)).Nodup ∧
    (answered.truncated = true ↔ ∃ note ∈ snapshot.found localeCompare lower query,
      note.path ∉ answered.results.map (·.path))

def resultAt (query : Str) (note : NoteEntry) : NoteSearchResult :=
  searchResult lower (lower query) note (stored revisionOf note.path (snapshot.nodeAt note.path))

end

section
variable {snapshot : Snapshot} {localeCompare : Str → Str → Ordering} {lower : Str → Str}
  {revisionOf : Str → Attributes → Utf8.Bytes → Str}

-- -----
-- The scan
-- -----

/-- A note that is read as it is listed. -/
def Readable (snapshot : Snapshot) (revisionOf : Str → Attributes → Utf8.Bytes → Str)
    (note : NoteEntry) : Prop :=
  read snapshot revisionOf note.path = .ok (stored revisionOf note.path (snapshot.nodeAt note.path)) ∧
    estimatedBytes note = snapshot.sizeAt note.path

theorem Scannable.readable (h : snapshot.Scannable localeCompare) {note : NoteEntry}
    (hnote : note ∈ snapshot.listing localeCompare) : snapshot.Readable revisionOf note := by
  obtain ⟨folder, node, hleads, hlink, heq⟩ := mem_listing h.allowed hnote
  have hnode : snapshot.nodeAt note.path = node := by
    rw [nodeAt, hleads.segmentsOf, hleads.found, Option.getD_some]
  have hsize := h.notes note hnote
  rw [sizeAt, hnode] at hsize
  refine ⟨by rw [hnode]; exact read_leads hleads hlink hsize revisionOf, ?_⟩
  rw [sizeAt, hnode, estimatedBytes, heq]
  simp [noteEntry, Node.metadata]

theorem throwIf_false {c : Prop} [Decidable c] {error : NotesError} (h : ¬ c) :
    throwIf c error = .ok () := throwIf_eq_ok.mpr h

/-- One more note, where the bounds are kept. -/
theorem scanNotes_cons {needle : Str} {limit scannedBytes : Nat} {results : List NoteSearchResult}
    {note : NoteEntry} {rest : List NoteEntry} {document : StoredDocument}
    (hread : read snapshot revisionOf note.path = .ok document)
    (hbefore : scannedBytes + estimatedBytes note ≤ MAX_SEARCH_SCAN_BYTES)
    (hafter : scannedBytes + document.size ≤ MAX_SEARCH_SCAN_BYTES) :
    scanNotes snapshot lower revisionOf needle limit scannedBytes results (note :: rest) =
      if isMatch lower needle note.path document.content then
        if (results ++ [searchResult lower needle note document]).length ≥ limit then
          .ok (results ++ [searchResult lower needle note document])
        else scanNotes snapshot lower revisionOf needle limit (scannedBytes + document.size)
          (results ++ [searchResult lower needle note document]) rest
      else scanNotes snapshot lower revisionOf needle limit (scannedBytes + document.size) results rest := by
  rw [scanNotes, throwIf_false (Nat.not_lt.mpr hbefore), hread]
  simp only [bind, Except.bind]
  rw [throwIf_false (Nat.not_lt.mpr hafter)]

theorem scanNotes_found {query : Str} {limit scannedBytes : Nat} {results : List NoteSearchResult}
    {notes : List NoteEntry} (hread : ∀ note ∈ notes, snapshot.Readable revisionOf note)
    (hroom : scannedBytes + (notes.map fun note => snapshot.sizeAt note.path).sum ≤ MAX_SEARCH_SCAN_BYTES)
    (hlimit : results.length < limit) :
    scanNotes snapshot lower revisionOf (lower query) limit scannedBytes results notes =
      .ok (results ++ ((notes.filter fun note => snapshot.holds lower query note.path).map
        (snapshot.resultAt lower revisionOf query)).take (limit - results.length)) := by
  induction notes generalizing scannedBytes results with
  | nil => simp [scanNotes]
  | cons note rest ih =>
    obtain ⟨⟨hnote, hestimated⟩, hrest⟩ := List.forall_mem_cons.mp hread
    rw [List.map_cons, List.sum_cons] at hroom
    have hafter : scannedBytes + snapshot.sizeAt note.path ≤ MAX_SEARCH_SCAN_BYTES := by omega
    have hroom' : scannedBytes + snapshot.sizeAt note.path +
        (rest.map fun note => snapshot.sizeAt note.path).sum ≤ MAX_SEARCH_SCAN_BYTES := by omega
    rw [scanNotes_cons hnote (hestimated ▸ hafter) hafter]
    have hmatch : isMatch lower (lower query) note.path
        (stored revisionOf note.path (snapshot.nodeAt note.path)).content =
          snapshot.holds lower query note.path := rfl
    rw [hmatch]
    cases hholds : snapshot.holds lower query note.path with
    | false =>
      rw [if_neg Bool.false_ne_true, List.filter_cons_of_neg (by simp [hholds])]
      exact ih hrest hroom' hlimit
    | true =>
      rw [if_pos rfl, List.filter_cons_of_pos (by simp [hholds]), List.map_cons]
      obtain ⟨more, hmore⟩ : ∃ more, limit - results.length = more + 1 :=
        ⟨limit - results.length - 1, by omega⟩
      rw [hmore, List.take_succ_cons, List.length_append, List.length_singleton]
      split
      case isTrue hfull =>
        obtain rfl : more = 0 := by omega
        rfl
      case isFalse hmissing =>
        have hlonger : (results ++ [snapshot.resultAt lower revisionOf query note]).length < limit := by
          rw [List.length_append, List.length_singleton]
          omega
        refine (ih hrest hroom' hlonger).trans ?_
        rw [List.append_assoc, List.length_append, List.length_singleton,
          show limit - (results.length + 1) = more by omega]
        rfl

theorem search_found (h : snapshot.Scannable localeCompare) {query : Str} {limit : Nat}
    (hquery : trim query ≠ []) (hlength : query.length ≤ MAX_SEARCH_QUERY_LENGTH) (hlimit : 0 < limit)
    (hcap : limit ≤ MAX_SEARCH_RESULTS) :
    search snapshot localeCompare lower revisionOf ⟨query, some limit⟩ =
      .ok (((snapshot.found localeCompare lower query).map
        (snapshot.resultAt lower revisionOf query)).take limit) := by
  have hblank : ¬ (trim query).length = 0 := by simpa using hquery
  have hroom := h.total
  rw [← Nat.zero_add (List.sum _)] at hroom
  have hscan : scanNotes snapshot lower revisionOf (lower query) limit 0 [] (snapshot.listing localeCompare) = _ :=
    scanNotes_found (fun note hnote => h.readable hnote) hroom hlimit
  rw [search, throwIf_false hblank, throwIf_false (Nat.not_lt.mpr hlength), list_listing h.allowed]
  simp only [bind, Except.bind, Option.getD_some, Nat.min_eq_left hcap]
  rw [throwIf_false (by simp)]
  exact hscan

-- -----
-- What the notes tool takes
-- -----

/-- A listed path is one that the notes tool takes for what it is. -/
theorem Leads.normalizeStorePath {notePath : Str} {folder : List Str} {node : Node}
    (h : snapshot.Leads notePath folder node) :
    Notes.normalizeStorePath notePath true false = .ok notePath := by
  have hportable := h.portable
  unfold normalizeNotePath at hportable
  dsimp only at hportable
  split at hportable
  · cases hportable
  case isFalse hinvalid =>
  split at hportable
  · cases hportable
  split at hportable
  · cases hportable
  have hnormal := Except.ok.inj hportable
  have hbackslash : 92 ∉ notePath := by
    intro hmem
    rw [← hnormal] at hmem
    rcases Posix.mem_normalize hmem with hslash | hdot | hmem
    · exact absurd hslash (by decide)
    · exact absurd hdot (by decide)
    · exact forwardSlashes_clean _ hmem
  rw [forwardSlashes_id hbackslash] at hinvalid
  simp only [Bool.or_eq_true, decide_eq_true_eq, not_or, not_lt, Bool.not_eq_true] at hinvalid
  obtain ⟨⟨⟨⟨⟨-, hlength⟩, -⟩, hat⟩, hcolon⟩, hcontrol⟩ := hinvalid
  have hnote : StoreNote notePath := by
    refine storeNote (fun segment hsegment => ?_) h.markdown
    rw [h.split] at hsegment
    exact (h.visible segment hsegment).1
  exact normalizeStorePath_fixed hnote hlength ⟨hbackslash, by simpa using hcolon, hcontrol⟩ hat false

theorem matchingSnippet_length {content needle snippet : Str}
    (h : matchingSnippet lower content needle = some snippet) : byteLength snippet ≤ 2048 := by
  have hlength : snippet.length ≤ 240 := by
    unfold matchingSnippet at h
    split at h
    · cases h
    · cases h
    · dsimp only at h
      obtain rfl := Option.some.inj h
      split
      · have hdots : (lit "...").length = 3 := by decide
        rw [List.length_append, List.length_take, hdots]
        omega
      · omega
  have := byteLength_le snippet
  omega

/-- The title of a note is short enough for a search result. -/
def TitleFits (snapshot : Snapshot) (note : NoteEntry) : Prop :=
  ∀ title, markdownTitle (snapshot.contentAt note.path) = some title → title.length ≤ 256

theorem validateSearchResult_iff (h : snapshot.Scannable localeCompare)
    (hrevision : ∀ notePath attributes bytes, validRevision (revisionOf notePath attributes bytes) = true)
    {query : Str} {note : NoteEntry} (hnote : note ∈ snapshot.listing localeCompare)
    {checked : NoteSearchResult} :
    validateSearchResult (snapshot.resultAt lower revisionOf query note) = .ok checked ↔
      snapshot.TitleFits note ∧ checked = snapshot.resultAt lower revisionOf query note := by
  obtain ⟨folder, node, hleads, -, -⟩ := mem_listing h.allowed hnote
  have hpath : normalizeStorePath (snapshot.resultAt lower revisionOf query note).path true false =
      .ok note.path := hleads.normalizeStorePath
  have hvalid : validateOptionalRevision (snapshot.resultAt lower revisionOf query note).revision = .ok () :=
    if_pos (hrevision _ _ _)
  have hsize : isNoteSize (.ofInt (snapshot.nodeAt note.path).bytes.length) = true := by
    have hbound : (snapshot.nodeAt note.path).bytes.length ≤ MAX_NOTE_BYTES := h.notes note hnote
    have hsafe : MAX_NOTE_BYTES < maxSafe := by decide
    simp [isNoteSize, lt_of_le_of_lt hbound hsafe]
  have hmetadata : validateOptionalMetadata (snapshot.resultAt lower revisionOf query note).toNoteEntry =
      .ok () := by
    simp [validateOptionalMetadata, resultAt, searchResult, stored, hsize, isFiniteNumber, throwIf, bind,
      Except.bind]
  have hsnippet : validateOptionalText byteLength (snapshot.resultAt lower revisionOf query note).snippet 2048
      (lit "search snippet") = .ok () := by
    refine throwIf_false fun hlong => ?_
    obtain ⟨snippet, hsnippet, hlong⟩ := (Option.any_eq_true _ _).mp hlong
    have := matchingSnippet_length hsnippet
    simp only [decide_eq_true_eq] at hlong
    omega
  have htitle : validateOptionalText List.length (snapshot.resultAt lower revisionOf query note).title 256
      (lit "search title") = .ok () ↔ snapshot.TitleFits note := by
    rw [validateOptionalText, throwIf_eq_ok]
    have hsame : (snapshot.resultAt lower revisionOf query note).title =
        markdownTitle (snapshot.contentAt note.path) := rfl
    rw [hsame, TitleFits]
    cases markdownTitle (snapshot.contentAt note.path) with
    | none => simp
    | some title => simp
  simp only [validateSearchResult, Effects.bind_eq_ok, hpath, hvalid, hmetadata, hsnippet, htitle]
  constructor
  · rintro ⟨_, -, _, -, _, -, _, -, _, hfits, _, -, heq⟩
    exact ⟨hfits, (Except.ok.inj heq).symm⟩
  · rintro ⟨hfits, rfl⟩
    exact ⟨note.path, rfl, (), throwIf_false fun hother => hother rfl, (), trivial, (), trivial, (), hfits, (),
      trivial, rfl⟩

theorem validateSearchResults_iff (h : snapshot.Scannable localeCompare)
    (hrevision : ∀ notePath attributes bytes, validRevision (revisionOf notePath attributes bytes) = true)
    {query : Str} {notes : List NoteEntry} (hnotes : ∀ note ∈ notes, note ∈ snapshot.listing localeCompare)
    (hcount : notes.length ≤ MAX_SEARCH_RESULTS) {checked : List NoteSearchResult} :
    validateSearchResults (notes.map (snapshot.resultAt lower revisionOf query)) = .ok checked ↔
      (∀ note ∈ notes, snapshot.TitleFits note) ∧
        checked = notes.map (snapshot.resultAt lower revisionOf query) := by
  have hmany : ¬ (notes.map (snapshot.resultAt lower revisionOf query)).length > MAX_SEARCH_RESULTS := by
    simpa using hcount
  rw [validateSearchResults, throwIf_false hmany]
  show (notes.map (snapshot.resultAt lower revisionOf query)).mapM validateSearchResult = .ok checked ↔ _
  clear hmany hcount
  induction notes generalizing checked with
  | nil => simp [pure, Except.pure, eq_comm]
  | cons note rest ih =>
    obtain ⟨hnote, hrest⟩ := List.forall_mem_cons.mp hnotes
    rw [List.map_cons, List.mapM_cons, Effects.bind_eq_ok, List.forall_mem_cons]
    simp only [Effects.bind_eq_ok, validateSearchResult_iff h hrevision hnote, ih hrest]
    constructor
    · rintro ⟨_, ⟨hfits, rfl⟩, _, ⟨hall, rfl⟩, heq⟩
      exact ⟨⟨hfits, hall⟩, (Except.ok.inj heq).symm⟩
    · rintro ⟨⟨hfits, hall⟩, rfl⟩
      exact ⟨_, ⟨hfits, rfl⟩, _, ⟨hall, rfl⟩, rfl⟩

-- -----
-- The whole search
-- -----

theorem searchAction_long {query : Str} {limit : Option Nat} (hquery : trim query ≠ [])
    (hlength : ¬ query.length ≤ MAX_SEARCH_QUERY_LENGTH) {answered : SearchToolResult} :
    searchAction snapshot localeCompare lower revisionOf ⟨some query, limit⟩ ≠ .ok answered := by
  have hne : query ≠ [] := by
    rintro rfl
    exact hquery rfl
  have hrequire : ∃ error, requireSearchQuery ⟨some query, limit⟩ = .error error := by
    rw [requireSearchQuery, Option.getD_some, if_neg (by simp [hne, hquery]), if_pos (Nat.not_le.mp hlength)]
    exact ⟨_, rfl⟩
  obtain ⟨error, hrequire⟩ := hrequire
  rw [searchAction, hrequire]
  exact nofun

/-- What the tool answers, of a query that it takes. -/
theorem searchAction_iff (h : snapshot.Scannable localeCompare)
    (hrevision : ∀ notePath attributes bytes, validRevision (revisionOf notePath attributes bytes) = true)
    {query : Str} {limit : Option Nat} (hquery : trim query ≠ [])
    (hlength : query.length ≤ MAX_SEARCH_QUERY_LENGTH) (hlimit : ∀ n, limit = some n → 0 < n)
    {notes : List NoteEntry}
    (hnotes : notes = (snapshot.found localeCompare lower query).take
      (min (limit.getD MAX_SEARCH_RESULTS) MAX_SEARCH_RESULTS)) {answered : SearchToolResult} :
    searchAction snapshot localeCompare lower revisionOf ⟨some query, limit⟩ = .ok answered ↔
      (∀ note ∈ notes, snapshot.TitleFits note) ∧
        answered = ⟨formatSearch (notes.map (snapshot.resultAt lower revisionOf query)),
          notes.map (snapshot.resultAt lower revisionOf query), false⟩ := by
  have hne : query ≠ [] := by
    rintro rfl
    exact hquery rfl
  have hrequire : requireSearchQuery ⟨some query, limit⟩ = .ok query := by
    rw [requireSearchQuery, Option.getD_some, if_neg (by simp [hne, hquery]), if_neg (Nat.not_lt.mpr hlength)]
  have hpositive : 0 < min (limit.getD MAX_SEARCH_RESULTS) MAX_SEARCH_RESULTS := by
    refine lt_min ?_ (by decide)
    cases limit with
    | none => decide
    | some n => exact hlimit n rfl
  have hcap : min (limit.getD MAX_SEARCH_RESULTS) MAX_SEARCH_RESULTS ≤ MAX_SEARCH_RESULTS := Nat.min_le_right _ _
  have hsearch := @search_found snapshot localeCompare lower revisionOf h query _ hquery hlength hpositive hcap
  rw [← List.map_take, ← hnotes] at hsearch
  have hcount : notes.length ≤ min (limit.getD MAX_SEARCH_RESULTS) MAX_SEARCH_RESULTS := by
    rw [hnotes, List.length_take]
    exact Nat.min_le_left _ _
  have hlisted : ∀ note ∈ notes, note ∈ snapshot.listing localeCompare := fun note hnote => by
    rw [hnotes] at hnote
    exact List.mem_of_mem_filter (List.mem_of_mem_take hnote)
  rw [searchAction, hrequire]
  simp only [bind, Except.bind]
  rw [hsearch]
  simp only
  have hvalidate := @validateSearchResults_iff snapshot localeCompare lower revisionOf h hrevision query notes
    hlisted (hcount.trans hcap)
  have htake : (notes.map (snapshot.resultAt lower revisionOf query)).take
      (min (limit.getD MAX_SEARCH_RESULTS) MAX_SEARCH_RESULTS) =
        notes.map (snapshot.resultAt lower revisionOf query) := List.take_of_length_le (by simpa using hcount)
  have hwhole : decide ((notes.map (snapshot.resultAt lower revisionOf query)).length >
      min (limit.getD MAX_SEARCH_RESULTS) MAX_SEARCH_RESULTS) = false := by
    simpa using hcount
  cases hchecked : validateSearchResults (notes.map (snapshot.resultAt lower revisionOf query)) with
  | error error =>
    refine iff_of_false nofun fun hanswered => ?_
    rw [(hvalidate.mpr ⟨hanswered.1, rfl⟩)] at hchecked
    cases hchecked
  | ok checked =>
    obtain ⟨hfits, rfl⟩ := hvalidate.mp hchecked
    simp only [htake, hwhole]
    exact ⟨fun heq => ⟨hfits, (Except.ok.inj heq).symm⟩, fun hanswered => by rw [hanswered.2]; rfl⟩

theorem found_nodup (h : snapshot.Scannable localeCompare) (query : Str) :
    ((snapshot.found localeCompare lower query).map (·.path)).Nodup :=
  (listing_nodup h.allowed).sublist (List.filter_sublist.map _)

theorem resultAt_paths {query : Str} {notes : List NoteEntry} :
    (notes.map (snapshot.resultAt lower revisionOf query)).map (·.path) = notes.map (·.path) := by
  rw [List.map_map]
  rfl

/-- A search that is exact leaves no note out. -/
theorem SearchExact.bounds (h : snapshot.Scannable localeCompare)
    (hrevision : ∀ notePath attributes bytes, validRevision (revisionOf notePath attributes bytes) = true)
    {query : Str} {limit : Option Nat} (hquery : trim query ≠ []) (hlimit : ∀ n, limit = some n → 0 < n)
    (hexact : snapshot.SearchExact localeCompare lower revisionOf query limit) :
    query.length ≤ MAX_SEARCH_QUERY_LENGTH ∧
      (snapshot.found localeCompare lower query).length ≤
        min (limit.getD MAX_SEARCH_RESULTS) MAX_SEARCH_RESULTS ∧
      ∀ note ∈ snapshot.found localeCompare lower query, snapshot.TitleFits note := by
  obtain ⟨answered, hanswer, -, -, htruncated⟩ := hexact
  have hlength : query.length ≤ MAX_SEARCH_QUERY_LENGTH := by
    by_contra hlong
    exact searchAction_long hquery hlong hanswer
  obtain ⟨hfits, rfl⟩ := (searchAction_iff h hrevision hquery hlength hlimit rfl).mp hanswer
  rw [resultAt_paths] at htruncated
  have hall : ∀ path ∈ (snapshot.found localeCompare lower query).map (·.path),
      path ∈ ((snapshot.found localeCompare lower query).take
        (min (limit.getD MAX_SEARCH_RESULTS) MAX_SEARCH_RESULTS)).map (·.path) := by
    intro path hpath
    obtain ⟨note, hnote, rfl⟩ := List.mem_map.mp hpath
    by_contra hmissing
    exact absurd (htruncated.mpr ⟨note, hnote, hmissing⟩) Bool.false_ne_true
  have hcount := ((found_nodup h query).subperm hall).length_le
  rw [List.length_map, List.length_map, List.length_take] at hcount
  have hbound : (snapshot.found localeCompare lower query).length ≤
      min (limit.getD MAX_SEARCH_RESULTS) MAX_SEARCH_RESULTS := hcount.trans (Nat.min_le_left _ _)
  rw [List.take_of_length_le hbound] at hfits
  exact ⟨hlength, hbound, hfits⟩

/-- A search is exact when it comes to no more notes than it may give and the
titles of these are short enough. -/
theorem searchExact_iff (h : snapshot.Scannable localeCompare)
    (hrevision : ∀ notePath attributes bytes, validRevision (revisionOf notePath attributes bytes) = true)
    {query : Str} {limit : Option Nat} (hquery : trim query ≠ []) (hlimit : ∀ n, limit = some n → 0 < n) :
    snapshot.SearchExact localeCompare lower revisionOf query limit ↔
      query.length ≤ MAX_SEARCH_QUERY_LENGTH ∧
        (snapshot.found localeCompare lower query).length ≤
          min (limit.getD MAX_SEARCH_RESULTS) MAX_SEARCH_RESULTS ∧
        ∀ note ∈ snapshot.found localeCompare lower query, snapshot.TitleFits note := by
  refine ⟨SearchExact.bounds h hrevision hquery hlimit, ?_⟩
  rintro ⟨hlength, hbound, hfits⟩
  have htake : (snapshot.found localeCompare lower query).take
      (min (limit.getD MAX_SEARCH_RESULTS) MAX_SEARCH_RESULTS) = snapshot.found localeCompare lower query :=
    List.take_of_length_le hbound
  refine ⟨_, (searchAction_iff h hrevision hquery hlength hlimit htake.symm).mpr ⟨hfits, rfl⟩, ?_, ?_, ?_⟩
  · rw [resultAt_paths, List.take_of_length_le (hbound.trans (Nat.min_le_left _ _))]
  · rw [resultAt_paths]
    exact found_nodup h query
  · rw [resultAt_paths]
    refine iff_of_false Bool.false_ne_true ?_
    rintro ⟨note, hnote, hmissing⟩
    exact hmissing (List.mem_map_of_mem hnote)

end

end Snapshot

-- -----
-- Two plans
-- -----

def plainAttributes : Attributes := ⟨1, 2, 3, 4, 5, 6⟩

def planNames : List Str := [lit "a.md", lit "b.md"]

theorem planNames_nodup : planNames.Nodup := by decide

theorem planNames_named : ∀ name ∈ planNames, name ≠ [] ∧ slash ∉ name := by decide

/-- A vault with two notes that hold the word `plan`. -/
def planVault : Snapshot where
  node
    | [] => some ⟨.directory, 2, 0, plainAttributes, []⟩
    | [name] =>
      if name ∈ planNames then some ⟨.file, 1, 0, plainAttributes, Utf8.encode (lit "# Plan")⟩ else none
    | _ => none
  names folder := if folder = [] then planNames else []
  root := ⟨_, rfl, rfl⟩
  mem_names := by
    intro folder name
    rcases folder with _ | ⟨first, _ | ⟨second, rest⟩⟩ <;> simp
  parent := by
    intro folder name hname
    have hfolder : folder = [] := by
      by_contra hne
      simp [hne] at hname
    subst hfolder
    exact ⟨_, rfl, rfl⟩
  nodup folder := by
    split
    · exact planNames_nodup
    · exact List.nodup_nil
  isName := by
    intro folder name hname
    split at hname
    · exact planNames_named name hname
    · cases hname

def planEntries : List Dirent := planNames.map fun name => ⟨name, .file⟩

theorem planVault_below :
    planVault.vault.entriesBelow compareUnits = planEntries.map fun entry => ([], entry) := by
  have hsort : sortEntries compareUnits planEntries = planEntries :=
    List.mergeSort_of_pairwise (by decide +kernel)
  have hopen : planVault.vault.opendir [] = some planEntries := by decide +kernel
  rw [Vault.entriesBelow, Vault.below, hopen, Option.getD_some, hsort]
  decide +kernel

theorem planVault_sorted : planVault.vault.sorted compareUnits = planNames := by
  have hpaths : planVault.vault.pathsBelow compareUnits = planNames := by
    rw [Vault.pathsBelow, planVault_below]
    decide +kernel
  rw [Vault.sorted, hpaths]
  exact List.mergeSort_of_pairwise (by decide +kernel)

theorem planVault_scannable : planVault.Scannable compareUnits := by
  have hopen : planVault.vault.opendir [] = some planEntries := by decide +kernel
  refine ⟨⟨⟨planEntries, hopen, ?_⟩, ?_, ?_⟩, ?_, ?_⟩
  · intro entry hentry hfolder
    obtain ⟨name, -, rfl⟩ := List.mem_map.mp hentry
    simp [isFolder] at hfolder
  · rw [planVault_below]
    decide
  · rw [Vault.pathsBelow, planVault_below]
    decide +kernel
  · rw [Snapshot.listing, planVault_sorted]
    decide +kernel
  · rw [Snapshot.listing, planVault_sorted]
    decide +kernel

theorem planVault_found : planVault.found compareUnits id (lit "Plan") =
    planNames.map fun name => noteEntry name ⟨true, 1, .ofInt 6, .finite 0⟩ := by
  rw [Snapshot.found, Snapshot.listing, planVault_sorted]
  decide +kernel

theorem planVault_exact :
    planVault.SearchExact compareUnits id (fun _ _ _ => lit "r") (lit "Plan") none := by
  refine (Snapshot.searchExact_iff planVault_scannable (fun _ _ _ => by decide) (by decide)
    fun n hn => by cases hn).mpr
    ⟨by decide, ?_, ?_⟩
  · rw [planVault_found]
    decide
  · rw [planVault_found]
    intro note hnote title htitle
    have hcontent : ∀ name ∈ planNames, markdownTitle (planVault.contentAt name) = some (lit "Plan") := by
      decide +kernel
    obtain ⟨name, hname, rfl⟩ := List.mem_map.mp hnote
    rw [noteEntry, hcontent name hname] at htitle
    obtain rfl := Option.some.inj htitle
    decide

/-- With room for one of two notes a search does not say that it leaves one out. -/
theorem planVault_silent : ¬ ∀ (snapshot : Snapshot) (localeCompare : Str → Str → Ordering)
    (lower : Str → Str) (revisionOf : Str → Attributes → Utf8.Bytes → Str) (query : Str) (limit : Option Nat),
    snapshot.Scannable localeCompare →
    (∀ notePath attributes bytes, validRevision (revisionOf notePath attributes bytes) = true) →
    trim query ≠ [] → (∀ n, limit = some n → 0 < n) →
    snapshot.SearchExact localeCompare lower revisionOf query limit := by
  intro hclaim
  have hrevision : ∀ (_ : Str) (_ : Attributes) (_ : Utf8.Bytes), validRevision (lit "r") = true :=
    fun _ _ _ => by decide
  have hlimit : ∀ n, some 1 = some n → 0 < n := fun n hn => by simp at hn; omega
  have hexact := hclaim planVault compareUnits id (fun _ _ _ => lit "r") (lit "Plan") (some 1)
    planVault_scannable hrevision (by decide) hlimit
  have hbound := (Snapshot.SearchExact.bounds planVault_scannable hrevision (by decide) hlimit hexact).2.1
  rw [planVault_found] at hbound
  exact absurd hbound (by decide)

end PiEnv.Notes.Obsidian
