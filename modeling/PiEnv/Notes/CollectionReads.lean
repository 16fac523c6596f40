import PiEnv.Lib.Splitting
import PiEnv.Notes.Collections

/-!
# Projects, Wiki folders and dated Inbox notes

The three reads that go through an inventory by pages, and that their pages
give every entry once, under cursors no other read accepts.
-/

namespace PiEnv.Notes

open Js

def NoteEntry.fields (entry : NoteEntry) : List (Str × Json) :=
  [(lit "path", .str entry.path)] ++
    (match entry.revision with
      | none => []
      | some revision => [(lit "revision", .str revision)]) ++
    (match entry.size with
      | none => []
      | some size => [(lit "size", .num size)]) ++
    match entry.modifiedAt with
    | none => []
    | some modifiedAt => [(lit "modifiedAt", .num modifiedAt)]

/-- A note under the target it has in its collection. -/
structure ProjectItem where
  target : Str
  entry : NoteEntry
  deriving DecidableEq, Repr

def ProjectItem.fields (item : ProjectItem) : List (Str × Json) :=
  (lit "target", .str item.target) :: item.entry.fields

def ProjectItem.toJson (item : ProjectItem) : Json := .obj item.fields

def ProjectItem.bytes (item : ProjectItem) : Nat := byteLength (stringify item.toJson)

inductive WikiChild where
  | folder (target path : Str)
  | file (item : ProjectItem)
  deriving DecidableEq, Repr

def WikiChild.target : WikiChild → Str
  | .folder target _ => target
  | .file item => item.target

def WikiChild.kind : WikiChild → Str
  | .folder _ _ => lit "folder"
  | .file _ => lit "file"

def WikiChild.toJson : WikiChild → Json
  | .folder target path =>
    .obj [(lit "kind", .str (lit "folder")), (lit "target", .str target), (lit "path", .str path)]
  | .file item => .obj ((lit "kind", .str (lit "file")) :: item.fields)

def WikiChild.bytes (child : WikiChild) : Nat := byteLength (stringify child.toJson)

def wikiChildCursorKey (child : WikiChild) : Str := child.kind ++ lit ":" ++ child.target

def InboxItem.bytes (item : InboxItem) : Nat := byteLength (stringify item.toJson)

-- -----
-- Targets
-- -----

def shown (target : Option Str) : Str := target.getD (lit "undefined")

def invalidCollectionTarget (label : Str) (target : Option Str) : NotesError :=
  .provider .invalidPath (lit "Invalid " ++ label ++ lit " target: " ++ shown target)

def normalizeCollectionTarget (target : Option Str) (label root : Str) (allowEmpty : Bool) :
    Except NotesError Str := do
  let normalized := forwardSlashes (target.getD [])
  throwIf (allowEmpty = false ∧ normalized = [] ∨ startsWith normalized (lit "/") ∨
      normalized ≠ [] ∧ (lit "/").isSuffixOf normalized)
    (invalidCollectionTarget label target)
  let segments := if normalized = [] then [] else split [slash] normalized
  throwIf (segments.any fun segment =>
      segment == [] || segment == lit ".." || startsWith segment (lit "."))
    (.provider .pathEscape (label ++ lit " target escapes " ++ root ++ lit ": " ++ shown target))
  throwIf (normalized.contains 58 || normalized.any isControl)
    (invalidCollectionTarget label target)
  return normalized

def requireCollectionPathLength (label path : Str) : Except NotesError Str :=
  if path.length > 1024 then .error (.provider .invalidPath (label ++ lit " target is too long."))
  else .ok path

inductive TargetKind where
  | file | folder
  deriving DecidableEq, Repr

structure WikiTarget where
  target : Str
  path : Str
  kind : TargetKind
  deriving DecidableEq, Repr

def wikiTarget (target : Option Str) : Except NotesError WikiTarget := do
  let normalized ← normalizeCollectionTarget target (lit "Wiki") (lit "wiki/") true
  let kind := if (lit ".md").isSuffixOf (normalized.map toLowerUnit) then .file else .folder
  let relative :=
    if normalized = [] then [] else normalized ++ if kind = .folder then lit "/" else []
  let path ← requireCollectionPathLength (lit "Wiki") (lit "wiki/" ++ relative)
  return ⟨normalized, path, kind⟩

-- -----
-- Inventories
-- -----

def projectItem (entry : NoteEntry) : Option ProjectItem :=
  let root := lit "projects/"
  if startsWith entry.path root && entry.path.length > root.length then
    some ⟨entry.path.drop root.length, entry⟩
  else none

/-- What an entry is in a folder of the Wiki. -/
def wikiChild (folderTarget : Str) (entry : NoteEntry) : Option WikiChild :=
  let within := if folderTarget = [] then [] else folderTarget ++ lit "/"
  let root := lit "wiki/" ++ within
  let relative := entry.path.drop root.length
  if !startsWith entry.path root || relative = [] then none
  else
    match indexOfText (lit "/") relative with
    | some index =>
      let target := within ++ relative.take index
      some (.folder target (lit "wiki/" ++ target ++ lit "/"))
    | none => some (.file ⟨within ++ relative, entry⟩)

/-- `children.set(key, child)` -/
def setChild (children : List WikiChild) (child : WikiChild) : List WikiChild :=
  if children.any (wikiChildCursorKey · == wikiChildCursorKey child) then
    children.map fun other =>
      if wikiChildCursorKey other == wikiChildCursorKey child then child else other
  else children ++ [child]

section
variable (localeCompare : Str → Str → Ordering)

def projectItems (entries : List NoteEntry) : List ProjectItem :=
  (entries.filterMap projectItem).mergeSort
    fun left right => (localeCompare left.target right.target).isLE

def compareChildren (left right : WikiChild) : Ordering :=
  if left.kind = right.kind then localeCompare left.target right.target
  else if left.kind = lit "folder" then .lt else .gt

def wikiChildren (entries : List NoteEntry) (folderTarget : Str) : List WikiChild :=
  ((entries.filterMap (wikiChild folderTarget)).foldl setChild []).mergeSort
    fun left right => (compareChildren localeCompare left right).isLE

-- -----
-- Reads
-- -----

variable (provider : NotesProvider)

def projectsListAction (cursor : Option Str) (limit : Option Nat) :
    Except NotesError (Page ProjectItem) := do
  let items := projectItems localeCompare (← listComplete provider (lit "projects/"))
  pageByKey ProjectItem.bytes ProjectItem.target .projects (lit "all") items cursor limit

/-- A file target reads its document, a folder target its children. -/
inductive WikiRead where
  | document (note : NoteDocument)
  | folder (page : Page WikiChild)

/-- The scope of the cursors of a folder. -/
def wikiScope (folderTarget : Str) : Str := if folderTarget = [] then lit "/" else folderTarget

def wikiFolderRead (target : WikiTarget) (cursor : Option Str) (limit : Option Nat) :
    Except NotesError (Page WikiChild) := do
  let children := wikiChildren localeCompare (← listComplete provider target.path) target.target
  pageByKey WikiChild.bytes wikiChildCursorKey .wiki (wikiScope target.target) children cursor limit

def wikiReadAction (target cursor : Option Str) (limit : Option Nat) :
    Except NotesError WikiRead := do
  let target ← wikiTarget target
  match target.kind with
  | .file => return .document (← validateDocument (← provider.read target.path) target.path)
  | .folder => return .folder (← wikiFolderRead localeCompare provider target cursor limit)

def inboxItems (date : Str) : Except NotesError (List InboxItem) := do
  let path ← inboxPath date
  match ← readOutcome path (provider.read path) with
  | none => return []
  | some note => return extractInboxItems note.content date path

def datedInboxRead (date : Str) (cursor : Option Str) (limit : Option Nat) :
    Except NotesError (Page InboxItem) := do
  let cursor ← decodeCursor cursor .inbox date
  let items ← inboxItems provider date
  page InboxItem.bytes items (collectionLimit limit) cursor.offset fun next =>
    encodeCursor .inbox date next none
end

-- -----
-- How large an entry is
-- -----

theorem fields_bytes {entry : NoteEntry} (h : entry.Bounded) :
    (entry.fields.map fieldBytes).sum ≤ 8100 := by
  obtain ⟨path, revision, size, modifiedAt⟩ := entry
  have hpath : path.length ≤ 1024 := h.path
  have hrevision : ∀ r, revision = some r → r.length ≤ 256 := h.revision
  have hp := fieldBytes_str (lit "path") path
  have hr := fieldBytes_str (lit "revision")
  have hs := fieldBytes_num (lit "size")
  have hm := fieldBytes_num (lit "modifiedAt")
  have hkeys : (lit "path").length = 4 ∧ (lit "revision").length = 8 ∧ (lit "size").length = 4 ∧
      (lit "modifiedAt").length = 10 := by decide
  simp only [NoteEntry.fields, List.map_append, List.sum_append, List.map_cons, List.map_nil,
    List.sum_cons, List.sum_nil]
  have h1 : ((match revision with
      | none => []
      | some revision => [(lit "revision", Json.str revision)]).map fieldBytes).sum ≤ 1590 := by
    cases revision with
    | none => simp
    | some r =>
      have := hrevision r rfl
      have := hr r
      simp only [List.map_cons, List.map_nil, List.sum_cons, List.sum_nil]
      omega
  have h2 : ((match size with
      | none => []
      | some size => [(lit "size", Json.num size)]).map fieldBytes).sum ≤ 109 := by
    cases size with
    | none => simp
    | some n =>
      have := hs n
      simp only [List.map_cons, List.map_nil, List.sum_cons, List.sum_nil]
      omega
  have h3 : ((match modifiedAt with
      | none => []
      | some modifiedAt => [(lit "modifiedAt", Json.num modifiedAt)]).map fieldBytes).sum ≤ 145 := by
    cases modifiedAt with
    | none => simp
    | some n =>
      have := hm n
      simp only [List.map_cons, List.map_nil, List.sum_cons, List.sum_nil]
      omega
  omega

theorem item_bytes {item : ProjectItem} (h : item.entry.Bounded) (ht : item.target.length ≤ 1024) :
    (item.fields.map fieldBytes).sum ≤ 14400 := by
  have hfields := fields_bytes h
  have htarget := fieldBytes_str (lit "target") item.target
  have hkey : (lit "target").length = 6 := by decide
  simp only [ProjectItem.fields, List.map_cons, List.sum_cons]
  omega

-- -----
-- Projects
-- -----

/-- A path under a root is the root and what comes after it. -/
theorem startsWith_iff {path root : Str} :
    startsWith path root = true ↔ path = root ++ path.drop root.length := by
  unfold startsWith
  rw [List.isPrefixOf_iff_prefix]
  constructor
  · rintro ⟨rest, rfl⟩
    simp
  · intro h
    exact ⟨_, h.symm⟩

theorem projectItem_eq_some {entry : NoteEntry} {item : ProjectItem} :
    projectItem entry = some item ↔
      item.entry = entry ∧ entry.path = lit "projects/" ++ item.target ∧ item.target ≠ [] := by
  obtain ⟨target, entry'⟩ := item
  unfold projectItem
  simp only [Bool.and_eq_true, decide_eq_true_eq, startsWith_iff]
  constructor
  · intro h
    split at h
    · rename_i hc
      obtain ⟨rfl, rfl⟩ := ProjectItem.mk.inj (Option.some.inj h)
      refine ⟨rfl, hc.1, ?_⟩
      rw [Ne, List.drop_eq_nil_iff]
      omega
    · cases h
  · rintro ⟨rfl, hpath, hne⟩
    have hlen : 0 < target.length := List.length_pos_iff.mpr hne
    have hdrop : entry'.path.drop (lit "projects/").length = target := by rw [hpath]; simp
    rw [hdrop, if_pos]
    exact ⟨hpath, by rw [hpath, List.length_append]; omega⟩

/-- Every entry there once, in order. -/
structure Ordered {α : Type} (key : α → Str) (isEntry : α → Prop) (le : α → α → Prop)
    (values : List α) : Prop where
  once : (values.map key).Nodup
  complete : ∀ value, value ∈ values ↔ isEntry value
  sorted : values.Pairwise le

section
variable {localeCompare : Str → Str → Ordering}

variable (localeCompare) in
theorem projectItems_ordered [Std.TransCmp localeCompare] {entries : List NoteEntry}
    (hn : (entries.map (·.path)).Nodup) :
    Ordered ProjectItem.target (fun item => ∃ entry ∈ entries, projectItem entry = some item)
      (fun a b => (localeCompare a.target b.target).isLE = true)
      (projectItems localeCompare entries) := by
  refine ⟨?_, ?_, ?_⟩
  · unfold projectItems
    refine ((List.mergeSort_perm _ _).map _).nodup_iff.mpr ?_
    have hpaths : entries.Pairwise fun a b => a.path ≠ b.path := List.pairwise_map.mp hn
    refine List.pairwise_map.mpr (List.pairwise_filterMap.mpr (hpaths.imp ?_))
    intro a b hab item ha item' hb heq
    obtain ⟨-, hpa, -⟩ := projectItem_eq_some.mp ha
    obtain ⟨-, hpb, -⟩ := projectItem_eq_some.mp hb
    exact hab (by rw [hpa, hpb, heq])
  · intro item
    simp [projectItems, List.mem_mergeSort, List.mem_filterMap]
  · have := Sorting.transCmp_on localeCompare ProjectItem.target
    exact Sorting.mergeSort_sorted (fun a b => localeCompare (ProjectItem.target a) b.target) _

theorem projectItem_fits {entry : NoteEntry} {item : ProjectItem} (hb : entry.Bounded)
    (h : projectItem entry = some item) : item.bytes ≤ MAX_COLLECTION_RESULT_BYTES := by
  obtain ⟨rfl, hpath, -⟩ := projectItem_eq_some.mp h
  have hlen := hb.path
  rw [hpath, List.length_append] at hlen
  have hitem := item_bytes hb (by omega)
  have hobject := byteLength_object item.fields
  show byteLength (stringify (.obj item.fields)) ≤ 32768
  omega
end

-- -----
-- Wiki folders
-- -----

/-- A file has the path of its target; a folder, paths below it. -/
theorem wikiChild_path {folderTarget : Str} {entry : NoteEntry} {child : WikiChild}
    (h : wikiChild folderTarget entry = some child) :
    match child with
    | .folder target path =>
      path = lit "wiki/" ++ target ++ lit "/" ∧ ∃ rest, entry.path = path ++ rest
    | .file item => item.entry = entry ∧ entry.path = lit "wiki/" ++ item.target := by
  unfold wikiChild at h
  simp only at h
  generalize (if folderTarget = [] then [] else folderTarget ++ lit "/") = within at h
  split at h
  · cases h
  · rename_i hc
    simp only [Bool.or_eq_true, Bool.not_eq_eq_eq_not, Bool.not_true, decide_eq_true_eq, not_or,
      Bool.not_eq_false, startsWith_iff] at hc
    obtain ⟨hpath, -⟩ := hc
    split at h
    · rename_i index hindex
      obtain rfl := Option.some.inj h
      obtain ⟨rest, hrest⟩ := indexOfText_eq_some hindex
      refine ⟨rfl, rest, ?_⟩
      rw [hpath]
      conv_lhs => rw [hrest]
      simp
    · obtain rfl := Option.some.inj h
      exact ⟨rfl, by simpa using hpath⟩

theorem wikiChildCursorKey_inj {child child' : WikiChild}
    (h : wikiChildCursorKey child = wikiChildCursorKey child') :
    child.target = child'.target ∧ child.kind = child'.kind := by
  have hfolder : lit "folder" ++ lit ":" = [102, 111, 108, 100, 101, 114, 58] := by decide
  have hfile : lit "file" ++ lit ":" = [102, 105, 108, 101, 58] := by decide
  cases child <;> cases child' <;>
    simp_all [wikiChildCursorKey, WikiChild.kind, WikiChild.target]

/-- Entries with one key are one child. -/
theorem wikiChild_unique {entries : List NoteEntry} (hn : (entries.map (·.path)).Nodup)
    {folderTarget : Str} {entry entry' : NoteEntry} (he : entry ∈ entries) (he' : entry' ∈ entries)
    {child child' : WikiChild} (h : wikiChild folderTarget entry = some child)
    (h' : wikiChild folderTarget entry' = some child')
    (hk : wikiChildCursorKey child = wikiChildCursorKey child') : child = child' := by
  obtain ⟨htarget, hkind⟩ := wikiChildCursorKey_inj hk
  have hp := wikiChild_path h
  have hp' := wikiChild_path h'
  cases child with
  | folder target path =>
    cases child' with
    | folder target' path' =>
      obtain rfl : target = target' := htarget
      rw [hp.1, hp'.1]
    | file item => exact absurd hkind (by decide : lit "folder" ≠ lit "file")
  | file item =>
    cases child' with
    | folder target path => exact absurd hkind (by decide : lit "file" ≠ lit "folder")
    | file item' =>
      obtain ⟨rfl, hpath⟩ := hp
      obtain ⟨rfl, hpath'⟩ := hp'
      have ht : item.target = item'.target := htarget
      have he : item.entry = item'.entry :=
        List.inj_on_of_nodup_map hn he he' (by rw [hpath, hpath', ht])
      obtain ⟨target, entry⟩ := item
      obtain ⟨target', entry'⟩ := item'
      cases ht
      cases he
      rfl

theorem setChild_fold {children more : List WikiChild}
    (hk : ∀ a ∈ children ++ more, ∀ b ∈ children ++ more,
      wikiChildCursorKey a = wikiChildCursorKey b → a = b)
    (hn : (children.map wikiChildCursorKey).Nodup) :
    ((more.foldl setChild children).map wikiChildCursorKey).Nodup ∧
      ∀ child, child ∈ more.foldl setChild children ↔ child ∈ children ∨ child ∈ more := by
  induction more generalizing children with
  | nil => simpa using hn
  | cons child more ih =>
    have hchild : child ∈ children ++ child :: more := by simp
    have hsame : ∀ other ∈ children, wikiChildCursorKey other = wikiChildCursorKey child →
        other = child := fun other ho => hk other (by simp [ho]) child hchild
    rw [List.foldl_cons]
    by_cases hmem : child ∈ children
    · have hset : setChild children child = children := by
        unfold setChild
        rw [if_pos (List.any_eq_true.mpr ⟨child, hmem, by simp⟩)]
        conv_rhs => rw [← List.map_id children]
        apply List.map_congr_left
        intro other ho
        split
        · rename_i heq
          exact (hsame other ho (by simpa using heq)).symm
        · rfl
      obtain ⟨hnodup, hiff⟩ := ih (fun a ha b hb => hk a (by simp at ha ⊢; tauto) b
        (by simp at hb ⊢; tauto)) hn
      rw [hset]
      refine ⟨hnodup, fun other => ?_⟩
      rw [hiff other, List.mem_cons]
      constructor
      · tauto
      · rintro (ho | rfl | ho)
        · exact .inl ho
        · exact .inl hmem
        · exact .inr ho
    · have hnew : ∀ other ∈ children, wikiChildCursorKey other ≠ wikiChildCursorKey child :=
        fun other ho he => hmem (hsame other ho he ▸ ho)
      have hset : setChild children child = children ++ [child] := by
        unfold setChild
        rw [if_neg]
        simpa using hnew
      rw [hset]
      obtain ⟨hnodup, hiff⟩ := @ih (children ++ [child])
        (fun a ha b hb => hk a (by simpa using ha) b (by simpa using hb)) (by
          rw [List.map_append, List.nodup_append]
          refine ⟨hn, by simp, ?_⟩
          intro a ha b hb
          obtain ⟨other, ho, rfl⟩ := List.mem_map.mp ha
          obtain rfl : b = wikiChildCursorKey child := by simpa using hb
          exact hnew other ho)
      refine ⟨hnodup, fun other => ?_⟩
      rw [hiff other, List.mem_append, List.mem_singleton, List.mem_cons, or_assoc]

section
variable {localeCompare : Str → Str → Ordering}

theorem compareChildren_eq (left right : WikiChild) :
    compareChildren localeCompare left right =
      match left, right with
      | .folder _ _, .file _ => .lt
      | .file _, .folder _ _ => .gt
      | _, _ => localeCompare left.target right.target := by
  have hkinds : lit "folder" ≠ lit "file" := by decide
  cases left <;> cases right <;> simp [compareChildren, WikiChild.kind, hkinds, hkinds.symm]

instance [h : Std.TransCmp localeCompare] : Std.TransCmp (compareChildren localeCompare) where
  eq_swap {a b} := by
    rw [compareChildren_eq, compareChildren_eq]
    cases a <;> cases b <;> first | rfl | exact h.eq_swap
  isLE_trans {a b c} hab hbc := by
    rw [compareChildren_eq] at *
    cases a <;> cases b <;> cases c <;>
      first
        | rfl
        | exact h.isLE_trans hab hbc
        | exact absurd (show false = true from hab) Bool.false_ne_true
        | exact absurd (show false = true from hbc) Bool.false_ne_true

variable (localeCompare) in
/-- The children of a folder, whatever their order. -/
theorem wikiChildren_spec {entries : List NoteEntry} (hn : (entries.map (·.path)).Nodup)
    (folderTarget : Str) :
    ((wikiChildren localeCompare entries folderTarget).map wikiChildCursorKey).Nodup ∧
      ∀ child, child ∈ wikiChildren localeCompare entries folderTarget ↔
        ∃ entry ∈ entries, wikiChild folderTarget entry = some child := by
  obtain ⟨hnodup, hiff⟩ := @setChild_fold [] (entries.filterMap (wikiChild folderTarget))
    (fun a ha b hb hk => by
      obtain ⟨entry, he, h⟩ := List.mem_filterMap.mp ha
      obtain ⟨entry', he', h'⟩ := List.mem_filterMap.mp hb
      exact wikiChild_unique hn he he' h h' hk) List.nodup_nil
  refine ⟨?_, fun child => ?_⟩
  · exact ((List.mergeSort_perm _ _).map _).nodup_iff.mpr hnodup
  · rw [wikiChildren, List.mem_mergeSort, hiff, List.mem_filterMap]
    simp

variable (localeCompare) in
theorem wikiChildren_ordered [Std.TransCmp localeCompare] {entries : List NoteEntry}
    (hn : (entries.map (·.path)).Nodup) (folderTarget : Str) :
    Ordered wikiChildCursorKey (fun child => ∃ entry ∈ entries, wikiChild folderTarget entry = some child)
      (fun a b => (compareChildren localeCompare a b).isLE = true)
      (wikiChildren localeCompare entries folderTarget) := by
  obtain ⟨hnodup, hiff⟩ := wikiChildren_spec localeCompare hn folderTarget
  exact ⟨hnodup, hiff, Sorting.mergeSort_sorted _ _⟩

theorem wikiChild_fits {folderTarget : Str} {entry : NoteEntry} {child : WikiChild}
    (hb : entry.Bounded) (h : wikiChild folderTarget entry = some child) :
    child.bytes ≤ MAX_COLLECTION_RESULT_BYTES := by
  have hp := wikiChild_path h
  have hlen := hb.path
  have hkind := fieldBytes_str (lit "kind")
  have hkeys : (lit "kind").length = 4 ∧ (lit "target").length = 6 ∧ (lit "path").length = 4 ∧
      (lit "folder").length = 6 ∧ (lit "file").length = 4 := by decide
  cases child with
  | folder target path =>
    obtain ⟨hpath, rest, hentry⟩ := hp
    have htarget := fieldBytes_str (lit "target") target
    have hpathBytes := fieldBytes_str (lit "path") path
    have hfolder := hkind (lit "folder")
    have hshort : path.length ≤ 1024 ∧ target.length ≤ path.length := by
      rw [hentry, List.length_append] at hlen
      constructor
      · omega
      · rw [hpath]
        simp only [List.length_append]
        omega
    have hobject := byteLength_object [(lit "kind", .str (lit "folder")), (lit "target", .str target),
      (lit "path", .str path)]
    simp only [List.map_cons, List.map_nil, List.sum_cons, List.sum_nil] at hobject
    show byteLength (stringify (.obj _)) ≤ 32768
    omega
  | file item =>
    obtain ⟨rfl, hpath⟩ := hp
    rw [hpath, List.length_append] at hlen
    have hitem := item_bytes hb (by omega)
    have hfile := hkind (lit "file")
    have hobject := byteLength_object ((lit "kind", .str (lit "file")) :: item.fields)
    simp only [List.map_cons, List.sum_cons] at hobject
    show byteLength (stringify (.obj _)) ≤ 32768
    omega

/-- Two folders do not share the scope of their cursors. -/
theorem wikiScope_inj {raw raw' : Option Str} {target target' : WikiTarget}
    (h : wikiTarget raw = .ok target) (h' : wikiTarget raw' = .ok target')
    (hs : wikiScope target.target = wikiScope target'.target) : target.target = target'.target := by
  have hslash : ∀ {raw target}, wikiTarget raw = .ok target → target.target ≠ lit "/" := by
    intro raw target h he
    simp only [wikiTarget, normalizeCollectionTarget, Effects.bind_eq_ok] at h
    obtain ⟨normalized, ⟨_, hroot, _, -, _, -, hn⟩, _, -, h⟩ := h
    obtain rfl := Except.ok.inj hn
    obtain rfl := Except.ok.inj h
    refine throwIf_eq_ok.mp hroot (.inr (.inl ?_))
    rw [show forwardSlashes (raw.getD []) = lit "/" from he]
    decide
  unfold wikiScope at hs
  split at hs <;> split at hs
  · simp_all
  · exact absurd hs.symm (hslash h')
  · exact absurd hs (hslash h)
  · exact hs
end

-- -----
-- Dated Inbox notes
-- -----

section
variable {provider : NotesProvider}

theorem length_extractInboxItems (content date sourcePath : Str) :
    (extractInboxItems content date sourcePath).length ≤ 2 * (byteLength content + 1) := by
  have h := length_extractListItems content .followUps (some .followup) date sourcePath
  have h' := length_extractListItems content .notes (some .note) date sourcePath
  simp only [extractInboxItems, inboxItemsOf, List.length_mergeSort, List.length_append,
    List.length_map]
  omega

theorem inboxItems_spec {date : Str} {items : List InboxItem}
    (h : inboxItems provider date = .ok items) :
    items.length < maxSafe ∧ items.Pairwise fun a b => a.position ≤ b.position := by
  simp only [inboxItems, Effects.bind_eq_ok] at h
  obtain ⟨path, -, note, hread, h⟩ := h
  cases note with
  | none =>
    obtain rfl := Except.ok.inj h
    exact ⟨by decide, .nil⟩
  | some note =>
    obtain rfl := Except.ok.inj h
    have hlen := length_extractInboxItems note.content date path
    have hsize := readOutcome_size hread
    have hmax : 2 * (MAX_NOTE_BYTES + 1) < maxSafe := by decide
    refine ⟨by omega, ?_⟩
    let earlier (a b : InboxItem) : Bool := a.position ≤ b.position
    have htrans : ∀ a b c, earlier a b = true → earlier b c = true → earlier a c = true := by
      simp only [earlier, decide_eq_true_eq]
      omega
    have htotal : ∀ a b, (earlier a b || earlier b a) = true := by
      simp only [earlier, Bool.or_eq_true, decide_eq_true_eq]
      omega
    have hsorted := List.pairwise_mergeSort htrans htotal
      (inboxItemsOf note.content .followUps .followup date path ++
        inboxItemsOf note.content .notes .note date path)
    exact hsorted.imp fun h => of_decide_eq_true h

theorem datedInboxRead_paginates {date : Str} {items : List InboxItem}
    (h : inboxItems provider date = .ok items)
    (hfit : ∀ item ∈ items, item.bytes ≤ MAX_COLLECTION_RESULT_BYTES) :
    Paginates (datedInboxRead provider date) .inbox date items := by
  apply paginates_of_locate hfit (fun cursor => .ok cursor.offset) fun n => ⟨n, none⟩
  · intro cursor limit
    simp only [datedInboxRead, h]
    rfl
  · rfl
  · exact fun n _ => rfl
  · exact fun n hn => hn.trans (inboxItems_spec h).1
end

-- -----
-- The three collections
-- -----

section
variable (localeCompare : Str → Str → Ordering) [Std.TransCmp localeCompare]
  (provider : NotesProvider)

theorem projectsListAction_paginates {entries : List NoteEntry}
    (h : listComplete provider (lit "projects/") = .ok entries) :
    Paginates (projectsListAction localeCompare provider) .projects (lit "all")
      (projectItems localeCompare entries) := by
  have hordered := projectItems_ordered localeCompare (listComplete_nodup h)
  have hpages := pageByKey_paginates hordered.once (fun item hitem => by
    obtain ⟨entry, he, hi⟩ := (hordered.complete item).mp hitem
    exact projectItem_fits (listComplete_bounded h entry he) hi) .projects (lit "all")
  have hread : projectsListAction localeCompare provider = pageByKey ProjectItem.bytes
      ProjectItem.target .projects (lit "all") (projectItems localeCompare entries) := by
    funext cursor limit
    simp only [projectsListAction, h]
    rfl
  rw [hread]
  exact hpages

theorem wikiFolderRead_paginates {target : WikiTarget} {entries : List NoteEntry}
    (h : listComplete provider target.path = .ok entries) :
    Paginates (wikiFolderRead localeCompare provider target) .wiki (wikiScope target.target)
      (wikiChildren localeCompare entries target.target) := by
  have hordered := wikiChildren_ordered localeCompare (listComplete_nodup h)
    target.target
  have hpages := pageByKey_paginates hordered.once (fun child hchild => by
    obtain ⟨entry, he, hc⟩ := (hordered.complete child).mp hchild
    exact wikiChild_fits (listComplete_bounded h entry he) hc) .wiki (wikiScope target.target)
  have hread : wikiFolderRead localeCompare provider target = pageByKey WikiChild.bytes
      wikiChildCursorKey .wiki (wikiScope target.target)
      (wikiChildren localeCompare entries target.target) := by
    funext cursor limit
    simp only [wikiFolderRead, h]
    rfl
  rw [hread]
  exact hpages

/-- A store with a project, a page of the Wiki and an Inbox note. -/
def smallStore : NotesProvider where
  list request := .ok (.entries
    [⟨request.pathPrefix.getD [] ++ lit "a.md", some (lit "r"), none, none⟩])
  read path := .ok ⟨path, lit "r", lit "## Notes\n- a\n"⟩

end

-- -----
-- An item that no page holds
-- -----

section
variable (n : Nat)

def longText : Str := List.replicate (n + 1) 97

def longNote : Str := lit "## Notes\n- " ++ longText n

def longStore : NotesProvider where
  list _ := .ok (.entries [])
  read path := .ok ⟨path, lit "r", longNote n⟩

theorem longText_units {u : UInt16} (h : u ∈ longText n) : u = 97 := List.eq_of_mem_replicate h

theorem splitLines_longNote : splitLines (longNote n) = [lit "## Notes", lit "- " ++ longText n] := by
  have hnote : longNote n = lit "## Notes" ++ 10 :: (lit "- " ++ longText n ++ []) := by
    rw [longNote, (by decide : lit "## Notes\n- " = lit "## Notes" ++ 10 :: lit "- ")]
    simp
  have hitem : (lit "- " ++ longText n).all (fun u => u != 10 && u != 13) = true := by
    rw [List.all_append, Bool.and_eq_true]
    refine ⟨by decide, List.all_eq_true.mpr fun u hu => ?_⟩
    rw [longText_units n hu]
    decide
  rw [hnote, splitLines, splitLinesAux_append (by decide), splitLinesAux, splitLinesAux_append hitem]
  simp [splitLinesAux]

theorem trim_longText : trim (longText n) = longText n := by
  have hspace : isSpace 97 = false := by decide
  have hdrop : (longText n).dropWhile isSpace = longText n := by
    simp [longText, List.replicate_succ, hspace]
  rw [trim, hdrop, trimEnd, List.rdropWhile_eq_self_iff]
  intro hne
  rw [longText_units n (List.getLast_mem hne), hspace]
  decide

theorem fenceRun_item : fenceRun (lit "- " ++ longText n) = none := by
  have hlit : lit "- " = [45, 32] := by decide
  rw [hlit]
  simp [fenceRun, space, backtick, tilde]

theorem visible_longNote :
    visibleMarkdownLines [lit "## Notes", lit "- " ++ longText n] = [true, true] := by
  have hheading : openingFence (lit "## Notes") = none := by decide
  have hitem : openingFence (lit "- " ++ longText n) = none := by
    simp only [openingFence, fenceRun_item]
  simp only [visibleMarkdownLines, visibleFrom, hheading, hitem]

/-- A line that starts with a dash is no heading. -/
theorem trimEnd_item (heading : Heading) :
    (trimEnd (lit "- " ++ longText n) == lit "## " ++ heading.text) = false := by
  rw [beq_eq_false_iff_ne]
  intro he
  have hpre := trimEnd_isPrefix (lit "- " ++ longText n)
  rw [he] at hpre
  have hhead : lit "## " = 35 :: lit "# " := by decide
  have hlit : lit "- " = 45 :: lit " " := by decide
  rw [hhead, hlit, List.cons_append, List.cons_append, List.cons_prefix_cons] at hpre
  exact absurd hpre.1 (by decide)

theorem bounds_followUps : sectionBounds [lit "## Notes", lit "- " ++ longText n] .followUps = none := by
  have hheading : (trimEnd (lit "## Notes") == lit "## " ++ Heading.followUps.text) = false := by
    decide
  simp [sectionBounds, visible_longNote, List.findIdx?_cons, hheading, trimEnd_item]

theorem bounds_notes :
    sectionBounds [lit "## Notes", lit "- " ++ longText n] .notes = some ⟨1, 2⟩ := by
  have hheading : (trimEnd (lit "## Notes") == lit "## " ++ Heading.notes.text) = true := by decide
  have hitem : startsLevelTwo (lit "- " ++ longText n) = false := by
    have hlit : lit "- " = [45, 32] := by decide
    rw [hlit]
    rfl
  simp [sectionBounds, visible_longNote, List.findIdx?_cons, hheading, hitem]

theorem parse_longItem :
    parseListItem (lit "- " ++ longText n) (some .note) = some (longText n, none) := by
  have hlit : lit "- " = [45, 32] := by decide
  have hfollowup : matchFollowup (lit "- " ++ longText n) = none := by
    rw [hlit, longText, List.replicate_succ]
    rfl
  have hlines : (longText n).any isLineTerminator = false := by
    rw [List.any_eq_false]
    intro u hu
    rw [longText_units n hu]
    decide
  have hspace : isSpace 97 = false := by decide
  have hdrop : (32 :: longText n).dropWhile isSpace = longText n := by
    simp [longText, List.replicate_succ, hspace, show isSpace 32 = true by decide]
  have hbullet : matchBullet (lit "- " ++ longText n) = some (longText n) := by
    rw [hlit]
    simp [matchBullet, afterSpace, hdrop, hlines, show isSpace 32 = true by decide]
  have hne : longText n ≠ [] := by simp [longText]
  simp [parseListItem, hfollowup, hbullet, trim_longText, hne]

theorem extractInboxItems_longNote (date sourcePath : Str) :
    extractInboxItems (longNote n) date sourcePath =
      [⟨⟨date, longText n, [], sourcePath, 2⟩, .note, none⟩] := by
  have hfollowUps : inboxItemsOf (longNote n) .followUps .followup date sourcePath = [] := by
    simp [inboxItemsOf, extractListItems, splitLines_longNote, bounds_followUps]
  have hnotes : inboxItemsOf (longNote n) .notes .note date sourcePath =
      [⟨⟨date, longText n, [], sourcePath, 2⟩, .note, none⟩] := by
    simp [inboxItemsOf, extractListItems, splitLines_longNote, bounds_notes, visible_longNote,
      itemsFrom, parse_longItem, collectNestedDetails]
  rw [extractInboxItems, hfollowUps, hnotes]
  exact List.mergeSort_singleton _

theorem inboxItems_longStore (h : byteLength (longNote n) ≤ MAX_NOTE_BYTES) :
    inboxItems (longStore n) (lit "2026-01-02") =
      .ok [⟨⟨lit "2026-01-02", longText n, [], lit "inbox/20260102.md", 2⟩, .note, none⟩] := by
  have hpath : inboxPath (lit "2026-01-02") = .ok (lit "inbox/20260102.md") := by decide +kernel
  have hnormal : normalizeStorePath (lit "inbox/20260102.md") true false =
      .ok (lit "inbox/20260102.md") := by decide +kernel
  have hrevision : validateRevision (lit "r") = .ok () := by decide
  have hsize : assertNoteSize (longNote n) = .ok () := if_neg (by omega)
  have hread : readOutcome (lit "inbox/20260102.md") ((longStore n).read (lit "inbox/20260102.md")) =
      .ok (some ⟨lit "inbox/20260102.md", lit "r", longNote n⟩) := by
    simp [readOutcome, longStore, validateDocument, Except.bind, hnormal, hrevision, hsize, bind]
  simp only [inboxItems, hpath, hread, bind, Except.bind, extractInboxItems_longNote]
  rfl

theorem byteLength_longNote : byteLength (longNote n) ≤ n + 12 := by
  have hascii : IsAscii (longNote n) := by
    refine isAscii_append (by decide) (List.all_eq_true.mpr fun u hu => ?_)
    rw [longText_units n hu]
    decide
  have hlit : (lit "## Notes\n- ").length = 11 := by decide
  refine (byteLength_ascii hascii).trans ?_
  simp only [longNote, longText, List.length_append, List.length_replicate]
  omega

theorem bytes_longItem (date sourcePath : Str) :
    n < (⟨⟨date, longText n, [], sourcePath, 2⟩, .note, none⟩ : InboxItem).bytes := by
  have hquote := length_quote (longText n)
  have htext : (longText n).length = n + 1 := List.length_replicate
  refine lt_of_lt_of_le ?_ (length_le_byteLength _)
  simp only [InboxItem.toJson, WorklogItem.fields, stringify, stringifyFields, List.cons_append,
    List.nil_append, List.length_cons, List.length_append]
  omega

variable {n} in
theorem longStore_stuck (hn : MAX_COLLECTION_RESULT_BYTES ≤ n) (hmax : n + 12 ≤ MAX_NOTE_BYTES) :
    ∃ items, inboxItems (longStore n) (lit "2026-01-02") = .ok items ∧
      ¬ Paginates (datedInboxRead (longStore n) (lit "2026-01-02")) .inbox
        (lit "2026-01-02") items := by
  have hitems := inboxItems_longStore n ((byteLength_longNote n).trans hmax)
  have hbytes := bytes_longItem n (lit "2026-01-02") (lit "inbox/20260102.md")
  generalize (⟨⟨lit "2026-01-02", longText n, [], lit "inbox/20260102.md", 2⟩, .note, none⟩ :
    InboxItem) = item at hitems hbytes
  refine ⟨[item], hitems, fun h => ?_⟩
  obtain ⟨pages, hf, -⟩ := h (fun _ => 1) (fun _ => Nat.one_pos)
  have hlarge : item.bytes > MAX_COLLECTION_RESULT_BYTES := hn.trans_lt hbytes
  have hread : ∃ e, datedInboxRead (longStore n) (lit "2026-01-02") none (some 1) = .error e := by
    simp only [datedInboxRead, hitems, decodeCursor, bind, Except.bind, page, List.drop_zero, takePage]
    rw [if_pos (by decide), if_pos hlarge]
    exact ⟨_, rfl⟩
  obtain ⟨e, he⟩ := hread
  cases hf with
  | last hok => exact absurd (he.symm.trans hok) (by simp)
  | more hok => exact absurd (he.symm.trans hok) (by simp)
end

end PiEnv.Notes
