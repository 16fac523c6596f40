import PiEnv.Notes.ObsidianSearch
import PiEnv.Notes.StoreContainment

/-!
# A vault that nothing changes

Every note of it is listed once, and is read as it is listed.
-/

namespace PiEnv.Notes.Obsidian

open Js

-- -----
-- Names and paths
-- -----

/-- Names on the way to what a walk sees. -/
def Visible (folder : List Str) : Prop := ∀ name ∈ folder, KeptSegment name ∧ slash ∉ name

theorem Visible.append {folder more : List Str} (h : Visible folder) (hmore : Visible more) :
    Visible (folder ++ more) := fun name hname =>
  (List.mem_append.mp hname).elim (h name) (hmore name)

theorem segmentsOf_join {folder : List Str} (h : Visible folder) :
    segmentsOf (join [slash] folder) = folder := by
  cases folder with
  | nil => rfl
  | cons name rest =>
    have hne : join [slash] (name :: rest) ≠ [] := by
      intro hnil
      have hname := (h name List.mem_cons_self).1.1
      cases rest with
      | nil => exact hname (by simpa [join] using hnil)
      | cons next rest => simp [join, List.intercalate_cons_cons] at hnil
    rw [segmentsOf, if_neg hne]
    exact split_join (fun part hpart => (h part hpart).2) (by simp)

theorem childPath_join {folder : List Str} (h : Visible folder) (name : Str) :
    childPath (join [slash] folder) name = join [slash] (folder ++ [name]) := by
  by_cases hnil : folder = []
  · subst hnil
    simp [childPath, join]
  · have hne : join [slash] folder ≠ [] := by
      intro hempty
      have hsegments := segmentsOf_join h
      rw [hempty] at hsegments
      exact hnil hsegments.symm
    rw [childPath, if_neg hne, join_append hnil (by simp)]
    simp [join]

namespace Snapshot
variable {snapshot : Snapshot}

theorem isDirectory_iff {folder : List Str} : snapshot.isDirectory folder = true ↔
    ∃ node, snapshot.node folder = some node ∧ node.kind = .directory := by
  cases hnode : snapshot.node folder <;> simp [isDirectory, hnode]

theorem opendir_join {folder : List Str} (h : Visible folder) {entries : List Dirent}
    (hopen : snapshot.vault.opendir (join [slash] folder) = some entries) :
    snapshot.isDirectory folder = true ∧ entries = (snapshot.names folder).map (snapshot.dirent folder) := by
  have hopen : snapshot.opendir (join [slash] folder) = some entries := hopen
  rw [opendir, segmentsOf_join h] at hopen
  simp only [Option.ite_none_right_eq_some, Option.some.injEq] at hopen
  exact ⟨hopen.1, hopen.2.symm⟩

/-- A name that a walk goes on to. -/
theorem Visible.child {folder : List Str} (h : Visible folder) {entry : Dirent}
    (hentry : entry ∈ (snapshot.names folder).map (snapshot.dirent folder))
    (hshown : isHidden entry = false) : Visible (folder ++ [entry.name]) := by
  obtain ⟨name, hname, rfl⟩ := List.mem_map.mp hentry
  have hvalid := snapshot.isName hname
  refine h.append fun other hother => ?_
  rw [List.mem_singleton.mp hother]
  exact ⟨⟨hvalid.1, hshown⟩, hvalid.2⟩

theorem within_join {directory below : Str} (h : snapshot.vault.Within directory below)
    {folder : List Str} (hvisible : Visible folder) (hjoin : directory = join [slash] folder) :
    ∃ folder', below = join [slash] folder' ∧ Visible folder' := by
  induction h generalizing folder with
  | self => exact ⟨folder, hjoin, hvisible⟩
  | child hopen hentry hfolder _ ih =>
    subst hjoin
    obtain ⟨-, rfl⟩ := opendir_join hvisible hopen
    rw [isFolder, Bool.and_eq_true, Bool.not_eq_true'] at hfolder
    exact ih (Visible.child hvisible hentry hfolder.1) (childPath_join hvisible _)

/-- Where a path of a walk leads. -/
structure Leads (snapshot : Snapshot) (notePath : Str) (folder : List Str) (node : Node) : Prop where
  visible : Visible folder
  ne_nil : folder ≠ []
  path : notePath = join [slash] folder
  found : snapshot.node folder = some node
  isFile : node.kind = .file
  portable : normalizeNotePath notePath = .ok notePath
  markdown : (lit ".md").isSuffixOf (notePath.map toLowerUnit) = true

theorem portable_iff {notePath : Str} (h : isPortableNotePath notePath = true) :
    normalizeNotePath notePath = .ok notePath := by
  unfold isPortableNotePath at h
  split at h
  case h_1 hnormal => rw [hnormal, eq_of_beq h]
  case h_2 => cases h

theorem extname_suffix (path : Str) : Posix.extname path <:+ Posix.basename path := by
  unfold Posix.extname
  dsimp only
  split
  · exact List.nil_suffix
  · exact List.drop_suffix _ _

theorem basename_name {name : Str} (hslash : slash ∉ name) : Posix.basename name = name := by
  have hsame : Posix.slash = slash := rfl
  have hkept : ∀ u ∈ name.reverse, (u == slash) = false := fun u hu => by
    rw [List.mem_reverse] at hu
    simpa using fun heq : u = slash => hslash (heq ▸ hu)
  have hdrop : name.reverse.dropWhile (· == slash) = name.reverse := by
    cases hreverse : name.reverse with
    | nil => rfl
    | cons u rest =>
      rw [hreverse] at hkept
      rw [List.dropWhile_cons_of_neg (by simp [hkept u List.mem_cons_self])]
  have htake : name.reverse.takeWhile (· != slash) = name.reverse :=
    List.takeWhile_eq_self_iff.mpr fun u hu => by simp [bne, hkept u hu]
  rw [Posix.basename, hsame, hdrop, htake, List.reverse_reverse]

theorem hasPath_leads {notePath : Str} (h : snapshot.vault.HasPath [] notePath) :
    ∃ folder node, snapshot.Leads notePath folder node := by
  obtain ⟨directory, entries, entry, hwithin, hopen, hentry, hshown, hnote, rfl⟩ := h
  obtain ⟨folder, rfl, hvisible⟩ := within_join hwithin (fun _ hname => absurd hname List.not_mem_nil) rfl
  obtain ⟨-, rfl⟩ := opendir_join hvisible hopen
  have hchild := Visible.child hvisible hentry hshown
  obtain ⟨name, hmem, rfl⟩ := List.mem_map.mp hentry
  have hname : (snapshot.dirent folder name).name = name := rfl
  simp only [isNoteEntry, Bool.and_eq_true, beq_iff_eq, hname] at hnote hchild ⊢
  obtain ⟨⟨hkind, hextension⟩, hportable⟩ := hnote
  obtain ⟨node, hnode⟩ := Option.ne_none_iff_exists'.mp (snapshot.mem_names.mp hmem)
  have hfile : node.kind = .file := by
    simp only [dirent, hnode, Option.map_some, Option.getD_some] at hkind
    cases hcase : node.kind <;> simp [NodeKind.dirent, hcase] at hkind ⊢
  rw [childPath_join hvisible] at hportable ⊢
  refine ⟨folder ++ [name], node, hchild, by simp, rfl, hnode, hfile, portable_iff hportable, ?_⟩
  have hslash : slash ∉ name := (hchild name (by simp)).2
  have hsuffix : Posix.extname name <:+ join [slash] (folder ++ [name]) := by
    have hlast : name <:+ join [slash] (folder ++ [name]) := by
      rw [← childPath_join hvisible]
      unfold childPath
      split
      · exact List.suffix_rfl
      · exact List.suffix_append _ _
    have hext := extname_suffix name
    rw [basename_name hslash] at hext
    exact hext.trans hlast
  rw [List.isSuffixOf_iff_suffix, ← hextension]
  exact hsuffix.map _

-- -----
-- Reading what is listed
-- -----

/-- What is above something is a directory. -/
theorem isDirectory_above {current rest : List Str} (hrest : rest ≠ [])
    (h : snapshot.node (current ++ rest) ≠ none) : snapshot.isDirectory current = true := by
  induction rest using List.reverseRecOn with
  | nil => exact absurd rfl hrest
  | append_singleton rest name ih =>
    rw [← List.append_assoc] at h
    obtain ⟨node, hnode, hkind⟩ := snapshot.parent (snapshot.mem_names.mpr h)
    by_cases hnil : rest = []
    · subst hnil
      rw [List.append_nil] at hnode
      exact isDirectory_iff.mpr ⟨node, hnode, hkind⟩
    · exact ih hnil (by simp [hnode])

theorem assertNoSymlinkPath_ok {failure : NotesError} {notePath : Str} {current rest : List Str}
    {node : Node} (h : snapshot.node (current ++ rest) = some node) (hfile : node.kind = .file) :
    assertNoSymlinkPath snapshot failure notePath current rest = .ok () := by
  induction rest generalizing current with
  | nil => rfl
  | cons segment rest ih =>
    have hcons : current ++ segment :: rest = current ++ [segment] ++ rest := by simp
    rw [hcons] at h
    have hnode : ∃ found, snapshot.node (current ++ [segment]) = some found ∧ found.kind ≠ .symlink := by
      by_cases hrest : rest = []
      · subst hrest
        rw [List.append_nil] at h
        exact ⟨node, h, by simp [hfile]⟩
      · have habove : snapshot.isDirectory (current ++ [segment]) = true :=
          isDirectory_above hrest (by rw [h]; exact Option.some_ne_none node)
        obtain ⟨found, hfound, hkind⟩ := isDirectory_iff.mp habove
        exact ⟨found, hfound, by simp [hkind]⟩
    obtain ⟨found, hfound, hkind⟩ := hnode
    rw [assertNoSymlinkPath, hfound]
    simp only [if_neg hkind]
    exact ih h

/-- What is read of a note that is there. -/
def stored (revisionOf : Str → Attributes → Utf8.Bytes → Str) (notePath : Str) (node : Node) :
    StoredDocument :=
  ⟨⟨notePath, revisionOf notePath node.attributes node.bytes, Utf8.decode node.bytes⟩,
    node.bytes.length, node.mtimeMs⟩

theorem Leads.split {notePath : Str} {folder : List Str} {node : Node}
    (h : snapshot.Leads notePath folder node) : Js.split [slash] notePath = folder := by
  rw [h.path]
  exact split_join (fun part hpart => (h.visible part hpart).2) h.ne_nil

theorem Leads.segmentsOf {notePath : Str} {folder : List Str} {node : Node}
    (h : snapshot.Leads notePath folder node) : segmentsOf notePath = folder := by
  rw [h.path]
  exact segmentsOf_join h.visible

theorem read_leads {notePath : Str} {folder : List Str} {node : Node}
    (h : snapshot.Leads notePath folder node) (hlink : node.nlink = 1)
    (hsize : node.bytes.length ≤ MAX_NOTE_BYTES)
    (revisionOf : Str → Attributes → Utf8.Bytes → Str) :
    read snapshot revisionOf notePath = .ok (stored revisionOf notePath node) := by
  have hwalk : ∀ failure, assertNoSymlinkPath snapshot failure notePath [] folder = .ok () :=
    fun failure => assertNoSymlinkPath_ok h.found h.isFile
  simp [read, resolveExistingNote, h.portable, h.split, hwalk, h.found, hlink, h.isFile, readDocument,
    Nat.not_lt.mpr hsize, bind, Except.bind, stored]

-- -----
-- The listing
-- -----

/-- The notes of a vault in the order of a listing. -/
def listing (snapshot : Snapshot) (localeCompare : Str → Str → Ordering) : List NoteEntry :=
  (snapshot.vault.sorted localeCompare).filterMap snapshot.vault.noteAt

section
variable {localeCompare : Str → Str → Ordering}

theorem notesOf_listing :
    snapshot.vault.notesOf localeCompare none none (snapshot.vault.sorted localeCompare) =
      snapshot.listing localeCompare := by
  rw [Vault.notesOf, listing, List.filter_eq_self.mpr fun notePath _ => by simp [isSkipped]]

theorem mem_sorted (hallowed : snapshot.vault.Allowed localeCompare) {notePath : Str}
    (h : notePath ∈ snapshot.vault.sorted localeCompare) :
    ∃ folder node, snapshot.Leads notePath folder node :=
  hasPath_leads ((mem_pathsBelow hallowed).mp ((List.mergeSort_perm _ _).mem_iff.mp h))

theorem lstat_leads {notePath : Str} {folder : List Str} {node : Node}
    (h : snapshot.Leads notePath folder node) : snapshot.vault.lstat notePath = some node.metadata := by
  have hnode : snapshot.node (Obsidian.segmentsOf notePath) = some node := h.segmentsOf ▸ h.found
  simp [vault, hnode]

theorem mem_listing (hallowed : snapshot.vault.Allowed localeCompare) {note : NoteEntry}
    (h : note ∈ snapshot.listing localeCompare) :
    ∃ folder node, snapshot.Leads note.path folder node ∧ node.nlink = 1 ∧
      note = noteEntry note.path node.metadata := by
  obtain ⟨notePath, hmem, hnote⟩ := List.mem_filterMap.mp h
  obtain rfl := noteAt_path hnote
  obtain ⟨folder, node, hleads⟩ := mem_sorted hallowed hmem
  obtain ⟨metadata, hmetadata, -, hlink, heq⟩ := noteAt_iff.mp hnote
  rw [lstat_leads hleads, Option.some.injEq] at hmetadata
  subst hmetadata
  exact ⟨folder, node, hleads, hlink, heq⟩

/-- All notes are on the one page that a search asks for. -/
theorem list_listing (hallowed : snapshot.vault.Allowed localeCompare) :
    list snapshot.vault localeCompare ⟨none, some MAX_NOTE_COUNT, none⟩ =
      .ok ⟨snapshot.listing localeCompare, none⟩ := by
  obtain ⟨⟨entries, hasMore⟩, hcollect⟩ := @collectEntries_ok snapshot.vault localeCompare none none
    (min MAX_NOTE_COUNT MAX_NOTE_COUNT) (snapshot.vault.sorted localeCompare) [] fun notePath hmem _ => by
      obtain ⟨folder, node, hleads⟩ := mem_sorted hallowed hmem
      simp [lstat_leads hleads]
  have hroom : ([] : List NoteEntry).length + (snapshot.vault.sorted localeCompare).length ≤
      min MAX_NOTE_COUNT MAX_NOTE_COUNT := by
    have hlength : (snapshot.vault.sorted localeCompare).length =
        (snapshot.vault.pathsBelow localeCompare).length := (List.mergeSort_perm _ _).length_eq
    have := hallowed.notes
    simp only [List.length_nil, min_self]
    omega
  obtain ⟨rfl, -⟩ := collectEntries_all hcollect hroom
  obtain ⟨rest, hsplit, -, hrest, -⟩ := collectEntries_spec (Nat.zero_le _) hcollect
  rw [List.nil_append, hrest rfl, List.append_nil, notesOf_listing] at hsplit
  rw [list_ok rfl rfl hallowed hcollect, ← hsplit]
  rfl

-- -----
-- Each note once
-- -----

/-- The names on the way to what a walk found. -/
def route (found : Str × Dirent) : List Str := Obsidian.segmentsOf found.1 ++ [found.2.name]

/-- A walk comes by everything below a directory once. -/
theorem below_routes (depth : Nat) {folder : List Str} (hvisible : Visible folder) :
    ((snapshot.vault.below localeCompare depth (join [slash] folder)).map route).Nodup ∧
      ∀ found ∈ snapshot.vault.below localeCompare depth (join [slash] folder),
        ∃ name rest, route found = folder ++ name :: rest := by
  induction depth generalizing folder with
  | zero => exact ⟨List.nodup_nil, fun _ hfound => absurd hfound List.not_mem_nil⟩
  | succ depth ih =>
    rw [Vault.below]
    cases hopen : snapshot.vault.opendir (join [slash] folder) with
    | none =>
      have hnil : sortEntries localeCompare ((none : Option (List Dirent)).getD []) = [] := by
        simp [sortEntries]
      rw [hnil]
      exact ⟨List.nodup_nil, fun _ hfound => absurd hfound List.not_mem_nil⟩
    | some entries =>
      obtain ⟨-, rfl⟩ := opendir_join hvisible hopen
      rw [Option.getD_some]
      have hperm : (sortEntries localeCompare ((snapshot.names folder).map (snapshot.dirent folder))).Perm
          ((snapshot.names folder).map (snapshot.dirent folder)) := List.mergeSort_perm _ _
      generalize sortEntries localeCompare _ = sorted at hperm ⊢
      have hnames : sorted.Pairwise fun a b => a.name ≠ b.name := by
        have hnodup : (sorted.map (·.name)).Nodup := by
          refine (hperm.map _).nodup_iff.mpr ?_
          rw [List.map_map]
          exact (List.map_id (snapshot.names folder)).symm ▸ snapshot.nodup folder
        exact List.pairwise_map.mp hnodup
      have hroute : ∀ entry : Dirent, route (join [slash] folder, entry) = folder ++ [entry.name] :=
        fun entry => by rw [route, segmentsOf_join hvisible]
      -- what an entry adds begins with its name
      have hentry : ∀ entry ∈ sorted, ∀ found ∈ (join [slash] folder, entry) ::
          (if isFolder entry then
            snapshot.vault.below localeCompare depth (childPath (join [slash] folder) entry.name)
          else []), ∃ rest, route found = folder ++ entry.name :: rest := by
        intro entry hmem found hfound
        rcases List.mem_cons.mp hfound with rfl | hfound
        · exact ⟨[], hroute entry⟩
        · split at hfound
          case isTrue hfolder =>
            rw [isFolder, Bool.and_eq_true, Bool.not_eq_true'] at hfolder
            rw [childPath_join hvisible] at hfound
            have hchild := Visible.child hvisible (hperm.mem_iff.mp hmem) hfolder.1
            obtain ⟨name, rest, hfound⟩ := (ih hchild).2 found hfound
            exact ⟨name :: rest, by rw [hfound, List.append_assoc]; rfl⟩
          case isFalse => cases hfound
      constructor
      · rw [List.map_flatMap, List.nodup_flatMap]
        constructor
        · intro entry hmem
          rw [List.map_cons, List.nodup_cons, hroute]
          split
          case isTrue hfolder =>
            rw [isFolder, Bool.and_eq_true, Bool.not_eq_true'] at hfolder
            have hchild := Visible.child hvisible (hperm.mem_iff.mp hmem) hfolder.1
            rw [childPath_join hvisible]
            refine ⟨fun hself => ?_, (ih hchild).1⟩
            obtain ⟨found, hfound, heq⟩ := List.mem_map.mp hself
            obtain ⟨name, rest, hroute⟩ := (ih hchild).2 found hfound
            rw [hroute] at heq
            simpa using congrArg List.length heq
          case isFalse => simp
        · refine hnames.imp_of_mem fun {a b} ha hb hne => ?_
          rw [Function.onFun, List.disjoint_left]
          intro names hleft hright
          obtain ⟨found, hfound, rfl⟩ := List.mem_map.mp hleft
          obtain ⟨found', hfound', heq⟩ := List.mem_map.mp hright
          obtain ⟨rest, hrest⟩ := hentry a ha found hfound
          obtain ⟨rest', hrest'⟩ := hentry b hb found' hfound'
          rw [hrest, hrest', List.append_cancel_left_eq, List.cons.injEq] at heq
          exact hne heq.1.symm
      · intro found hfound
        obtain ⟨entry, hmem, hfound⟩ := List.mem_flatMap.mp hfound
        obtain ⟨rest, hrest⟩ := hentry entry hmem found hfound
        exact ⟨entry.name, rest, hrest⟩

theorem route_path (hallowed : snapshot.vault.Allowed localeCompare) {found : Str × Dirent}
    (h : found ∈ snapshot.vault.entriesBelow localeCompare) :
    Js.split [slash] (childPath found.1 found.2.name) = route found := by
  obtain ⟨entries, hwithin, hopen, hmem⟩ := (mem_below hallowed.opens).mp h
  obtain ⟨folder, hfolder, hvisible⟩ :=
    within_join hwithin (fun _ hname => absurd hname List.not_mem_nil) rfl
  rw [hfolder] at hopen
  obtain ⟨-, rfl⟩ := opendir_join hvisible hopen
  obtain ⟨name, hname, heq⟩ := List.mem_map.mp hmem
  rw [route, hfolder, segmentsOf_join hvisible, childPath_join hvisible]
  refine split_join (fun part hpart => ?_) (by simp)
  rcases List.mem_append.mp hpart with hpart | hpart
  · exact (hvisible part hpart).2
  · rw [List.mem_singleton.mp hpart, ← heq]
    exact (snapshot.isName hname).2

theorem listing_nodup (hallowed : snapshot.vault.Allowed localeCompare) :
    ((snapshot.listing localeCompare).map (·.path)).Nodup := by
  have hroutes : (snapshot.vault.entriesBelow localeCompare).Pairwise fun a b => route a ≠ route b :=
    List.pairwise_map.mp (@below_routes snapshot localeCompare _ [] fun _ hname =>
      absurd hname List.not_mem_nil).1
  have hpaths : (snapshot.vault.pathsBelow localeCompare).Nodup := by
    refine List.pairwise_filterMap.mpr (hroutes.imp_of_mem fun {a b} ha hb hne path hpath path' hpath' => ?_)
    rintro rfl
    have hsame : ∀ {found : Str × Dirent}, notePath? found = some path →
        childPath found.1 found.2.name = path := fun h => by
      unfold notePath? at h
      exact Option.some.inj (Option.ite_none_right_eq_some.mp h).2
    refine hne ?_
    rw [← route_path hallowed ha, ← route_path hallowed hb, hsame hpath, hsame hpath']
  have hsorted : (snapshot.vault.sorted localeCompare).Nodup := (List.mergeSort_perm _ _).nodup_iff.mpr hpaths
  refine List.pairwise_map.mpr (List.pairwise_filterMap.mpr (hsorted.imp fun {a b} hne note hnote note' hnote' => ?_))
  rw [noteAt_path hnote, noteAt_path hnote']
  exact hne

end

end Snapshot

end PiEnv.Notes.Obsidian
