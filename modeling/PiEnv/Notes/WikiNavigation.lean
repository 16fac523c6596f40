import PiEnv.Notes.StoreContainment

/-!
# Navigation in the Wiki

From the root of the Wiki on, folders are read and their children are given back
as targets. A child is a folder where a note lies deeper; a target is a folder
where its name is not that of a note.
-/

namespace PiEnv.Notes

open Js

variable {localeCompare : Str → Str → Ordering} {entries : List NoteEntry} {entry : NoteEntry}
  {target path name relative : Str} {raw : Option Str} {folder : WikiTarget}

-- -----
-- Reading folders
-- -----

/-- Notes as they are validated: distinct, each under its own normal form. -/
structure NoteInventory (entries : List NoteEntry) : Prop where
  once : (entries.map (·.path)).Nodup
  canonical : ∀ entry ∈ entries, normalizeStorePath entry.path true false = .ok entry.path

/-- The children of a folder; its notes are listed by their prefix. -/
def folderChildren (localeCompare : Str → Str → Ordering) (entries : List NoteEntry)
    (folder : WikiTarget) : List WikiChild :=
  wikiChildren localeCompare (entries.filter fun entry => startsWith entry.path folder.path)
    folder.target

/-- The notes that are found from a target on. -/
def walk (localeCompare : Str → Str → Ordering) (entries : List NoteEntry) :
    Nat → Option Str → List NoteEntry
  | 0, _ => []
  | depth + 1, raw =>
    match wikiTarget raw with
    | .ok folder =>
      if folder.kind = .folder then
        (folderChildren localeCompare entries folder).flatMap fun child =>
          match child with
          | .file item => [item.entry]
          | .folder target _ => walk localeCompare entries depth (some target)
      else []
    | .error _ => []

/-- Every note is found once, and what is presented as a folder is read as it. -/
structure Navigable (localeCompare : Str → Str → Ordering) (entries : List NoteEntry) : Prop where
  found : ∀ depth, 1024 ≤ depth → (walk localeCompare entries depth none).Perm
    (entries.filter fun entry => startsWith entry.path (lit "wiki/"))
  reread : ∀ raw folder target path, wikiTarget raw = .ok folder → folder.kind = .folder →
    .folder target path ∈ folderChildren localeCompare entries folder →
      wikiTarget (some target) = .ok ⟨target, path, .folder⟩

def endsInMd (name : Str) : Prop := (lit ".md").isSuffixOf (name.map toLowerUnit) = true

instance (name : Str) : Decidable (endsInMd name) := inferInstanceAs (Decidable (_ = true))

/-- No directory of the Wiki has the name of a note. -/
def NoNoteDirectory (entries : List NoteEntry) : Prop :=
  ∀ entry ∈ entries, ∀ relative, entry.path = lit "wiki/" ++ relative →
    ∀ directory ∈ (split [slash] relative).dropLast, ¬ endsInMd directory

-- -----
-- Paths of notes
-- -----

theorem mem_normalizePosixPath {u : UInt16} {stripped : Str} (hdots : lit ".." ∉ split [slash] stripped)
    (h : u ∈ normalizePosixPath stripped) : u = slash ∨ u ∈ stripped := by
  rcases mem_join h with hslash | ⟨segment, hsegment, hu⟩
  · exact .inl hslash
  · rcases mem_normalizeSegments hdots hsegment with hnil | ⟨hmem, -⟩
    · exact absurd hnil List.not_mem_nil
    · exact .inr (mem_of_mem_split (by simp) hmem hu)

/-- A path in normal form has no units that a target may not have. -/
theorem canonical_clean (h : normalizeStorePath path true false = .ok path) : CleanUnits path := by
  obtain ⟨stripped, hstripped, hinvalid, hescapes, -, hpath⟩ := normalizeStorePath_ok h
  have hstripped : stripped = forwardSlashes path := hstripped
  have hdots : lit ".." ∉ split [slash] stripped := by
    intro hmem
    simp only [escapesStore, Bool.or_eq_false_iff] at hescapes
    exact absurd (List.contains_iff_mem.mpr hmem) (by simpa using hescapes.1.1.1)
  have hbackslash : 92 ∉ path := by
    intro hmem
    rw [hpath] at hmem
    rcases mem_normalizePosixPath hdots hmem with hslash | hmem
    · exact absurd hslash (by decide)
    · exact forwardSlashes_clean path (hstripped ▸ hmem)
  rw [forwardSlashes_id hbackslash] at hstripped
  subst hstripped
  simp only [isInvalidStorePath, Bool.or_eq_false_iff] at hinvalid
  exact ⟨hbackslash, by simpa using hinvalid.1.2, hinvalid.2⟩

/-- What the paths of the notes in a folder begin with, after `wiki/`. -/
def within (target : Str) : Str := if target = [] then [] else target ++ lit "/"

theorem within_of_ne (h : target ≠ []) : within target = target ++ lit "/" := if_neg h

theorem indexOfText_slash {rest : Str} (hname : slash ∉ name) :
    indexOfText (lit "/") (name ++ slash :: rest) = some name.length := by
  induction name with
  | nil => rfl
  | cons u name ih =>
    obtain ⟨hu, hname⟩ : slash ≠ u ∧ slash ∉ name := by simpa using hname
    have hnot : (lit "/").isPrefixOf (u :: (name ++ slash :: rest)) = false := startsWith_ne hu.symm
    rw [List.cons_append, indexOfText, if_neg (by rw [hnot]; decide), ih hname]
    rfl

theorem indexOfText_no_slash (hname : slash ∉ name) : indexOfText (lit "/") name = none := by
  induction name with
  | nil => rfl
  | cons u name ih =>
    obtain ⟨hu, hname⟩ : slash ≠ u ∧ slash ∉ name := by simpa using hname
    have hnot : (lit "/").isPrefixOf (u :: name) = false := startsWith_ne hu.symm
    rw [indexOfText, if_neg (by rw [hnot]; decide), ih hname]
    rfl

theorem wikiChild_under (hne : relative ≠ [])
    (hpath : entry.path = lit "wiki/" ++ within target ++ relative) :
    wikiChild target entry =
      match indexOfText (lit "/") relative with
      | some index =>
        some (.folder (within target ++ relative.take index)
          (lit "wiki/" ++ (within target ++ relative.take index) ++ lit "/"))
      | none => some (.file ⟨within target ++ relative, entry⟩) := by
  have hdrop : entry.path.drop (lit "wiki/" ++ within target).length = relative := by
    rw [hpath, List.drop_left]
  have hstarts : startsWith entry.path (lit "wiki/" ++ within target) = true := by
    rw [startsWith_iff, hdrop, hpath]
  have hwithin : (if target = [] then [] else target ++ lit "/") = within target := rfl
  unfold wikiChild
  cases hindex : indexOfText (lit "/") relative <;>
    simp only [hwithin, hdrop, hindex, hstarts, hne, Bool.not_true, Bool.false_eq_true,
      decide_false, Bool.or_self, if_false]

theorem wikiChild_file (hname : slash ∉ name) (hne : name ≠ [])
    (hpath : entry.path = lit "wiki/" ++ within target ++ name) :
    wikiChild target entry = some (.file ⟨within target ++ name, entry⟩) := by
  rw [wikiChild_under hne hpath, indexOfText_no_slash hname]

theorem wikiChild_folder {rest : Str} (hname : slash ∉ name)
    (hpath : entry.path = lit "wiki/" ++ within target ++ (name ++ slash :: rest)) :
    wikiChild target entry = some (.folder (within target ++ name)
      (lit "wiki/" ++ (within target ++ name) ++ lit "/")) := by
  rw [wikiChild_under (by simp) hpath, indexOfText_slash hname]
  simp

/-- A note in a folder is a file of it, or lies in one of its folders. -/
theorem under_cases (relative : Str) :
    slash ∉ relative ∨ ∃ name rest, slash ∉ name ∧ relative = name ++ slash :: rest := by
  by_cases hslash : slash ∈ relative
  · obtain ⟨name, rest, hrelative, hname⟩ := List.eq_append_cons_of_mem hslash
    exact .inr ⟨name, rest, hname, hrelative⟩
  · exact .inl hslash

theorem wikiChild_some {child : WikiChild} (h : wikiChild target entry = some child) :
    ∃ relative, relative ≠ [] ∧ entry.path = lit "wiki/" ++ within target ++ relative := by
  unfold wikiChild at h
  simp only [show (if target = [] then [] else target ++ lit "/") = within target from rfl] at h
  split at h
  · exact absurd h nofun
  case isFalse hc =>
    simp only [Bool.or_eq_true, Bool.not_eq_eq_eq_not, Bool.not_true, decide_eq_true_eq, not_or,
      Bool.not_eq_false, startsWith_iff] at hc
    exact ⟨_, hc.2, hc.1⟩

-- -----
-- Targets of folders
-- -----

theorem endsInMd_append {front : Str} :
    endsInMd (front ++ [slash] ++ name) ↔ endsInMd name := by
  unfold endsInMd
  rw [List.isSuffixOf_iff_suffix, List.isSuffixOf_iff_suffix, List.append_assoc, List.map_append,
    List.map_append]
  constructor
  · intro h
    have htail : List.map toLowerUnit [slash] ++ name.map toLowerUnit <:+
        front.map toLowerUnit ++ (List.map toLowerUnit [slash] ++ name.map toLowerUnit) :=
      List.suffix_append _ _
    rcases List.suffix_or_suffix_of_suffix h htail with h | h
    · rcases List.suffix_cons_iff.mp (show lit ".md" <:+ slash :: name.map toLowerUnit from h) with
        heq | h
      · exact absurd (List.cons.inj heq).1 (by decide)
      · exact h
    · have hmem : slash ∈ lit ".md" := h.subset (show slash ∈ slash :: _ from List.mem_cons_self)
      exact absurd hmem (by decide)
  · intro h
    exact h.trans ((List.suffix_append _ _).trans (List.suffix_append _ _))

theorem endsInMd_within : endsInMd (within target ++ name) ↔ endsInMd name := by
  unfold within
  split
  · exact Iff.rfl
  · exact endsInMd_append

theorem split_within (name : Str) :
    split [slash] (within target ++ name) =
      (if target = [] then [] else split [slash] target) ++ split [slash] name := by
  unfold within
  split
  · rfl
  · exact split_append target name

theorem wikiTarget_folder (h : wikiTarget raw = .ok folder) (hkind : folder.kind = .folder) :
    folder.path = lit "wiki/" ++ within folder.target := by
  simp only [wikiTarget, Effects.bind_eq_ok] at h
  obtain ⟨normalized, -, path, hpath, hok⟩ := h
  obtain rfl := Except.ok.inj hok
  obtain ⟨rfl, -⟩ := requireCollectionPathLength_ok hpath
  show lit "wiki/" ++ _ = lit "wiki/" ++ within normalized
  unfold within
  split
  · rfl
  · rfl

theorem wikiTarget_kind (h : wikiTarget raw = .ok folder) (hkind : folder.kind = .folder) :
    ¬ endsInMd folder.target := by
  simp only [wikiTarget, Effects.bind_eq_ok] at h
  obtain ⟨normalized, -, path, -, hok⟩ := h
  obtain rfl := Except.ok.inj hok
  intro hmd
  have hmd : (lit ".md").isSuffixOf (normalized.map toLowerUnit) = true := hmd
  simp [hmd] at hkind

theorem kept_ends (hsegments : ∀ segment ∈ split [slash] target, KeptSegment segment) :
    startsWith target (lit "/") = false ∧ (lit "/").isSuffixOf target = false := by
  refine ⟨Bool.eq_false_iff.mpr fun h => ?_, Bool.eq_false_iff.mpr fun h => ?_⟩
  · obtain ⟨rest, rfl⟩ := List.isPrefixOf_iff_prefix.mp h
    have hsplit : split [slash] ([] ++ [slash] ++ rest) = [] :: split [slash] rest :=
      split_cons List.not_mem_nil
    have hnil : [] ∈ split [slash] (lit "/" ++ rest) := by
      show [] ∈ split [slash] ([] ++ [slash] ++ rest)
      rw [hsplit]
      exact List.mem_cons_self
    exact (hsegments [] hnil).1 rfl
  · obtain ⟨front, rfl⟩ := List.isSuffixOf_iff_suffix.mp h
    have hsplit : split [slash] (front ++ [slash] ++ []) = split [slash] front ++ split [slash] [] :=
      split_append front []
    have hnil : [] ∈ split [slash] (front ++ lit "/") := by
      have hempty : split [slash] [] = [[]] := by decide
      rw [show front ++ lit "/" = front ++ [slash] ++ [] by simp [lit, units, slash], hsplit, hempty]
      exact List.mem_append_right _ List.mem_cons_self
    exact (hsegments [] hnil).1 rfl

/-- How a target is read, by its name. -/
theorem wikiTarget_some (hne : target ≠ []) (hunits : CleanUnits target)
    (hsegments : ∀ segment ∈ split [slash] target, KeptSegment segment)
    (hlength : (lit "wiki/" ++ target ++ lit "/").length ≤ 1024) :
    wikiTarget (some target) =
      .ok (if endsInMd target then ⟨target, lit "wiki/" ++ target, .file⟩
        else ⟨target, lit "wiki/" ++ target ++ lit "/", .folder⟩) := by
  have hnormalized : normalizeCollectionTarget (some target) (lit "Wiki") (lit "wiki/") true =
      .ok target := by
    obtain ⟨hstart, hend⟩ := kept_ends hsegments
    have hescape : ((split [slash] target).any fun segment =>
        segment == [] || segment == lit ".." || startsWith segment (lit ".")) = false := by
      refine List.any_eq_false.mpr fun segment hsegment => ?_
      have hkept := hsegments segment hsegment
      simp [hkept.1, hkept.ne_dots.2, hkept.2]
    have hcolon : target.contains 58 = false := by simpa using hunits.2.1
    have hfirst : ¬ (true = false ∧ target = [] ∨ startsWith target (lit "/") = true ∨
        target ≠ [] ∧ (lit "/").isSuffixOf target = true) := by simp [hstart, hend]
    have hsecond : ¬ ((if target = [] then [] else split [slash] target).any fun segment =>
        segment == [] || segment == lit ".." || startsWith segment (lit ".")) = true := by
      rw [if_neg hne, hescape]
      decide
    have hthird : ¬ (target.contains 58 || target.any isControl) = true := by
      rw [hcolon, hunits.2.2]
      decide
    unfold normalizeCollectionTarget
    simp only [Option.getD_some, forwardSlashes_id hunits.1, throwIf_eq_ok.mpr hfirst,
      throwIf_eq_ok.mpr hsecond, throwIf_eq_ok.mpr hthird]
    rfl
  unfold wikiTarget
  rw [hnormalized]
  by_cases hmd : endsInMd target
  · have hmd' : (lit ".md").isSuffixOf (target.map toLowerUnit) = true := hmd
    have hshort : (lit "wiki/" ++ target).length ≤ 1024 := by
      simp only [List.length_append] at hlength ⊢
      omega
    simp [bind, Except.bind, hmd', hne, requireCollectionPathLength_of hshort, hmd, pure, Except.pure]
  · have hmd' : (lit ".md").isSuffixOf (target.map toLowerUnit) = false := Bool.eq_false_iff.mpr hmd
    have hshort : (lit "wiki/" ++ (target ++ lit "/")).length ≤ 1024 := by
      rw [← List.append_assoc]
      exact hlength
    simp [bind, Except.bind, hmd', hne, requireCollectionPathLength_of hshort, hmd, pure, Except.pure]

-- -----
-- Children of folders
-- -----

theorem NoteInventory.kept (h : NoteInventory entries) (hentry : entry ∈ entries) :
    ∀ segment ∈ split [slash] entry.path, KeptSegment segment :=
  fun segment hsegment =>
    have hnote := (normalizeStorePath_storeNote (h.canonical entry hentry)).segments segment hsegment
    ⟨hnote.1, hnote.2.2.2⟩

theorem child_segments (h : NoteInventory entries) (hentry : entry ∈ entries) {rest : Str}
    (hpath : entry.path = lit "wiki/" ++ within target ++ (name ++ slash :: rest)) :
    within target ++ name ≠ [] ∧
      ∀ segment ∈ split [slash] (within target ++ name), KeptSegment segment := by
  have hpath' : entry.path = lit "wiki" ++ [slash] ++ (within target ++ name ++ [slash] ++ rest) := by
    rw [hpath, show lit "wiki/" = lit "wiki" ++ [slash] by decide]
    simp
  have hkept := h.kept hentry
  rw [hpath', split_cons (by decide), split_append] at hkept
  have hsegments : ∀ segment ∈ split [slash] (within target ++ name), KeptSegment segment :=
    fun segment hsegment => hkept segment (List.mem_cons_of_mem _ (List.mem_append_left _ hsegment))
  refine ⟨fun hnil => ?_, hsegments⟩
  rw [hnil] at hsegments
  exact (hsegments [] (by decide)).1 rfl

/-- A folder of a note is a target, which is read by its name. -/
theorem wikiTarget_child (h : NoteInventory entries) (hentry : entry ∈ entries) {rest : Str}
    (hpath : entry.path = lit "wiki/" ++ within target ++ (name ++ slash :: rest)) :
    wikiTarget (some (within target ++ name)) =
      .ok (if endsInMd name then ⟨within target ++ name, lit "wiki/" ++ (within target ++ name), .file⟩
        else ⟨within target ++ name, lit "wiki/" ++ (within target ++ name) ++ lit "/", .folder⟩) := by
  obtain ⟨hne, hsegments⟩ := child_segments h hentry hpath
  have hunits : CleanUnits (within target ++ name) := by
    obtain ⟨hbackslash, hcolon, hcontrol⟩ := canonical_clean (h.canonical entry hentry)
    have hmem : ∀ u ∈ within target ++ name, u ∈ entry.path := by
      intro u hu
      rw [hpath, ← List.append_assoc, List.append_assoc (lit "wiki/")]
      exact List.mem_append_left _ (List.mem_append_right _ hu)
    refine ⟨fun hu => hbackslash (hmem _ hu), fun hu => hcolon (hmem _ hu), ?_⟩
    exact List.any_eq_false.mpr fun u hu => List.any_eq_false.mp hcontrol u (hmem u hu)
  have hlength : (lit "wiki/" ++ (within target ++ name) ++ lit "/").length ≤ 1024 := by
    have htotal := normalizeStorePath_length (h.canonical entry hentry)
    have hslash : (lit "/").length = 1 := rfl
    rw [hpath] at htotal
    simp only [List.length_append, List.length_cons] at htotal ⊢
    omega
  rw [wikiTarget_some hne hunits hsegments hlength]
  simp only [endsInMd_within]

theorem wikiChild_isSome : (wikiChild target entry).isSome = true ↔
    ∃ relative, relative ≠ [] ∧ entry.path = lit "wiki/" ++ within target ++ relative := by
  constructor
  · intro h
    obtain ⟨child, hchild⟩ := Option.isSome_iff_exists.mp h
    exact wikiChild_some hchild
  · rintro ⟨relative, hne, hpath⟩
    rw [wikiChild_under hne hpath]
    split <;> rfl

/-- A folder child comes from a note that lies deeper. -/
theorem wikiChild_folder_some (h : wikiChild target entry = some (.folder name path)) :
    ∃ directory rest, slash ∉ directory ∧ name = within target ++ directory ∧
      path = lit "wiki/" ++ name ++ lit "/" ∧
        entry.path = lit "wiki/" ++ within target ++ (directory ++ slash :: rest) := by
  obtain ⟨relative, hne, hpath⟩ := wikiChild_some h
  rcases under_cases relative with hslash | ⟨directory, rest, hdirectory, rfl⟩
  · rw [wikiChild_file hslash hne hpath] at h
    exact absurd h nofun
  · rw [wikiChild_folder hdirectory hpath] at h
    obtain ⟨rfl, rfl⟩ := WikiChild.folder.inj (Option.some.inj h)
    exact ⟨directory, rest, hdirectory, rfl, rfl, hpath⟩

theorem mem_folderChildren (h : NoteInventory entries)
    (hpath : folder.path = lit "wiki/" ++ within folder.target) {child : WikiChild} :
    child ∈ folderChildren localeCompare entries folder ↔
      ∃ entry ∈ entries, wikiChild folder.target entry = some child := by
  have hnodup : ((entries.filter fun entry => startsWith entry.path folder.path).map (·.path)).Nodup :=
    h.once.sublist (List.filter_sublist.map _)
  rw [folderChildren, (wikiChildren_spec localeCompare hnodup folder.target).2 child]
  constructor
  · rintro ⟨entry, hentry, hchild⟩
    exact ⟨entry, (List.mem_filter.mp hentry).1, hchild⟩
  · rintro ⟨entry, hentry, hchild⟩
    refine ⟨entry, List.mem_filter.mpr ⟨hentry, ?_⟩, hchild⟩
    obtain ⟨relative, -, hrelative⟩ := wikiChild_some hchild
    rw [hrelative, ← hpath]
    exact List.isPrefixOf_iff_prefix.mpr (List.prefix_append _ _)

theorem folderChildren_nodup (h : NoteInventory entries) :
    (folderChildren localeCompare entries folder).Nodup := by
  have hnodup : ((entries.filter fun entry => startsWith entry.path folder.path).map (·.path)).Nodup :=
    h.once.sublist (List.filter_sublist.map _)
  exact List.Nodup.of_map _ (wikiChildren_spec localeCompare hnodup folder.target).1

/-- Where no directory has the name of a note, folders are read as folders. -/
theorem reread_of (h : NoteInventory entries) (hnames : NoNoteDirectory entries)
    (hraw : wikiTarget raw = .ok folder) (hkind : folder.kind = .folder)
    (hchild : .folder target path ∈ folderChildren localeCompare entries folder) :
    wikiTarget (some target) = .ok ⟨target, path, .folder⟩ := by
  obtain ⟨entry, hentry, hfolder⟩ :=
    (mem_folderChildren h (wikiTarget_folder hraw hkind)).mp hchild
  obtain ⟨directory, rest, hslash, rfl, rfl, hpath⟩ := wikiChild_folder_some hfolder
  have hnot : ¬ endsInMd directory := by
    have hrelative : entry.path =
        lit "wiki/" ++ (within folder.target ++ directory ++ [slash] ++ rest) := by
      rw [hpath]
      simp
    refine hnames entry hentry _ hrelative directory ?_
    rw [split_append, List.dropLast_append_of_ne_nil (split_ne_nil _ _), split_within,
      split_of_not_mem hslash]
    simp
  rw [wikiTarget_child h hentry hpath, if_neg hnot]

-- -----
-- The walk
-- -----

/-- What is found behind one child. -/
def behind (localeCompare : Str → Str → Ordering) (entries : List NoteEntry) (depth : Nat) :
    WikiChild → List NoteEntry
  | .file item => [item.entry]
  | .folder target _ => walk localeCompare entries depth (some target)

theorem walk_succ (hraw : wikiTarget raw = .ok folder) (hkind : folder.kind = .folder) (depth : Nat) :
    walk localeCompare entries (depth + 1) raw =
      (folderChildren localeCompare entries folder).flatMap (behind localeCompare entries depth) := by
  rw [walk, hraw]
  simp only [hkind, if_true]
  refine List.flatMap_congr fun child _ => ?_
  cases child <;> rfl

/-- The notes behind a folder child are those of which it is made. -/
theorem under_folder (h : NoteInventory entries) (hentry : entry ∈ entries)
    (hchild : .folder name path ∈ folderChildren localeCompare entries folder)
    (hpath : folder.path = lit "wiki/" ++ within folder.target) :
    (wikiChild name entry).isSome = true ↔
      wikiChild folder.target entry = some (.folder name path) := by
  obtain ⟨other, hother, hfolder⟩ := (mem_folderChildren h hpath).mp hchild
  obtain ⟨directory, rest, hdirectory, rfl, rfl, hotherPath⟩ := wikiChild_folder_some hfolder
  have hwithin := within_of_ne (child_segments h hother hotherPath).1
  rw [wikiChild_isSome]
  constructor
  · rintro ⟨relative, -, hrelative⟩
    have hbelow : entry.path = lit "wiki/" ++ within folder.target ++ (directory ++ slash :: relative) := by
      rw [hrelative, hwithin]
      simp [lit, units, slash]
    exact wikiChild_folder hdirectory hbelow
  · intro hsame
    obtain ⟨directory', rest', -, hname, -, hbelow⟩ := wikiChild_folder_some hsame
    obtain rfl : directory = directory' := List.append_cancel_left hname
    refine ⟨rest', ?_, ?_⟩
    · rintro rfl
      have hends := (kept_ends (h.kept hentry)).2
      rw [hbelow] at hends
      refine absurd (List.isSuffixOf_iff_suffix.mpr ?_) (Bool.eq_false_iff.mp hends)
      exact ⟨lit "wiki/" ++ within folder.target ++ directory, by simp [lit, units, slash]⟩
    · rw [hbelow, hwithin]
      simp [lit, units, slash]

/-- From a folder on, exactly the notes below it are found. -/
theorem walk_found (h : NoteInventory entries) (hnames : NoNoteDirectory entries) (depth : Nat)
    {raw : Option Str} {folder : WikiTarget} (hraw : wikiTarget raw = .ok folder)
    (hkind : folder.kind = .folder) (hdepth : 1024 ≤ folder.path.length + depth) :
    (walk localeCompare entries depth raw).Nodup ∧
      ∀ entry, entry ∈ walk localeCompare entries depth raw ↔
        entry ∈ entries ∧ (wikiChild folder.target entry).isSome = true := by
  induction depth generalizing raw folder with
  | zero =>
    refine ⟨List.nodup_nil, fun entry => iff_of_false List.not_mem_nil ?_⟩
    rintro ⟨hentry, hsome⟩
    obtain ⟨relative, hne, hpath⟩ := wikiChild_isSome.mp hsome
    have hlength := normalizeStorePath_length (h.canonical entry hentry)
    have hrelative : 0 < relative.length := List.length_pos_iff.mpr hne
    rw [hpath, ← wikiTarget_folder hraw hkind, List.length_append] at hlength
    omega
  | succ depth ih =>
    have hpath := wikiTarget_folder hraw hkind
    -- a note behind a child is one the child is made of
    have hbehind : ∀ child ∈ folderChildren localeCompare entries folder,
        (behind localeCompare entries depth child).Nodup ∧
          ∀ entry, entry ∈ behind localeCompare entries depth child ↔
            entry ∈ entries ∧ wikiChild folder.target entry = some child := by
      intro child hchild
      cases child with
      | file item =>
        obtain ⟨other, hother, hfile⟩ := (mem_folderChildren h hpath).mp hchild
        obtain ⟨rfl, -⟩ := wikiChild_path hfile
        refine ⟨List.nodup_singleton _, fun entry => ?_⟩
        rw [behind, List.mem_singleton]
        constructor
        · rintro rfl
          exact ⟨hother, hfile⟩
        · rintro ⟨-, hsame⟩
          exact (wikiChild_path hsame).1.symm
      | folder name path =>
        have hreread := reread_of h hnames hraw hkind hchild
        have hlonger : 1024 ≤ path.length + depth := by
          obtain ⟨other, -, hfolder⟩ := (mem_folderChildren h hpath).mp hchild
          obtain ⟨directory, rest, -, rfl, rfl, -⟩ := wikiChild_folder_some hfolder
          rw [hpath] at hdepth
          have hslash : (lit "/").length = 1 := rfl
          simp only [List.length_append] at hdepth ⊢
          omega
        obtain ⟨hnodup, hfound⟩ := ih hreread rfl hlonger
        refine ⟨hnodup, fun entry => (hfound entry).trans ?_⟩
        exact and_congr_right fun hentry => under_folder h hentry hchild hpath
    rw [walk_succ hraw hkind]
    constructor
    · refine List.nodup_flatMap.mpr ⟨fun child hchild => (hbehind child hchild).1, ?_⟩
      refine (folderChildren_nodup h).imp_of_mem fun {a b} ha hb hab entry hea heb => hab ?_
      have hfirst := (((hbehind a ha).2 entry).mp hea).2
      exact Option.some.inj (hfirst.symm.trans (((hbehind b hb).2 entry).mp heb).2)
    · intro entry
      rw [List.mem_flatMap]
      constructor
      · rintro ⟨child, hchild, hentry⟩
        obtain ⟨hmem, hsome⟩ := ((hbehind child hchild).2 entry).mp hentry
        exact ⟨hmem, hsome ▸ rfl⟩
      · rintro ⟨hmem, hsome⟩
        obtain ⟨child, hchild⟩ := Option.isSome_iff_exists.mp hsome
        have hmemChild : child ∈ folderChildren localeCompare entries folder :=
          (mem_folderChildren h hpath).mpr ⟨entry, hmem, hchild⟩
        exact ⟨child, hmemChild, ((hbehind child hmemChild).2 entry).mpr ⟨hmem, hchild⟩⟩

def wikiRoot : WikiTarget := ⟨[], lit "wiki/", .folder⟩

theorem wikiTarget_root : wikiTarget none = .ok wikiRoot := by decide +kernel

/-- A note under the root of the Wiki is not the root itself. -/
theorem startsWith_wiki (h : NoteInventory entries) (hentry : entry ∈ entries) :
    startsWith entry.path (lit "wiki/") = true ↔ (wikiChild [] entry).isSome = true := by
  rw [wikiChild_isSome]
  constructor
  · intro hstarts
    obtain ⟨relative, hrelative⟩ := List.isPrefixOf_iff_prefix.mp hstarts
    refine ⟨relative, ?_, hrelative.symm⟩
    rintro rfl
    have hends := (kept_ends (h.kept hentry)).2
    rw [← hrelative] at hends
    exact absurd hends (by decide)
  · rintro ⟨relative, -, hpath⟩
    exact List.isPrefixOf_iff_prefix.mpr ⟨relative, hpath.symm⟩

theorem navigable_of (h : NoteInventory entries) (hnames : NoNoteDirectory entries) :
    Navigable localeCompare entries := by
  refine ⟨fun depth hdepth => ?_, fun raw folder target path hraw hkind hchild =>
    reread_of h hnames hraw hkind hchild⟩
  obtain ⟨hnodup, hfound⟩ : (walk localeCompare entries depth none).Nodup ∧
      ∀ entry, entry ∈ walk localeCompare entries depth none ↔
        entry ∈ entries ∧ (wikiChild wikiRoot.target entry).isSome = true :=
    walk_found h hnames depth wikiTarget_root rfl (Nat.le_trans hdepth (Nat.le_add_left _ _))
  refine (List.perm_ext_iff_of_nodup hnodup ((List.Nodup.of_map _ h.once).filter _)).mpr fun entry => ?_
  rw [hfound entry, List.mem_filter]
  exact and_congr_right fun hentry => (startsWith_wiki h hentry).symm

/-- The folder of the directories a note lies in. -/
def directoryTarget (directories : List Str) : Str := join [slash] directories

theorem within_directories {directories : List Str} (hkept : ∀ directory ∈ directories, KeptSegment directory)
    (next : List Str) (hnext : next ≠ []) :
    directoryTarget (directories ++ next) = within (directoryTarget directories) ++ directoryTarget next := by
  cases directories with
  | nil => rfl
  | cons directory rest =>
    have hne : directoryTarget (directory :: rest) ≠ [] := by
      intro hnil
      obtain ⟨u, more, hu⟩ := List.exists_cons_of_ne_nil (hkept directory List.mem_cons_self).1
      have hmem : u ∈ directoryTarget (directory :: rest) :=
        mem_join_of_mem List.mem_cons_self (hu ▸ List.mem_cons_self)
      rw [hnil] at hmem
      exact absurd hmem List.not_mem_nil
    rw [within_of_ne hne, directoryTarget, join_append (by simp) hnext]
    rfl

/-- Navigation leads into every directory of a note. -/
theorem Navigable.directories (hnavigable : Navigable localeCompare entries) (h : NoteInventory entries)
    (hentry : entry ∈ entries) {directories : List Str} :
    ∀ {more : List Str}, more ≠ [] → entry.path = lit "wiki/" ++ join [slash] (directories ++ more) →
      (∀ segment ∈ directories ++ more, slash ∉ segment ∧ KeptSegment segment) →
      ∃ raw folder, wikiTarget raw = .ok folder ∧ folder.kind = .folder ∧
        folder.target = directoryTarget directories := by
  induction directories using List.reverseRecOn with
  | nil => exact fun _ _ _ => ⟨none, wikiRoot, wikiTarget_root, rfl, rfl⟩
  | append_singleton directories last ih =>
    intro more hmore hpath hsegments
    rw [List.append_assoc] at hpath hsegments
    obtain ⟨raw, folder, hraw, hkind, htarget⟩ := ih (by simp) hpath hsegments
    have hkept : ∀ directory ∈ directories, KeptSegment directory :=
      fun directory hdirectory => (hsegments directory (List.mem_append_left _ hdirectory)).2
    have hlast := hsegments last (by simp)
    have hbelow : entry.path = lit "wiki/" ++ within folder.target ++
        (last ++ slash :: join [slash] more) := by
      have hjoined := within_directories hkept ([last] ++ more) (by simp)
      have hnext : directoryTarget ([last] ++ more) = last ++ slash :: join [slash] more := by
        rw [directoryTarget, join_append (by simp) hmore]
        simp [join]
      rw [directoryTarget, hnext] at hjoined
      rw [hpath, hjoined, htarget, ← List.append_assoc]
    have hfolder : .folder (within folder.target ++ last)
          (lit "wiki/" ++ (within folder.target ++ last) ++ lit "/") ∈
        folderChildren localeCompare entries folder :=
      (mem_folderChildren h (wikiTarget_folder hraw hkind)).mpr
        ⟨entry, hentry, wikiChild_folder hlast.1 hbelow⟩
    refine ⟨_, _, hnavigable.reread raw folder _ _ hraw hkind hfolder, rfl, ?_⟩
    rw [within_directories hkept [last] (by simp), htarget]
    simp [directoryTarget, join]

theorem noNoteDirectory_of (hnavigable : Navigable localeCompare entries) (h : NoteInventory entries) :
    NoNoteDirectory entries := by
  intro entry hentry relative hpath directory hdirectory hmd
  obtain ⟨before, after, hsplit⟩ := List.append_of_mem hdirectory
  -- the directories up to this one, and at least one segment behind it
  obtain ⟨last, hlast⟩ : ∃ last, split [slash] relative = before ++ [directory] ++ (after ++ [last]) := by
    obtain ⟨front, last, hconcat⟩ := (List.eq_nil_or_concat' _).resolve_left (split_ne_nil [slash] relative)
    rw [hconcat, List.dropLast_concat] at hsplit
    exact ⟨last, by rw [hconcat, hsplit]; simp⟩
  have hkept := h.kept hentry
  rw [hpath, show lit "wiki/" = lit "wiki" ++ [slash] by decide, split_cons (by decide)] at hkept
  have hsegments : ∀ segment ∈ before ++ [directory] ++ (after ++ [last]),
      slash ∉ segment ∧ KeptSegment segment := by
    rw [← hlast]
    exact fun segment hsegment =>
      ⟨not_mem_split hsegment, hkept segment (List.mem_cons_of_mem _ hsegment)⟩
  have hjoined : entry.path = lit "wiki/" ++ join [slash] (before ++ [directory] ++ (after ++ [last])) := by
    rw [← hlast, join_split (by simp), hpath]
  obtain ⟨raw, folder, hraw, hkind, htarget⟩ :=
    hnavigable.directories h hentry (by simp) hjoined hsegments
  have hfolderMd : ¬ endsInMd folder.target := wikiTarget_kind hraw hkind
  rw [htarget, within_directories (fun other hother => (hsegments other (by simp [hother])).2)
    [directory] (by simp)] at hfolderMd
  refine hfolderMd (endsInMd_within.mpr ?_)
  simpa [directoryTarget, join] using hmd

/-- Navigation closes exactly where no directory has the name of a note. -/
theorem wiki_navigable_iff (localeCompare : Str → Str → Ordering) (h : NoteInventory entries) :
    Navigable localeCompare entries ↔ NoNoteDirectory entries :=
  ⟨fun hnavigable => noNoteDirectory_of hnavigable h, fun hnames => navigable_of h hnames⟩

def exampleNote (path : String) : NoteEntry := ⟨lit path, none, none, none⟩

def smallWiki : List NoteEntry := [exampleNote "wiki/a.md", exampleNote "wiki/b/c.md"]

theorem wiki_navigable_smallWiki : Navigable compareUnits smallWiki := by
  have hinventory : NoteInventory smallWiki := ⟨by decide +kernel, by decide +kernel⟩
  have hnames : ∀ entry ∈ smallWiki, ∀ directory ∈ (split [slash] (entry.path.drop 5)).dropLast,
      ¬ endsInMd directory := by decide +kernel
  refine (wiki_navigable_iff compareUnits hinventory).mpr fun entry hentry relative hpath => ?_
  have hdrop : entry.path.drop 5 = relative := by
    rw [hpath]
    rfl
  exact hdrop ▸ hnames entry hentry

/-- A directory with the name of a note is presented as a folder and read as a note. -/
theorem noteDirectory_unread :
    NoteInventory [exampleNote "wiki/x.md/y.md"] ∧
      ¬ Navigable compareUnits [exampleNote "wiki/x.md/y.md"] := by
  refine ⟨⟨by decide +kernel, by decide +kernel⟩, fun hnavigable => ?_⟩
  have hreread := hnavigable.reread none wikiRoot (lit "x.md") (lit "wiki/x.md/") wikiTarget_root rfl
    (by decide +kernel)
  exact absurd hreread (by decide +kernel)

end PiEnv.Notes
