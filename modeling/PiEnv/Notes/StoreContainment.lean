import PiEnv.Lib.PosixPath
import PiEnv.Notes.CollectionReads

/-!
# Paths stay in the store

What the notes tool accepts as the path of a note, or as a target of a
collection, and where the path it makes of that leads when it is joined to the
root of the store.
-/

namespace PiEnv.Notes

open Js

-- -----
-- Paths and targets
-- -----

def requirePath (action : Str) : Option Str → Except NotesError Str
  | none | some [] => .error (.plain (lit "notes " ++ action ++ lit " requires path"))
  | some path => normalizeStorePath path true true

structure ProjectTarget where
  target : Str
  path : Str
  deriving DecidableEq, Repr

def projectTarget (target : Option Str) : Except NotesError ProjectTarget := do
  let normalized ← normalizeCollectionTarget target (lit "Project") (lit "projects/") false
  throwIf ((lit ".md").isSuffixOf (normalized.map toLowerUnit) = false)
    (invalidCollectionTarget (lit "Project") target)
  let path ← requireCollectionPathLength (lit "Project") (lit "projects/" ++ normalized)
  return ⟨normalized, path⟩

-- -----
-- Inside the store
-- -----

/-- An absolute path below the directory with the segments `root`. -/
def StrictlyInside (root : List Str) (target : Str) : Prop :=
  ∃ below, below ≠ [] ∧ (∀ part ∈ below, Posix.IsSegment part) ∧
    target = Posix.ofSegments (root ++ below)

structure StoreNote (path : Str) : Prop where
  relative : Posix.isAbsolute path = false
  segments : ∀ segment ∈ split [slash] path,
    segment ≠ [] ∧ segment ≠ lit "." ∧ segment ≠ lit ".." ∧ startsWith segment (lit ".") = false
  /-- In any letter case. -/
  markdown : (lit ".md").isSuffixOf (path.map toLowerUnit) = true
  inside : ∀ root, (∀ part ∈ root, Posix.IsSegment part) →
    StrictlyInside root (Posix.joinPath (Posix.ofSegments root) path) ∧
      StrictlyInside root (Posix.resolve (Posix.ofSegments root) path)

/-- A note under the root of a collection, whose path is in normal form. -/
structure CollectionNote (root target path : Str) : Prop where
  note : StoreNote path
  under : path = root ++ target
  named : target ≠ []
  fixed : ∀ allowReferencePrefix, normalizeStorePath path true allowReferencePrefix = .ok path

/-- What the segment checks of paths and of targets have in common. -/
def KeptSegment (segment : Str) : Prop :=
  segment ≠ [] ∧ startsWith segment (lit ".") = false

instance (segment : Str) : Decidable (KeptSegment segment) := inferInstanceAs (Decidable (_ ∧ _))

theorem KeptSegment.ne_dots {segment : Str} (h : KeptSegment segment) :
    segment ≠ lit "." ∧ segment ≠ lit ".." := by
  refine ⟨?_, ?_⟩
  · rintro rfl
    exact absurd h.2 (by decide)
  · rintro rfl
    exact absurd h.2 (by decide)

theorem KeptSegment.isSegment {segment : Str} (h : KeptSegment segment) (hslash : slash ∉ segment) :
    Posix.IsSegment segment :=
  ⟨h.1, h.ne_dots.1, h.ne_dots.2, hslash⟩

theorem storeNote {path : Str} (hsegments : ∀ segment ∈ split [slash] path, KeptSegment segment)
    (hmarkdown : (lit ".md").isSuffixOf (path.map toLowerUnit) = true) : StoreNote path := by
  have hparts : ∀ part ∈ split [slash] path, Posix.IsSegment part :=
    fun part hpart => (hsegments part hpart).isSegment (not_mem_split hpart)
  have hne : split [slash] path ≠ [] := split_ne_nil _ _
  have hjoin : join [Posix.slash] (split [slash] path) = path := join_split (by simp) path
  obtain ⟨⟨u, rest, hu, hslash⟩, -⟩ := Posix.join_ends hparts hne
  refine ⟨?_, fun segment hsegment => ?_, hmarkdown, fun root hroot => ⟨?_, ?_⟩⟩
  · rw [← hjoin, hu]
    simpa [Posix.isAbsolute] using hslash
  · have hkept := hsegments segment hsegment
    exact ⟨hkept.1, hkept.ne_dots.1, hkept.ne_dots.2, hkept.2⟩
  · have hjoined := Posix.joinPath_segments hroot hparts hne
    rw [hjoin] at hjoined
    exact ⟨split [slash] path, hne, hparts, hjoined⟩
  · have hresolved := Posix.resolve_segments hroot hparts hne
    rw [hjoin] at hresolved
    exact ⟨split [slash] path, hne, hparts, hresolved⟩

-- -----
-- Note paths
-- -----

/-- Without `..`, normalization only leaves segments out. -/
theorem mem_normalizeSegments {segments output : List Str} (hdots : lit ".." ∉ segments)
    {segment : Str} (h : segment ∈ normalizeSegments output segments) :
    segment ∈ output ∨ segment ∈ segments ∧ segment ≠ [] := by
  induction segments generalizing output with
  | nil => exact .inl (List.mem_reverse.mp h)
  | cons first rest ih =>
    have hrest : lit ".." ∉ rest := fun hmem => hdots (List.mem_cons_of_mem _ hmem)
    have hfirst : first ≠ lit ".." := fun heq => hdots (heq ▸ List.mem_cons_self)
    unfold normalizeSegments at h
    split at h
    case isTrue =>
      rcases ih hrest h with hout | ⟨hmem, hne⟩
      · exact .inl hout
      · exact .inr ⟨List.mem_cons_of_mem _ hmem, hne⟩
    case isFalse hkeep =>
      rw [if_neg (by simpa using hfirst)] at h
      rcases ih hrest h with hout | ⟨hmem, hne⟩
      · rcases List.mem_cons.mp hout with rfl | hout
        · refine .inr ⟨List.mem_cons_self, ?_⟩
          rintro rfl
          exact hkeep rfl
        · exact .inl hout
      · exact .inr ⟨List.mem_cons_of_mem _ hmem, hne⟩

theorem split_normalizePosixPath {stripped : Str} (hdots : lit ".." ∉ split [slash] stripped)
    (hne : normalizePosixPath stripped ≠ []) :
    ∀ segment ∈ split [slash] (normalizePosixPath stripped), segment ≠ [] := by
  have hmem : ∀ segment ∈ normalizeSegments [] (split [slash] stripped),
      slash ∉ segment ∧ segment ≠ [] := by
    intro segment hsegment
    rcases mem_normalizeSegments hdots hsegment with hnil | ⟨hmem, hne⟩
    · exact absurd hnil List.not_mem_nil
    · exact ⟨not_mem_split hmem, hne⟩
  have hsegments : normalizeSegments [] (split [slash] stripped) ≠ [] := by
    intro hnil
    rw [normalizePosixPath, hnil] at hne
    exact hne rfl
  intro segment hsegment
  rw [normalizePosixPath, split_join (fun part hpart => (hmem part hpart).1) hsegments] at hsegment
  exact (hmem segment hsegment).2

/-- What is accepted is the normal form of a path that passed every check. -/
theorem normalizeStorePath_ok {input path : Str} {allowReferencePrefix : Bool}
    (h : normalizeStorePath input true allowReferencePrefix = .ok path) :
    ∃ stripped, stripped = forwardSlashes
        (if allowReferencePrefix && startsWith input (lit "@") then input.drop 1 else input) ∧
      isInvalidStorePath stripped = false ∧ escapesStore (split [slash] stripped) path = false ∧
        isMarkdownPath stripped path = true ∧ path = normalizePosixPath stripped := by
  unfold normalizeStorePath at h
  simp only [Bool.true_and] at h
  refine ⟨_, rfl, ?_⟩
  generalize forwardSlashes _ = stripped at h ⊢
  split at h
  · exact absurd h nofun
  case isFalse hinvalid =>
  split at h
  · exact absurd h nofun
  case isFalse hescapes =>
  split at h
  · exact absurd h nofun
  case isFalse hmarkdown =>
  have hmarkdown : isMarkdownPath stripped (normalizePosixPath stripped) = true := by
    simpa using hmarkdown
  have hdirectory := (Bool.and_eq_true_iff.mp hmarkdown).1
  rw [Bool.not_eq_true'] at hdirectory
  rw [hdirectory, Bool.false_and, if_neg Bool.false_ne_true] at h
  obtain rfl := Except.ok.inj h
  exact ⟨Bool.eq_false_iff.mpr hinvalid, Bool.eq_false_iff.mpr hescapes, hmarkdown, rfl⟩

theorem normalizeStorePath_storeNote {input path : Str} {allowReferencePrefix : Bool}
    (h : normalizeStorePath input true allowReferencePrefix = .ok path) : StoreNote path := by
  obtain ⟨stripped, -, -, hescapes, hmarkdown, rfl⟩ := normalizeStorePath_ok h
  have hsuffix := (Bool.and_eq_true_iff.mp hmarkdown).2
  simp only [escapesStore, Bool.or_eq_false_iff] at hescapes
  obtain ⟨⟨⟨hraw, -⟩, -⟩, hhidden⟩ := hescapes
  have hne : normalizePosixPath stripped ≠ [] := by
    intro hnil
    rw [hnil] at hsuffix
    exact absurd hsuffix (by decide)
  refine storeNote (fun segment hsegment => ⟨?_, ?_⟩) hsuffix
  · refine split_normalizePosixPath (fun hmem => ?_) hne segment hsegment
    exact absurd (List.contains_iff_mem.mpr hmem) (by simpa using hraw)
  · exact Bool.eq_false_iff.mpr (List.any_eq_false.mp hhidden segment hsegment)

-- -----
-- Normal forms
-- -----

theorem normalizeSegments_kept {segments : List Str} (output : List Str)
    (h : ∀ segment ∈ segments, KeptSegment segment) :
    normalizeSegments output segments = output.reverse ++ segments := by
  induction segments generalizing output with
  | nil => simp [normalizeSegments]
  | cons segment rest ih =>
    have hkept := h segment List.mem_cons_self
    have hrest := ih (segment :: output) fun other hother => h other (List.mem_cons_of_mem _ hother)
    simp [normalizeSegments, hkept.1, hkept.ne_dots.1, hkept.ne_dots.2, hrest]

theorem forwardSlashes_id {path : Str} (h : 92 ∉ path) : forwardSlashes path = path := by
  unfold forwardSlashes
  conv_rhs => rw [← List.map_id path]
  refine List.map_congr_left fun u hu => ?_
  have hne : u ≠ 92 := by
    rintro rfl
    exact h hu
  simp [hne]

/-- No backslash, colon or control character. -/
def CleanUnits (path : Str) : Prop := 92 ∉ path ∧ 58 ∉ path ∧ path.any isControl = false

instance (path : Str) : Decidable (CleanUnits path) := inferInstanceAs (Decidable (_ ∧ _ ∧ _))

theorem pathIsAbsolute_eq_false {path : Str} (hcolon : 58 ∉ path)
    (hrelative : Posix.isAbsolute path = false) : pathIsAbsolute path = false := by
  unfold pathIsAbsolute
  split
  · exact absurd hrelative (by simp [Posix.isAbsolute, Posix.slash])
  · exact absurd (by simp) hcolon
  · rfl

theorem normalizeStorePath_fixed {path : Str} (hnote : StoreNote path) (hlength : path.length ≤ 1024)
    (hunits : CleanUnits path) (hat : startsWith path (lit "@") = false)
    (allowReferencePrefix : Bool) : normalizeStorePath path true allowReferencePrefix = .ok path := by
  obtain ⟨hbackslash, hcolon, hcontrol⟩ := hunits
  have hkept : ∀ segment ∈ split [slash] path, KeptSegment segment :=
    fun segment hsegment => ⟨(hnote.segments segment hsegment).1, (hnote.segments segment hsegment).2.2.2⟩
  have hnormal : normalizePosixPath path = path := by
    rw [normalizePosixPath, normalizeSegments_kept [] hkept, List.reverse_nil, List.nil_append]
    exact join_split (by simp) path
  have hne : path ≠ [] := by
    rintro rfl
    exact absurd hnote.markdown (by decide)
  have hinvalid : isInvalidStorePath path = false := by
    have hcontains : path.contains 58 = false := by simpa using hcolon
    rw [isInvalidStorePath, pathIsAbsolute_eq_false hcolon hnote.relative, hat, hcontrol, hcontains]
    simpa [hne] using hlength
  have hescapes : escapesStore (split [slash] path) path = false := by
    have hraw : (split [slash] path).contains (lit "..") = false := by
      refine Bool.eq_false_iff.mpr fun hmem => ?_
      exact (hkept _ (List.contains_iff_mem.mp hmem)).ne_dots.2 rfl
    have hhidden : (split [slash] path).any (startsWith · (lit ".")) = false :=
      List.any_eq_false.mpr fun segment hsegment => Bool.eq_false_iff.mp (hkept segment hsegment).2
    -- a path in front of `..` would have a hidden first segment
    have hup : startsWith path (lit "../") = false := by
      refine Bool.eq_false_iff.mpr fun hup => ?_
      obtain ⟨rest, rfl⟩ := List.isPrefixOf_iff_prefix.mp hup
      have hkept : ∀ segment ∈ split [slash] (lit ".." ++ [slash] ++ rest), KeptSegment segment := hkept
      rw [split_cons (by decide)] at hkept
      exact (hkept (lit "..") List.mem_cons_self).ne_dots.2 rfl
    have hdots : (path == lit "..") = false := by
      refine Bool.eq_false_iff.mpr fun hdots => ?_
      rw [eq_of_beq hdots] at hkept
      exact (hkept (lit "..") (by decide)).ne_dots.2 rfl
    rw [escapesStore, hraw, hdots, hup, hhidden]
    rfl
  have hdirectory : (lit "/").isSuffixOf path = false := by
    refine Bool.eq_false_iff.mpr fun hslash => ?_
    obtain ⟨front, rfl⟩ := List.isSuffixOf_iff_suffix.mp hslash
    have hmarkdown := hnote.markdown
    rw [List.map_append, List.isSuffixOf_iff_suffix] at hmarkdown
    obtain ⟨other, hother⟩ := hmarkdown
    have hlast := congrArg List.getLast? hother
    simp [lit, units, toLowerUnit] at hlast
  have hmarkdown : isMarkdownPath path path = true := by
    rw [isMarkdownPath, hdirectory, hnote.markdown]
    rfl
  simp [normalizeStorePath, hat, forwardSlashes_id hbackslash, hinvalid, hnormal, hescapes,
    hmarkdown, hdirectory]

-- -----
-- Collection targets
-- -----

theorem forwardSlashes_clean (path : Str) : 92 ∉ forwardSlashes path := by
  intro h
  obtain ⟨u, -, hu⟩ := List.mem_map.mp h
  split at hu
  · exact absurd hu (by decide)
  case isFalse hne => exact hne (by simp [hu])

theorem normalizeCollectionTarget_ok {target : Option Str} {label root normalized : Str}
    {allowEmpty : Bool} (h : normalizeCollectionTarget target label root allowEmpty = .ok normalized) :
    CleanUnits normalized ∧ (allowEmpty = false → normalized ≠ []) ∧
      (normalized ≠ [] → ∀ segment ∈ split [slash] normalized, KeptSegment segment) := by
  simp only [normalizeCollectionTarget, Effects.bind_eq_ok] at h
  obtain ⟨_, hroot, _, hsegments, _, hunits, hok⟩ := h
  obtain rfl := Except.ok.inj hok
  have hroot := throwIf_eq_ok.mp hroot
  have hsegments := throwIf_eq_ok.mp hsegments
  have hunits := throwIf_eq_ok.mp hunits
  rw [Bool.not_eq_true, Bool.or_eq_false_iff] at hunits
  refine ⟨⟨forwardSlashes_clean _, by simpa using hunits.1, hunits.2⟩,
    fun hempty hnil => hroot (.inl ⟨hempty, hnil⟩), fun hne segment hsegment => ?_⟩
  rw [if_neg hne, Bool.not_eq_true, List.any_eq_false] at hsegments
  obtain ⟨⟨hne, -⟩, hhidden⟩ :
      (segment ≠ [] ∧ segment ≠ lit "..") ∧ startsWith segment (lit ".") = false := by
    simpa using hsegments segment hsegment
  exact ⟨hne, hhidden⟩

/-- A target under the root of its collection. -/
theorem collectionNote (name : Str) {target : Str} (hname : slash ∉ name) (hkept : KeptSegment name)
    (hclean : CleanUnits name) (hat : startsWith name (lit "@") = false) (htarget : target ≠ [])
    (hunits : CleanUnits target) (hsegments : ∀ segment ∈ split [slash] target, KeptSegment segment)
    (hmarkdown : (lit ".md").isSuffixOf (target.map toLowerUnit) = true)
    (hlength : (name ++ [slash] ++ target).length ≤ 1024) :
    CollectionNote (name ++ [slash]) target (name ++ [slash] ++ target) := by
  have hall : ∀ segment ∈ split [slash] (name ++ [slash] ++ target), KeptSegment segment := by
    rw [split_cons hname]
    intro segment hsegment
    rcases List.mem_cons.mp hsegment with rfl | hsegment
    · exact hkept
    · exact hsegments segment hsegment
  have hsuffix : (lit ".md").isSuffixOf ((name ++ [slash] ++ target).map toLowerUnit) = true := by
    rw [List.map_append, List.isSuffixOf_iff_suffix]
    exact (List.isSuffixOf_iff_suffix.mp hmarkdown).trans (List.suffix_append _ _)
  have hnote : StoreNote (name ++ [slash] ++ target) := storeNote hall hsuffix
  refine ⟨hnote, rfl, htarget, normalizeStorePath_fixed hnote hlength ⟨?_, ?_, ?_⟩ ?_⟩
  · simp [hclean.1, hunits.1, slash]
  · simp [hclean.2.1, hunits.2.1, slash]
  · rw [List.any_append, List.any_append, hclean.2.2, hunits.2.2]
    decide
  · obtain ⟨u, rest, rfl⟩ := List.exists_cons_of_ne_nil hkept.1
    have hu : u ≠ 64 := by
      rintro rfl
      exact absurd hat (by simp [startsWith, lit, units])
    exact startsWith_ne hu

theorem requireCollectionPathLength_ok {label path path' : Str}
    (h : requireCollectionPathLength label path = .ok path') : path' = path ∧ path.length ≤ 1024 := by
  unfold requireCollectionPathLength at h
  split at h
  · exact absurd h nofun
  case isFalse hlength => exact ⟨(Except.ok.inj h).symm, Nat.le_of_not_lt hlength⟩

theorem requireCollectionPathLength_of {label path : Str} (h : path.length ≤ 1024) :
    requireCollectionPathLength label path = .ok path := if_neg (Nat.not_lt.mpr h)

theorem projectTarget_note {raw : Option Str} {target : ProjectTarget}
    (h : projectTarget raw = .ok target) :
    CollectionNote (lit "projects/") target.target target.path := by
  simp only [projectTarget, Effects.bind_eq_ok] at h
  obtain ⟨normalized, hnormalized, _, hmarkdown, path, hpath, hok⟩ := h
  obtain rfl := Except.ok.inj hok
  obtain ⟨hunits, hnonempty, hsegments⟩ := normalizeCollectionTarget_ok hnormalized
  obtain ⟨rfl, hlength⟩ := requireCollectionPathLength_ok hpath
  have hne := hnonempty rfl
  exact collectionNote (lit "projects") (by decide) (by decide) (by decide) (by decide) hne hunits (hsegments hne)
    (by simpa using throwIf_eq_ok.mp hmarkdown) hlength

theorem wikiTarget_note {raw : Option Str} {target : WikiTarget} (h : wikiTarget raw = .ok target)
    (hfile : target.kind = .file) : CollectionNote (lit "wiki/") target.target target.path := by
  simp only [wikiTarget, Effects.bind_eq_ok] at h
  obtain ⟨normalized, hnormalized, path, hpath, hok⟩ := h
  obtain rfl := Except.ok.inj hok
  obtain ⟨hunits, -, hsegments⟩ := normalizeCollectionTarget_ok hnormalized
  obtain ⟨rfl, hlength⟩ := requireCollectionPathLength_ok hpath
  have hmarkdown : (lit ".md").isSuffixOf (normalized.map toLowerUnit) = true := by
    by_contra hnot
    simp [hnot] at hfile
  have hne : normalized ≠ [] := by
    rintro rfl
    exact absurd hmarkdown (by decide)
  have hrelative : (if normalized = [] then [] else normalized ++
      if (if (lit ".md").isSuffixOf (normalized.map toLowerUnit) then TargetKind.file else .folder) =
        .folder then lit "/" else []) = normalized := by
    simp [hne, hmarkdown]
  rw [hrelative] at hlength ⊢
  exact collectionNote (lit "wiki") (by decide) (by decide) (by decide) (by decide) hne hunits (hsegments hne)
    hmarkdown hlength

-- -----
-- Everything that is accepted
-- -----

theorem requirePath_storeNote {action path : Str} {raw : Option Str}
    (h : requirePath action raw = .ok path) : StoreNote path := by
  unfold requirePath at h
  split at h
  · exact absurd h nofun
  · exact absurd h nofun
  · exact normalizeStorePath_storeNote h

/-- What the notes tool accepts as a note stays inside the store, and a target
of a collection under the root of that. -/
theorem notes_contained :
    (∀ input path allowReferencePrefix,
      normalizeStorePath input true allowReferencePrefix = .ok path → StoreNote path) ∧
    (∀ action raw path, requirePath action raw = .ok path → StoreNote path) ∧
    (∀ raw target, projectTarget raw = .ok target →
      CollectionNote (lit "projects/") target.target target.path) ∧
    ∀ raw target, wikiTarget raw = .ok target → target.kind = .file →
      CollectionNote (lit "wiki/") target.target target.path :=
  ⟨fun _ _ _ h => normalizeStorePath_storeNote h, fun _ _ _ h => requirePath_storeNote h,
    fun _ _ h => projectTarget_note h, fun _ _ h hfile => wikiTarget_note h hfile⟩

theorem notes_contained_plan :
    StoreNote (lit "a.md") ∧
      CollectionNote (lit "projects/") (lit "plan.md") (lit "projects/plan.md") :=
  ⟨notes_contained.1 (lit "@./a.md") _ true (by decide +kernel),
    notes_contained.2.2.1 (some (lit "plan.md")) ⟨lit "plan.md", lit "projects/plan.md"⟩ (by decide +kernel)⟩

/-- The extension is kept in the letter case it has. -/
theorem upperCase_accepted :
    ¬ ∀ input path allowReferencePrefix,
      normalizeStorePath input true allowReferencePrefix = .ok path →
        (lit ".md").isSuffixOf path = true := by
  intro hclaim
  exact absurd (hclaim (lit "A.MD") (lit "A.MD") true (by decide +kernel)) (by decide)

end PiEnv.Notes
