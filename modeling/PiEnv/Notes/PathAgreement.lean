import PiEnv.Notes.ObsidianVault
import PiEnv.Notes.StoreContainment

/-!
# Two normal forms of a note path

The notes tool and the provider of a vault normalize paths on their own. They
agree on what the tool makes of a path unless that begins with a reference sign.
-/

namespace PiEnv.Notes

open Js

/-- A path without the sign that a reference to it may begin with. -/
def referencedPath (input : Str) : Str :=
  forwardSlashes (if startsWith input (lit "@") then input.drop 1 else input)

/-- A segment that normalization keeps when there is no `..`. -/
def isNamed (segment : Str) : Bool := segment != [] && segment != lit "."

/-- Whether the first name on the path begins with the sign of a reference. -/
def namesReference (input : Str) : Bool :=
  ((split [slash] (referencedPath input)).find? isNamed).any (startsWith · (lit "@"))

/-- What both sides make of a path is the path itself. -/
structure Agreed (path : Str) : Prop where
  contract : normalizeStorePath path true true = .ok path
  provider : Obsidian.normalizeNotePath path = .ok path

-- -----
-- Segments that are kept
-- -----

theorem normalizeSegments_named {segments : List Str} (output : List Str)
    (hdots : lit ".." ∉ segments) :
    normalizeSegments output segments = output.reverse ++ segments.filter isNamed := by
  induction segments generalizing output with
  | nil => simp [normalizeSegments]
  | cons segment rest ih =>
    have hrest : lit ".." ∉ rest := fun hmem => hdots (List.mem_cons_of_mem _ hmem)
    have hsegment : segment ≠ lit ".." := fun heq => hdots (heq ▸ List.mem_cons_self)
    unfold normalizeSegments
    split
    case isTrue hdot =>
      have hnot : isNamed segment = false := by
        rcases Bool.or_eq_true_iff.mp hdot with hnil | hdot
        · simp [isNamed, eq_of_beq hnil]
        · simp [isNamed, eq_of_beq hdot]
      rw [ih output hrest, List.filter_cons_of_neg (by simp [hnot])]
    case isFalse hdot =>
      have hnamed : isNamed segment = true := by simpa [isNamed] using hdot
      rw [if_neg (by simpa using hsegment), ih _ hrest, List.filter_cons_of_pos hnamed]
      simp

theorem length_join (c : UInt16) {parts : List Str} (hne : parts ≠ []) :
    (join [c] parts).length + 1 = (parts.map fun part => part.length + 1).sum := by
  induction parts with
  | nil => exact absurd rfl hne
  | cons part rest ih =>
    cases rest with
    | nil => simp [join]
    | cons next rest =>
      have hrest := ih (List.cons_ne_nil _ _)
      rw [join, List.intercalate_cons_cons, List.map_cons, List.sum_cons, ← hrest]
      simp only [List.length_append, List.length_singleton, join]
      omega

theorem length_join_le {c : UInt16} {parts others : List Str} (h : parts.Sublist others)
    (hne : parts ≠ []) : (join [c] parts).length ≤ (join [c] others).length := by
  have hothers : others ≠ [] := by
    rintro rfl
    exact hne (List.sublist_nil.mp h)
  have hsum : (parts.map fun part => part.length + 1).sum ≤
      (others.map fun part => part.length + 1).sum :=
    (h.map _).sum_le_sum fun _ _ => Nat.zero_le _
  have := length_join c hne
  have := length_join c hothers
  omega

/-- What a path is made of is left of it in its normal form. -/
structure KeptFrom (stripped path : Str) : Prop where
  length : path.length ≤ stripped.length
  units : ∀ u ∈ path, u = slash ∨ u ∈ stripped
  first : ∃ name rest, (split [slash] stripped).find? isNamed = some name ∧ path = name ++ rest

theorem normalizePosixPath_kept {stripped : Str} (hdots : lit ".." ∉ split [slash] stripped)
    (hne : normalizePosixPath stripped ≠ []) : KeptFrom stripped (normalizePosixPath stripped) := by
  have hnormal : normalizePosixPath stripped = join [slash] ((split [slash] stripped).filter isNamed) := by
    rw [normalizePosixPath, normalizeSegments_named [] hdots, List.reverse_nil, List.nil_append]
  have hparts : (split [slash] stripped).filter isNamed ≠ [] := by
    intro hnil
    rw [hnormal, hnil] at hne
    exact hne rfl
  rw [hnormal]
  refine ⟨?_, fun u hu => ?_, ?_⟩
  · have hlength := length_join_le (c := slash) List.filter_sublist hparts
    rwa [join_split (by simp)] at hlength
  · rcases mem_join hu with hslash | ⟨part, hpart, hu⟩
    · exact .inl hslash
    · exact .inr (mem_of_mem_split (by simp) (List.mem_of_mem_filter hpart) hu)
  · obtain ⟨name, rest, hcons⟩ := List.exists_cons_of_ne_nil hparts
    have hfind : (split [slash] stripped).find? isNamed = some name := by
      rw [← List.head?_filter, hcons, List.head?_cons]
    cases rest with
    | nil => exact ⟨name, [], hfind, by rw [hcons]; simp [join]⟩
    | cons next rest =>
      refine ⟨name, slash :: join [slash] (next :: rest), hfind, ?_⟩
      rw [hcons, join, List.intercalate_cons_cons]
      simp [join]

-- -----
-- The provider
-- -----

/-- A path that ends in `.md` in some letter case. -/
theorem markdown_ends {path : Str} (h : (lit ".md").isSuffixOf (path.map toLowerUnit) = true) :
    ∃ front m d, path = front ++ [46, m, d] ∧ toLowerUnit m = 109 ∧ toLowerUnit d = 100 := by
  obtain ⟨lowered, hlowered⟩ := List.isSuffixOf_iff_suffix.mp h
  obtain ⟨front, ending, rfl, -, hending⟩ := List.map_eq_append_iff.mp hlowered.symm
  have hmd : lit ".md" = [46, 109, 100] := by decide
  rw [hmd] at hending
  obtain ⟨dot, rest, rfl, hdot, hrest⟩ := List.map_eq_cons_iff.mp hending
  obtain ⟨m, rest, rfl, hm, hrest⟩ := List.map_eq_cons_iff.mp hrest
  obtain ⟨d, rest, rfl, hd, hrest⟩ := List.map_eq_cons_iff.mp hrest
  obtain rfl := List.map_eq_nil_iff.mp hrest
  have hsame : dot = 46 := by
    unfold toLowerUnit at hdot
    split at hdot
    case isTrue hupper =>
      have := UInt16.toNat_inj.mpr hdot
      simp only [Bool.and_eq_true, decide_eq_true_eq, UInt16.le_iff_toNat_le] at hupper
      simp only [UInt16.toNat_add, UInt16.reduceToNat] at this hupper
      omega
    case isFalse => exact hdot
  exact ⟨front, m, d, by rw [hsame], hm, hd⟩

theorem extname_note {path : Str} (hnote : StoreNote path) :
    (Posix.extname path).map toLowerUnit = lit ".md" := by
  obtain ⟨front, m, d, rfl, hm, hd⟩ := markdown_ends hnote.markdown
  have hmslash : m ≠ slash := by
    rintro rfl
    exact absurd hm (by decide)
  have hdslash : d ≠ slash := by
    rintro rfl
    exact absurd hd (by decide)
  have hmdot : m ≠ 46 := by
    rintro rfl
    exact absurd hm (by decide)
  have hddot : d ≠ 46 := by
    rintro rfl
    exact absurd hd (by decide)
  let name := front.reverse.takeWhile (· != slash)
  have hbase : Posix.basename (front ++ [46, m, d]) = name.reverse ++ [46, m, d] := by
    have hkept : (d != slash) = true ∧ (m != slash) = true := by simp [hdslash, hmslash]
    have hslash : Posix.slash = slash := rfl
    simp [Posix.basename, name, hslash, hdslash, hmslash, show (46 : UInt16) ≠ slash by decide]
  have hending : slash ∉ [46, m, d] := by
    simp [hmslash.symm, hdslash.symm, show slash ≠ 46 by decide]
  have hparts : ∀ part ∈ [[46, m, d]], slash ∉ part := fun part hpart => by
    rwa [List.mem_singleton.mp hpart]
  have hwhole : split [slash] [46, m, d] = [[46, m, d]] := split_join hparts (by simp)
  -- without a name the last segment would begin with the dot
  have hname : name ≠ [] := by
    intro hnil
    have hlast : [46, m, d] ∈ split [slash] (front ++ [46, m, d]) := by
      rcases List.eq_nil_or_concat front with rfl | ⟨before, u, rfl⟩
      · rw [List.nil_append, hwhole]
        exact List.mem_singleton_self _
      · obtain rfl : u = slash := by simpa [name] using hnil
        rw [List.concat_eq_append, split_append, hwhole]
        exact List.mem_append_right _ (List.mem_singleton_self _)
    exact absurd (hnote.segments _ hlast).2.2.2 (by simp [startsWith, lit, units])
  have hlength : 0 < name.length := List.length_pos_iff.mpr hname
  have hstem : (name.reverse ++ [46, m, d]).reverse.dropWhile (· != 46) = 46 :: name := by
    simp [hmdot, hddot]
  have hdots : (name.reverse ++ [46, m, d] == Posix.dotdot) = false := by
    refine Bool.eq_false_iff.mpr fun hdots => ?_
    have hlong := congrArg List.length (eq_of_beq hdots)
    rw [List.length_append, List.length_reverse, show Posix.dotdot.length = 2 by decide,
      List.length_cons, List.length_cons, List.length_singleton] at hlong
    omega
  unfold Posix.extname
  rw [hbase]
  simp only [hstem, hdots, Bool.or_false, List.length_cons, Nat.add_sub_cancel]
  rw [if_neg (by simpa using hname), List.drop_append, List.drop_of_length_le (by simp)]
  have hmd : lit ".md" = [46, 109, 100] := by decide
  have hdot : toLowerUnit 46 = 46 := by decide
  simp [hmd, hm, hd, hdot]

theorem normalizeNotePath_fixed {path : Str} (hnote : StoreNote path) (hlength : path.length ≤ 1024)
    (hunits : CleanUnits path) (hat : startsWith path (lit "@") = false) :
    Obsidian.normalizeNotePath path = .ok path := by
  obtain ⟨hbackslash, hcolon, hcontrol⟩ := hunits
  have hparts : ∀ part ∈ split [slash] path, Posix.IsSegment part := fun part hpart =>
    ⟨(hnote.segments part hpart).1, (hnote.segments part hpart).2.1,
      (hnote.segments part hpart).2.2.1, not_mem_split hpart⟩
  have hne : path ≠ [] := by
    rintro rfl
    exact absurd hnote.markdown (by decide)
  have hdirectory : path.getLast? ≠ some Posix.slash := by
    obtain ⟨front, m, d, rfl, -, hd⟩ := markdown_ends hnote.markdown
    rw [List.getLast?_append]
    simp only [List.getLast?_cons_cons, List.getLast?_singleton, Option.some_or, ne_eq,
      Option.some.injEq]
    rintro rfl
    exact absurd hd (by decide)
  have hnormal : Posix.normalize path = path := by
    have hbody : join [Posix.slash] (Posix.normalizeSegments true [] (split [Posix.slash] path)) = path :=
      (congrArg _ (Posix.normalizeSegments_parts true [] hparts)).trans (join_split (by simp) path)
    have hlong : path.length ≠ 0 := by simpa using hne
    unfold Posix.normalize
    simp only [hnote.relative, Bool.not_false, hbody, if_neg hlong]
    simp [hdirectory]
  have hstored := normalizeStorePath_fixed hnote hlength ⟨hbackslash, hcolon, hcontrol⟩ hat false
  obtain ⟨stripped, hstripped, hinvalid, hescapes, -, -⟩ := normalizeStorePath_ok hstored
  rw [Bool.false_and, if_neg Bool.false_ne_true, forwardSlashes_id hbackslash] at hstripped
  subst hstripped
  unfold Obsidian.normalizeNotePath
  simp only [forwardSlashes_id hbackslash, hnormal, hescapes, extname_note hnote]
  rw [if_neg (by simpa [isInvalidStorePath] using hinvalid)]
  simp

-- -----
-- Agreement
-- -----

/-- Both sides take the path of a result for what it is when the first name of
the path that was given does not begin with the sign of a reference. -/
theorem paths_agree {input path : Str} (h : normalizeStorePath input true true = .ok path) :
    Agreed path ↔ namesReference input = false := by
  have hnote : StoreNote path := normalizeStorePath_storeNote h
  obtain ⟨stripped, hstripped, hinvalid, hescapes, hmarkdown, hnormal⟩ := normalizeStorePath_ok h
  have hstripped : stripped = referencedPath input := by simpa [referencedPath] using hstripped
  simp only [escapesStore, Bool.or_eq_false_iff] at hescapes
  have hdots : lit ".." ∉ split [slash] stripped := fun hmem =>
    absurd (List.contains_iff_mem.mpr hmem) (by simpa using hescapes.1.1.1)
  have hne : path ≠ [] := by
    rintro rfl
    exact absurd hnote.markdown (by decide)
  have hkept : KeptFrom stripped path := hnormal ▸ normalizePosixPath_kept hdots (hnormal ▸ hne)
  simp only [isInvalidStorePath, Bool.or_eq_false_iff, decide_eq_false_iff_not, not_lt] at hinvalid
  obtain ⟨⟨⟨⟨⟨-, hlength⟩, -⟩, -⟩, hcolon⟩, hcontrol⟩ := hinvalid
  have hunits : CleanUnits path := by
    refine ⟨fun hmem => ?_, fun hmem => ?_, List.any_eq_false.mpr fun u hu => ?_⟩
    · rcases hkept.units _ hmem with hslash | hmem
      · exact absurd hslash (by decide)
      · exact forwardSlashes_clean _ (hstripped ▸ hmem)
    · rcases hkept.units _ hmem with hslash | hmem
      · exact absurd hslash (by decide)
      · exact absurd (List.contains_iff_mem.mpr hmem) (Bool.eq_false_iff.mp hcolon)
    · rcases hkept.units u hu with rfl | hmem
      · decide
      · exact List.any_eq_false.mp hcontrol u hmem
  have hfirst : namesReference input = startsWith path (lit "@") := by
    obtain ⟨name, rest, hfind, hpath⟩ := hkept.first
    have hname : name ≠ [] := by
      have hnamed := List.find?_some hfind
      rintro rfl
      exact absurd hnamed (by decide)
    obtain ⟨u, more, rfl⟩ := List.exists_cons_of_ne_nil hname
    rw [namesReference, ← hstripped, hfind, hpath]
    simp [startsWith, lit, units, List.isPrefixOf]
  rw [hfirst]
  constructor
  · intro hagreed
    refine Bool.eq_false_iff.mpr fun hat => ?_
    have hprovider := hagreed.provider
    unfold Obsidian.normalizeNotePath at hprovider
    simp [forwardSlashes_id hunits.1, hat] at hprovider
  · intro hat
    have hpath : path.length ≤ 1024 := hkept.length.trans hlength
    exact ⟨normalizeStorePath_fixed hnote hpath hunits hat true, normalizeNotePath_fixed hnote hpath hunits hat⟩

theorem paths_agree_plan : Agreed (lit "a.md") ↔ namesReference (lit "@./a.md") = false :=
  paths_agree (by decide +kernel)

/-- What is accepted may begin with the sign of a reference in its normal form. -/
theorem reference_notFixed :
    ¬ ∀ input path, normalizeStorePath input true true = .ok path → Agreed path := by
  intro hclaim
  have hagreed := hclaim (lit "./@a.md") (lit "@a.md") (by decide +kernel)
  have hother : normalizeStorePath (lit "@a.md") true true = .ok (lit "a.md") := by decide +kernel
  exact absurd (hother.symm.trans hagreed.contract) (by decide)

end PiEnv.Notes
