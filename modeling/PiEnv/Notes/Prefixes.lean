import PiEnv.Notes.PathAgreement

/-!
# Two normal forms of a prefix

The notes tool and the provider of a vault normalize the prefix of a listing on
their own. What the tool makes of a prefix is a normal form for both unless that
begins with a reference sign, or names nothing and still ends in a slash.
-/

namespace PiEnv.Notes

open Js

/-- The normal form of a prefix that the notes tool is asked for. -/
def normalizePrefix (input : Str) : Except NotesError Str :=
  let stripped := referencedPath input
  if startsWith stripped (lit "@") then
    .error (.provider .invalidPath (lit "Invalid note path: " ++ input))
  else if stripped = [] ∨ stripped = lit "." ∨ stripped = lit "./" then .ok []
  else normalizeStorePath input false true

/-- Whether a prefix names nothing and still ends in a slash. -/
def emptyDirectory (input : Str) : Bool :=
  (lit "/").isSuffixOf (referencedPath input) && referencedPath input != lit "./" &&
    (split [slash] (referencedPath input)).all (!isNamed ·)

/-- A prefix that leads below the store and that both sides leave as it is. -/
structure PrefixAgreed (listed : Str) : Prop where
  relative : pathIsAbsolute listed = false ∧ lit ".." ∉ split [slash] listed
  contract : normalizePrefix listed = .ok listed
  provider : Obsidian.normalizePrefix listed = .ok listed

-- -----
-- Normal forms
-- -----

/-- The names on a prefix, and whether a slash follows them. -/
def listedPrefix (names : List Str) (directory : Bool) : Str :=
  join [slash] names ++ if directory then [slash] else []

/-- Names that normalization keeps. -/
structure Names (names : List Str) : Prop where
  ne_nil : names ≠ []
  kept : ∀ name ∈ names, KeptSegment name
  no_slash : ∀ name ∈ names, slash ∉ name

/-- The segments behind the names: an empty one where a slash follows them. -/
def ending (directory : Bool) : List Str := if directory then [[]] else []

section
variable {names : List Str} {directory : Bool}

theorem listedPrefix_join (hne : names ≠ []) :
    listedPrefix names directory = join [slash] (names ++ ending directory) := by
  cases directory with
  | false => simp [listedPrefix, ending]
  | true =>
    rw [ending, if_pos rfl, join_append hne (by simp)]
    simp [listedPrefix, join]

theorem mem_ending {segment : Str} (h : segment ∈ ending directory) : segment = [] := by
  cases directory with
  | false => cases h
  | true => exact List.mem_singleton.mp h

theorem filter_ending : (ending directory).filter isNamed = [] := by
  cases directory <;> rfl

theorem KeptSegment.isNamed {segment : Str} (h : KeptSegment segment) : isNamed segment = true := by
  simp [Notes.isNamed, h.1, h.ne_dots.1]

namespace Names

theorem split (h : Names names) (directory : Bool) :
    split [slash] (listedPrefix names directory) = names ++ ending directory := by
  rw [listedPrefix_join h.ne_nil]
  refine split_join (fun part hpart => ?_) (by simp [h.ne_nil])
  rcases List.mem_append.mp hpart with hname | hending
  · exact h.no_slash part hname
  · simp [mem_ending hending]

theorem isSegment (h : Names names) : ∀ name ∈ names, Posix.IsSegment name :=
  fun name hname => (h.kept name hname).isSegment (h.no_slash name hname)

theorem head (h : Names names) (directory : Bool) : ∃ u rest,
    listedPrefix names directory = u :: rest ∧ u ≠ slash ∧ u ≠ 46 := by
  obtain ⟨name, others, rfl⟩ := List.exists_cons_of_ne_nil h.ne_nil
  have hkept := h.kept name List.mem_cons_self
  obtain ⟨u, more, rfl⟩ := List.exists_cons_of_ne_nil hkept.1
  have hslash : u ≠ slash := by
    rintro rfl
    exact h.no_slash _ List.mem_cons_self List.mem_cons_self
  have hdot : u ≠ 46 := by
    rintro rfl
    exact absurd hkept.2 (by simp [startsWith, lit, units])
  cases others with
  | nil => exact ⟨u, more ++ if directory then [slash] else [], by simp [listedPrefix, join],
      hslash, hdot⟩
  | cons next others =>
    refine ⟨u, join [slash] (more :: next :: others) ++ if directory then [slash] else [], ?_,
      hslash, hdot⟩
    rw [listedPrefix, join, List.intercalate_cons_cons_left]
    rfl

theorem dots (h : Names names) (directory : Bool) : lit ".." ∉ names ++ ending directory := by
  intro hmem
  rcases List.mem_append.mp hmem with hname | hending
  · exact (h.kept _ hname).ne_dots.2 rfl
  · exact absurd (mem_ending hending) (by decide)

theorem endsWith (h : Names names) (directory : Bool) :
    (lit "/").isSuffixOf (listedPrefix names directory) = directory := by
  cases directory with
  | true =>
    rw [listedPrefix, if_pos rfl]
    exact List.isSuffixOf_iff_suffix.mpr (List.suffix_append ..)
  | false =>
    refine Bool.eq_false_iff.mpr fun hsuffix => ?_
    obtain ⟨front, hfront⟩ := List.isSuffixOf_iff_suffix.mp hsuffix
    have hsplit := h.split false
    have hslash : listedPrefix names false = front ++ [slash] ++ [] := by
      rw [List.append_nil]
      exact hfront.symm
    rw [hslash, split_append, ending, if_neg Bool.false_ne_true, List.append_nil] at hsplit
    have hempty : [] ∈ names := hsplit ▸ List.mem_append_right _ (by decide)
    exact (h.kept [] hempty).1 rfl

theorem relative (h : Names names) (directory : Bool) :
    Posix.isAbsolute (listedPrefix names directory) = false := by
  obtain ⟨u, rest, hcons, hslash, -⟩ := h.head directory
  rw [hcons]
  simpa [Posix.isAbsolute, Posix.slash, slash] using hslash

theorem escapes (h : Names names) (directory directory' : Bool) :
    escapesStore (Js.split [slash] (listedPrefix names directory)) (listedPrefix names directory') =
      false := by
  obtain ⟨u, rest, hcons, -, hdot⟩ := h.head directory'
  have hraw : (names ++ ending directory).contains (lit "..") = false :=
    Bool.eq_false_iff.mpr fun hmem => h.dots directory (List.contains_iff_mem.mp hmem)
  have hhidden : (names ++ ending directory').any (startsWith · (lit ".")) = false := by
    refine List.any_eq_false.mpr fun segment hsegment => Bool.eq_false_iff.mp ?_
    rcases List.mem_append.mp hsegment with hname | hending
    · exact (h.kept segment hname).2
    · rw [mem_ending hending]
      rfl
  have hup : startsWith (listedPrefix names directory') (lit "../") = false := by
    rw [hcons]
    exact startsWith_ne hdot
  have hdots : (listedPrefix names directory' == lit "..") = false := by
    rw [hcons]
    simp [lit, units, hdot]
  rw [escapesStore, h.split, h.split, hraw, hdots, hup, hhidden]
  rfl

theorem normalizePosixPath (h : Names names) (directory : Bool) :
    normalizePosixPath (listedPrefix names directory) = listedPrefix names false := by
  rw [Notes.normalizePosixPath, h.split, normalizeSegments_named [] (h.dots directory),
    List.filter_append, filter_ending, List.append_nil,
    List.filter_eq_self.mpr fun name hname => (h.kept name hname).isNamed]
  simp [listedPrefix]

theorem normalizeSegments (h : Names names) (directory : Bool) :
    Posix.normalizeSegments true [] (Js.split [slash] (listedPrefix names directory)) = names := by
  rw [h.split, Posix.normalizeSegments_append _ _ _ h.isSegment, List.append_nil]
  cases directory with
  | false => exact List.reverse_reverse names
  | true =>
    rw [ending, if_pos rfl, Posix.normalizeSegments_nil]
    exact List.reverse_reverse names

theorem normalize (h : Names names) (directory : Bool) :
    Posix.normalize (listedPrefix names directory) = listedPrefix names directory := by
  have hslash : Posix.slash = slash := rfl
  have htrailing : ((listedPrefix names directory).getLast? == some slash) = directory := by
    refine Eq.trans ?_ (h.endsWith directory)
    rw [Bool.eq_iff_iff, beq_iff_eq, List.getLast?_eq_some_iff, List.isSuffixOf_iff_suffix]
    exact ⟨fun ⟨front, hfront⟩ => ⟨front, hfront.symm⟩, fun ⟨front, hfront⟩ => ⟨front, hfront.symm⟩⟩
  obtain ⟨u, rest, hcons, -⟩ := h.head directory
  obtain ⟨v, others, hbody, -⟩ := h.head false
  have hnonempty : (listedPrefix names directory).length ≠ 0 := by simp [hcons]
  have hbody : (join [slash] names).length ≠ 0 := by
    rw [listedPrefix, if_neg Bool.false_ne_true, List.append_nil] at hbody
    simp [hbody]
  unfold Posix.normalize
  simp only [if_neg hnonempty, h.relative directory, Bool.not_false, hslash,
    h.normalizeSegments directory, htrailing, if_neg hbody]
  simp [listedPrefix]

end Names

-- -----
-- Prefixes that both sides keep
-- -----

/-- What is accepted of a prefix with names on it. -/
structure Listed (names : List Str) (directory : Bool) : Prop extends Names names where
  clean : CleanUnits (listedPrefix names directory)
  length : (listedPrefix names directory).length ≤ 1024

namespace Listed

theorem invalid (h : Listed names directory)
    (hat : startsWith (listedPrefix names directory) (lit "@") = false) :
    isInvalidStorePath (listedPrefix names directory) = false := by
  obtain ⟨-, hcolon, hcontrol⟩ := h.clean
  obtain ⟨u, rest, hcons, -⟩ := h.head directory
  have hcontains : (listedPrefix names directory).contains 58 = false := by simpa using hcolon
  have hnonempty : listedPrefix names directory ≠ [] := by simp [hcons]
  rw [isInvalidStorePath, pathIsAbsolute_eq_false hcolon (h.relative directory), hat, hcontrol,
    hcontains]
  simpa [hnonempty] using h.length

theorem contract (h : Listed names directory)
    (hat : startsWith (listedPrefix names directory) (lit "@") = false) :
    normalizePrefix (listedPrefix names directory) = .ok (listedPrefix names directory) := by
  have hreferenced : referencedPath (listedPrefix names directory) = listedPrefix names directory := by
    rw [referencedPath, hat, if_neg Bool.false_ne_true, forwardSlashes_id h.clean.1]
  obtain ⟨u, rest, hcons, -, hdot⟩ := h.head directory
  have hnamed : ¬ (listedPrefix names directory = [] ∨ listedPrefix names directory = lit "." ∨
      listedPrefix names directory = lit "./") := by
    rw [hcons]
    simp [lit, units, hdot]
  have hstored : normalizeStorePath (listedPrefix names directory) false true =
      .ok (listedPrefix names directory) := by
    have hends := h.endsWith directory
    have hnormal := h.endsWith false
    simp only [normalizeStorePath, Bool.true_and, hat, if_neg Bool.false_ne_true,
      forwardSlashes_id h.clean.1, h.invalid hat, h.normalizePosixPath, h.escapes, Bool.false_and,
      hends, hnormal, Bool.not_false, Bool.and_true]
    cases directory with
    | false => rfl
    | true => simp [listedPrefix, lit, units, slash]
  simp only [normalizePrefix, hreferenced, hat, if_neg Bool.false_ne_true, if_neg hnamed, hstored]

theorem provider (h : Listed names directory)
    (hat : startsWith (listedPrefix names directory) (lit "@") = false) :
    Obsidian.normalizePrefix (listedPrefix names directory) = .ok (listedPrefix names directory) := by
  obtain ⟨hbackslash, hcolon, hcontrol⟩ := h.clean
  obtain ⟨u, rest, hcons, -, hdot⟩ := h.head directory
  have hnonempty : listedPrefix names directory ≠ [] := by simp [hcons]
  have hcontains : (listedPrefix names directory).contains 58 = false := by simpa using hcolon
  have hlength : ¬ 1024 < (listedPrefix names directory).length := Nat.not_lt.mpr h.length
  have hcurrent : startsWith (listedPrefix names directory) (lit "./") = false := by
    rw [hcons]
    exact startsWith_ne hdot
  simp [Obsidian.normalizePrefix, forwardSlashes_id hbackslash, hnonempty, hlength,
    h.relative directory, hat, hcontrol, hcolon, h.normalize, hcurrent, h.escapes]

theorem agreed (h : Listed names directory)
    (hat : startsWith (listedPrefix names directory) (lit "@") = false) :
    PrefixAgreed (listedPrefix names directory) where
  relative := ⟨pathIsAbsolute_eq_false h.clean.2.1 (h.relative directory), by
    rw [h.split]
    exact h.dots directory⟩
  contract := h.contract hat
  provider := h.provider hat

end Listed

end

-- -----
-- Accepted prefixes
-- -----

/-- The names on a path. -/
def namesOf (stripped : Str) : List Str := (split [slash] stripped).filter isNamed

/-- What normalization makes of a path with the given names on it. -/
def namedPrefix (names : List Str) (directory : Bool) : Str :=
  if names = [] then if directory then lit "/" else [] else listedPrefix names directory

section
variable {stripped listed : Str} {directory : Bool}

theorem namesOf_directory {front : Str} : namesOf (front ++ [slash]) = namesOf front := by
  have hsplit : split [slash] (front ++ [slash]) = split [slash] front ++ [[]] := by
    rw [← List.append_nil (front ++ [slash]), split_append]
    rfl
  rw [namesOf, hsplit, List.filter_append]
  simp [namesOf, isNamed]

/-- Names and ending of a path stand in this order in its segments. -/
theorem sublist_split (hdirectory : (lit "/").isSuffixOf stripped = directory) :
    (namesOf stripped ++ ending directory).Sublist (split [slash] stripped) := by
  cases directory with
  | false =>
    rw [ending, if_neg Bool.false_ne_true, List.append_nil]
    exact List.filter_sublist
  | true =>
    obtain ⟨front, rfl⟩ := List.isSuffixOf_iff_suffix.mp hdirectory
    have hslash : lit "/" = [slash] := by decide
    rw [hslash, namesOf_directory, ← List.append_nil (front ++ [slash]), split_append]
    exact List.filter_sublist.append (List.Sublist.refl _)

theorem normalizePosixPath_names (hdots : lit ".." ∉ split [slash] stripped) :
    normalizePosixPath stripped = join [slash] (namesOf stripped) := by
  rw [normalizePosixPath, normalizeSegments_named [] hdots, List.reverse_nil, List.nil_append, namesOf]

/-- What the checks on a path leave to be said of its names. -/
theorem listed_of_accepted (hclean : 92 ∉ stripped) (hinvalid : isInvalidStorePath stripped = false)
    (hescapes : escapesStore (split [slash] stripped) (normalizePosixPath stripped) = false)
    (hdirectory : (lit "/").isSuffixOf stripped = directory) (hne : namesOf stripped ≠ []) :
    Listed (namesOf stripped) directory := by
  simp only [escapesStore, Bool.or_eq_false_iff] at hescapes
  obtain ⟨⟨⟨hraw, -⟩, -⟩, hhidden⟩ := hescapes
  have hdots : lit ".." ∉ split [slash] stripped := fun hmem =>
    absurd (List.contains_iff_mem.mpr hmem) (by simpa using hraw)
  have hslash : ∀ name ∈ namesOf stripped, slash ∉ name := fun name hname =>
    not_mem_split (List.mem_of_mem_filter hname)
  rw [normalizePosixPath_names hdots, split_join hslash hne, List.any_eq_false] at hhidden
  have hkept : ∀ name ∈ namesOf stripped, KeptSegment name := fun name hname => by
    have hnamed : isNamed name = true := List.of_mem_filter hname
    rw [isNamed, Bool.and_eq_true, bne_iff_ne] at hnamed
    exact ⟨hnamed.1, Bool.eq_false_iff.mpr (hhidden name hname)⟩
  have hsublist := sublist_split hdirectory
  simp only [isInvalidStorePath, Bool.or_eq_false_iff, decide_eq_false_iff_not, not_lt] at hinvalid
  obtain ⟨⟨⟨⟨⟨-, hlength⟩, -⟩, -⟩, hcolon⟩, hcontrol⟩ := hinvalid
  have hunits : ∀ u ∈ listedPrefix (namesOf stripped) directory, u = slash ∨ u ∈ stripped := by
    intro u hu
    rw [listedPrefix_join hne] at hu
    rcases mem_join hu with hslash | ⟨part, hpart, hu⟩
    · exact .inl hslash
    · exact .inr (mem_of_mem_split (by simp) (hsublist.mem hpart) hu)
  refine ⟨⟨hne, hkept, hslash⟩, ⟨fun hmem => ?_, fun hmem => ?_, List.any_eq_false.mpr fun u hu => ?_⟩, ?_⟩
  · rcases hunits _ hmem with hslash | hmem
    · exact absurd hslash (by decide)
    · exact hclean hmem
  · rcases hunits _ hmem with hslash | hmem
    · exact absurd hslash (by decide)
    · exact absurd (List.contains_iff_mem.mpr hmem) (Bool.eq_false_iff.mp hcolon)
  · rcases hunits u hu with rfl | hmem
    · decide
    · exact List.any_eq_false.mp hcontrol u hmem
  · rw [listedPrefix_join hne]
    refine (length_join_le hsublist (by simp [hne])).trans ?_
    rwa [join_split (by simp)]

/-- An accepted prefix is the one of its names. -/
theorem normalizeStorePath_named {input : Str} (h : normalizeStorePath input false true = .ok listed)
    (hdirectory : (lit "/").isSuffixOf (referencedPath input) = directory) :
    listed = namedPrefix (namesOf (referencedPath input)) directory ∧
      (namesOf (referencedPath input) ≠ [] → Listed (namesOf (referencedPath input)) directory) := by
  have hclean : 92 ∉ referencedPath input := forwardSlashes_clean _
  unfold normalizeStorePath at h
  simp only [Bool.true_and, Bool.false_and] at h
  rw [← referencedPath] at h
  generalize referencedPath input = stripped at h hclean hdirectory ⊢
  split at h
  · cases h
  case isFalse hinvalid =>
  split at h
  · cases h
  case isFalse hescapes =>
  rw [Bool.not_eq_true] at hinvalid hescapes
  rw [if_neg Bool.false_ne_true, hdirectory] at h
  have hdots : lit ".." ∉ split [slash] stripped := fun hmem => by
    simp only [escapesStore, Bool.or_eq_false_iff] at hescapes
    exact absurd (List.contains_iff_mem.mpr hmem) (by simpa using hescapes.1.1.1)
  have hlisted := listed_of_accepted hclean hinvalid hescapes hdirectory
  refine ⟨?_, hlisted⟩
  rw [normalizePosixPath_names hdots] at h
  rw [namedPrefix]
  split
  case isTrue hnil =>
    rw [hnil] at h
    cases directory with
    | false => exact (Except.ok.inj h).symm
    | true => exact (Except.ok.inj h).symm
  case isFalse hne =>
    have hends := (hlisted hne).endsWith false
    rw [listedPrefix, if_neg Bool.false_ne_true, List.append_nil] at hends
    rw [hends] at h
    cases directory with
    | false =>
      rw [listedPrefix, if_neg Bool.false_ne_true, List.append_nil]
      exact (Except.ok.inj h).symm
    | true => exact (Except.ok.inj h).symm

end

-- -----
-- Agreement
-- -----

section
variable {input listed : Str}

theorem namesReference_nil (h : namesOf (referencedPath input) = []) : namesReference input = false := by
  rw [namesReference, ← List.head?_filter]
  rw [namesOf] at h
  rw [h]
  rfl

theorem namesReference_listed (directory : Bool) (hne : namesOf (referencedPath input) ≠ []) :
    namesReference input =
      startsWith (listedPrefix (namesOf (referencedPath input)) directory) (lit "@") := by
  rw [namesReference, ← List.head?_filter, ← namesOf]
  have hnamed : ∀ name ∈ namesOf (referencedPath input), isNamed name = true :=
    fun name hname => List.of_mem_filter hname
  obtain ⟨name, rest, hcons⟩ := List.exists_cons_of_ne_nil hne
  rw [hcons] at hnamed ⊢
  have hname : name ≠ [] := by
    rintro rfl
    exact absurd (hnamed [] List.mem_cons_self) (by decide)
  obtain ⟨u, more, rfl⟩ := List.exists_cons_of_ne_nil hname
  cases rest with
  | nil => simp [listedPrefix, join, startsWith, lit, units, List.isPrefixOf]
  | cons next rest =>
    rw [listedPrefix, join, List.intercalate_cons_cons_left]
    simp [startsWith, lit, units, List.isPrefixOf]

theorem emptyDirectory_named (h : namesOf (referencedPath input) ≠ []) : emptyDirectory input = false := by
  obtain ⟨name, hname⟩ := List.exists_mem_of_ne_nil _ h
  have hall : (split [slash] (referencedPath input)).all (!isNamed ·) = false := by
    refine List.all_eq_false.mpr ⟨name, List.mem_of_mem_filter hname, ?_⟩
    simpa using List.of_mem_filter hname
  rw [emptyDirectory, hall, Bool.and_false]

theorem emptyDirectory_nil (h : namesOf (referencedPath input) = [])
    (hother : referencedPath input ≠ lit "./") :
    emptyDirectory input = (lit "/").isSuffixOf (referencedPath input) := by
  have hall : (split [slash] (referencedPath input)).all (!isNamed ·) = true := by
    refine List.all_eq_true.mpr fun segment hsegment => ?_
    have := List.filter_eq_nil_iff.mp h segment hsegment
    simpa using this
  rw [emptyDirectory, hall, Bool.and_true, bne_iff_ne.mpr hother, Bool.and_true]

theorem agreed_nil : PrefixAgreed [] where
  relative := by decide
  contract := by decide
  provider := by decide

theorem not_agreed_root : ¬ PrefixAgreed (lit "/") :=
  fun h => absurd h.relative.1 (by decide)

theorem not_agreed_reference (hat : startsWith listed (lit "@") = true) : ¬ PrefixAgreed listed := by
  intro h
  have hprovider := h.provider
  obtain ⟨rest, rfl⟩ := List.isPrefixOf_iff_prefix.mp hat
  simp [Obsidian.normalizePrefix, forwardSlashes, lit, units, startsWith] at hprovider

/-- Both sides take what the notes tool makes of a prefix for what it is when its
first name does not begin with the sign of a reference and it does not stand for
a directory without a name. -/
theorem prefix_agrees (h : normalizePrefix input = .ok listed) :
    PrefixAgreed listed ↔ namesReference input = false ∧ emptyDirectory input = false := by
  unfold normalizePrefix at h
  dsimp only at h
  split at h
  · exact absurd h nofun
  split at h
  case isTrue hempty =>
    obtain rfl := Except.ok.inj h
    have hnames : namesOf (referencedPath input) = [] := by
      rcases hempty with hempty | hempty | hempty <;> rw [hempty] <;> decide
    refine iff_of_true agreed_nil ⟨namesReference_nil hnames, ?_⟩
    unfold emptyDirectory
    rcases hempty with hempty | hempty | hempty <;> rw [hempty] <;> decide
  case isFalse hother =>
    obtain ⟨rfl, hlisted⟩ := normalizeStorePath_named h rfl
    rw [not_or, not_or] at hother
    by_cases hnames : namesOf (referencedPath input) = []
    · rw [namesReference_nil hnames, emptyDirectory_nil hnames hother.2.2, namedPrefix, if_pos hnames]
      cases (lit "/").isSuffixOf (referencedPath input) with
      | false => exact iff_of_true agreed_nil ⟨rfl, rfl⟩
      | true => exact iff_of_false not_agreed_root (by simp)
    · have hlisted := hlisted hnames
      rw [namesReference_listed _ hnames,
        emptyDirectory_named hnames, namedPrefix, if_neg hnames]
      constructor
      · intro hagreed
        exact ⟨Bool.eq_false_iff.mpr fun hat => not_agreed_reference hat hagreed, rfl⟩
      · rintro ⟨hat, -⟩
        exact hlisted.agreed hat

theorem prefix_agrees_directory :
    PrefixAgreed (lit "a/") ↔ namesReference (lit "./a//") = false ∧ emptyDirectory (lit "./a//") = false :=
  prefix_agrees (by decide +kernel)

/-- What is accepted may begin with the sign of a reference, or be the root. -/
theorem prefix_notFixed : ¬ ∀ input listed, normalizePrefix input = .ok listed → PrefixAgreed listed := by
  intro hclaim
  have hagreed := hclaim (lit "./@a") (lit "@a") (by decide +kernel)
  have hother : normalizePrefix (lit "@a") = .ok (lit "a") := by decide +kernel
  exact absurd (hother.symm.trans hagreed.contract) (by decide)

end

end PiEnv.Notes
