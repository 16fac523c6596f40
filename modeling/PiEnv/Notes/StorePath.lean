import PiEnv.Notes.CollectionPolicy

/-!
# Store paths

Paths relative to the store root, as the notes tool accepts them from a caller
and from a provider.
-/

namespace PiEnv.Notes

open Js

def slash : UInt16 := 47

def startsWith (s t : Str) : Bool := t.isPrefixOf s

theorem startsWith_ne {u v : UInt16} {rest rest' : Str} (h : u ≠ v) :
    startsWith (u :: rest) (v :: rest') = false := by
  simp [startsWith, List.isPrefixOf, Ne.symm h]

/-- `s.replaceAll("\\", "/")` -/
def forwardSlashes (s : Str) : Str := s.map fun u => if u == 92 then slash else u

/-- `/[\x00-\x1f\x7f]/` -/
def isControl (u : UInt16) : Bool := u ≤ 0x1F || u == 0x7F

def isAsciiLetter (u : UInt16) : Bool := (65 ≤ u && u ≤ 90) || (97 ≤ u && u ≤ 122)

def pathIsAbsolute : Str → Bool
  | 47 :: _ => true
  | u :: 58 :: 47 :: _ => isAsciiLetter u
  | _ => false

def isInvalidStorePath (input : Str) : Bool :=
  input.length = 0 || input.length > 1024 || pathIsAbsolute input || startsWith input (lit "@") ||
    input.contains 58 || input.any isControl

/-- The segments of a path after one more; `output` is in reverse. -/
def normalizeSegments (output : List Str) : List Str → List Str
  | [] => output.reverse
  | segment :: rest =>
    if segment == [] || segment == lit "." then normalizeSegments output rest
    else if segment == lit ".." then normalizeSegments output.tail rest
    else normalizeSegments (segment :: output) rest

def normalizePosixPath (input : Str) : Str :=
  join [slash] (normalizeSegments [] (split [slash] input))

def escapesStore (rawSegments : List Str) (normalized : Str) : Bool :=
  rawSegments.contains (lit "..") || normalized == lit ".." || startsWith normalized (lit "../") ||
    (split [slash] normalized).any (startsWith · (lit "."))

/-- ASCII lower case: no other character lowers to a unit of `.md`. -/
def toLowerUnit (u : UInt16) : UInt16 := if 65 ≤ u && u ≤ 90 then u + 32 else u

def isMarkdownPath (input normalized : Str) : Bool :=
  !(lit "/").isSuffixOf input && (lit ".md").isSuffixOf (normalized.map toLowerUnit)

def normalizeStorePath (input : Str) (requireMarkdown allowReferencePrefix : Bool) :
    Except NotesError Str :=
  let stripped := forwardSlashes
    (if allowReferencePrefix && startsWith input (lit "@") then input.drop 1 else input)
  if isInvalidStorePath stripped then
    .error (.provider .invalidPath (lit "Invalid note path: " ++ input))
  else
    let rawSegments := split [slash] stripped
    let normalized := normalizePosixPath stripped
    if escapesStore rawSegments normalized then
      .error (.provider .pathEscape (lit "Note path escapes the store: " ++ input))
    else if requireMarkdown && !isMarkdownPath stripped normalized then
      .error (.provider .notANote (lit "Note path must end in .md: " ++ input))
    else if (lit "/").isSuffixOf stripped && !(lit "/").isSuffixOf normalized then
      .ok (normalized ++ lit "/")
    else .ok normalized

-- -----
-- Canonical paths
-- -----

/-- A segment that normalization keeps: not empty, no dot in front, and none of
the characters a path may not hold. -/
structure PlainSegment (segment : Str) : Prop where
  start : ∃ u rest, segment = u :: rest ∧ u ≠ 46 ∧ u ≠ 64
  units : ∀ u ∈ segment, u ≠ slash ∧ u ≠ 92 ∧ u ≠ 58 ∧ isControl u = false

def isPlainUnit (u : UInt16) : Bool := u != slash && u != 92 && u != 58 && !isControl u

theorem isPlainUnit_iff {u : UInt16} :
    isPlainUnit u = true ↔ u ≠ slash ∧ u ≠ 92 ∧ u ≠ 58 ∧ isControl u = false := by
  simp [isPlainUnit, and_assoc]

theorem plainUnits {s : Str} (h : s.all isPlainUnit = true) :
    ∀ u ∈ s, u ≠ slash ∧ u ≠ 92 ∧ u ≠ 58 ∧ isControl u = false :=
  fun u hu => isPlainUnit_iff.mp (List.all_eq_true.mp h u hu)

theorem normalizeSegments_plain {segments : List Str} (output : List Str)
    (h : ∀ segment ∈ segments, PlainSegment segment) :
    normalizeSegments output segments = output.reverse ++ segments := by
  induction segments generalizing output with
  | nil => simp [normalizeSegments]
  | cons segment rest ih =>
    obtain ⟨u, more, rfl, hdot, -⟩ := (h segment (by simp)).start
    have hdots : (u :: more == lit ".") = false ∧ (u :: more == lit "..") = false := by
      constructor <;> simp [lit, units, hdot]
    have hrest := ih ((u :: more) :: output) fun s hs => h s (List.mem_cons_of_mem _ hs)
    simp [normalizeSegments, hdots, hrest]

section
variable {segments : List Str}

theorem split_plain (h : ∀ segment ∈ segments, PlainSegment segment) (hne : segments ≠ []) :
    split [slash] (join [slash] segments) = segments :=
  split_join (fun s hs hm => ((h s hs).units _ hm).1 rfl) hne

theorem normalizePosixPath_plain (h : ∀ segment ∈ segments, PlainSegment segment)
    (hne : segments ≠ []) :
    normalizePosixPath (join [slash] segments) = join [slash] segments := by
  rw [normalizePosixPath, split_plain h hne, normalizeSegments_plain [] h]
  rfl

theorem mem_join {u : UInt16} (h : u ∈ join [slash] segments) :
    u = slash ∨ ∃ segment ∈ segments, u ∈ segment :=
  (mem_of_mem_join h).imp_left List.mem_singleton.mp

theorem forwardSlashes_plain (h : ∀ segment ∈ segments, PlainSegment segment) :
    forwardSlashes (join [slash] segments) = join [slash] segments := by
  unfold forwardSlashes
  conv => rhs; rw [← List.map_id (join [slash] segments)]
  refine List.map_congr_left fun u hu => ?_
  rcases mem_join hu with rfl | ⟨s, hs, hu⟩
  · rfl
  · simp [((h s hs).units u hu).2.1]

theorem join_head (h : ∀ segment ∈ segments, PlainSegment segment) (hne : segments ≠ []) :
    ∃ u rest, join [slash] segments = u :: rest ∧ u ≠ 46 ∧ u ≠ 64 ∧ u ≠ slash := by
  obtain ⟨s, rest, rfl⟩ := List.exists_cons_of_ne_nil hne
  obtain ⟨u, more, rfl, hdot, hat⟩ := (h s (by simp)).start
  have hu := ((h (u :: more) (by simp)).units u (by simp)).1
  cases rest with
  | nil => exact ⟨u, more, by simp [join], hdot, hat, hu⟩
  | cons s' rest =>
    exact ⟨u, join [slash] (more :: s' :: rest), List.intercalate_cons_cons_left, hdot, hat, hu⟩

theorem isInvalidStorePath_plain (h : ∀ segment ∈ segments, PlainSegment segment)
    (hne : segments ≠ []) (hlen : (join [slash] segments).length ≤ 1024) :
    isInvalidStorePath (join [slash] segments) = false := by
  have hunits : ∀ u ∈ join [slash] segments, u ≠ 58 ∧ isControl u = false := by
    intro u hu
    rcases mem_join hu with rfl | ⟨s, hs, hu⟩
    · decide
    · exact ((h s hs).units u hu).2.2
  obtain ⟨u, rest, he, -, hat, hslash⟩ := join_head h hne
  rw [he] at hunits hlen ⊢
  have habs : pathIsAbsolute (u :: rest) = false := by
    unfold pathIsAbsolute
    split
    · rename_i hc
      exact absurd (List.cons.inj hc).1 hslash
    · rename_i hc
      obtain ⟨-, rfl⟩ := List.cons.inj hc
      exact absurd rfl (hunits 58 (by simp)).1
    · rfl
  have hcolon : (u :: rest).contains 58 = false := by
    rw [Bool.eq_false_iff]
    intro hc
    exact (hunits 58 (List.contains_iff_mem.mp hc)).1 rfl
  have hctl : (u :: rest).any isControl = false := by
    rw [List.any_eq_false]
    exact fun v hv => by simp [(hunits v hv).2]
  have hatsign : startsWith (u :: rest) (lit "@") = false := startsWith_ne hat
  unfold isInvalidStorePath
  rw [habs, hcolon, hctl, hatsign]
  simpa using hlen

theorem escapesStore_plain (h : ∀ segment ∈ segments, PlainSegment segment) (hne : segments ≠ []) :
    escapesStore segments (join [slash] segments) = false := by
  have hdot : ∀ s ∈ segments, startsWith s (lit ".") = false := by
    intro s hs
    obtain ⟨u, rest, rfl, hu, -⟩ := (h s hs).start
    exact startsWith_ne hu
  obtain ⟨u, rest, he, hu, -, -⟩ := join_head h hne
  have hraw : segments.contains (lit "..") = false := by
    rw [Bool.eq_false_iff]
    intro hc
    exact absurd (hdot _ (List.contains_iff_mem.mp hc)) (by decide)
  have hany : segments.any (startsWith · (lit ".")) = false := by
    rw [List.any_eq_false]
    exact fun s hs => by simp [hdot s hs]
  unfold escapesStore
  have hup : startsWith (u :: rest) (lit "../") = false := startsWith_ne hu
  have hdots : (u :: rest == lit "..") = false := by simp [lit, units, hu]
  rw [split_plain h hne, hraw, hany, he, hup, hdots]
  rfl

/-- A path of plain segments that ends in `.md` is its own normal form. -/
theorem normalizeStorePath_plain (h : ∀ segment ∈ segments, PlainSegment segment)
    (hne : segments ≠ []) (hlen : (join [slash] segments).length ≤ 1024)
    (hmd : lit ".md" <:+ join [slash] segments) (allowReferencePrefix : Bool) :
    normalizeStorePath (join [slash] segments) true allowReferencePrefix =
      .ok (join [slash] segments) := by
  obtain ⟨u, rest, he, -, hat, -⟩ := join_head h hne
  have hpre : startsWith (join [slash] segments) (lit "@") = false := he ▸ startsWith_ne hat
  have hslash : (lit "/").isSuffixOf (join [slash] segments) = false := by
    rw [Bool.eq_false_iff]
    intro hc
    obtain ⟨front, hf⟩ := List.isSuffixOf_iff_suffix.mp hc
    obtain ⟨front', hf'⟩ := hmd
    have := congrArg List.getLast? (hf.trans hf'.symm)
    simp [lit, units] at this
  have hlower : (lit ".md").isSuffixOf ((join [slash] segments).map toLowerUnit) = true := by
    obtain ⟨front, hf⟩ := hmd
    rw [← hf, List.map_append, List.isSuffixOf_iff_suffix]
    exact List.suffix_append _ _
  simp [normalizeStorePath, hpre, forwardSlashes_plain h, isInvalidStorePath_plain h hne hlen,
    normalizePosixPath_plain h hne, split_plain h hne, escapesStore_plain h hne, isMarkdownPath,
    hslash, hlower]

end

end PiEnv.Notes
