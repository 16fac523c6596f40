import PiEnv.Lib.JsString

/-!
# POSIX paths

The string functions of a path library, and when one path is inside another.
-/

namespace Posix

open Js

def slash : UInt16 := 47
def dot : Str := lit "."
def dotdot : Str := lit ".."

def isAbsolute (path : Str) : Bool := path.head? == some slash

/-- The segments of a path after those in `output`, which is in reverse. Above
the root there is nothing to climb to, and `..` stays in a relative path. -/
def normalizeSegments (allowAboveRoot : Bool) (output : List Str) : List Str → List Str
  | [] => output.reverse
  | segment :: rest =>
    if segment == [] || segment == dot then normalizeSegments allowAboveRoot output rest
    else if segment == dotdot then
      match output with
      | last :: before =>
        if last == dotdot then normalizeSegments allowAboveRoot (dotdot :: output) rest
        else normalizeSegments allowAboveRoot before rest
      | [] => normalizeSegments allowAboveRoot (if allowAboveRoot then [dotdot] else []) rest
    else normalizeSegments allowAboveRoot (segment :: output) rest

/-- The segments of an absolute path. -/
def segments (path : Str) : List Str := normalizeSegments false [] (split [slash] path)

/-- The absolute path of a list of segments. -/
def ofSegments (segments : List Str) : Str := slash :: join [slash] segments

def resolve (cwd path : Str) : Str :=
  ofSegments (segments (if isAbsolute path then path else cwd ++ [slash] ++ path))

def normalize (path : Str) : Str :=
  if path.length = 0 then dot
  else
    let absolute := isAbsolute path
    let trailing := path.getLast? == some slash
    let body := join [slash] (normalizeSegments (!absolute) [] (split [slash] path))
    if body.length = 0 then
      if absolute then [slash] else if trailing then dot ++ [slash] else dot
    else
      (if absolute then [slash] else []) ++ body ++ (if trailing then [slash] else [])

/-- `join(directory, name)` -/
def joinPath (directory name : Str) : Str :=
  normalize (join [slash] ([directory, name].filter (·.length ≠ 0)))

def dirname (path : Str) : Str :=
  let parent := (((path.reverse.dropWhile (· == slash)).dropWhile (· != slash)).tail).reverse
  if path.length = 0 then dot
  else if parent.length = 0 then if isAbsolute path then [slash] else dot
  else if parent.length = 1 && isAbsolute path then [slash, slash]
  else parent

def basename (path : Str) : Str :=
  ((path.reverse.dropWhile (· == slash)).takeWhile (· != slash)).reverse

/-- What follows the last dot of the last segment, with it, where something
stands before it. -/
def extname (path : Str) : Str :=
  let base := basename path
  let stem := base.reverse.dropWhile (· != 46)
  if stem.length ≤ 1 || base == dotdot then [] else base.drop (stem.length - 1)

/-- What is left of two lists behind what they begin with in common. -/
def dropCommon : List Str → List Str → List Str × List Str
  | a :: as, b :: bs => if a == b then dropCommon as bs else (a :: as, b :: bs)
  | as, bs => (as, bs)

def relative (cwd source target : Str) : Str :=
  let (up, down) := dropCommon (segments (resolve cwd source)) (segments (resolve cwd target))
  join [slash] (up.map (fun _ => dotdot) ++ down)

-- -----
-- What is left of a path
-- -----

/-- Normalization only leaves segments out, or adds `..`. -/
theorem mem_normalizeSegments {allow : Bool} {output segments : List Str} {segment : Str}
    (h : segment ∈ normalizeSegments allow output segments) :
    segment ∈ output ∨ segment ∈ segments ∨ segment = dotdot := by
  induction segments generalizing output with
  | nil => exact .inl (List.mem_reverse.mp h)
  | cons first rest ih =>
    have hlater : ∀ {output' : List Str}, segment ∈ normalizeSegments allow output' rest →
        (segment ∈ output' → segment ∈ output ∨ segment ∈ first :: rest ∨ segment = dotdot) →
        segment ∈ output ∨ segment ∈ first :: rest ∨ segment = dotdot := by
      intro output' hmem hout
      rcases ih hmem with hout' | hmem | hdots
      · exact hout hout'
      · exact .inr (.inl (List.mem_cons_of_mem _ hmem))
      · exact .inr (.inr hdots)
    unfold normalizeSegments at h
    split at h
    · exact hlater h .inl
    · split at h
      · split at h
        · split at h
          · refine hlater h fun hmem => ?_
            exact (List.mem_cons.mp hmem).elim (fun heq => .inr (.inr heq)) .inl
          · exact hlater h fun hmem => .inl (List.mem_cons_of_mem _ hmem)
        · refine hlater h fun hmem => ?_
          split at hmem
          · exact .inr (.inr (List.mem_singleton.mp hmem))
          · cases hmem
      · refine hlater h fun hmem => ?_
        exact (List.mem_cons.mp hmem).elim (fun heq => .inr (.inl (heq ▸ List.mem_cons_self))) .inl

theorem mem_normalize {path : Str} {u : UInt16} (h : u ∈ normalize path) :
    u = slash ∨ u = 46 ∨ u ∈ path := by
  have hbody : ∀ {allow}, u ∈ join [slash] (normalizeSegments allow [] (split [slash] path)) →
      u = slash ∨ u = 46 ∨ u ∈ path := by
    intro allow hmem
    rcases mem_of_mem_join hmem with hslash | ⟨segment, hsegment, hmem⟩
    · exact .inl (List.mem_singleton.mp hslash)
    · rcases mem_normalizeSegments hsegment with hnil | hsegment | rfl
      · cases hnil
      · exact .inr (.inr (mem_of_mem_split (by simp) hsegment hmem))
      · exact .inr (.inl (by simpa [dotdot, lit, units] using hmem))
  unfold normalize at h
  dsimp only at h
  split at h
  · exact .inr (.inl (by simpa [dot, lit, units] using h))
  · split at h
    · split at h
      · exact .inl (List.mem_singleton.mp h)
      · split at h
        · rcases List.mem_append.mp h with hdot | hslash
          · exact .inr (.inl (by simpa [dot, lit, units] using hdot))
          · exact .inl (List.mem_singleton.mp hslash)
        · exact .inr (.inl (by simpa [dot, lit, units] using h))
    · have hends : ∀ {c : Bool}, u ∈ (if c then [slash] else []) → u = slash := by
        intro c hmem
        cases c <;> simp_all
      rcases List.mem_append.mp h with hmem | hslash
      · rcases List.mem_append.mp hmem with hslash | hmem
        · exact .inl (hends hslash)
        · exact hbody hmem
      · exact .inl (hends hslash)

-- -----
-- Canonical paths
-- -----

/-- A segment that normalization keeps. -/
structure IsSegment (segment : Str) : Prop where
  ne_nil : segment ≠ []
  ne_dot : segment ≠ dot
  ne_dotdot : segment ≠ dotdot
  no_slash : slash ∉ segment

theorem isSegment_iff {segment : Str} : IsSegment segment ↔
    segment ≠ [] ∧ segment ≠ dot ∧ segment ≠ dotdot ∧ slash ∉ segment :=
  ⟨fun h => ⟨h.ne_nil, h.ne_dot, h.ne_dotdot, h.no_slash⟩,
    fun ⟨hnil, hdot, hdots, hslash⟩ => ⟨hnil, hdot, hdots, hslash⟩⟩

instance : DecidablePred IsSegment := fun _ => decidable_of_iff _ isSegment_iff.symm

/-- An absolute path in normal form. -/
def Canonical (path : Str) : Prop :=
  ∃ parts, (∀ part ∈ parts, IsSegment part) ∧ path = ofSegments parts

section
variable {parts : List Str}

theorem normalizeSegments_append (allow : Bool) (output rest : List Str)
    (h : ∀ part ∈ parts, IsSegment part) :
    normalizeSegments allow output (parts ++ rest) =
      normalizeSegments allow (parts.reverse ++ output) rest := by
  induction parts generalizing output with
  | nil => rfl
  | cons part others ih =>
    have hp := h part (by simp)
    have hrest := ih (part :: output) fun s hs => h s (List.mem_cons_of_mem _ hs)
    simp [normalizeSegments, hp.ne_nil, hp.ne_dot, hp.ne_dotdot, hrest]

theorem normalizeSegments_parts (allow : Bool) (output : List Str)
    (h : ∀ part ∈ parts, IsSegment part) :
    normalizeSegments allow output parts = output.reverse ++ parts := by
  have happend := normalizeSegments_append allow output [] h
  rw [List.append_nil] at happend
  rw [happend, normalizeSegments, List.reverse_append, List.reverse_reverse]

theorem normalizeSegments_nil (allow : Bool) (output rest : List Str) :
    normalizeSegments allow output ([] :: rest) = normalizeSegments allow output rest := by
  simp [normalizeSegments]

theorem split_ofSegments (h : ∀ part ∈ parts, IsSegment part) (hne : parts ≠ []) :
    split [slash] (ofSegments parts) = [] :: parts := by
  have hjoin : ofSegments parts = join [slash] ([] :: parts) := by
    cases parts with
    | nil => exact absurd rfl hne
    | cons part rest => simp [ofSegments, join]
  rw [hjoin]
  refine split_join (fun part hp => ?_) (by simp)
  rcases List.mem_cons.mp hp with rfl | hp
  · simp
  · exact (h part hp).no_slash

theorem segments_ofSegments (h : ∀ part ∈ parts, IsSegment part) :
    segments (ofSegments parts) = parts := by
  cases parts with
  | nil => decide
  | cons part rest =>
    rw [segments, split_ofSegments h (by simp), normalizeSegments_nil,
      normalizeSegments_parts _ _ h, List.reverse_nil, List.nil_append]

theorem resolve_ofSegments (cwd : Str) (h : ∀ part ∈ parts, IsSegment part) :
    resolve cwd (ofSegments parts) = ofSegments parts := by
  have ha : isAbsolute (ofSegments parts) = true := by simp [isAbsolute, ofSegments]
  rw [resolve, ha, if_pos rfl, segments_ofSegments h]

-- -----
-- The path of a sibling
-- -----

theorem not_mem_basename (path : Str) : slash ∉ basename path := by
  intro h
  have := List.mem_takeWhile_imp (List.mem_reverse.mp h)
  simp at this

theorem ofSegments_concat (parts : List Str) (last : Str) :
    ofSegments (parts ++ [last]) =
      (if parts = [] then [] else ofSegments parts) ++ slash :: last := by
  cases parts with
  | nil => simp [ofSegments, join]
  | cons part rest =>
    rw [ofSegments, join_append (by simp) (by simp)]
    simp [ofSegments, join]

theorem reverse_getLast (h : ∀ part ∈ parts, IsSegment part) (hne : parts ≠ []) :
    ∃ front u, ofSegments parts = front ++ [u] ∧ u ≠ slash := by
  obtain ⟨init, last, rfl⟩ := (List.eq_nil_or_concat' parts).resolve_left hne
  have hl := h last (by simp)
  obtain ⟨front, u, rfl⟩ := (List.eq_nil_or_concat' last).resolve_left hl.ne_nil
  refine ⟨(if init = [] then [] else ofSegments init) ++ slash :: front, u, ?_, ?_⟩
  · rw [ofSegments_concat]
    simp
  · rintro rfl
    exact hl.no_slash (by simp)

/-- The directory of a canonical path that is not the root. -/
theorem dirname_ofSegments {last : Str} (h : ∀ part ∈ parts, IsSegment part) (hl : IsSegment last) :
    dirname (ofSegments (parts ++ [last])) = ofSegments parts := by
  have hall : ∀ u ∈ last.reverse, (u != slash) = true := by
    intro u hu
    have : u ≠ slash := by
      rintro rfl
      exact hl.no_slash (List.mem_reverse.mp hu)
    simpa using this
  obtain ⟨u, more, hu⟩ := List.exists_cons_of_ne_nil (show last.reverse ≠ [] by simp [hl.ne_nil])
  have hrev : (ofSegments (parts ++ [last])).reverse =
      last.reverse ++ slash :: (if parts = [] then [] else ofSegments parts).reverse := by
    rw [ofSegments_concat]
    simp
  have hkeep : (ofSegments (parts ++ [last])).reverse.dropWhile (· == slash) =
      (ofSegments (parts ++ [last])).reverse := by
    have hne : (u == slash) = false := by simpa using hall u (by simp [hu])
    rw [hrev, hu, List.cons_append, List.dropWhile_cons, hne]
    simp
  have hparent : (((ofSegments (parts ++ [last])).reverse.dropWhile (· == slash)).dropWhile
      (· != slash)).tail.reverse = if parts = [] then [] else ofSegments parts := by
    rw [hkeep, hrev, List.dropWhile_append_of_pos hall]
    simp
  have habs : isAbsolute (ofSegments (parts ++ [last])) = true := by simp [isAbsolute, ofSegments]
  have hlen : (ofSegments (parts ++ [last])).length ≠ 0 := by simp [ofSegments]
  unfold dirname
  simp only [hparent, habs, if_neg hlen]
  by_cases hp : parts = []
  · subst hp
    simp [ofSegments, join]
  · obtain ⟨part, rest, rfl⟩ := List.exists_cons_of_ne_nil hp
    obtain ⟨v, w, hv⟩ := List.exists_cons_of_ne_nil (h part (by simp)).ne_nil
    have hlong : 2 ≤ (ofSegments (part :: rest)).length := by
      cases rest <;> simp [ofSegments, join, hv]
    have h0 : ¬ (ofSegments (part :: rest)).length = 0 := by omega
    have h1 : ¬ (ofSegments (part :: rest)).length = 1 := by omega
    simp [h0, h1]

/-- The segments of a relative path behind those of a directory. -/
theorem normalizeSegments_joined {names : List Str} (h : ∀ part ∈ parts, IsSegment part)
    (hn : ∀ name ∈ names, IsSegment name) (hne : names ≠ []) :
    normalizeSegments false [] (split [slash] (ofSegments parts ++ [slash] ++ join [slash] names)) =
      parts ++ names := by
  have hall : ∀ part ∈ parts ++ names, IsSegment part := by
    intro part hp
    rcases List.mem_append.mp hp with hp | hp
    · exact h part hp
    · exact hn part hp
  have hsplit : split [slash] (ofSegments parts ++ [slash] ++ join [slash] names) =
      [] :: (if parts = [] then [[]] else parts) ++ names := by
    have hparts : ofSegments parts ++ [slash] ++ join [slash] names =
        join [slash] ([] :: (if parts = [] then [[]] else parts) ++ names) := by
      rw [join_append (by simp) hne]
      by_cases hp : parts = []
      · simp [hp, ofSegments, join]
      · obtain ⟨part, rest, rfl⟩ := List.exists_cons_of_ne_nil hp
        simp [ofSegments, join]
    rw [hparts]
    refine split_join (fun part hp => ?_) (by simp)
    by_cases hnil : parts = []
    · simp only [hnil, if_true, List.cons_append, List.nil_append, List.mem_cons] at hp
      rcases hp with rfl | rfl | hp
      · simp
      · simp
      · exact (hn part hp).no_slash
    · simp only [hnil, if_false, List.cons_append, List.mem_cons] at hp
      rcases hp with rfl | hp
      · simp
      · exact (hall part hp).no_slash
  rw [hsplit]
  by_cases hnil : parts = []
  · subst hnil
    simp only [if_true, List.cons_append, List.nil_append, normalizeSegments_nil]
    exact normalizeSegments_parts false [] hall
  · simp only [hnil, if_false, List.cons_append, normalizeSegments_nil]
    exact normalizeSegments_parts false [] hall

/-- A relative path of segments starts and ends with no slash. -/
theorem join_ends {names : List Str} (hn : ∀ name ∈ names, IsSegment name) (hne : names ≠ []) :
    (∃ u rest, join [slash] names = u :: rest ∧ u ≠ slash) ∧
      ∃ front u, join [slash] names = front ++ [u] ∧ u ≠ slash := by
  have hstart : ∃ u rest, join [slash] names = u :: rest ∧ u ≠ slash := by
    obtain ⟨name, rest, rfl⟩ := List.exists_cons_of_ne_nil hne
    have hname := hn name List.mem_cons_self
    obtain ⟨u, more, rfl⟩ := List.exists_cons_of_ne_nil hname.ne_nil
    have hu : u ≠ slash := by
      rintro rfl
      exact hname.no_slash List.mem_cons_self
    cases rest with
    | nil => exact ⟨u, more, by simp [join], hu⟩
    | cons other rest => exact ⟨u, join [slash] (more :: other :: rest), List.intercalate_cons_cons_left, hu⟩
  refine ⟨hstart, ?_⟩
  obtain ⟨front, u, hu, hslash⟩ := reverse_getLast hn hne
  obtain ⟨v, rest, hv, -⟩ := hstart
  cases front with
  | nil => simp [ofSegments, hv] at hu
  | cons first front => exact ⟨front, u, (List.cons.inj hu).2, hslash⟩

/-- A relative path of segments, joined to a directory. -/
theorem joinPath_segments {names : List Str} (h : ∀ part ∈ parts, IsSegment part)
    (hn : ∀ name ∈ names, IsSegment name) (hne : names ≠ []) :
    joinPath (ofSegments parts) (join [slash] names) = ofSegments (parts ++ names) := by
  obtain ⟨⟨v, rest, hv, -⟩, front, u, hu, hslash⟩ := join_ends hn hne
  have hfilter : [ofSegments parts, join [slash] names].filter (·.length ≠ 0) =
      [ofSegments parts, join [slash] names] := by
    simp [ofSegments, hv]
  have htrailing : ((ofSegments parts ++ [slash] ++ join [slash] names).getLast? == some slash) =
      false := by
    rw [hu, ← List.append_assoc, List.getLast?_concat]
    simpa using hslash
  have habs : isAbsolute (ofSegments parts ++ [slash] ++ join [slash] names) = true := by
    simp [isAbsolute, ofSegments]
  have hlen : (ofSegments parts ++ [slash] ++ join [slash] names).length ≠ 0 := by simp [ofSegments]
  have hjlen : (join [slash] (parts ++ names)).length ≠ 0 := by
    cases parts with
    | nil => simp [hv]
    | cons part rest =>
      rw [join_append (by simp) hne]
      simp
  have hpath : join [slash] [ofSegments parts, join [slash] names] =
      ofSegments parts ++ [slash] ++ join [slash] names := by
    simp [join]
  rw [joinPath, hfilter, hpath, normalize, if_neg hlen]
  simp only [habs, Bool.not_true, normalizeSegments_joined h hn hne, htrailing, if_neg hjlen]
  simp [ofSegments]

/-- A relative path of segments, resolved in a directory. -/
theorem resolve_segments {names : List Str} (h : ∀ part ∈ parts, IsSegment part)
    (hn : ∀ name ∈ names, IsSegment name) (hne : names ≠ []) :
    resolve (ofSegments parts) (join [slash] names) = ofSegments (parts ++ names) := by
  obtain ⟨⟨u, rest, hu, hslash⟩, -⟩ := join_ends hn hne
  have hrelative : isAbsolute (join [slash] names) = false := by
    rw [hu]
    simpa [isAbsolute] using hslash
  rw [resolve, hrelative, segments]
  exact congrArg ofSegments (normalizeSegments_joined h hn hne)

theorem joinPath_ofSegments {name : Str} (h : ∀ part ∈ parts, IsSegment part)
    (hn : IsSegment name) : joinPath (ofSegments parts) name = ofSegments (parts ++ [name]) := by
  have hsingle : join [slash] [name] = name := by simp [join]
  rw [← hsingle, joinPath_segments h (by simpa using hn) (by simp), hsingle]

-- -----
-- One path inside another
-- -----

theorem dropCommon_spec (xs ys : List Str) :
    (∃ down, dropCommon xs ys = ([], down) ∧ ys = xs ++ down) ∨
      ∃ x up down, dropCommon xs ys = (x :: up, down) ∧ ¬ xs <+: ys := by
  induction xs generalizing ys with
  | nil => exact .inl ⟨ys, by cases ys <;> rfl, rfl⟩
  | cons x xs ih =>
    cases ys with
    | nil => exact .inr ⟨x, xs, [], rfl, by simp⟩
    | cons y ys =>
      by_cases hxy : x = y
      · subst hxy
        rcases ih ys with ⟨down, hd, rfl⟩ | ⟨x', up, down, hd, hp⟩
        · exact .inl ⟨down, by simp [dropCommon, hd], rfl⟩
        · exact .inr ⟨x', up, down, by simp [dropCommon, hd], by simpa using hp⟩
      · exact .inr ⟨x, xs, y :: ys, by simp [dropCommon, hxy], by simp [hxy]⟩

theorem relative_ofSegments (cwd : Str) {xs ys : List Str} (hx : ∀ part ∈ xs, IsSegment part)
    (hy : ∀ part ∈ ys, IsSegment part) : relative cwd (ofSegments xs) (ofSegments ys) =
      join [slash] ((dropCommon xs ys).1.map (fun _ => dotdot) ++ (dropCommon xs ys).2) := by
  simp only [relative, resolve_ofSegments cwd hx, resolve_ofSegments cwd hy, segments_ofSegments hx,
    segments_ofSegments hy]

end

end Posix
