import PiEnv.WebContext.Fetch

/-!
# Truncated text

A text over the limit is cut after its last character that still fits, while the
bytes that are reported are the limit itself.
-/

namespace PiEnv.WebContext

open Js

-- -----
-- Characters
-- -----

/-- The length of characters in UTF-8. -/
def bytesOf (chars : List Str) : Nat := (chars.map fun char => (Utf8.encode char).length).sum

@[simp] theorem bytesOf_nil : bytesOf [] = 0 := rfl

@[simp] theorem bytesOf_cons (char : Str) (rest : List Str) :
    bytesOf (char :: rest) = (Utf8.encode char).length + bytesOf rest := rfl

theorem bytesOf_append (chars rest : List Str) :
    bytesOf (chars ++ rest) = bytesOf chars + bytesOf rest := by
  rw [bytesOf, List.map_append, List.sum_append]
  rfl

@[simp] theorem flatten_characters (text : Str) : (characters text).flatten = text := by
  fun_induction characters text with
  | case1 => rfl
  | case2 => rfl
  | case3 u v rest _ ih => simp [ih]
  | case4 u v rest _ ih => simp [ih]

/-- A text is encoded character by character. -/
theorem length_encode_eq (text : Str) : (Utf8.encode text).length = bytesOf (characters text) := by
  fun_induction characters text with
  | case1 => rfl
  | case2 u => simp [Utf8.encode]
  | case3 u v rest hpair ih =>
    rw [Utf8.encode, if_pos hpair, List.length_append, ih, bytesOf_cons]
    simp [Utf8.encode, hpair]
  | case4 u v rest hpair ih =>
    rw [Utf8.encode, if_neg hpair, List.length_append, ih, bytesOf_cons]
    simp [Utf8.encode]

/-- The first characters of a text are the characters of what they make up. -/
theorem characters_flatten {text : Str} {kept rest : List Str} (h : characters text = kept ++ rest) :
    characters kept.flatten = kept := by
  fun_induction characters text generalizing kept with
  | case1 =>
    obtain rfl : kept = [] := (List.append_eq_nil_iff.mp h.symm).1
    rfl
  | case2 u =>
    cases kept with
    | nil => rfl
    | cons char kept =>
      obtain ⟨rfl, tail⟩ := List.cons.inj h
      obtain rfl : kept = [] := (List.append_eq_nil_iff.mp tail.symm).1
      rfl
  | case3 u v after hpair ih =>
    cases kept with
    | nil => rfl
    | cons char kept =>
      obtain ⟨rfl, tail⟩ := List.cons.inj h
      have hkept := ih tail
      simp [characters, hpair, hkept]
  | case4 u v after hpair ih =>
    cases kept with
    | nil => rfl
    | cons char kept =>
      obtain ⟨rfl, tail⟩ := List.cons.inj h
      have hkept := ih tail
      have hwhole : kept.flatten ++ rest.flatten = v :: after := by
        rw [← List.flatten_append]
        exact (congrArg List.flatten tail.symm).trans (flatten_characters _)
      rw [List.flatten_cons]
      cases hflat : kept.flatten with
      | nil =>
        rw [hflat] at hkept
        subst hkept
        rfl
      | cons w below =>
        -- what comes next in the text is no second half
        rw [hflat] at hwhole hkept
        obtain ⟨rfl, -⟩ := List.cons.inj hwhole
        rw [List.singleton_append, characters, if_neg hpair, hkept]

-- -----
-- The loop
-- -----

/-- The characters that the loop keeps: all that fit, and the next one does not. -/
theorem truncateLoop_finite (limit : Rat) (chars : List Str) (used : Nat) (hused : used ≤ limit) :
    ∃ kept rest, chars = kept ++ rest ∧ truncateLoop (.finite limit) chars used = kept.flatten ∧
      ((used + bytesOf kept : Nat) : Rat) ≤ limit ∧
      ∀ next ∈ rest.head?, limit < ((used + bytesOf (kept ++ [next]) : Nat) : Rat) := by
  induction chars generalizing used with
  | nil => exact ⟨[], [], rfl, rfl, by simpa using hused, by simp⟩
  | cons char rest ih =>
    by_cases hlong : limit < ((used + (Utf8.encode char).length : Nat) : Rat)
    · refine ⟨[], char :: rest, rfl, ?_, by simpa using hused, ?_⟩
      · have hbreak : exceeds (used + (Utf8.encode char).length : Nat) (.finite limit) = true :=
          exceeds_finite.mpr hlong
        rw [truncateLoop, if_pos hbreak]
        rfl
      · simpa using hlong
    · obtain ⟨kept, behind, rfl, heq, hfits, hnext⟩ :=
        ih (used + (Utf8.encode char).length) (le_of_not_gt hlong)
      refine ⟨char :: kept, behind, rfl, ?_, ?_, ?_⟩
      · have hgo : ¬ exceeds (used + (Utf8.encode char).length : Nat) (.finite limit) = true :=
          exceeds_finite.not.mpr hlong
        rw [truncateLoop, if_neg hgo, heq]
        rfl
      · rw [bytesOf_cons, ← Nat.add_assoc]
        exact hfits
      · intro next hmem
        rw [List.cons_append, bytesOf_cons, ← Nat.add_assoc]
        exact hnext next hmem

-- -----
-- The account
-- -----

/-- A text is cut off after one of its characters. -/
def CutAt (text : Str) (kept : List Str) : Prop := kept <+: characters text

/-- What a result says about how much of a text it returns. -/
structure Accounted (transformed : Str) (limit : Number) (result : WebFetchResult) : Prop where
  cut : ∃ kept, CutAt transformed kept ∧ result.text = kept.flatten
  bounded : atMost (Utf8.encode result.text).length limit = true
  truncated : result.truncated = true ↔ result.text.length < transformed.length
  counted : result.outputBytes = .finite (Utf8.encode result.text).length

/-- The text is within the limit, or the limit is the length of some of its first characters. -/
def Fits (transformed : Str) (limit : Number) : Prop :=
  atMost (Utf8.encode transformed).length limit = true ∨
    ∃ kept, CutAt transformed kept ∧ limit = .finite (bytesOf kept)

theorem encode_cut {text : Str} {kept : List Str} (h : CutAt text kept) :
    (Utf8.encode kept.flatten).length = bytesOf kept := by
  obtain ⟨rest, hrest⟩ := h
  rw [length_encode_eq, characters_flatten hrest.symm]

theorem cut_all (text : Str) : CutAt text (characters text) := List.prefix_rfl

/-- Fewer bytes are fewer units. -/
theorem length_lt_of_cut {text : Str} {kept : List Str} (h : CutAt text kept)
    (hlt : bytesOf kept < (Utf8.encode text).length) : kept.flatten.length < text.length := by
  obtain ⟨rest, hrest⟩ := h
  have htext : text = kept.flatten ++ rest.flatten := by
    rw [← List.flatten_append, hrest, flatten_characters]
  have hne : rest.flatten ≠ [] := by
    intro empty
    rw [empty, List.append_nil] at htext
    rw [htext, encode_cut ⟨rest, hrest⟩] at hlt
    exact absurd hlt (Nat.lt_irrefl _)
  rw [congrArg List.length htext, List.length_append]
  exact Nat.lt_add_of_pos_right (List.length_pos_iff.mpr hne)

/-- Over a limit that is a number, the text is cut after the last character that fits. -/
theorem truncateUtf8_over {text : Str} {limit : Rat} (hlimit : 0 ≤ limit)
    (hover : limit < (Utf8.encode text).length) :
    ∃ kept, CutAt text kept ∧ truncateUtf8 text (.finite limit) = kept.flatten ∧
      (bytesOf kept : Rat) ≤ limit ∧
      ∀ longer, CutAt text longer → (bytesOf longer : Rat) ≤ limit → longer <+: kept := by
  have hcut : ¬ atMost (Utf8.encode text).length (.finite limit) = true :=
    atMost_finite.not.mpr (not_le_of_gt hover)
  obtain ⟨kept, rest, hchars, heq, hfits, hnext⟩ :=
    truncateLoop_finite limit (characters text) 0 (by simpa using hlimit)
  rw [Nat.zero_add] at hfits
  refine ⟨kept, ⟨rest, hchars.symm⟩, by rw [truncateUtf8, if_neg hcut, heq], hfits, ?_⟩
  intro longer hlonger hbytes
  have hkept : kept <+: characters text := ⟨rest, hchars.symm⟩
  rcases List.prefix_or_prefix_of_prefix hlonger hkept with shorter | ⟨more, rfl⟩
  · exact shorter
  · cases more with
    | nil => simp
    | cons next more =>
      -- the next character did not fit
      have hrest : rest.head? = some next := by
        obtain ⟨behind, hbehind⟩ := hlonger
        rw [hchars, List.append_assoc] at hbehind
        rw [← List.append_cancel_left hbehind]
        rfl
      have hlt := hnext next hrest
      have hmono : bytesOf (kept ++ [next]) ≤ bytesOf (kept ++ next :: more) := by
        simp [bytesOf_append]
      rw [Nat.zero_add] at hlt
      have hle : ((bytesOf (kept ++ [next]) : Nat) : Rat) ≤ bytesOf (kept ++ next :: more) := by
        exact_mod_cast hmono
      exact absurd (lt_of_lt_of_le hlt (hle.trans hbytes)) (lt_irrefl _)

/-- A text that a fetch gets and transforms. -/
def Fetched (world : World) (rawUrl : Str) (options : WebFetchOptions) (transformed : Str) : Prop :=
  ∃ url response bytes, world.parseWebUrl rawUrl = .ok url ∧ world.fetch url = .ok response ∧
    response.body = .ok bytes ∧
    transformFetchedText world.toLowerCase (decodeBody bytes) response.contentType
      (options.mode.getD .text) = .ok transformed

/-- The parts of the result that say how much of the text it returns. -/
theorem fetched_result {world : World} {rawUrl : Str} {options : WebFetchOptions}
    {transformed : Str} (h : Fetched world rawUrl options transformed) :
    ∃ result, fetchWebTextEffect world rawUrl options = .success result ∧
      result.text = truncateUtf8 transformed options.limit ∧
      result.truncated = exceeds (Utf8.encode transformed).length options.limit ∧
      result.outputBytes = minNumber (.finite (Utf8.encode transformed).length) options.limit := by
  obtain ⟨url, response, bytes, hurl, hfetch, hbody, htransform⟩ := h
  simp only [fetchWebTextEffect, hurl, hfetch, hbody, htransform]
  exact ⟨_, rfl, rfl, rfl, rfl⟩

/-- The result of the clamping is not a number, or a number of at least 1. -/
theorem limit_cases (options : WebFetchOptions) :
    options.limit = .nan ∨ ∃ limit : Rat, 1 ≤ limit ∧ options.limit = .finite limit := by
  unfold WebFetchOptions.limit
  cases options.maxBytes.getD (.finite 100000) with
  | nan => exact .inl rfl
  | infinite negative =>
    cases negative with
    | true => exact .inr ⟨1, le_rfl, rfl⟩
    | false => exact .inr ⟨max 1 1000000, le_max_left _ _, rfl⟩
  | finite value => exact .inr ⟨max 1 (min value 1000000), le_max_left _ _, rfl⟩

section
variable {transformed : Str} {limit : Rat} {result : WebFetchResult}
  (htext : result.text = truncateUtf8 transformed (.finite limit))
  (htruncated : result.truncated = exceeds (Utf8.encode transformed).length (.finite limit))
  (hbytes : result.outputBytes = minNumber (.finite (Utf8.encode transformed).length) (.finite limit))
include htext htruncated hbytes

theorem accounted_within (hwithin : ((Utf8.encode transformed).length : Rat) ≤ limit) :
    Accounted transformed (.finite limit) result := by
  have hall : result.text = transformed := by
    rw [htext, truncateUtf8, if_pos (atMost_finite.mpr hwithin)]
  refine ⟨⟨characters transformed, cut_all transformed, ?_⟩, ?_, ?_, ?_⟩
  · rw [hall, flatten_characters]
  · rw [hall]
    exact atMost_finite.mpr hwithin
  · rw [htruncated, hall]
    exact iff_of_false (exceeds_finite.not.mpr (not_lt_of_ge hwithin)) (Nat.lt_irrefl _)
  · rw [hbytes, hall]
    exact congrArg Number.finite (min_eq_left hwithin)

/-- Over the limit, only the count of the bytes may be wrong. -/
theorem accounted_over (hlimit : 0 ≤ limit) (hover : limit < (Utf8.encode transformed).length) :
    Accounted transformed (.finite limit) result ↔ Fits transformed (.finite limit) := by
  obtain ⟨kept, hcut, hkept, hle, hlast⟩ := truncateUtf8_over hlimit hover
  rw [hkept] at htext
  have hlength : (Utf8.encode result.text).length = bytesOf kept := by rw [htext, encode_cut hcut]
  have hcount : result.outputBytes = .finite limit :=
    hbytes.trans (congrArg Number.finite (min_eq_right hover.le))
  have hexact : Accounted transformed (.finite limit) result ↔ limit = bytesOf kept := by
    constructor
    · intro accounted
      have hsame := accounted.counted
      rw [hcount, hlength] at hsame
      exact Number.finite.inj hsame
    · intro hsame
      refine ⟨⟨kept, hcut, htext⟩, ?_, ?_, ?_⟩
      · rw [hlength]
        exact atMost_finite.mpr hle
      · rw [htruncated, htext]
        have hlt : ((bytesOf kept : Nat) : Rat) < (Utf8.encode transformed).length :=
          lt_of_le_of_lt hle hover
        exact iff_of_true (exceeds_finite.mpr hover) (length_lt_of_cut hcut (by exact_mod_cast hlt))
      · rw [hcount, hlength, hsame]
  rw [hexact]
  constructor
  · intro hsame
    exact .inr ⟨kept, hcut, congrArg Number.finite hsame⟩
  · rintro (hwithin | ⟨longer, hlonger, hsame⟩)
    · exact absurd (atMost_finite.mp hwithin) (not_le_of_gt hover)
    · -- a limit between two characters is used up
      have hlimit := Number.finite.inj hsame
      obtain ⟨more, rfl⟩ := hlast longer hlonger hlimit.ge
      rw [bytesOf_append] at hle
      rw [hlimit] at hle ⊢
      have hmore : bytesOf longer + bytesOf more ≤ bytesOf longer := by exact_mod_cast hle
      rw [bytesOf_append]
      exact congrArg Nat.cast (by omega)

end

/-- What a fetch says about how much of the text it returns is right exactly for a text within
the limit, and for a limit between two characters. -/
theorem fetch_accounted (world : World) (rawUrl : Str) (options : WebFetchOptions)
    (transformed : Str) (h : Fetched world rawUrl options transformed) :
    ∃ result, fetchWebTextEffect world rawUrl options = .success result ∧
      (Accounted transformed options.limit result ↔ Fits transformed options.limit) := by
  obtain ⟨result, heffect, htext, htruncated, hbytes⟩ := fetched_result h
  refine ⟨result, heffect, ?_⟩
  rcases limit_cases options with hnan | ⟨limit, hlimit, heq⟩
  · rw [hnan]
    refine iff_of_false (fun accounted => ?_) ?_
    · cases accounted.bounded
    · rintro (hwithin | ⟨kept, -, hkept⟩)
      · cases hwithin
      · cases hkept
  · rw [heq] at htext htruncated hbytes ⊢
    by_cases hover : limit < (Utf8.encode transformed).length
    · exact accounted_over htext htruncated hbytes (zero_le_one.trans hlimit) hover
    · have hwithin := le_of_not_gt hover
      exact iff_of_true (accounted_within htext htruncated hbytes hwithin)
        (.inl (atMost_finite.mpr hwithin))

/-- A server whose page is one letter of two bytes. -/
def twoBytes : World where
  newUrl rawUrl := .ok ⟨lit "https:", rawUrl⟩
  fetch url := .ok ⟨some (lit "text/plain"), 200, url.text, .ok (Utf8.encode [0xE9])⟩
  toLowerCase := id

theorem fetched_twoBytes (maxBytes : Option Number) :
    Fetched twoBytes (lit "https://example.com/") ⟨maxBytes, some .raw⟩ [0xE9] := by
  have hdecoded : decodeBody (Utf8.encode [0xE9]) = [0xE9] := by decide
  exact ⟨⟨lit "https:", lit "https://example.com/"⟩, _, Utf8.encode [0xE9], rfl, rfl, rfl,
    congrArg Except.ok hdecoded⟩

theorem fetch_accounted_twoBytes :
    Fetched twoBytes (lit "https://example.com/") ⟨some (.finite 2), some .raw⟩ [0xE9] ∧
      ∃ result, fetchWebTextEffect twoBytes (lit "https://example.com/")
          ⟨some (.finite 2), some .raw⟩ = .success result ∧
        (Accounted [0xE9] (.finite 2) result ↔ Fits [0xE9] (.finite 2)) :=
  ⟨fetched_twoBytes _, fetch_accounted twoBytes (lit "https://example.com/")
    ⟨some (.finite 2), some .raw⟩ [0xE9] (fetched_twoBytes _)⟩

/-- One byte of it may be returned: none is, and one is reported. -/
theorem unaccounted_twoBytes :
    Fetched twoBytes (lit "https://example.com/") ⟨some (.finite 1), some .raw⟩ [0xE9] ∧
      ∃ result, fetchWebTextEffect twoBytes (lit "https://example.com/")
          ⟨some (.finite 1), some .raw⟩ = .success result ∧
        result.text = [] ∧ result.outputBytes = .finite 1 ∧
        ¬ Accounted [0xE9] (.finite 1) result := by
  refine ⟨fetched_twoBytes _, _, rfl, ?_, ?_, ?_⟩
  · decide
  · decide
  · intro accounted
    exact absurd accounted.counted (by decide)

end PiEnv.WebContext
