import Mathlib.Data.List.Basic
import Mathlib.Data.List.Infix
import Mathlib.Data.List.Flatten
import Mathlib.Data.List.Nodup
import Mathlib.Data.List.Perm.Basic

/-!
# Texts with markers

Some words are markers, and no two places where markers stand in a text overlap.
Then a text is a list of tokens, its markers and what is between them, and where
a marker stands can be read from the tokens.
-/

namespace Markers

variable {α ι : Type}

/-- A word stands at a position of a text. -/
def OccursAt (word text : List α) (i : Nat) : Prop :=
  ∃ before after, text = before ++ word ++ after ∧ before.length = i

/-- A word stands at one position and at no other. -/
def OnlyAt (word text : List α) (i : Nat) : Prop := ∀ k, OccursAt word text k ↔ k = i

/-- A text without the word. -/
def Absent (word text : List α) : Prop := ∀ k, ¬ OccursAt word text k

abbrev Tokens (α ι : Type) := List (α ⊕ ι)

variable (code : ι → List α) (listed : ι → Prop)

/-- Two places where listed markers stand are the same place, or do not overlap. -/
structure Separate : Prop where
  ne_nil : ∀ i, listed i → code i ≠ []
  apart : ∀ i j, listed i → listed j → ∀ text k l, OccursAt (code i) text k →
    OccursAt (code j) text l →
    k + (code i).length ≤ l ∨ l + (code j).length ≤ k ∨ k = l ∧ i = j

def render (tokens : Tokens α ι) : List α := tokens.flatMap (Sum.elim ([·]) code)

def ofText (text : List α) : Tokens α ι := text.map .inl

def marks (tokens : Tokens α ι) : List ι := tokens.filterMap Sum.getRight?

/-- Markers stand where the tokens say, and nowhere else. -/
structure Tight (tokens : Tokens α ι) : Prop where
  known : ∀ i, .inr i ∈ tokens → listed i
  found : ∀ i, listed i → ∀ k, OccursAt (code i) (render code tokens) k →
    ∃ before after, tokens = before ++ .inr i :: after ∧ (render code before).length = k

-- -----
-- Positions
-- -----

theorem absent_iff {word text : List α} : Absent word text ↔ ¬ word <:+: text := by
  constructor
  · rintro h ⟨before, after, rfl⟩
    exact h before.length ⟨before, after, rfl, rfl⟩
  · rintro h k ⟨before, after, rfl, -⟩
    exact h ⟨before, after, rfl⟩

/-- A word that ends within the first of two texts stands in it. -/
theorem OccursAt.of_append_left {word text more : List α} {k : Nat}
    (h : OccursAt word (text ++ more) k) (hle : k + word.length ≤ text.length) :
    OccursAt word text k := by
  obtain ⟨before, after, heq, rfl⟩ := h
  rw [← List.length_append] at hle
  obtain ⟨behind, rfl⟩ := List.prefix_of_prefix_length_le ⟨after, heq.symm⟩
    (List.prefix_append text more) hle
  exact ⟨before, behind, rfl, rfl⟩

/-- A word that begins within the second of two texts stands in it. -/
theorem OccursAt.of_append_right {word text more : List α} {k : Nat}
    (h : OccursAt word (more ++ text) (more.length + k)) : OccursAt word text k := by
  obtain ⟨before, after, heq, hlength⟩ := h
  rw [List.append_assoc] at heq
  obtain ⟨between, rfl⟩ := List.prefix_of_prefix_length_le (List.prefix_append more text)
    ⟨word ++ after, heq.symm⟩ (by omega)
  rw [List.append_assoc] at heq
  refine ⟨between, after, ?_, ?_⟩
  · rw [List.append_cancel_left heq, List.append_assoc]
  · rw [List.length_append] at hlength
    omega

theorem OccursAt.append_left {word text : List α} {k : Nat} (more : List α)
    (h : OccursAt word text k) : OccursAt word (text ++ more) k := by
  obtain ⟨before, after, rfl, rfl⟩ := h
  exact ⟨before, after ++ more, by simp, rfl⟩

theorem OccursAt.append_right {word text : List α} {k : Nat} (more : List α)
    (h : OccursAt word text k) : OccursAt word (more ++ text) (more.length + k) := by
  obtain ⟨before, after, rfl, rfl⟩ := h
  exact ⟨more ++ before, after, by simp, by simp⟩

theorem OccursAt.le {word text : List α} {k : Nat} (h : OccursAt word text k) :
    k + word.length ≤ text.length := by
  obtain ⟨before, after, rfl, rfl⟩ := h
  simp

theorem OccursAt.getElem? {word text : List α} {k : Nat} (h : OccursAt word text k) {m : Nat}
    (hm : m < word.length) : text[k + m]? = word[m]? := by
  obtain ⟨before, after, rfl, rfl⟩ := h
  rw [List.append_assoc, List.getElem?_append_right (Nat.le_add_right _ _),
    Nat.add_sub_cancel_left, List.getElem?_append_left hm]

/-- An element of two lists is in the first or in the second. -/
theorem append_eq_cut {β : Type} {b : β} {xs ys before after : List β}
    (h : xs ++ ys = before ++ b :: after) :
    (∃ behind, xs = before ++ b :: behind ∧ after = behind ++ ys) ∨
      ∃ between, before = xs ++ between ∧ ys = between ++ b :: after := by
  rcases List.append_eq_append_iff.mp h with right | ⟨more, rfl, hmore⟩
  · exact .inr right
  · cases more with
    | nil => exact .inr ⟨[], by simp, hmore.symm⟩
    | cons c behind =>
      obtain ⟨rfl, rfl⟩ := List.cons.inj hmore
      exact .inl ⟨behind, rfl, rfl⟩

-- -----
-- Framed markers
-- -----

section
variable {first last : α} {word word' text : List α} {k l : Nat}

/-- A word between two elements that are not in it otherwise. -/
def Framed (first last : α) (word : List α) : Prop :=
  ∃ inner, word = first :: (inner ++ [last]) ∧ first ∉ inner ++ [last] ∧ last ∉ first :: inner

/-- Framed words that begin at different places do not overlap. -/
theorem Framed.apart (h : Framed first last word) (h' : Framed first last word')
    (hk : OccursAt word text k) (hl : OccursAt word' text l) (hlt : k < l) : k + word.length ≤ l := by
  obtain ⟨inner, rfl, hfirst, -⟩ := h
  obtain ⟨inner', rfl, -, -⟩ := h'
  by_contra hin
  obtain ⟨m, rfl⟩ := Nat.exists_eq_add_of_lt hlt
  have hthere := hl.getElem? (m := 0) (by simp)
  have hhere := hk.getElem? (m := m + 1) (by simp at hin ⊢; omega)
  rw [Nat.add_zero, Nat.add_assoc, hhere, List.getElem?_cons_succ] at hthere
  exact hfirst (List.mem_of_getElem? hthere)

/-- At one place stands one framed word. -/
theorem Framed.unique (h : Framed first last word) (h' : Framed first last word')
    (hk : OccursAt word text k) (hl : OccursAt word' text k) : word = word' := by
  obtain ⟨inner, rfl, -, hlast⟩ := h
  obtain ⟨inner', rfl, -, hlast'⟩ := h'
  obtain ⟨before, after, rfl, hbefore⟩ := hk
  obtain ⟨before', after', heq, hbefore'⟩ := hl
  rw [List.append_assoc, List.append_assoc] at heq
  obtain ⟨-, hrest⟩ := List.append_inj heq (hbefore.trans hbefore'.symm)
  have hcut : (first :: inner) ++ last :: after = (first :: inner') ++ last :: after' := by
    simpa using hrest
  rcases append_eq_cut hcut with ⟨behind, hmore, -⟩ | ⟨between, hsame, hmore⟩
  · rw [hmore] at hlast
    simp at hlast
  · cases between with
    | nil => simpa using hsame.symm
    | cons c between =>
      rw [hsame, ← (List.cons.inj hmore).1] at hlast'
      simp at hlast'

end

theorem separate_of_framed {first last : α}
    (hframed : ∀ i, listed i → Framed first last (code i))
    (hinj : ∀ i j, listed i → listed j → code i = code j → i = j) : Separate code listed := by
  refine ⟨fun i hi => ?_, fun i j hi hj text k l hk hl => ?_⟩
  · obtain ⟨inner, heq, -⟩ := hframed i hi
    rw [heq]
    exact List.cons_ne_nil _ _
  · rcases Nat.lt_trichotomy k l with lower | rfl | higher
    · exact .inl ((hframed i hi).apart (hframed j hj) hk hl lower)
    · exact .inr (.inr ⟨rfl, hinj i j hi hj ((hframed i hi).unique (hframed j hj) hk hl)⟩)
    · exact .inr (.inl ((hframed j hj).apart (hframed i hi) hl hk higher))

-- -----
-- Tokens
-- -----

@[simp] theorem render_nil : render code ([] : Tokens α ι) = [] := rfl

@[simp] theorem render_append (xs ys : Tokens α ι) :
    render code (xs ++ ys) = render code xs ++ render code ys := List.flatMap_append

@[simp] theorem render_mark (i : ι) (tokens : Tokens α ι) :
    render code (.inr i :: tokens) = code i ++ render code tokens := rfl

@[simp] theorem render_unit (a : α) (tokens : Tokens α ι) :
    render code (.inl a :: tokens) = a :: render code tokens := rfl

@[simp] theorem render_ofText (text : List α) : render code (ofText text) = text := by
  induction text with
  | nil => rfl
  | cons a text ih => exact congrArg (a :: ·) ih

theorem render_flatMap {β : Type} (xs : List β) (f : β → Tokens α ι) :
    render code (xs.flatMap f) = xs.flatMap fun x => render code (f x) := List.flatMap_assoc

@[simp] theorem mark_not_mem_ofText (i : ι) (text : List α) : .inr i ∉ (ofText text : Tokens α ι) := by
  simp [ofText]

@[simp] theorem marks_append (xs ys : Tokens α ι) : marks (xs ++ ys) = marks xs ++ marks ys :=
  List.filterMap_append

@[simp] theorem marks_mark (i : ι) (tokens : Tokens α ι) :
    marks (.inr i :: tokens) = i :: marks tokens := rfl

@[simp] theorem marks_ofText (text : List α) : marks (ofText text : Tokens α ι) = [] := by
  induction text with
  | nil => rfl
  | cons a text ih => exact ih

theorem mem_marks {i : ι} {tokens : Tokens α ι} : i ∈ marks tokens ↔ .inr i ∈ tokens := by
  simp [marks, Sum.getRight?_eq_some_iff]

variable {code listed}

-- -----
-- Tight lists
-- -----

section
variable {xs ys tokens : Tokens α ι}

theorem Tight.of_text {text : List α} (h : ∀ i, listed i → ¬ code i <:+: text) :
    Tight code listed (ofText text) := by
  refine ⟨fun i hi => absurd hi (mark_not_mem_ofText i text), fun i hi k hk => ?_⟩
  rw [render_ofText] at hk
  exact absurd hk (absent_iff.mpr (h i hi) k)

theorem Tight.nil (hs : Separate code listed) : Tight code listed [] :=
  Tight.of_text fun i hi hin => hs.ne_nil i hi (List.infix_nil.mp hin)

theorem Tight.left (hs : Separate code listed) (h : Tight code listed (xs ++ ys)) :
    Tight code listed xs := by
  refine ⟨fun i hi => h.known i (List.mem_append_left _ hi), fun i hi k hk => ?_⟩
  have hpos := List.length_pos_iff.mpr (hs.ne_nil i hi)
  have hle := hk.le
  obtain ⟨before, after, heq, hlength⟩ := h.found i hi k (by
    rw [render_append]
    exact hk.append_left _)
  rcases List.append_eq_append_iff.mp heq with ⟨more, hbefore, -⟩ | ⟨more, rfl, hmore⟩
  · rw [hbefore, render_append, List.length_append] at hlength
    omega
  · cases more with
    | nil =>
      rw [List.append_nil, hlength] at hle
      omega
    | cons token more =>
      obtain ⟨rfl, -⟩ := List.cons.inj hmore
      exact ⟨before, more, rfl, hlength⟩

theorem Tight.right (hs : Separate code listed) (h : Tight code listed (xs ++ ys)) :
    Tight code listed ys := by
  refine ⟨fun i hi => h.known i (List.mem_append_right _ hi), fun i hi k hk => ?_⟩
  have hpos := List.length_pos_iff.mpr (hs.ne_nil i hi)
  obtain ⟨before, after, heq, hlength⟩ := h.found i hi ((render code xs).length + k) (by
    rw [render_append]
    exact hk.append_right _)
  rcases List.append_eq_append_iff.mp heq with ⟨more, rfl, hmore⟩ | ⟨more, hbefore, hmore⟩
  · refine ⟨more, after, hmore, ?_⟩
    rw [render_append, List.length_append] at hlength
    omega
  · cases more with
    | nil =>
      rw [List.append_nil] at hbefore
      subst hbefore
      exact ⟨[], after, hmore.symm, (Nat.left_eq_add.mp hlength).symm⟩
    | cons token more =>
      obtain ⟨rfl, -⟩ := List.cons.inj hmore
      rw [hbefore, render_append, render_mark, List.length_append, List.length_append] at hlength
      omega

/-- A marker between two tight lists. -/
theorem Tight.mark (hs : Separate code listed) {i : ι} (hi : listed i) (hx : Tight code listed xs)
    (hy : Tight code listed ys) : Tight code listed (xs ++ .inr i :: ys) := by
  constructor
  · intro j hj
    rcases List.mem_append.mp hj with left | right
    · exact hx.known j left
    · rcases List.mem_cons.mp right with heq | right
      · cases heq
        exact hi
      · exact hy.known j right
  · intro j hj k hk
    rw [render_append, render_mark] at hk
    have hhere : OccursAt (code i) (render code xs ++ (code i ++ render code ys))
        (render code xs).length := ⟨_, render code ys, by simp, rfl⟩
    rcases hs.apart j i hj hi _ _ _ hk hhere with left | right | ⟨rfl, rfl⟩
    · obtain ⟨before, after, rfl, hlength⟩ := hx.found j hj k (hk.of_append_left left)
      exact ⟨before, after ++ .inr i :: ys, by simp, hlength⟩
    · obtain ⟨l, rfl⟩ := Nat.exists_eq_add_of_le right
      rw [← List.append_assoc, ← List.length_append] at hk
      obtain ⟨before, after, rfl, hlength⟩ := hy.found j hj l hk.of_append_right
      exact ⟨xs ++ .inr i :: before, after, by simp, by simp [hlength, Nat.add_assoc]⟩
    · exact ⟨xs, ys, rfl, rfl⟩

/-- What no marker ends with may stand at the end. -/
theorem Tight.append_ofText (hs : Separate code listed) {text : List α}
    (h : Tight code listed tokens)
    (hlast : ∀ i, listed i → ∀ a ∈ text, (code i).getLast? ≠ some a) :
    Tight code listed (tokens ++ ofText text) := by
  refine ⟨fun i hi => ?_, fun i hi k hk => ?_⟩
  · rcases List.mem_append.mp hi with left | right
    · exact h.known i left
    · exact absurd right (mark_not_mem_ofText i text)
  · rw [render_append, render_ofText] at hk
    have hwithin : k + (code i).length ≤ (render code tokens).length := by
      by_contra hover
      obtain ⟨before, after, heq, rfl⟩ := hk
      rcases List.append_eq_append_iff.mp heq.symm with ⟨more, hmore, -⟩ | ⟨more, hmore, rfl⟩
      · apply hover
        rw [hmore, List.length_append, List.length_append]
        omega
      · -- the marker ends with a unit of the text
        have hne : more ≠ [] := by
          rintro rfl
          rw [List.append_nil] at hmore
          exact hover (by rw [← hmore, List.length_append])
        have hlength := congrArg List.getLast? hmore
        rw [List.getLast?_append_of_ne_nil _ (hs.ne_nil i hi), List.getLast?_append_of_ne_nil _ hne,
          List.getLast?_eq_some_getLast hne] at hlength
        exact hlast i hi _ (List.mem_append_left _ (List.getLast_mem hne)) hlength
    obtain ⟨before, after, rfl, hlength⟩ := h.found i hi k (hk.of_append_left hwithin)
    exact ⟨before, after ++ ofText text, by simp, hlength⟩

/-- Every text has tokens. -/
theorem exists_tight (hs : Separate code listed) (text : List α) :
    ∃ tokens, Tight code listed tokens ∧ render code tokens = text := by
  induction h : text.length using Nat.strongRecOn generalizing text with
  | ind n ih =>
    by_cases hmark : ∃ i, listed i ∧ code i <:+: text
    · obtain ⟨i, hi, before, after, rfl⟩ := hmark
      have hpos := List.length_pos_iff.mpr (hs.ne_nil i hi)
      simp only [List.length_append] at h
      obtain ⟨xs, hx, rfl⟩ := ih before.length (by omega) before rfl
      obtain ⟨ys, hy, rfl⟩ := ih after.length (by omega) after rfl
      exact ⟨xs ++ .inr i :: ys, hx.mark hs hi hy, by simp⟩
    · have hnone : ∀ i, listed i → ¬ code i <:+: text := by
        intro i hi hin
        exact hmark ⟨i, hi, hin⟩
      exact ⟨ofText text, Tight.of_text hnone, render_ofText code text⟩

theorem Tight.occursAt_iff (h : Tight code listed tokens) {i : ι} (hi : listed i) (k : Nat) :
    OccursAt (code i) (render code tokens) k ↔
      ∃ before after, tokens = before ++ .inr i :: after ∧ (render code before).length = k := by
  refine ⟨h.found i hi k, ?_⟩
  rintro ⟨before, after, rfl, rfl⟩
  exact ⟨render code before, render code after, by simp, rfl⟩

theorem Tight.absent_iff (h : Tight code listed tokens) {i : ι} (hi : listed i) :
    Absent (code i) (render code tokens) ↔ .inr i ∉ tokens := by
  constructor
  · intro habsent hmem
    obtain ⟨before, after, rfl⟩ := List.append_of_mem hmem
    exact habsent _ ((h.occursAt_iff hi _).mpr ⟨before, after, rfl, rfl⟩)
  · intro hmem k hk
    obtain ⟨before, after, rfl, -⟩ := h.found i hi k hk
    exact hmem (by simp)

/-- The one place where a list has an element. -/
theorem split_unique {β : Type} {b : β} {before after before' after' : List β}
    (h : before ++ b :: after = before' ++ b :: after') (hb : b ∉ before) (ha : b ∉ after) :
    before' = before ∧ after' = after := by
  rcases List.append_eq_append_iff.mp h with ⟨more, rfl, hmore⟩ | ⟨more, rfl, hmore⟩
  · cases more with
    | nil => exact ⟨by simp, (List.cons.inj hmore).2.symm⟩
    | cons c more =>
      obtain ⟨rfl, rfl⟩ := List.cons.inj hmore
      exact absurd (by simp) ha
  · cases more with
    | nil => exact ⟨by simp, (List.cons.inj hmore).2⟩
    | cons c more =>
      obtain ⟨rfl, -⟩ := List.cons.inj hmore
      exact absurd (by simp) hb

theorem Tight.onlyAt_iff (hs : Separate code listed) (h : Tight code listed tokens) {i : ι}
    (hi : listed i) (k : Nat) :
    OnlyAt (code i) (render code tokens) k ↔
      ∃ before after, tokens = before ++ .inr i :: after ∧ .inr i ∉ before ∧ .inr i ∉ after ∧
        (render code before).length = k := by
  have hpos := List.length_pos_iff.mpr (hs.ne_nil i hi)
  constructor
  · intro honly
    obtain ⟨before, after, rfl, rfl⟩ := h.found i hi k ((honly k).mpr rfl)
    refine ⟨before, after, rfl, ?_, ?_, rfl⟩
    · intro hmem
      obtain ⟨xs, ys, rfl⟩ := List.append_of_mem hmem
      have hsame := (honly _).mp ((h.occursAt_iff hi _).mpr ⟨xs, ys ++ .inr i :: after, by simp, rfl⟩)
      rw [render_append, render_mark, List.length_append, List.length_append] at hsame
      omega
    · intro hmem
      obtain ⟨xs, ys, rfl⟩ := List.append_of_mem hmem
      have hsame := (honly _).mp ((h.occursAt_iff hi _).mpr ⟨before ++ .inr i :: xs, ys, by simp, rfl⟩)
      rw [render_append, render_mark, List.length_append, List.length_append] at hsame
      omega
  · rintro ⟨before, after, rfl, hb, ha, rfl⟩ l
    rw [h.occursAt_iff hi]
    constructor
    · rintro ⟨xs, ys, heq, rfl⟩
      rw [(split_unique heq hb ha).1]
    · rintro rfl
      exact ⟨before, after, rfl, rfl⟩

end

-- -----
-- The markers of a text
-- -----

section
variable [DecidableEq α] {known : List ι} {tokens : Tokens α ι}

/-- The known markers that a text begins with. -/
def startingAt (code : ι → List α) (known : List ι) (text : List α) : List ι :=
  known.filter fun i => (code i).isPrefixOf text

/-- The known markers of a text, in the order in which they stand in it. -/
def marksOf (code : ι → List α) (known : List ι) (text : List α) : List ι :=
  text.tails.flatMap (startingAt code known)

theorem marksOf_cons (a : α) (text : List α) :
    marksOf code known (a :: text) = startingAt code known (a :: text) ++ marksOf code known text := by
  rw [marksOf, List.tails_cons, List.flatMap_cons]
  rfl

theorem startingAt_eq_nil {text : List α} (h : ∀ i ∈ known, ¬ OccursAt (code i) text 0) :
    startingAt code known text = [] := by
  refine List.filter_eq_nil_iff.mpr fun i hi hprefix => h i hi ?_
  obtain ⟨after, rfl⟩ := List.isPrefixOf_iff_prefix.mp hprefix
  exact ⟨[], after, rfl, rfl⟩

theorem startingAt_code (hs : Separate code (· ∈ known)) (hknown : known.Nodup) {i : ι}
    (hi : i ∈ known) (text : List α) : startingAt code known (code i ++ text) = [i] := by
  have hhere : OccursAt (code i) (code i ++ text) 0 := ⟨[], text, rfl, rfl⟩
  have honly : ∀ j, j ∈ startingAt code known (code i ++ text) ↔ j ∈ [i] := by
    intro j
    rw [startingAt, List.mem_filter, List.isPrefixOf_iff_prefix, List.mem_singleton]
    constructor
    · rintro ⟨hj, after, heq⟩
      have hi' := List.length_pos_iff.mpr (hs.ne_nil i hi)
      have hj' := List.length_pos_iff.mpr (hs.ne_nil j hj)
      rcases hs.apart j i hj hi _ 0 0 ⟨[], after, heq.symm, rfl⟩ hhere with left | right | ⟨-, rfl⟩
      · omega
      · omega
      · rfl
    · rintro rfl
      exact ⟨hi, List.prefix_append _ _⟩
  refine List.perm_singleton.mp ((List.perm_ext_iff_of_nodup ?_ (List.nodup_singleton i)).mpr honly)
  exact hknown.filter _

/-- Nothing begins within a marker. -/
theorem marksOf_within (hs : Separate code (· ∈ known)) {i : ι} (hi : i ∈ known) (text : List α)
    (first rest : List α) (hcode : code i = first ++ rest) (hfirst : first ≠ []) :
    marksOf code known (rest ++ text) = marksOf code known text := by
  induction rest generalizing first with
  | nil => rfl
  | cons a rest ih =>
    have hnone : startingAt code known (a :: (rest ++ text)) = [] := by
      refine startingAt_eq_nil fun j hj hat => ?_
      have hpos := List.length_pos_iff.mpr hfirst
      have hj' := List.length_pos_iff.mpr (hs.ne_nil j hj)
      have hlength := congrArg List.length hcode
      rw [List.length_append, List.length_cons] at hlength
      have hthere := hat.append_right first
      have hhere : OccursAt (code i) (first ++ a :: (rest ++ text)) 0 :=
        ⟨[], text, by simp [hcode], rfl⟩
      rcases hs.apart j i hj hi _ _ _ hthere hhere with left | right | ⟨same, -⟩ <;> omega
    rw [List.cons_append, marksOf_cons, hnone, ih (first ++ [a]) (by simp [hcode]) (by simp)]
    rfl

theorem marksOf_mark (hs : Separate code (· ∈ known)) (hknown : known.Nodup) {i : ι}
    (hi : i ∈ known) (text : List α) :
    marksOf code known (code i ++ text) = i :: marksOf code known text := by
  obtain ⟨a, rest, hcode⟩ := List.exists_cons_of_ne_nil (hs.ne_nil i hi)
  have hstart := startingAt_code hs hknown hi text
  rw [hcode, List.cons_append] at hstart ⊢
  rw [marksOf_cons, hstart, marksOf_within hs hi text [a] rest hcode (by simp)]
  rfl

/-- The markers of a text are those of its tokens. -/
theorem marksOf_render (hs : Separate code (· ∈ known)) (hknown : known.Nodup)
    (h : Tight code (· ∈ known) tokens) : marksOf code known (render code tokens) = marks tokens := by
  induction tokens with
  | nil =>
    rw [render_nil, marksOf, List.tails, List.flatMap_singleton]
    refine startingAt_eq_nil fun i hi hat => hs.ne_nil i hi ?_
    exact List.length_eq_zero_iff.mp (by simpa using hat.le)
  | cons token rest ih =>
    have hright : Tight code (· ∈ known) ([token] ++ rest) := h
    have hrest := ih (hright.right hs)
    cases token with
    | inl a =>
      rw [render_unit, marksOf_cons, hrest, startingAt_eq_nil]
      · rfl
      · intro i hi hat
        obtain ⟨before, after, heq, hlength⟩ := h.found i hi 0 hat
        cases before with
        | nil => cases heq
        | cons token before =>
          obtain ⟨rfl, -⟩ := List.cons.inj heq
          cases hlength
    | inr i =>
      have hi := h.known i List.mem_cons_self
      rw [render_mark, marksOf_mark hs hknown hi, hrest, marks_mark]

end

end Markers
