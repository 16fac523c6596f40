import PiEnv.Lib.JsString

/-!
# Splitting what was joined

A text that was joined with a separator splits into the same parts again, as
long as behind each part the separator comes into sight no earlier than where
it was put.
-/

namespace Js

variable {sep part s : Str}

/-- Behind the part, the separator stands where it was put and not before. -/
def Whole (sep part : Str) : Prop :=
  ∀ front back : Str, part ++ sep = front ++ sep ++ back → back = []

theorem Whole.tail {u : UInt16} (h : Whole sep (u :: part)) : Whole sep part :=
  fun front back he => h (u :: front) back (by simp [he])

theorem Whole.not_prefix {u : UInt16} {rest : Str} (h : Whole sep (u :: part)) :
    ¬ sep <+: u :: (part ++ sep ++ rest) := by
  intro hp
  have hq : sep <+: u :: part ++ sep :=
    List.prefix_of_prefix_length_le hp ⟨rest, by simp⟩ (by simp; omega)
  obtain ⟨back, hb⟩ := hq
  obtain rfl := h [] back (by simpa using hb.symm)
  have hlen := congrArg List.length hb
  simp at hlen
  omega

theorem Whole.not_infix (hsep : sep ≠ []) (h : Whole sep part) : ¬ sep <:+: part := by
  rintro ⟨front, back, rfl⟩
  have hnil := h front (back ++ sep) (by simp)
  simp [hsep] at hnil

theorem splitAux_skip (sep acc : Str) (n : Nat) (s : Str) :
    splitAux sep n acc s = splitAux sep 0 acc (s.drop n) := by
  induction s generalizing n with
  | nil => cases n <;> simp [splitAux]
  | cons u rest ih =>
    cases n with
    | zero => rfl
    | succ n => simpa [splitAux] using ih n

theorem splitAux_whole (hsep : sep ≠ []) (h : Whole sep part) (acc rest : Str) :
    splitAux sep 0 acc (part ++ sep ++ rest) = (acc.reverse ++ part) :: split sep rest := by
  induction part generalizing acc with
  | nil =>
    obtain ⟨u, units, rfl⟩ := List.exists_cons_of_ne_nil hsep
    have hp : (u :: units).isPrefixOf (u :: (units ++ rest)) = true :=
      List.isPrefixOf_iff_prefix.mpr ⟨rest, rfl⟩
    have hcons : [] ++ (u :: units) ++ rest = u :: (units ++ rest) := rfl
    rw [hcons, splitAux, if_pos hp, splitAux_skip]
    simp [split]
  | cons u part ih =>
    have hne : ¬ sep <+: u :: (part ++ sep ++ rest) := h.not_prefix
    rw [← List.isPrefixOf_iff_prefix] at hne
    simp only [List.cons_append, splitAux, if_neg hne]
    simpa using ih h.tail (u :: acc)

theorem splitAux_last (h : ¬ sep <:+: s) (acc : Str) : splitAux sep 0 acc s = [acc.reverse ++ s] := by
  induction s generalizing acc with
  | nil => simp [splitAux]
  | cons u rest ih =>
    have hne : ¬ sep.isPrefixOf (u :: rest) = true := by
      rw [List.isPrefixOf_iff_prefix]
      exact fun hp => h hp.isInfix
    have hrest : ¬ sep <:+: rest := fun hi => h (hi.trans (List.suffix_cons u rest).isInfix)
    rw [splitAux, if_neg hne, ih hrest]
    simp

/-- The parts of a joined text. -/
theorem split_of_whole (hsep : sep ≠ []) {parts : List Str} (h : ∀ part ∈ parts, Whole sep part)
    (hp : parts ≠ []) : split sep (join sep parts) = parts := by
  induction parts with
  | nil => exact absurd rfl hp
  | cons part rest ih =>
    have hpart := h part List.mem_cons_self
    cases rest with
    | nil => simpa [split, join] using splitAux_last (hpart.not_infix hsep) []
    | cons next rest =>
      have hrest := ih (fun p hm => h p (List.mem_cons_of_mem _ hm)) (by simp)
      rw [join, List.intercalate_cons_cons, split, splitAux_whole hsep hpart, hrest]
      rfl

/-- Every separator in what is left to split starts behind what was read. -/
def Fresh (sep acc s : Str) : Prop :=
  ∀ front back : Str, acc.reverse ++ s = front ++ sep ++ back → acc.length ≤ front.length

theorem Fresh.step {acc rest : Str} {u : UInt16} (h : Fresh sep acc (u :: rest))
    (hp : ¬ sep <+: u :: rest) : Fresh sep (u :: acc) rest := by
  intro front back he
  have he' : acc.reverse ++ u :: rest = front ++ sep ++ back := by simpa using he
  refine Nat.succ_le_of_lt (Nat.lt_of_le_of_ne (h _ _ he') fun hlen => hp ?_)
  have hsame := (List.append_inj (he'.trans (List.append_assoc ..)) (by simpa using hlen)).2
  exact ⟨back, hsame.symm⟩

theorem Fresh.not_infix {acc : Str} (hsep : sep ≠ []) (h : Fresh sep acc s) :
    ¬ sep <:+: acc.reverse := by
  rintro ⟨front, back, he⟩
  have hle := h front (back ++ s) (by simp [← he])
  have hlen := congrArg List.length he
  have := List.length_pos_iff.mpr hsep
  simp at hlen
  omega

theorem not_infix_splitAux (hsep : sep ≠ []) {acc : Str} {n : Nat} (h : Fresh sep acc (s.drop n)) :
    ∀ part ∈ splitAux sep n acc s, ¬ sep <:+: part := by
  induction s generalizing acc n with
  | nil => cases n <;> simpa [splitAux] using h.not_infix hsep
  | cons u rest ih =>
    cases n with
    | succ n => exact ih h
    | zero =>
      rw [splitAux]
      split
      · intro part hpart
        rcases List.mem_cons.mp hpart with rfl | hpart
        · exact h.not_infix hsep
        · exact ih (fun _ _ _ => Nat.zero_le _) part hpart
      case isFalse hp =>
        rw [List.isPrefixOf_iff_prefix] at hp
        exact ih (h.step hp)

theorem not_infix_of_mem_split (hsep : sep ≠ []) (h : part ∈ split sep s) : ¬ sep <:+: part :=
  not_infix_splitAux hsep (fun _ _ _ => Nat.zero_le _) part h

-- -----
-- Lines under either line ending
-- -----

/-- Text without line breaks is read on into the line. -/
theorem splitLinesAux_append {s : Str} (h : s.all (fun u => u != 10 && u != 13) = true)
    (acc t : Str) : splitLinesAux acc (s ++ t) = splitLinesAux (s.reverse ++ acc) t := by
  induction s generalizing acc with
  | nil => rfl
  | cons u s ih =>
    simp only [List.all_cons, Bool.and_eq_true, bne_iff_ne] at h
    rw [List.cons_append, splitLinesAux, ih (by simpa using h.2)]
    · simp
    · exact fun _ he _ => h.1.2 he
    · exact h.1.1

/-- A line without the carriage return that belongs to its line feed. -/
def chomp (line : Str) : Str := if line.getLast? = some CR then line.dropLast else line

/-- Every line but the last was ended by a line feed. -/
def chompEnded : List Str → List Str
  | [] => []
  | [last] => [last]
  | line :: next :: rest => chomp line :: chompEnded (next :: rest)

theorem chomp_CR (line : Str) : chomp (line ++ [CR]) = line := by simp [chomp]

theorem chomp_of_ne {line : Str} (h : line.getLast? ≠ some CR) : chomp line = line := if_neg h

theorem chompEnded_cons {line : Str} {rest : List Str} (h : rest ≠ []) :
    chompEnded (line :: rest) = chomp line :: chompEnded rest := by
  cases rest with
  | nil => exact absurd rfl h
  | cons next rest => rfl

theorem chompEnded_append (xs : List Str) {ys : List Str} (h : ys ≠ []) :
    chompEnded (xs ++ ys) = xs.map chomp ++ chompEnded ys := by
  induction xs with
  | nil => rfl
  | cons x xs ih => rw [List.cons_append, chompEnded_cons (by simp [h]), ih]; rfl

theorem splitLinesAux_eq {acc : Str} (h : ∀ rest, s = LF :: rest → acc.head? ≠ some CR) :
    splitLinesAux acc s = chompEnded (splitAux [LF] 0 acc s) := by
  have hlf : ∀ rest, [LF].isPrefixOf (10 :: rest) = true := fun rest => by simp [LF]
  fun_induction splitLinesAux acc s with
  | case1 acc => rfl
  | case2 acc rest ih =>
    have hcr : ¬ [LF].isPrefixOf (13 :: 10 :: rest) = true := by simp [LF]
    rw [splitAux, if_neg hcr, splitAux, if_pos (hlf rest), List.length_singleton, Nat.sub_self,
      chompEnded_cons (splitAux_ne_nil _ _ _ _), ih (by simp), List.reverse_cons]
    exact congrArg (· :: _) (chomp_CR acc.reverse).symm
  | case3 acc rest ih =>
    have hend : acc.reverse.getLast? ≠ some CR := by
      rw [List.getLast?_reverse]
      exact h rest rfl
    rw [splitAux, if_pos (hlf rest), List.length_singleton, Nat.sub_self,
      chompEnded_cons (splitAux_ne_nil _ _ _ _), ih (by simp), chomp_of_ne hend]
  | case4 acc u rest hcrlf hne ih =>
    have hu : ¬ [LF].isPrefixOf (u :: rest) = true := by simpa [LF] using fun he => hne he.symm
    rw [splitAux, if_neg hu]
    refine ih fun rest' he hcr => ?_
    have hu' : u = 13 := by simpa [CR] using hcr
    exact hcrlf rest' hu' he

theorem splitLines_eq (s : Str) : splitLines s = chompEnded (split [LF] s) :=
  splitLinesAux_eq (by simp)

/-- The lines of a text that a line ending follows. -/
def endedLines (newline s : Str) : List Str := (split [LF] (s ++ newline.dropLast)).map chomp

theorem endedLines_ne_nil (newline s : Str) : endedLines newline s ≠ [] := by
  simp [endedLines, split_ne_nil]

theorem splitLines_append {newline : Str} (hn : newline = [LF] ∨ newline = [CR, LF]) (s t : Str) :
    splitLines (s ++ newline ++ t) = endedLines newline s ++ splitLines t := by
  have hs : s ++ newline ++ t = (s ++ newline.dropLast) ++ [LF] ++ t := by
    rcases hn with rfl | rfl <;> simp
  rw [hs, splitLines_eq, split_append, chompEnded_append _ (split_ne_nil _ _), splitLines_eq,
    endedLines]

/-- Behind a CRLF no carriage return of the text itself is lost. -/
theorem endedLines_CRLF (s : Str) : endedLines [CR, LF] s = splitLines s := by
  have hlast : ∀ acc, (splitAux [LF] 0 acc (s ++ [CR])).map chomp =
      chompEnded (splitAux [LF] 0 acc s) := by
    induction s with
    | nil =>
      intro acc
      simp [splitAux, LF, CR, List.isPrefixOf, chompEnded]
      exact chomp_CR acc.reverse
    | cons u rest ih =>
      intro acc
      rw [List.cons_append, splitAux, splitAux]
      by_cases hu : LF = u
      · simp only [hu, List.isPrefixOf, beq_self_eq_true, Bool.and_self, ↓reduceIte,
          List.length_singleton, Nat.sub_self, List.map_cons]
        rw [chompEnded_cons (splitAux_ne_nil _ _ _ _)]
        exact congrArg (_ :: ·) (hu ▸ ih [])
      · have hp : ∀ t, ¬ [LF].isPrefixOf (u :: t) = true := fun t => by simpa using hu
        rw [if_neg (hp _), if_neg (hp _)]
        exact ih (u :: acc)
  rw [splitLines_eq]
  exact hlast []

theorem endedLines_append {newline : Str} (hn : newline = [LF] ∨ newline = [CR, LF]) (s t : Str) :
    endedLines newline (s ++ newline ++ t) = endedLines newline s ++ endedLines newline t := by
  have hs : s ++ newline ++ t ++ newline.dropLast =
      (s ++ newline.dropLast) ++ [LF] ++ (t ++ newline.dropLast) := by
    rcases hn with rfl | rfl <;> simp
  rw [endedLines, hs, split_append, List.map_append, endedLines, endedLines]

/-- A line as it is read where this line ending follows it. -/
def seen (newline line : Str) : Str := if newline = [LF] then chomp line else line

theorem endedLines_of_not_mem {newline line : Str} (hn : newline = [LF] ∨ newline = [CR, LF])
    (h : LF ∉ line) : endedLines newline line = [seen newline line] := by
  have hsplit : split [LF] line = [line] := by
    rw [split_singleton, List.splitOn_eq_singleton h]
  rcases hn with rfl | rfl
  · simp [endedLines, seen, hsplit]
  · rw [endedLines_CRLF, splitLines_eq, hsplit]
    rfl

theorem endedLines_join {newline : Str} (hn : newline = [LF] ∨ newline = [CR, LF])
    {lines : List Str} (h : ∀ line ∈ lines, LF ∉ line) (hne : lines ≠ []) :
    endedLines newline (join newline lines) = lines.map (seen newline) := by
  induction lines with
  | nil => exact absurd rfl hne
  | cons line rest ih =>
    have hline := endedLines_of_not_mem hn (h line List.mem_cons_self)
    cases rest with
    | nil => simpa [join] using hline
    | cons next rest =>
      have hrest := ih (fun l hm => h l (List.mem_cons_of_mem _ hm)) (by simp)
      rw [join, List.intercalate_cons_cons, endedLines_append hn, hline]
      exact congrArg (_ :: ·) hrest

/-- A text that does not end in a carriage return has the same lines when a
line ending follows. -/
theorem endedLines_eq_splitLines {newline : Str} (hn : newline = [LF] ∨ newline = [CR, LF])
    (h : s.getLast? ≠ some CR) : endedLines newline s = splitLines s := by
  have hlast : ∀ acc, (acc.reverse ++ s).getLast? ≠ some CR →
      (splitAux [LF] 0 acc s).map chomp = chompEnded (splitAux [LF] 0 acc s) := by
    clear h
    induction s with
    | nil =>
      intro acc hacc
      simpa [splitAux, chompEnded] using chomp_of_ne (by simpa using hacc)
    | cons u rest ih =>
      intro acc hacc
      rw [splitAux]
      split
      · rw [List.length_singleton, Nat.sub_self, chompEnded_cons (splitAux_ne_nil _ _ _ _),
          List.map_cons, ih []]
        cases rest with
        | nil => simp
        | cons v rest => simpa using hacc
      · exact ih (u :: acc) (by simpa using hacc)
  rcases hn with rfl | rfl
  · rw [splitLines_eq]
    simpa [endedLines, split] using hlast [] (by simpa using h)
  · exact endedLines_CRLF s

end Js
