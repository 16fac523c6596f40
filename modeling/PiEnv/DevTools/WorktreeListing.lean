import PiEnv.DevTools.Worktrees
import PiEnv.Lib.GitText

/-!
# The listing of worktrees

What git lists of worktrees, and what is read of it: one entry for each of them in
their order. An entry is detached where it has no branch, so one that is bare or
whose HEAD cannot be read is listed as detached too.
-/

namespace PiEnv.DevTools

open Js

-- -----
-- What git lists
-- -----

/-- A worktree as git knows it. Its HEAD is a ref, detached, or cannot be read; a
lock and a reason to prune it are there with a text, which may be empty. -/
structure GitWorktree where
  path : Str
  isBare : Bool
  head : Str
  isDetached : Bool
  headRef : Option Str
  lockReason : Option Str
  pruneReason : Option Str
  path_ne : path ≠ []
  path_line : LF ∉ path
  head_line : LF ∉ head
  ref_line : ∀ ref, headRef = some ref → LF ∉ ref
  ref_named : ∀ ref, headRef = some ref → ref ≠ [] ∧ ref ≠ headsPrefix
  prune_line : ∀ reason, pruneReason = some reason → LF ∉ reason

/-- A word and what follows it. -/
def keyed (key value : Str) : Str := if value = [] then key else key ++ space :: value

variable (quotePath : Bool)

def lockLine (reason : Str) : Str := keyed (lit "locked") (Git.quote quotePath reason)

def pruneLine (reason : Str) : Str := keyed (lit "prunable") reason

def GitWorktree.headLines (worktree : GitWorktree) : List Str :=
  if worktree.isBare then [lit "bare"]
  else
    (lit "HEAD" ++ space :: worktree.head) ::
      if worktree.isDetached then [lit "detached"]
      else worktree.headRef.toList.map fun ref => lit "branch" ++ space :: ref

/-- `show_worktree_porcelain` -/
def GitWorktree.lines (worktree : GitWorktree) : List Str :=
  (lit "worktree" ++ space :: worktree.path) ::
    (worktree.headLines ++ worktree.lockReason.toList.map (lockLine quotePath) ++
      worktree.pruneReason.toList.map pruneLine ++ [[]])

def porcelain (worktrees : List GitWorktree) : Str :=
  Lines.ended LF (worktrees.flatMap (·.lines quotePath))

/-- The branch that is checked out, by its short name. -/
def GitWorktree.branch (worktree : GitWorktree) : Option Str :=
  if worktree.isBare || worktree.isDetached then none
  else worktree.headRef.map fun ref =>
    if headsPrefix.isPrefixOf ref then ref.drop headsPrefix.length else ref

def GitWorktree.entry (worktree : GitWorktree) : WorktreeEntry where
  path := worktree.path
  head := if worktree.isBare then none else some worktree.head
  branch := worktree.branch
  detached := !worktree.isBare && worktree.isDetached

/-- It is on a branch, or its HEAD is detached. -/
def GitWorktree.checkedOut (worktree : GitWorktree) : Bool :=
  !worktree.isBare && (worktree.isDetached || worktree.headRef.isSome)

-- -----
-- Lines
-- -----

variable {quotePath} {entries : List WorktreeEntry} {current : Option PartialEntry}

theorem trim_ne_nil {s : Str} {u : UInt16} (hu : u ∈ s) (h : isSpace u = false) : trim s ≠ [] := by
  intro hnil
  rw [trim_eq_nil hnil u hu] at h
  cases h

theorem split_keyed (key : Str) (hkey : space ∉ key) (value : Str) :
    split [space] (key ++ space :: value) = key :: split [space] value := by
  have h : split [space] (key ++ [space] ++ value) = key :: split [space] value := split_cons hkey
  rwa [List.append_assoc, List.singleton_append] at h

theorem line_blank : porcelainLine (entries, current) [] = (pushEntry entries current, none) := rfl

theorem line_worktree (path : Str) :
    porcelainLine (entries, current) (lit "worktree" ++ space :: path) =
      (pushEntry entries current, some ⟨path, none, none⟩) := by
  have hword : trim (lit "worktree" ++ space :: path) ≠ [] :=
    trim_ne_nil (u := 119) (List.mem_append_left _ (by decide)) rfl
  have hfields := split_keyed (lit "worktree") (by decide) path
  simp only [porcelainLine, if_neg hword, hfields, List.headD_cons, List.tail_cons,
    join_split (List.cons_ne_nil space []) path, if_true]

theorem line_head (head : Str) :
    porcelainLine (entries, current) (lit "HEAD" ++ space :: head) =
      (entries, current.map ({ · with head := some head })) := by
  have hword : trim (lit "HEAD" ++ space :: head) ≠ [] :=
    trim_ne_nil (u := 72) (List.mem_append_left _ (by decide)) rfl
  have hfields := split_keyed (lit "HEAD") (by decide) head
  simp only [porcelainLine, if_neg hword, hfields, List.headD_cons, List.tail_cons,
    join_split (List.cons_ne_nil space []) head]
  rfl

theorem line_branch (ref : Str) :
    porcelainLine (entries, current) (lit "branch" ++ space :: ref) =
      (entries, current.map fun current => { current with
        branch := some (if headsPrefix.isPrefixOf ref then ref.drop headsPrefix.length else ref) }) := by
  have hword : trim (lit "branch" ++ space :: ref) ≠ [] :=
    trim_ne_nil (u := 98) (List.mem_append_left _ (by decide)) rfl
  have hfields := split_keyed (lit "branch") (by decide) ref
  simp only [porcelainLine, if_neg hword, hfields, List.headD_cons, List.tail_cons,
    join_split (List.cons_ne_nil space []) ref]
  rfl

/-- Other words are passed by, whatever follows them. -/
theorem line_other (key : Str) (hword : key.any isSpace = false) (hne : key ≠ [])
    (hkey : key ∉ [lit "worktree", lit "HEAD", lit "branch"]) (value : Str) :
    porcelainLine (entries, current) (keyed key value) = (entries, current) := by
  have hspace (u : UInt16) (hu : u ∈ key) : isSpace u = false :=
    Bool.not_eq_true _ ▸ List.any_eq_false.mp hword u hu
  obtain ⟨u, hu⟩ := List.exists_mem_of_ne_nil key hne
  have hout : space ∉ key := by
    intro h
    cases hspace space h
  have hword : trim (keyed key value) ≠ [] := by
    refine trim_ne_nil (u := u) ?_ (hspace u hu)
    unfold keyed
    split
    · exact hu
    · exact List.mem_append_left _ hu
  have hfields : (split [space] (keyed key value)).headD [] = key := by
    unfold keyed
    split
    · rw [split_of_not_mem hout]
      rfl
    · rw [split_keyed key hout]
      rfl
  simp only [List.mem_cons, List.not_mem_nil, or_false, not_or] at hkey
  simp only [porcelainLine, if_neg hword, hfields, if_neg hkey.1, if_neg hkey.2.1, if_neg hkey.2.2]

-- -----
-- Worktrees
-- -----

/-- The entry that is read: it is detached where it has no branch. -/
def GitWorktree.listed (worktree : GitWorktree) : WorktreeEntry :=
  { worktree.entry with detached := !worktree.branch.isSome }

variable {worktree : GitWorktree} {worktrees : List GitWorktree}

theorem foldl_other {lines : List Str} {state : List WorktreeEntry × Option PartialEntry}
    (h : ∀ line ∈ lines, porcelainLine state line = state) : lines.foldl porcelainLine state = state := by
  induction lines with
  | nil => rfl
  | cons line lines ih =>
    rw [List.foldl_cons, h line List.mem_cons_self]
    exact ih fun line hline => h line (List.mem_cons_of_mem _ hline)

theorem foldl_reasons (worktree : GitWorktree) (state : List WorktreeEntry × Option PartialEntry) :
    (worktree.lockReason.toList.map (lockLine quotePath) ++
      worktree.pruneReason.toList.map pruneLine).foldl porcelainLine state = state := by
  refine foldl_other fun line hline => ?_
  rcases List.mem_append.mp hline with hlock | hprune
  · obtain ⟨reason, -, rfl⟩ := List.mem_map.mp hlock
    exact line_other _ (by decide) (by decide) (by decide) _
  · obtain ⟨reason, -, rfl⟩ := List.mem_map.mp hprune
    exact line_other _ (by decide) (by decide) (by decide) _

theorem foldl_headLines (worktree : GitWorktree) :
    worktree.headLines.foldl porcelainLine (entries, some ⟨worktree.path, none, none⟩) =
      (entries, some ⟨worktree.path, worktree.entry.head, worktree.branch⟩) := by
  unfold GitWorktree.headLines GitWorktree.entry GitWorktree.branch
  cases worktree.isBare with
  | true => exact line_other (lit "bare") (by decide) (by decide) (by decide) []
  | false =>
    simp only [Bool.false_eq_true, if_false, List.foldl_cons, line_head, Bool.false_or]
    cases worktree.isDetached with
    | true => exact line_other (lit "detached") (by decide) (by decide) (by decide) []
    | false =>
      cases worktree.headRef with
      | none => rfl
      | some ref =>
        simp only [Bool.false_eq_true, if_false, Option.toList_some, List.map_cons, List.map_nil,
          List.foldl_cons, List.foldl_nil, line_branch]
        rfl

theorem named_branch (worktree : GitWorktree) : named worktree.branch = worktree.branch.isSome := by
  unfold GitWorktree.branch
  cases h : worktree.headRef with
  | none => split <;> rfl
  | some ref =>
    split
    · rfl
    · obtain ⟨hne, hheads⟩ := worktree.ref_named ref h
      refine decide_eq_true ?_
      simp only
      split
      · rename_i hstart
        obtain ⟨name, rfl⟩ := List.isPrefixOf_iff_prefix.mp hstart
        rw [List.drop_left]
        rintro rfl
        exact hheads (List.append_nil _)
      · exact hne

theorem foldl_lines (worktree : GitWorktree) :
    (worktree.lines quotePath).foldl porcelainLine (entries, none) =
      (entries ++ [worktree.listed], none) := by
  rw [GitWorktree.lines, List.foldl_cons, line_worktree, List.append_assoc, List.append_assoc,
    List.foldl_append, foldl_headLines, ← List.append_assoc, List.foldl_append, foldl_reasons,
    List.foldl_cons, line_blank, List.foldl_nil]
  rw [pushEntry, if_neg worktree.path_ne, named_branch]
  rfl

theorem foldl_listing (worktrees : List GitWorktree) (entries : List WorktreeEntry) :
    (worktrees.flatMap (·.lines quotePath)).foldl porcelainLine (entries, none) =
      (entries ++ worktrees.map (·.listed), none) := by
  induction worktrees generalizing entries with
  | nil => simp
  | cons worktree rest ih =>
    rw [List.flatMap_cons, List.foldl_append, foldl_lines, ih, List.map_cons, List.append_assoc]
    rfl

-- -----
-- The listing
-- -----

theorem LF_not_mem_word {key value : Str} (hkey : LF ∉ key) (hvalue : LF ∉ value) :
    LF ∉ key ++ space :: value := by
  refine List.not_mem_append hkey fun h => ?_
  rcases List.mem_cons.mp h with h | h
  · cases h
  · exact hvalue h

theorem LF_not_mem_keyed {key value : Str} (hkey : LF ∉ key) (hvalue : LF ∉ value) :
    LF ∉ keyed key value := by
  unfold keyed
  split
  · exact hkey
  · exact LF_not_mem_word hkey hvalue

theorem LF_not_mem_headLines {line : Str} (h : line ∈ worktree.headLines) : LF ∉ line := by
  unfold GitWorktree.headLines at h
  split at h
  · rw [List.mem_singleton.mp h]
    decide
  rcases List.mem_cons.mp h with rfl | h
  · exact LF_not_mem_word (by decide) worktree.head_line
  split at h
  · rw [List.mem_singleton.mp h]
    decide
  · obtain ⟨ref, href, rfl⟩ := List.mem_map.mp h
    have hline := worktree.ref_line ref (Option.mem_toList.mp href)
    exact LF_not_mem_word (by decide) hline

theorem LF_not_mem_lines {line : Str} (h : line ∈ worktree.lines quotePath) : LF ∉ line := by
  rcases List.mem_cons.mp h with rfl | h
  · exact LF_not_mem_word (by decide) worktree.path_line
  rcases List.mem_append.mp h with h | hblank
  · rcases List.mem_append.mp h with h | hprune
    · rcases List.mem_append.mp h with hhead | hlock
      · exact LF_not_mem_headLines hhead
      · obtain ⟨reason, -, rfl⟩ := List.mem_map.mp hlock
        exact LF_not_mem_keyed (by decide) (Git.LF_not_mem_quote reason)
    · obtain ⟨reason, hreason, rfl⟩ := List.mem_map.mp hprune
      exact LF_not_mem_keyed (by decide) (worktree.prune_line reason (Option.mem_toList.mp hreason))
  · rw [List.mem_singleton.mp hblank]
    exact List.not_mem_nil

/-- A line feed at the end changes nothing. -/
theorem parse_append_LF (stdout : Str) :
    parseWorktreePorcelain (stdout ++ [LF]) = parseWorktreePorcelain stdout := by
  have hsplit : split [LF] (stdout ++ [LF]) = split [LF] stdout ++ [[]] := by
    have h := split_append (c := LF) stdout []
    rwa [List.append_nil] at h
  rw [parseWorktreePorcelain, hsplit, List.foldl_append, parseWorktreePorcelain]
  rfl

theorem parse_append_blanks (stdout : Str) (n : Nat) :
    parseWorktreePorcelain (stdout ++ List.replicate n LF) = parseWorktreePorcelain stdout := by
  induction n with
  | zero => rw [List.replicate_zero, List.append_nil]
  | succ n ih => rw [List.replicate_succ', ← List.append_assoc, parse_append_LF, ih]

theorem parse_porcelain (worktrees : List GitWorktree) :
    parseWorktreePorcelain (porcelain quotePath worktrees) = worktrees.map (·.listed) := by
  have hlines (line : Str) (h : line ∈ worktrees.flatMap (·.lines quotePath)) : LF ∉ line := by
    obtain ⟨worktree, -, hline⟩ := List.mem_flatMap.mp h
    exact LF_not_mem_lines hline
  rw [parseWorktreePorcelain, porcelain, Git.split_ended hlines, List.foldl_append, foldl_listing]
  rfl

theorem listed_iff (worktree : GitWorktree) :
    worktree.listed = worktree.entry ↔ worktree.checkedOut = true := by
  have hdetached : worktree.listed = worktree.entry ↔
      (!worktree.branch.isSome) = (!worktree.isBare && worktree.isDetached) :=
    ⟨congrArg WorktreeEntry.detached, fun h => congrArg
      (fun detached => { worktree.entry with detached }) h⟩
  rw [hdetached, GitWorktree.branch, GitWorktree.checkedOut]
  cases worktree.isBare <;> cases worktree.isDetached <;> cases worktree.headRef <;> simp

/-- The listing is read as it is exactly where every worktree is on a branch or has a
detached HEAD. -/
theorem porcelain_read (quotePath : Bool) (worktrees : List GitWorktree) {stdout : Str} (n : Nat)
    (h : stdout ++ List.replicate n LF = porcelain quotePath worktrees) :
    parseWorktreePorcelain stdout = worktrees.map (·.entry) ↔
      ∀ worktree ∈ worktrees, worktree.checkedOut = true := by
  rw [← parse_append_blanks stdout n, h, parse_porcelain, List.map_inj_left]
  exact forall₂_congr fun worktree _ => listed_iff worktree

/-- The primary checkout is on a branch, and a locked one has a detached HEAD. -/
def twoCheckouts : List GitWorktree :=
  [⟨lit "/repo", false, lit "a1", false, some (lit "refs/heads/main"), none, none, by decide,
      by decide, by decide, by rintro _ ⟨⟩; decide, by rintro _ ⟨⟩; decide, nofun⟩,
    ⟨lit "/tmp/a b", false, lit "b2", true, none, some (lit "in use"), some [], by decide,
      by decide, by decide, nofun, nofun, by rintro _ ⟨⟩; decide⟩]

theorem porcelain_read_twoCheckouts :
    parseWorktreePorcelain (porcelain true twoCheckouts).dropLast =
      [⟨lit "/repo", some (lit "a1"), some (lit "main"), false⟩,
        ⟨lit "/tmp/a b", some (lit "b2"), none, true⟩] :=
  (porcelain_read true twoCheckouts 1 (by decide +kernel)).mpr (by decide)

def bareRepository : GitWorktree :=
  ⟨lit "/repo.git", true, [], false, some (lit "refs/heads/main"), none, none, by decide,
    by decide, List.not_mem_nil, by rintro _ ⟨⟩; decide, by rintro _ ⟨⟩; decide, nofun⟩

theorem bareRepository_detached :
    bareRepository.entry = ⟨lit "/repo.git", none, none, false⟩ ∧
      parseWorktreePorcelain (porcelain true [bareRepository]) =
        [⟨lit "/repo.git", none, none, true⟩] := by
  refine ⟨rfl, ?_⟩
  rw [parse_porcelain]
  rfl

end PiEnv.DevTools
