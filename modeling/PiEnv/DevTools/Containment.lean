import PiEnv.DevTools.CloseoutGuards
import PiEnv.DevTools.Handlers
import PiEnv.DevTools.WorkspaceDisk

/-!
# Three tests of containment

What the closeout, the project paths and the workspace edit make of the path
from a root to a child, against the segments of the two. The closeout removes a
worktree only where its own test says that the working directory is elsewhere.
-/

namespace PiEnv.DevTools.Closeout

open Js Posix Effects
open PiEnv.DevTools.Handlers (insideProject)

-- -----
-- From a root to a child
-- -----

/-- The first name below the root begins with two dots. -/
def DottedBelow (root child : List Str) : Prop :=
  ∃ first rest, child = root ++ first :: rest ∧ dotdot <+: first

section
variable {root child down : List Str}

theorem dottedBelow_append : DottedBelow root (root ++ down) ↔
    ∃ first rest, down = first :: rest ∧ dotdot <+: first := by
  simp only [DottedBelow, List.append_cancel_left_eq]

theorem DottedBelow.isPrefix (h : DottedBelow root child) : root <+: child := by
  obtain ⟨first, rest, rfl, -⟩ := h
  exact List.prefix_append ..

/-- A path starts with two dots where its first segment does. -/
theorem dotdot_prefix_join (h : ∀ part ∈ down, IsSegment part) :
    dotdot <+: join [slash] down ↔ ∃ first rest, down = first :: rest ∧ dotdot <+: first := by
  cases down with
  | nil => simp [join, dotdot, lit, units]
  | cons part rest =>
    have hpart := h part List.mem_cons_self
    rw [join_cons]
    generalize (if rest = [] then [] else slash :: join [slash] rest) = tail
    constructor
    · rintro ⟨after, hafter⟩
      refine ⟨part, rest, rfl, ?_⟩
      rcases part with _ | ⟨u, _ | ⟨v, more⟩⟩
      · exact absurd rfl hpart.ne_nil
      · have hu : (46 : UInt16) = u := (List.cons.inj hafter).1
        exact absurd (show [u] = dot by rw [← hu]; decide) hpart.ne_dot
      · obtain ⟨hu, htail⟩ := List.cons.inj hafter
        obtain ⟨hv, -⟩ := List.cons.inj htail
        exact ⟨more, by rw [← hu, ← hv]; rfl⟩
    · rintro ⟨first, others, hsame, hfirst⟩
      obtain ⟨rfl, -⟩ := List.cons.inj hsame
      exact hfirst.trans (List.prefix_append ..)

variable (cwd : Str)

theorem relative_below (hroot : ∀ part ∈ root, IsSegment part)
    (hdown : ∀ part ∈ down, IsSegment part) :
    relative cwd (ofSegments root) (ofSegments (root ++ down)) = join [slash] down := by
  have hchild : ∀ part ∈ root ++ down, IsSegment part := fun part hpart =>
    (List.mem_append.mp hpart).elim (hroot part) (hdown part)
  rw [relative_ofSegments cwd hroot hchild]
  rcases dropCommon_spec root (root ++ down) with ⟨rest, hd, hsame⟩ | ⟨_, _, _, _, hn⟩
  · rw [hd, List.append_cancel_left hsame]
    rfl
  · exact absurd (List.prefix_append ..) hn

theorem relative_outside (hroot : ∀ part ∈ root, IsSegment part)
    (hchild : ∀ part ∈ child, IsSegment part) (hn : ¬ root <+: child) :
    dotdot <+: relative cwd (ofSegments root) (ofSegments child) := by
  rw [relative_ofSegments cwd hroot hchild]
  rcases dropCommon_spec root child with ⟨rest, -, rfl⟩ | ⟨x, up, rest, hd, -⟩
  · exact absurd (List.prefix_append ..) hn
  · rw [hd]
    simp only [List.map_cons, List.cons_append, join_cons]
    exact List.prefix_append ..

theorem insideProject_iff (hroot : ∀ part ∈ root, IsSegment part)
    (hchild : ∀ part ∈ child, IsSegment part) :
    insideProject cwd (ofSegments root) (ofSegments child) = true ↔
      root <+: child ∧ ¬ DottedBelow root child := by
  have htest : insideProject cwd (ofSegments root) (ofSegments child) = true ↔
      ¬ dotdot <+: relative cwd (ofSegments root) (ofSegments child) := by
    rw [← List.isPrefixOf_iff_prefix, Bool.not_eq_true]
    simp [insideProject, dotdot]
  rw [htest]
  by_cases hprefix : root <+: child
  · obtain ⟨down, rfl⟩ := hprefix
    have hdown : ∀ part ∈ down, IsSegment part := fun part hpart =>
      hchild part (List.mem_append_right _ hpart)
    rw [relative_below cwd hroot hdown, dotdot_prefix_join hdown, dottedBelow_append]
    simp
  · simp [relative_outside cwd hroot hchild hprefix, hprefix]

/-- The test of the closeout, of two resolved paths. -/
def containsResolved (root candidate : Str) : Bool :=
  let path := relative cwd root candidate
  path == [] || (!(lit "..").isPrefixOf path && !isAbsolute path)

theorem containsResolved_iff (hroot : ∀ part ∈ root, IsSegment part)
    (hchild : ∀ part ∈ child, IsSegment part) :
    containsResolved cwd (ofSegments root) (ofSegments child) = true ↔
      root <+: child ∧ ¬ DottedBelow root child := by
  rw [← insideProject_iff cwd hroot hchild]
  by_cases hprefix : root <+: child
  · obtain ⟨down, rfl⟩ := hprefix
    have hdown : ∀ part ∈ down, IsSegment part := fun part hpart =>
      hchild part (List.mem_append_right _ hpart)
    simp only [containsResolved, insideProject, relative_below cwd hroot hdown]
    cases down with
    | nil => simp [join, lit, units]
    | cons part rest =>
      obtain ⟨⟨u, more, hu, hslash⟩, -⟩ := join_ends hdown (by simp)
      simp [hu, isAbsolute, hslash]
  · have hdots := relative_outside cwd hroot hchild hprefix
    have hne : relative cwd (ofSegments root) (ofSegments child) ≠ [] := by
      intro hnil
      rw [hnil] at hdots
      simp [dotdot, lit, units] at hdots
    have hpre := List.isPrefixOf_iff_prefix.mpr hdots
    simp only [dotdot] at hpre
    simp [containsResolved, insideProject, hpre, hne]

end

-- -----
-- The working directory of a closeout
-- -----

variable {platform : Platform} {guard : CommandHistory → Op → Prop}
  {h h' h'' earlier : CommandHistory} {cwd : Str}

theorem canonicalPath_asked {path : Str} (hguard : AllowsQuiet guard) :
    Guarded guard (canonicalPath platform path) (fun canonical h' => ∃ resolved,
      Answered [] h' (.realpath path) resolved ∧
        canonical = resolved.getD (resolve platform.processCwd path)) h :=
  (canonicalPath_guarded hguard).mono fun _ _ _ ⟨resolved, hanswered, hsame⟩ =>
    ⟨resolved, hanswered.sooner (List.nil_suffix ..), hsame⟩

/-- What the test said of two paths, as they were resolved. -/
def Tested (platform : Platform) (h : CommandHistory) (root candidate : Str) (contains : Bool) :
    Prop :=
  ∃ resolvedRoot resolvedCandidate, Answered [] h (.realpath root) resolvedRoot ∧
    Answered [] h (.realpath candidate) resolvedCandidate ∧
      contains = containsResolved platform.processCwd
        (resolvedRoot.getD (resolve platform.processCwd root))
        (resolvedCandidate.getD (resolve platform.processCwd candidate))

theorem Tested.later {root candidate : Str} {contains : Bool}
    (ht : Tested platform h root candidate contains) (hle : h <:+ h') :
    Tested platform h' root candidate contains :=
  let ⟨resolvedRoot, resolvedCandidate, hroot, hcandidate, hsame⟩ := ht
  ⟨resolvedRoot, resolvedCandidate, hroot.later hle, hcandidate.later hle, hsame⟩

theorem pathContains_tests {root candidate : Str} (hguard : AllowsQuiet guard) :
    Guarded guard (pathContains platform root candidate)
      (fun contains h' => Tested platform h' root candidate contains) h := by
  refine (canonicalPath_asked hguard).seq fun _ h₁ _ hroot => ?_
  obtain ⟨resolvedRoot, hroot, rfl⟩ := hroot
  refine (canonicalPath_asked hguard).seq fun _ h₂ hle₂ hcandidate => ?_
  obtain ⟨resolvedCandidate, hcandidate, rfl⟩ := hcandidate
  exact ⟨resolvedRoot, resolvedCandidate, hroot.later hle₂, hcandidate, rfl⟩

theorem verifyHeadWorktree_tests {worktrees : List WorktreeEntry} {pr : PullRequest}
    {head : WorktreeEntry} (hguard : AllowsQuiet guard) :
    Yields guard (verifyHeadWorktree platform cwd worktrees pr head)
      (fun _ h' => Tested platform h' head.path cwd false) h := by
  refine (whenSome_yields (P := fun _ _ => True) fun primary _ => ?_).bind fun _ h₁ _ _ => ?_
  · refine Yields.bindLift (samePath_guarded hguard) fun same _ _ _ => ?_
    exact ensure_yields.mono fun _ _ _ _ => trivial
  · refine Yields.bindLift (pathContains_tests hguard) fun contains h₂ _ htested => ?_
    refine ensure_yields.bind fun _ h₃ hle₃ hoff => ?_
    obtain ⟨-, hoff⟩ := hoff
    obtain rfl : contains = false := by simpa using hoff
    exact (verifyWorktree_yields hguard).mono fun _ _ hle₄ _ => htested.later (hle₃.trans hle₄)

theorem inspectCheckouts_tests {repoRoot : Str} {pr : PullRequest} (hguard : AllowsQuiet guard) :
    Yields guard (inspectCheckouts platform cwd repoRoot pr) (fun checkouts h' =>
      ∀ head, checkouts.head = some head → Tested platform h' head.path cwd false) h := by
  refine (gitText_yields (hguard _ _ (quiet_git (by decide)))).bind fun listing _ _ _ => ?_
  dsimp only
  split
  case h_1 => exact Yields.throws
  case h_2 base _ =>
    refine (whenSome_yields (P := fun head h' => Tested platform h' head.path cwd false)
      fun head _ => verifyHeadWorktree_tests hguard).bind fun _ h₂ _ htested => ?_
    refine (verifyWorktree_yields hguard).bind fun _ h₃ hle₃ _ => ?_
    refine (harmless_refExists _ _ hguard).bind fun localHeadExists h₄ hle₄ _ => ?_
    refine (whenTrue_yields (P := fun _ => localHeadExists = true) fun _ =>
      ensure_yields.mono fun _ _ _ hexists => hexists.2).bind fun _ h₅ hle₅ _ => ?_
    refine (whenTrue_yields (P := fun _ => True) fun _ =>
      (verifyLocalHead_yields hguard).mono fun _ _ _ _ => trivial).bind fun _ h₆ hle₆ _ => ?_
    exact Yields.ret fun head hhead =>
      (htested head hhead).later (((hle₃.trans hle₄).trans hle₅).trans hle₆)

/-- A worktree is removed only after the test said that the working directory
is not in it. -/
def GuardsCwd (platform : Platform) (cwd : Str) (earlier : CommandHistory) (o : Op) : Prop :=
  ∀ path dir timeout, o = .exec git (removeArgs path) dir timeout →
    Tested platform earlier path cwd false

theorem guardsCwd_quiet : AllowsQuiet (GuardsCwd platform cwd) := by
  rintro _ _ hquiet path dir timeout rfl
  exact absurd ⟨rfl, rfl⟩ hquiet

theorem closeoutWorkflow_tests {request : CloseoutRequest} :
    Yields (GuardsCwd platform cwd) (closeoutWorkflow platform cwd request)
      (fun _ _ => True) [] := by
  have hguard : AllowsQuiet (GuardsCwd platform cwd) := guardsCwd_quiet
  refine (resolvePullRequest_yields hguard).bind fun resolved _ _ _ => ?_
  refine verifyMerged_yields.bind fun _ _ _ _ => ?_
  refine (harmless_gitText (quiet_other (by decide)) _ _ hguard).bind fun _ _ _ _ => ?_
  refine (harmless_acquireCloseoutLock _ _ hguard).bind fun _ _ _ _ => ?_
  refine (inspectCheckouts_tests hguard).bind fun checkouts h₄ _ htested => ?_
  refine (fetchBase_yields hguard).bind fun _ h₅ hle₅ _ => ?_
  refine (verifyFetched_yields hguard).bind fun _ h₆ hle₆ _ => ?_
  refine (harmless_fastForward _ _ hguard).bind fun _ h₇ hle₇ _ => ?_
  refine (harmless_gitText (quiet_other (by decide)) _ _ hguard).bind fun _ h₈ hle₈ _ => ?_
  refine (removeCheckouts_yields (fun h₉ hle₉ head hhead => ?_)
    (fun _ _ _ => ?_)).bind fun _ _ _ _ => Yields.ret trivial
  · intro path dir timeout hsame
    obtain rfl : head.path = path := by
      have hargs : removeArgs head.path = removeArgs path := by injection hsame
      simpa [removeArgs] using hargs
    exact (htested head hhead).later ((((hle₅.trans hle₆).trans hle₇).trans hle₈).trans hle₉)
  · rintro path dir timeout ⟨⟩

/-- Every answer for the path is that it is the path of these segments. -/
def Resolves (platform : Platform) (h : CommandHistory) (path : Str) (parts : List Str) : Prop :=
  ∀ resolved : Option Str, ⟨.realpath path, resolved⟩ ∈ h →
    resolved.getD (resolve platform.processCwd path) = ofSegments parts

theorem Tested.contains_eq {path candidate : Str} {contains : Bool} {root child : List Str}
    (ht : Tested platform h path candidate contains) (hpath : Resolves platform h path root)
    (hcandidate : Resolves platform h candidate child) :
    contains = containsResolved platform.processCwd (ofSegments root) (ofSegments child) := by
  obtain ⟨resolvedRoot, resolvedCandidate, hroot, hchild, rfl⟩ := ht
  rw [hpath _ (Answered.mem hroot), hcandidate _ (Answered.mem hchild)]

-- -----
-- Where the tests agree
-- -----

/-- Every test of the two paths is that of their segments, and no closeout
removes the worktree at the root while its working directory is the child. -/
structure ContainmentAgrees (root child : List Str) : Prop where
  workspaceEdit : ∀ cwd, DevTools.pathContains cwd (ofSegments root) (ofSegments child) = true ↔
    root <+: child
  project : ∀ cwd, insideProject cwd (ofSegments root) (ofSegments child) = true ↔ root <+: child
  closeout : ∀ (platform : Platform) (path candidate : Str) (contains : Bool) (h : CommandHistory),
    Runs recording [] (pathContains platform path candidate) contains h →
      Resolves platform h path root → Resolves platform h candidate child →
        (contains = true ↔ root <+: child)
  refuses : ∀ (platform : Platform) (cwd : Str) (request : CloseoutRequest)
    (result : Except CloseoutError CloseoutResult) (h earlier : CommandHistory) (path dir : Str)
    (timeout : Nat), Runs recording [] (closeoutWorkflow platform cwd request).run result h →
      Issued [] h earlier (.exec git (removeArgs path) dir timeout) →
        Resolves platform earlier path root → Resolves platform earlier cwd child →
          ¬ root <+: child

/-- The tests agree on all paths but those whose first name below the root
begins with two dots. -/
theorem containmentAgrees_iff {root child : List Str} (hroot : ∀ part ∈ root, IsSegment part)
    (hchild : ∀ part ∈ child, IsSegment part) :
    ContainmentAgrees root child ↔ ¬ DottedBelow root child := by
  constructor
  · intro hagrees hdotted
    have hinside := (hagrees.project dot).mpr hdotted.isPrefix
    exact ((insideProject_iff dot hroot hchild).mp hinside).2 hdotted
  · intro hplain
    have hcloseout (cwd : Str) :
        containsResolved cwd (ofSegments root) (ofSegments child) = true ↔ root <+: child := by
      rw [containsResolved_iff cwd hroot hchild, and_iff_left hplain]
    constructor
    · exact fun cwd => pathContains_iff cwd hroot hchild
    · intro cwd
      rw [insideProject_iff cwd hroot hchild, and_iff_left hplain]
    · intro platform path candidate contains h hrun hpath hcandidate
      have hallows : AllowsQuiet fun _ _ => True := fun _ _ _ => trivial
      have htested := (pathContains_tests hallows).post hrun
      rw [htested.contains_eq hpath hcandidate, hcloseout]
    · intro platform cwd request result h earlier path dir timeout hrun hissued hpath hcwd hprefix
      have htested := closeoutWorkflow_tests.issued hrun hissued path dir timeout rfl
      have hfalse := htested.contains_eq hpath hcwd
      rw [(hcloseout platform.processCwd).mpr hprefix] at hfalse
      exact absurd hfalse nofun

theorem containmentAgrees_iff_src :
    ContainmentAgrees [lit "w"] [lit "w", lit "src"] ↔ ¬ DottedBelow [lit "w"] [lit "w", lit "src"] :=
  containmentAgrees_iff (by decide) (by decide)

/-- A repository with a worktree at `/w` for the branch `feature`. -/
def twoWorktrees : CommandHistory → (o : Op) → Res o
  | h, .exec command args cwd timeout =>
    if args = listArgs then printing (lit "worktree /repo\nbranch refs/heads/main\n\n" ++
      lit "worktree /w\nbranch refs/heads/feature\n")
    else if args = currentBranchArgs && cwd == lit "/w" then printing (lit "feature")
    else oneWorktree h (.exec command args cwd timeout)
  | h, o => oneWorktree h o

def dottedCwd : Str := lit "/w/..x"

def twoWorktreesRun : Except CloseoutError CloseoutResult × CommandHistory :=
  (closeoutWorkflow asciiPlatform dottedCwd firstPullRequest).run.answered twoWorktrees []

/-- A path is resolved to itself. -/
def unlinked (entry : (o : Op) × Res o) : Bool :=
  match entry with
  | ⟨.realpath path, resolved⟩ => resolved == some path
  | _ => true

def endsRemoving : CommandHistory → Bool
  | _ :: ⟨o, _⟩ :: earlier =>
    decide (o = .exec git (removeArgs (lit "/w")) (lit "/repo") 30000) && earlier.all unlinked
  | _ => false

theorem twoWorktreesRun_removes : ∃ result h earlier,
    Runs recording [] (closeoutWorkflow asciiPlatform dottedCwd firstPullRequest).run result h ∧
      Issued [] h earlier (.exec git (removeArgs (lit "/w")) (lit "/repo") 30000) ∧
        earlier.all unlinked = true := by
  have hrun : Runs recording [] (closeoutWorkflow asciiPlatform dottedCwd firstPullRequest).run
      twoWorktreesRun.1 twoWorktreesRun.2 := Prog.answered_runs ..
  have hlast : endsRemoving twoWorktreesRun.2 = true := by decide +kernel
  generalize twoWorktreesRun.1 = result at hrun
  generalize twoWorktreesRun.2 = h at hrun hlast
  rcases h with _ | ⟨last, _ | ⟨⟨o, r⟩, earlier⟩⟩
  · cases hlast
  · cases hlast
  · simp only [endsRemoving, Bool.and_eq_true, decide_eq_true_eq] at hlast
    obtain ⟨rfl, hunlinked⟩ := hlast
    exact ⟨result, _, earlier, hrun, ⟨List.nil_suffix .., r, List.suffix_cons ..⟩, hunlinked⟩

theorem resolves_unlinked {path : Str} {parts : List Str} (hall : h.all unlinked = true)
    (hpath : path = ofSegments parts) : Resolves platform h path parts := by
  intro resolved hmem
  have hself := List.all_eq_true.mp hall _ hmem
  simp only [unlinked, beq_iff_eq] at hself
  rw [hself]
  exact hpath

/-- The worktree at `/w` is removed from the directory `/w/..x` in it. -/
theorem dotted_directory_removed :
    ¬ ∀ root child : List Str, (∀ part ∈ root, IsSegment part) → (∀ part ∈ child, IsSegment part) →
      ContainmentAgrees root child := by
  intro hclaim
  obtain ⟨result, h, earlier, hrun, hissued, hunlinked⟩ := twoWorktreesRun_removes
  have hagrees := hclaim [lit "w"] [lit "w", lit "..x"] (by decide) (by decide)
  exact hagrees.refuses _ _ _ _ _ _ _ _ _ hrun hissued
    (resolves_unlinked hunlinked (by decide)) (resolves_unlinked hunlinked (by decide))
    (List.prefix_append [lit "w"] [lit "..x"])

end PiEnv.DevTools.Closeout
