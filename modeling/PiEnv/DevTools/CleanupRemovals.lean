import PiEnv.DevTools.Cleanup

/-!
# What cleanup removes

Every removal that is issued for a plan is of a target of it, and the target is
read as removable in what git answered. It is proven removable exactly when no
failed command was read as an answer to that effect.
-/

namespace PiEnv.DevTools.Cleanup

open Js
open Effects

abbrev GitHistory := History Op Res

variable {h h' earlier : GitHistory} {processCwd cwd repoRoot baseRef branch : Str}
  {path : Option Str} {kind : CleanupTargetKind} {options : CleanupOptions} {plan : CleanupPlan}
  {target : CleanupTarget} {answers : Answers}

-- -----
-- Removals
-- -----

inductive Removal where
  | worktree (path : Str)
  | branch (mode : DeleteMode) (branch : Str)
deriving DecidableEq, Repr

def deleteFlag : DeleteMode → Str
  | .safe => lit "-d"
  | .force => lit "-D"

/-- `git worktree remove` and `git branch -d` or `-D`, wherever they run. -/
inductive Removes : Op → Removal → Prop where
  | worktree (cwd path : Str) (timeout : Option Nat) :
      Removes (.gitSync cwd (removeArgs path) timeout) (.worktree path)
  | branch (cwd : Str) (mode : DeleteMode) (branch : Str) (timeout : Option Nat) :
      Removes (.gitSync cwd (deleteArgs (deleteFlag mode) branch) timeout) (.branch mode branch)

def Quiet (o : Op) : Prop := ∀ removal, ¬ Removes o removal

theorem quiet_existsSync (path : Str) : Quiet (.existsSync path) := fun _ h => nomatch h

theorem quiet_gitSync {first second : Str} {rest : List Str} {timeout : Option Nat}
    (hquiet : (first ≠ lit "worktree" ∨ second ≠ lit "remove") ∧
      (first ≠ lit "branch" ∨ second ≠ lit "-d" ∧ second ≠ lit "-D")) :
    Quiet (.gitSync cwd (first :: second :: rest) timeout) := by
  intro removal hremoves
  cases hremoves with
  | worktree => exact hquiet.1.elim (· rfl) (· rfl)
  | branch _ mode =>
    cases mode with
    | safe => exact hquiet.2.elim (· rfl) (·.1 rfl)
    | force => exact hquiet.2.elim (· rfl) (·.2 rfl)

-- -----
-- Answers
-- -----

def Answers.merged (answers : Answers) : Bool := answers.branchMerged || answers.headMerged

/-- How the plan reads them: a failure is an empty or negative answer. -/
structure Answers.Read (answers : Answers) (force : Bool) : Prop where
  clean : answers.status.any isDirty = false
  evidence : answers.merged = true ∨ force = true ∧ answers.remoteGone = true

/-- Git answered where the reading needs an answer: the status of a worktree,
where a branch without one is checked out, and whether an unmerged branch is
still on the remote. -/
structure Answers.Settled (answers : Answers) (plan : CleanupPlan) (path : Option Str) : Prop where
  status : ∀ status, answers.status = some status → status.status = some 0
  elsewhere : path = none → plan.listing.status = some 0 ∧ plan.current.status = some 0
  remote : answers.merged = false → answers.remote.status = some 1

/-- The answers are those that git gave. -/
structure Answers.Asked (answers : Answers) (repoRoot baseRef branch : Str) (path : Option Str)
    (h : GitHistory) : Prop where
  status : ∀ worktree, path = some worktree →
    ∃ result, answers.status = some result ∧ ⟨.gitSync worktree statusArgs none, result⟩ ∈ h
  ancestor : ⟨.gitSync repoRoot (ancestorArgs (branchRef branch) baseRef) none, answers.branch⟩ ∈ h
  head : ∀ worktree, path = some worktree → ∃ result, answers.head = some result ∧
    ⟨.gitSync worktree (ancestorArgs (lit "HEAD") baseRef) none, result⟩ ∈ h
  absent : path = none → answers.status = none ∧ answers.head = none
  remote : ⟨.gitSync repoRoot (showRefArgs (remoteRef branch)) none, answers.remote⟩ ∈ h

theorem Answers.Asked.mono (hasked : answers.Asked repoRoot baseRef branch path h)
    (hle : h <:+ h') : answers.Asked repoRoot baseRef branch path h' where
  status := fun worktree hpath =>
    let ⟨result, hstatus, hmem⟩ := hasked.status worktree hpath
    ⟨result, hstatus, hle.subset hmem⟩
  ancestor := hle.subset hasked.ancestor
  head := fun worktree hpath =>
    let ⟨result, hhead, hmem⟩ := hasked.head worktree hpath
    ⟨result, hhead, hle.subset hmem⟩
  absent := hasked.absent
  remote := hle.subset hasked.remote

-- -----
-- Targets of a plan
-- -----

/-- The removals of a target. -/
def CleanupTarget.removals (target : CleanupTarget) (answers : Answers) : List Removal :=
  (target.path.map Removal.worktree).toList ++
    [.branch (if answers.merged then .safe else .force) target.branch]

/-- What is known of a target that was classified. -/
structure Checked (repoRoot baseRef : Str) (target : CleanupTarget) (answers : Answers)
    (h : GitHistory) : Prop where
  unprotected : isProtectedBranch target.branch = false
  clean : answers.status.any isDirty = false
  asked : answers.Asked repoRoot baseRef target.branch target.path h
  verdict : target = classified baseRef target.branch target.path target.kind answers

/-- A target that was not classified is skipped. -/
def Considered (repoRoot baseRef : Str) (target : CleanupTarget) (h : GitHistory) : Prop :=
  match target.answers with
  | some answers => Checked repoRoot baseRef target answers h
  | none => target.disposition = .skipped

theorem Considered.mono (hconsidered : Considered repoRoot baseRef target h) (hle : h <:+ h') :
    Considered repoRoot baseRef target h' := by
  unfold Considered at *
  split at hconsidered
  · exact ⟨hconsidered.unprotected, hconsidered.clean, hconsidered.asked.mono hle,
      hconsidered.verdict⟩
  · exact hconsidered

section
variable (baseRef branch path kind answers)

theorem classified_fields :
    (classified baseRef branch path kind answers).kind = kind ∧
      (classified baseRef branch path kind answers).branch = branch ∧
      (classified baseRef branch path kind answers).path = path ∧
      (classified baseRef branch path kind answers).answers = some answers := by
  unfold classified
  simp only
  split <;> exact ⟨rfl, rfl, rfl, rfl⟩

theorem classified_disposition :
    (classified baseRef branch path kind answers).disposition =
      if answers.merged then .safe else if answers.remoteGone then .needsForce else .skipped := by
  unfold classified Answers.merged mergeState
  cases answers.branchMerged <;> cases answers.headMerged <;> cases answers.remoteGone <;> rfl

end

theorem Considered.removable_iff (hconsidered : Considered repoRoot baseRef target h) :
    removable options target = true ↔
      ∃ answers, target.answers = some answers ∧ answers.Read options.force := by
  unfold Considered at hconsidered
  split at hconsidered
  case h_1 answers hanswers =>
    have hdisposition := classified_disposition baseRef target.branch target.path target.kind answers
    rw [← hconsidered.verdict] at hdisposition
    have hread : answers.Read options.force ↔
        (answers.merged = true ∨ options.force = true ∧ answers.remoteGone = true) :=
      ⟨(·.evidence), fun h => ⟨hconsidered.clean, h⟩⟩
    simp only [hanswers, Option.some.injEq, exists_eq_left', hread, removable, hdisposition]
    cases answers.merged <;> cases answers.remoteGone <;> simp
  case h_2 hanswers =>
    simp [removable, hconsidered, hanswers]

-- -----
-- Building a plan
-- -----

/-- A program that removes nothing. -/
abbrev Building {α : Type} (p : Git α) (Q : α → GitHistory → Prop) (h : GitHistory) : Prop :=
  Guarded (fun _ o => Quiet o) p Q h

theorem atWorktree_building {args : List Str} (hpath : path ≠ some [])
    (hquiet : ∀ worktree, Quiet (.gitSync worktree args none)) :
    Building (atWorktree path fun worktree => gitSync worktree args none)
      (fun result h' => (∀ worktree, path = some worktree →
        ∃ r, result = some r ∧ ⟨.gitSync worktree args none, r⟩ ∈ h') ∧
          (path = none → result = none)) h := by
  unfold atWorktree
  split
  case h_1 worktree =>
    rw [if_neg fun hnil : worktree = [] => hpath (congrArg some hnil)]
    refine Guarded.map (Guarded.call (hquiet worktree) fun r => ⟨fun worktree' hsome => ?_, nofun⟩)
    obtain rfl := Option.some.inj hsome
    exact ⟨r, rfl, List.mem_cons_self ..⟩
  case h_2 => exact ⟨nofun, fun _ => rfl⟩

theorem classifyTarget_building (hpath : path ≠ some []) :
    Building (classifyTarget repoRoot baseRef branch path kind)
      (fun target h' => Considered repoRoot baseRef target h' ∧ target.branch = branch ∧
        target.path = path ∧ target.kind = kind) h := by
  unfold classifyTarget
  split
  case isTrue => exact ⟨rfl, rfl, rfl, rfl⟩
  case isFalse hunprotected =>
    refine (atWorktree_building hpath fun _ => quiet_gitSync (by decide)).seq
      fun status h₁ _ hstatus => ?_
    split
    case isTrue => exact ⟨rfl, rfl, rfl, rfl⟩
    case isFalse hclean =>
      refine Guarded.bind (Guarded.call (quiet_gitSync (by decide)) fun branchAnswer => ?_)
      refine (atWorktree_building hpath fun _ => quiet_gitSync (by decide)).seq
        fun headAnswer h₂ hle₂ hhead => ?_
      refine Guarded.bind (Guarded.call (quiet_gitSync (by decide)) fun remoteAnswer => ?_)
      let answers : Answers := ⟨status, branchAnswer, headAnswer, remoteAnswer⟩
      obtain ⟨hkind, hbranch, hpath', hanswers⟩ :=
        classified_fields baseRef branch path kind answers
      refine ⟨?_, hbranch, hpath', hkind⟩
      unfold Considered
      rw [hanswers]
      refine ⟨?_, by simpa using hclean, ?_, ?_⟩
      · rw [hbranch]
        simpa using hunprotected
      · rw [hbranch, hpath']
        exact {
          status := fun worktree hsome =>
            let ⟨r, hr, hmem⟩ := hstatus.1 worktree hsome
            ⟨r, hr, List.mem_cons_of_mem _ (hle₂.subset (List.mem_cons_of_mem _ hmem))⟩
          ancestor := List.mem_cons_of_mem _ (hle₂.subset (List.mem_cons_self ..))
          head := fun worktree hsome =>
            let ⟨r, hr, hmem⟩ := hhead.1 worktree hsome
            ⟨r, hr, List.mem_cons_of_mem _ hmem⟩
          absent := fun hnone => ⟨hstatus.2 hnone, hhead.2 hnone⟩
          remote := List.mem_cons_self .. }
      · rw [hbranch, hpath', hkind]

/-- Where a target of a plan comes from. -/
structure Placed (processCwd repoRoot : Str) (worktrees : List WorktreeEntry)
    (currentBranch : Option Str) (target : CleanupTarget) : Prop where
  worktree : target.kind = .worktree → ∃ entry ∈ worktrees, target.path = some entry.path ∧
    samePath processCwd entry.path repoRoot = false ∧
      (target.answers ≠ none → entry.branch = some target.branch ∧ entry.detached = false)
  branch : target.kind = .branch → target.path = none ∧
    (∀ entry ∈ worktrees, entry.branch ≠ some target.branch) ∧ some target.branch ≠ currentBranch

theorem classifyWorktree_building {entry : WorktreeEntry} (hentry : entry.WellFormed) :
    Building (classifyWorktree repoRoot baseRef entry)
      (fun target h' => Considered repoRoot baseRef target h' ∧ target.kind = .worktree ∧
        target.path = some entry.path ∧
          (target.answers ≠ none → entry.branch = some target.branch ∧ entry.detached = false)) h := by
  unfold classifyWorktree
  split
  case h_1 branch hbranch =>
    split
    case isTrue => exact ⟨rfl, rfl, rfl, fun hanswers => absurd rfl hanswers⟩
    case isFalse hnamed =>
      have hpath : some entry.path ≠ some [] := fun hnil => hentry.1 (Option.some.inj hnil)
      refine (classifyTarget_building hpath).mono fun target h' _ htarget => ?_
      obtain ⟨hconsidered, rfl, hpath', hkind⟩ := htarget
      refine ⟨hconsidered, hkind, hpath', fun _ => ⟨hbranch, ?_⟩⟩
      rw [hentry.2, hbranch]
      simp [named, hnamed]
  case h_2 => exact ⟨rfl, rfl, rfl, fun hanswers => absurd rfl hanswers⟩

theorem classifyWorktrees_building (currentBranch : Option Str) {worktrees : List WorktreeEntry}
    (entries : List WorktreeEntry)
    (hentries : ∀ entry ∈ entries, entry.WellFormed ∧ entry ∈ worktrees) :
    Building (classifyWorktrees processCwd repoRoot baseRef entries)
      (fun targets h' => ∀ target ∈ targets, Considered repoRoot baseRef target h' ∧
        Placed processCwd repoRoot worktrees currentBranch target) h := by
  induction entries generalizing h with
  | nil => exact fun _ htarget => nomatch htarget
  | cons entry entries ih =>
    have hfirst := hentries entry (List.mem_cons_self ..)
    have hrest := fun other hother => hentries other (List.mem_cons_of_mem _ hother)
    by_cases hroot : samePath processCwd entry.path repoRoot = true
    case pos =>
      rw [classifyWorktrees, if_pos hroot]
      exact ih hrest
    case neg =>
      rw [classifyWorktrees, if_neg hroot]
      refine (classifyWorktree_building hfirst.1).seq fun target h₁ _ htarget => ?_
      obtain ⟨hconsidered, hkind, hpath, hbranch⟩ := htarget
      refine (ih hrest).seq fun targets h₂ hle htargets => ?_
      intro other hother
      rcases List.mem_cons.mp hother with rfl | hlater
      · refine ⟨hconsidered.mono hle, fun _ => ?_, fun hother => absurd (hkind.symm.trans hother) nofun⟩
        exact ⟨entry, hfirst.2, hpath, by simpa using hroot, hbranch⟩
      · exact htargets other hlater

theorem classifyBranches_building (processCwd : Str) {currentBranch : Option Str}
    {worktrees : List WorktreeEntry} (branches : List Str)
    (hbranches : ∀ branch ∈ branches, branch ≠ []) :
    Building (classifyBranches repoRoot baseRef
        ((worktrees.filterMap (·.branch)).filter (· ≠ [])) currentBranch branches)
      (fun targets h' => ∀ target ∈ targets, Considered repoRoot baseRef target h' ∧
        Placed processCwd repoRoot worktrees currentBranch target) h := by
  induction branches generalizing h with
  | nil => exact fun _ htarget => nomatch htarget
  | cons branch branches ih =>
    have hnamed := hbranches branch (List.mem_cons_self ..)
    have hothers := fun other hother => hbranches other (List.mem_cons_of_mem branch hother)
    unfold classifyBranches
    split
    case isTrue => exact ih hothers
    case isFalse hactive =>
      have hpath : (none : Option Str) ≠ some [] := nofun
      refine (classifyTarget_building hpath).seq fun target h₁ _ htarget => ?_
      obtain ⟨hconsidered, rfl, hpath, hkind⟩ := htarget
      refine (ih hothers).seq fun targets h₂ hle htargets => ?_
      have htarget : Considered repoRoot baseRef target h₂ ∧
          Placed processCwd repoRoot worktrees currentBranch target := by
        refine ⟨hconsidered.mono hle, fun hother => absurd (hkind.symm.trans hother) nofun, fun _ => ?_⟩
        refine ⟨hpath, fun entry hentry hbranch => ?_, fun hcurrent => hactive (.inr hcurrent)⟩
        refine hactive (.inl (List.mem_filter.mpr ⟨?_, by simpa using hnamed⟩))
        exact List.mem_filterMap.mpr ⟨entry, hentry, hbranch⟩
      show ∀ other ∈ (if target.disposition = .skipped ∧ target.reason = some protectedReason
        then targets else target :: targets), Considered repoRoot baseRef other h₂ ∧
          Placed processCwd repoRoot worktrees currentBranch other
      split
      · exact htargets
      · intro other hother
        rcases List.mem_cons.mp hother with rfl | hlater
        · exact htarget
        · exact htargets other hlater

def listingOp (repoRoot : Str) : Op :=
  .gitSync repoRoot [lit "worktree", lit "list", lit "--porcelain"] none

def currentOp (repoRoot : Str) : Op := .gitSync repoRoot [lit "branch", lit "--show-current"] none

def listed (plan : CleanupPlan) : List WorktreeEntry := parseWorktreePorcelain (output plan.listing)

/-- What is known of a plan. -/
structure PlanSound (processCwd : Str) (plan : CleanupPlan) (h : GitHistory) : Prop where
  considered : ∀ target ∈ plan.targets, Considered plan.repoRoot plan.baseRef target h
  placed : ∀ target ∈ plan.targets,
    Placed processCwd plan.repoRoot (listed plan) plan.currentBranch target
  listing : ⟨listingOp plan.repoRoot, plan.listing⟩ ∈ h
  current : ⟨currentOp plan.repoRoot, plan.current⟩ ∈ h
  currentBranch : plan.currentBranch =
    if output plan.current = [] then none else some (output plan.current)

theorem gitOutput_building {args : List Str} (hquiet : Quiet (.gitSync cwd args none)) :
    Building (gitOutput cwd args) (fun _ _ => True) h :=
  Guarded.map (Guarded.call hquiet fun _ => True.intro)

theorem buildCleanupPlan_building :
    Building (buildCleanupPlan processCwd cwd options).run
      (fun result h' => ∀ plan, result = .ok plan → PlanSound processCwd plan h') h := by
  unfold buildCleanupPlan
  have hroot : Building (resolveRepoRoot (options.repoPath.getD cwd)).run (fun _ _ => True) h := by
    unfold resolveRepoRoot
    refine (gitOutput_building (quiet_gitSync (by decide))).seqLift fun root _ _ _ => ?_
    split <;> exact True.intro
  refine hroot.seqExcept (fun repoRoot h₁ _ _ => ?_) (fun _ _ _ _ => by simp)
  refine Guarded.seqLift (P := fun _ _ => True) ?_ fun baseRef h₂ _ _ => ?_
  · split
    · exact True.intro
    · exact (gitOutput_building (quiet_gitSync (by decide))).seq fun _ _ _ _ => True.intro
  refine Guarded.seqLift (P := fun current h' => ⟨currentOp repoRoot, current⟩ ∈ h')
    (Guarded.call (quiet_gitSync (by decide)) fun current => List.mem_cons_self ..)
    fun current h₃ _ hcurrent => ?_
  have hfetch : Building (fetchWarnings repoRoot options) (fun _ _ => True) h₃ := by
    unfold fetchWarnings
    split
    · exact Guarded.bind (Guarded.call (quiet_gitSync (by decide)) fun _ => True.intro)
    · exact True.intro
  refine hfetch.seqLift fun warnings h₄ hle₄ _ => ?_
  refine Guarded.seqLift (P := fun listing h' => ⟨listingOp repoRoot, listing⟩ ∈ h')
    (Guarded.call (quiet_gitSync (by decide)) fun listing => List.mem_cons_self ..)
    fun listing h₅ hle₅ hlisting => ?_
  let currentBranch := if output current = [] then none else some (output current)
  refine (classifyWorktrees_building currentBranch _ fun entry hentry =>
    ⟨parseWorktreePorcelain_wellFormed _ entry hentry, hentry⟩).seqLift
    fun worktreeTargets h₆ hle₆ hworktrees => ?_
  have hlist : Building (listLocalBranches repoRoot)
      (fun branches _ => ∀ branch ∈ branches, branch ≠ []) h₆ := by
    refine (gitOutput_building (quiet_gitSync (by decide))).seq fun _ _ _ _ branch hbranch => ?_
    simpa using (List.mem_filter.mp hbranch).2
  refine hlist.seqLift fun branches h₇ hle₇ hnamed => ?_
  refine (classifyBranches_building processCwd branches hnamed).seqLift fun branchTargets h₈ hle₈ hbranches => ?_
  intro plan hplan
  cases hplan
  have hlater : h₆ <:+ h₈ := hle₇.trans hle₈
  have htargets : ∀ target ∈ worktreeTargets ++ branchTargets,
      Considered repoRoot baseRef target h₈ ∧ Placed processCwd repoRoot
        (parseWorktreePorcelain (output listing))
        (if output current = [] then none else some (output current)) target := by
    intro target htarget
    rcases List.mem_append.mp htarget with hworktree | hbranch
    · exact ⟨(hworktrees target hworktree).1.mono hlater, (hworktrees target hworktree).2⟩
    · exact hbranches target hbranch
  exact {
    considered := fun target htarget => (htargets target htarget).1
    placed := fun target htarget => (htargets target htarget).2
    listing := (hle₆.trans hlater).subset hlisting
    current := ((hle₄.trans hle₅).trans (hle₆.trans hlater)).subset hcurrent
    currentBranch := rfl }

-- -----
-- Applying a plan
-- -----

theorem Removes.worktree_inv {timeout : Option Nat} {worktree : Str} {removal : Removal}
    (h : Removes (.gitSync cwd (removeArgs worktree) timeout) removal) :
    removal = .worktree worktree := by
  generalize ho : Op.gitSync cwd (removeArgs worktree) timeout = o at h
  cases h with
  | worktree _ path =>
    obtain ⟨-, hargs, -⟩ := Op.gitSync.inj ho
    simp only [removeArgs, List.cons.injEq, true_and, and_true] at hargs
    rw [hargs]
  | branch =>
    obtain ⟨-, hargs, -⟩ := Op.gitSync.inj ho
    exact absurd (List.cons.inj hargs).1 (by decide)

theorem Removes.branch_inv {timeout : Option Nat} {mode : DeleteMode} {removal : Removal}
    (h : Removes (.gitSync cwd (deleteArgs (deleteFlag mode) branch) timeout) removal) :
    removal = .branch mode branch := by
  generalize ho : Op.gitSync cwd (deleteArgs (deleteFlag mode) branch) timeout = o at h
  cases h with
  | worktree =>
    obtain ⟨-, hargs, -⟩ := Op.gitSync.inj ho
    exact absurd (List.cons.inj hargs).1 (by decide)
  | branch _ mode' =>
    obtain ⟨-, hargs, -⟩ := Op.gitSync.inj ho
    simp only [deleteArgs, List.cons.injEq, true_and, and_true] at hargs
    obtain ⟨hflag, rfl⟩ := hargs
    cases mode <;> cases mode' <;> first | rfl | exact absurd hflag (by decide)

def modeOf : CleanupDisposition → DeleteMode
  | .safe => .safe
  | .needsForce | .skipped => .force

theorem deleteFlag_modeOf (disposition : CleanupDisposition) :
    deleteFlag (modeOf disposition) = deleteFlagForDisposition disposition := by
  cases disposition <;> rfl

/-- What the application issues for a target. -/
inductive IssuedFor (target : CleanupTarget) : Removal → Prop where
  | worktree (path : Str) (worktree : target.kind = .worktree) (at_path : target.path = some path)
      (named : path ≠ []) : IssuedFor target (.worktree path)
  | branch : IssuedFor target (.branch (modeOf target.disposition) target.branch)

/-- Only what is issued for some of the targets is removed. -/
abbrev Applying {α : Type} (targets : List CleanupTarget) (p : Git α) (h : GitHistory) : Prop :=
  Guarded (fun _ o => ∀ removal, Removes o removal → ∃ target ∈ targets, IssuedFor target removal) p
    (fun _ _ => True) h

theorem removeWorktrees_applying {all : List CleanupTarget} (targets : List CleanupTarget)
    (htargets : ∀ target ∈ targets, target ∈ all ∧ target.kind = .worktree) :
    Applying all (removeWorktrees repoRoot targets).run h := by
  induction targets generalizing h with
  | nil => exact True.intro
  | cons target targets ih =>
    obtain ⟨hall, hkind⟩ := htargets target (List.mem_cons_self ..)
    have hrest := fun other hother => htargets other (List.mem_cons_of_mem _ hother)
    unfold removeWorktrees
    split
    case h_1 => exact ih hrest
    case h_2 path hpath =>
      split
      case isTrue => exact ih hrest
      case isFalse hnamed =>
        refine Guarded.seqLift (P := fun _ _ => True) ?_ fun there h₁ _ _ => ?_
        · exact Guarded.call (fun removal hremoves => absurd hremoves (quiet_existsSync path removal))
            fun _ => True.intro
        split
        case isTrue =>
          refine Guarded.seqLift (P := fun _ _ => True) ?_ fun result h₂ _ _ => ?_
          · refine Guarded.call (fun removal hremoves => ?_) fun _ => True.intro
            obtain rfl := hremoves.worktree_inv
            exact ⟨target, hall, .worktree path hkind hpath hnamed⟩
          split
          case isTrue =>
            exact (ih hrest).seqExcept (fun _ _ _ _ => True.intro) (fun _ _ _ _ => True.intro)
          case isFalse => exact True.intro
        case isFalse => exact ih hrest

theorem deleteBranches_applying {all : List CleanupTarget} (deleted : List Str)
    (targets : List CleanupTarget) (htargets : ∀ target ∈ targets, target ∈ all) :
    Applying all (deleteBranches repoRoot deleted targets).run h := by
  induction targets generalizing deleted h with
  | nil => exact True.intro
  | cons target targets ih =>
    have hall := htargets target (List.mem_cons_self ..)
    have hrest := fun other hother => htargets other (List.mem_cons_of_mem _ hother)
    unfold deleteBranches
    split
    case isTrue => exact ih deleted hrest
    case isFalse =>
      refine Guarded.seqLift (P := fun _ _ => True) ?_ fun there h₁ _ _ => ?_
      · refine Guarded.map (Guarded.call (fun removal hremoves => ?_) fun _ => True.intro)
        exact absurd hremoves (quiet_gitSync (by decide) removal)
      split
      case isTrue =>
        refine Guarded.seqLift (P := fun _ _ => True) ?_ fun result h₂ _ _ => ?_
        · refine Guarded.call (fun removal hremoves => ?_) fun _ => True.intro
          rw [← deleteFlag_modeOf] at hremoves
          obtain rfl := hremoves.branch_inv
          exact ⟨target, hall, .branch⟩
        split
        case isTrue =>
          exact (ih _ hrest).seqExcept (fun _ _ _ _ => True.intro) (fun _ _ _ _ => True.intro)
        case isFalse => exact True.intro
      case isFalse => exact ih deleted hrest

theorem applyCleanupPlan_applying (happly : options.apply = true) :
    Applying (plan.targets.filter (removable options)) (applyCleanupPlan plan options).run h := by
  unfold applyCleanupPlan
  rw [if_pos happly]
  refine (removeWorktrees_applying _ fun target htarget => ?_).seqExcept
    (fun _ _ _ _ => ?_) (fun _ _ _ _ => True.intro)
  · obtain ⟨hmem, hkind⟩ := List.mem_filter.mp htarget
    exact ⟨hmem, by simpa using hkind⟩
  · exact (deleteBranches_applying [] _ fun _ htarget => htarget).seqExcept
      (fun _ _ _ _ => True.intro) (fun _ _ _ _ => True.intro)

-- -----
-- Every removal is issued in some run
-- -----

/-- A run in which the operation is issued. -/
def MayIssue (p : ExceptT Str Git (List Str)) (o : Op) (h : GitHistory) : Prop :=
  ∃ result h' earlier, Runs recording h p.run result h' ∧ Issued h h' earlier o

def killed : GitResult := ⟨none, [], []⟩

def anyAnswer (_ : GitHistory) : (o : Op) → Res o
  | .gitSync .. => killed
  | .existsSync _ => false

/-- Whatever is asked can be answered. -/
theorem runs_exists {α : Type} (p : Git α) (h : GitHistory) : ∃ a h', Runs recording h p a h' :=
  ⟨_, _, p.answered_runs anyAnswer h⟩

theorem existsSync_runs (worktree : Str) (there : Bool) :
    Runs recording h (call (Op.existsSync worktree) : Git Bool) there
      (⟨.existsSync worktree, there⟩ :: h) := .op rfl .ret

theorem localBranchExists_runs (h : GitHistory) (repoRoot branch : Str) (there : Bool) :
    ∃ h', h <:+ h' ∧ Runs recording h (localBranchExists repoRoot branch) there h' := by
  let op : Op := .gitSync repoRoot (showRefArgs (branchRef branch)) none
  cases there with
  | true =>
    let found : GitResult := ⟨some 0, [], []⟩
    exact ⟨⟨op, found⟩ :: h, List.suffix_cons .., .op (r := found) rfl .ret⟩
  | false => exact ⟨⟨op, killed⟩ :: h, List.suffix_cons .., .op (r := killed) rfl .ret⟩

/-- Worktrees that are not there are passed over. -/
theorem removeWorktrees_skips (repoRoot : Str) (targets rest : List CleanupTarget) (h : GitHistory) :
    ∃ h₁, h <:+ h₁ ∧ ∀ result h', Runs recording h₁ (removeWorktrees repoRoot rest).run result h' →
      Runs recording h (removeWorktrees repoRoot (targets ++ rest)).run result h' := by
  induction targets generalizing h with
  | nil => exact ⟨h, List.suffix_refl _, fun _ _ hrun => hrun⟩
  | cons target targets ih =>
    rw [List.cons_append, removeWorktrees.eq_2]
    split
    case h_1 => exact ih h
    case h_2 path hpath =>
      split
      case isTrue => exact ih h
      case isFalse =>
        obtain ⟨h₁, hle, hrest⟩ := ih (⟨.existsSync path, false⟩ :: h)
        refine ⟨h₁, (List.suffix_cons ..).trans hle, fun result h' hrun => ?_⟩
        exact .bindLift (existsSync_runs path false) (hrest result h' hrun)

theorem removeWorktrees_mayIssue {targets : List CleanupTarget} {path : Str}
    (htarget : target ∈ targets) (hpath : target.path = some path) (hnamed : path ≠ []) :
    MayIssue (removeWorktrees repoRoot targets) (.gitSync repoRoot (removeArgs path) (some 30000)) h := by
  obtain ⟨before, after, rfl⟩ := List.append_of_mem htarget
  obtain ⟨h₁, hle, hskip⟩ := removeWorktrees_skips repoRoot before (target :: after) h
  let h₂ : GitHistory := ⟨.existsSync path, true⟩ :: h₁
  let h₃ : GitHistory := ⟨.gitSync repoRoot (removeArgs path) (some 30000), killed⟩ :: h₂
  let error : Str := lit "failed to remove worktree " ++ path ++ lit ": " ++ complaint killed
  refine ⟨.error error, h₃, h₂, hskip _ _ ?_, hle.trans (List.suffix_cons ..), killed,
    List.suffix_refl _⟩
  rw [removeWorktrees.eq_2, hpath]
  simp only [if_neg hnamed]
  have hremove : Runs recording h₂ (gitSync repoRoot (removeArgs path) (some 30000)) killed h₃ :=
    .op rfl .ret
  exact .bindLift (existsSync_runs path true) (.bindLift hremove .ret)

theorem deleteBranches_skips (repoRoot : Str) (targets rest : List CleanupTarget) (h : GitHistory) :
    ∃ h₁, h <:+ h₁ ∧ ∀ result h',
      Runs recording h₁ (deleteBranches repoRoot [] rest).run result h' →
        Runs recording h (deleteBranches repoRoot [] (targets ++ rest)).run result h' := by
  induction targets generalizing h with
  | nil => exact ⟨h, List.suffix_refl _, fun _ _ hrun => hrun⟩
  | cons target targets ih =>
    rw [List.cons_append, deleteBranches.eq_2, if_neg List.not_mem_nil]
    obtain ⟨h₁, hle₁, hthere⟩ :=
      localBranchExists_runs h repoRoot target.branch false
    obtain ⟨h₂, hle₂, hrest⟩ := ih h₁
    exact ⟨h₂, hle₁.trans hle₂, fun result h' hrun => .bindLift hthere (hrest result h' hrun)⟩

theorem deleteBranches_mayIssue {targets : List CleanupTarget} (htarget : target ∈ targets) :
    MayIssue (deleteBranches repoRoot [] targets) (.gitSync repoRoot
      (deleteArgs (deleteFlag (modeOf target.disposition)) target.branch) (some 30000)) h := by
  obtain ⟨before, after, rfl⟩ := List.append_of_mem htarget
  obtain ⟨h₁, hle₁, hskip⟩ := deleteBranches_skips repoRoot before (target :: after) h
  obtain ⟨h₂, hle₂, hthere⟩ :=
    localBranchExists_runs h₁ repoRoot target.branch true
  let args := deleteArgs (deleteFlagForDisposition target.disposition) target.branch
  let h₃ : GitHistory := ⟨.gitSync repoRoot args (some 30000), killed⟩ :: h₂
  let error : Str := lit "failed to delete branch " ++ target.branch ++ lit ": " ++ complaint killed
  rw [deleteFlag_modeOf]
  refine ⟨.error error, h₃, h₂, hskip _ _ ?_, hle₁.trans hle₂, killed, List.suffix_refl _⟩
  rw [deleteBranches.eq_2, if_neg List.not_mem_nil]
  have hdelete : Runs recording h₂ (gitSync repoRoot args (some 30000)) killed h₃ := .op rfl .ret
  exact .bindLift hthere (.bindLift hdelete .ret)

/-- A run that ends in the first part is one of both. -/
theorem MayIssue.first {p : ExceptT Str Git (List Str)} {o : Op}
    {f : List Str → ExceptT Str Git (List Str)} (hp : MayIssue p o h) : MayIssue (p >>= f) o h := by
  obtain ⟨result, h', earlier, hrun, hwithin, r, hissued⟩ := hp
  cases result with
  | error e =>
    refine ⟨.error e, h', earlier, ?_, hwithin, r, hissued⟩
    rw [ExceptT.run_bind]
    exact hrun.bind .ret
  | ok a =>
    obtain ⟨result, h'', hrest⟩ := runs_exists (f a).run h'
    exact ⟨result, h'', earlier, .bindExcept hrun hrest, hwithin, r, hissued.trans hrest.grows⟩

theorem MayIssue.second {p : ExceptT Str Git (List Str)} {o : Op} {a : List Str} {h₁ : GitHistory}
    {f : List Str → ExceptT Str Git (List Str)} (hp : Runs recording h p.run (.ok a) h₁)
    (hf : MayIssue (f a) o h₁) : MayIssue (p >>= f) o h := by
  obtain ⟨result, h', earlier, hrun, hwithin, r, hissued⟩ := hf
  exact ⟨result, h', earlier, .bindExcept hp hrun, hp.grows.trans hwithin, r, hissued⟩

theorem applyCleanupPlan_mayIssue {removal : Removal} (happly : options.apply = true)
    (htarget : target ∈ plan.targets) (hremovable : removable options target = true)
    (hissued : IssuedFor target removal) :
    ∃ o, Removes o removal ∧ MayIssue (applyCleanupPlan plan options) o h := by
  have hmem : target ∈ plan.targets.filter (removable options) :=
    List.mem_filter.mpr ⟨htarget, hremovable⟩
  unfold applyCleanupPlan
  rw [if_pos happly]
  cases hissued with
  | worktree path hkind hpath hnamed =>
    refine ⟨_, .worktree plan.repoRoot path (some 30000), MayIssue.first ?_⟩
    refine removeWorktrees_mayIssue (List.mem_filter.mpr ⟨hmem, ?_⟩) hpath hnamed
    simpa using hkind
  | branch =>
    refine ⟨_, .branch plan.repoRoot (modeOf target.disposition) target.branch (some 30000), ?_⟩
    obtain ⟨h₁, hle, hskip⟩ := removeWorktrees_skips plan.repoRoot
      ((plan.targets.filter (removable options)).filter (·.kind = .worktree)) [] h
    rw [List.append_nil] at hskip
    exact MayIssue.second (hskip (.ok []) h₁ .ret) (MayIssue.first (deleteBranches_mayIssue hmem))

-- -----
-- What is proven
-- -----

/-- A removal is of a target that git's answers prove removable. -/
structure Justified (processCwd : Str) (options : CleanupOptions) (plan : CleanupPlan)
    (earlier : GitHistory) (removal : Removal) (target : CleanupTarget) (answers : Answers) :
    Prop where
  applied : options.apply = true
  planned : target ∈ plan.targets
  classified : target.answers = some answers
  removes : removal ∈ target.removals answers
  /-- What is read below are answers to the questions about this target. -/
  asked : answers.Asked plan.repoRoot plan.baseRef target.branch target.path earlier
  unprotected : isProtectedBranch target.branch = false
  /-- A worktree is listed on its branch, not the root, and its status is read as clean. -/
  worktree : ∀ path, target.path = some path →
    samePath processCwd path plan.repoRoot = false ∧
      ⟨listingOp plan.repoRoot, plan.listing⟩ ∈ earlier ∧
        (∃ entry ∈ listed plan, entry.path = path ∧ entry.branch = some target.branch ∧
          entry.detached = false) ∧
            ∃ status, answers.status = some status ∧ status.status = some 0 ∧ isDirty status = false
  /-- Without a worktree, the branch is checked out nowhere. -/
  elsewhere : target.path = none →
    (⟨listingOp plan.repoRoot, plan.listing⟩ ∈ earlier ∧ plan.listing.status = some 0 ∧
      ∀ entry ∈ listed plan, entry.branch ≠ some target.branch) ∧
    ⟨currentOp plan.repoRoot, plan.current⟩ ∈ earlier ∧ plan.current.status = some 0 ∧
      some target.branch ≠ plan.currentBranch
  evidence : answers.branch.status = some 0 ∨
    (∃ head, answers.head = some head ∧ head.status = some 0) ∨
      options.force = true ∧ answers.remote.status = some 1
  forced : ∀ branch, removal = .branch .force branch →
    options.force = true ∧ answers.remote.status = some 1

/-- Building a plan removes nothing, and applying it only what is proven. -/
structure RemovesProven (processCwd : Str) (options : CleanupOptions) (plan : CleanupPlan)
    (h : GitHistory) : Prop where
  building : ∀ earlier o, Issued [] h earlier o → Quiet o
  applying : ∀ result h' earlier o removal,
    Runs recording h (applyCleanupPlan plan options).run result h' → Issued h h' earlier o →
      Removes o removal → ∃ target answers, Justified processCwd options plan earlier removal target answers

/-- Whatever is read as removable, git answered where the reading needs it, for
this target or for another of the same removal. -/
def ReadingsSettled (options : CleanupOptions) (plan : CleanupPlan) : Prop :=
  ∀ target ∈ plan.targets, ∀ answers, target.answers = some answers → answers.Read options.force →
    ∀ removal ∈ target.removals answers, ∃ other ∈ plan.targets, ∃ answers', other.answers = some answers' ∧
      removal ∈ other.removals answers' ∧ answers'.Read options.force ∧ answers'.Settled plan other.path

theorem succeeded_iff {result : GitResult} : succeeded result = true ↔ result.status = some 0 := by
  simp [succeeded]

theorem Answers.merged_iff : answers.merged = true ↔ answers.branch.status = some 0 ∨
    ∃ head, answers.head = some head ∧ head.status = some 0 := by
  unfold Answers.merged Answers.headMerged Answers.branchMerged
  cases answers.head with
  | none => simp [succeeded_iff]
  | some head => simp [succeeded_iff]

theorem CleanupTarget.mem_removals {removal : Removal} : removal ∈ target.removals answers ↔
    (∃ path, target.path = some path ∧ removal = .worktree path) ∨
      removal = .branch (if answers.merged then .safe else .force) target.branch := by
  unfold CleanupTarget.removals
  cases target.path with
  | none => simp
  | some path => simp

theorem Considered.checked (hconsidered : Considered repoRoot baseRef target h)
    (hanswers : target.answers = some answers) : Checked repoRoot baseRef target answers h := by
  unfold Considered at hconsidered
  rwa [hanswers] at hconsidered

theorem Checked.mode (hchecked : Checked repoRoot baseRef target answers h) :
    modeOf target.disposition = if answers.merged then .safe else .force := by
  have hdisposition := classified_disposition baseRef target.branch target.path target.kind answers
  rw [← hchecked.verdict] at hdisposition
  rw [hdisposition]
  cases answers.merged <;> cases answers.remoteGone <;> rfl

/-- The application issues for a target its removals. -/
theorem issuedFor_iff {worktrees : List WorktreeEntry} {currentBranch : Option Str}
    {removal : Removal} (hworktrees : ∀ entry ∈ worktrees, entry.WellFormed)
    (hchecked : Checked repoRoot baseRef target answers h)
    (hplaced : Placed processCwd repoRoot worktrees currentBranch target) :
    IssuedFor target removal ↔ removal ∈ target.removals answers := by
  rw [CleanupTarget.mem_removals, ← hchecked.mode]
  constructor
  · intro hissued
    cases hissued with
    | worktree path _ hpath => exact .inl ⟨path, hpath, rfl⟩
    | branch => exact .inr rfl
  · rintro (⟨path, hpath, rfl⟩ | rfl)
    · cases hkind : target.kind with
      | worktree =>
        obtain ⟨entry, hentry, hentryPath, -⟩ := hplaced.worktree hkind
        obtain rfl := Option.some.inj (hpath.symm.trans hentryPath)
        exact .worktree _ hkind hpath (hworktrees entry hentry).1
      | branch => exact absurd (hpath.symm.trans (hplaced.branch hkind).1) nofun
    · exact .branch

theorem Answers.Settled.evidence (hsettled : answers.Settled plan path)
    (hread : answers.Read options.force) : answers.branch.status = some 0 ∨
      (∃ head, answers.head = some head ∧ head.status = some 0) ∨
        options.force = true ∧ answers.remote.status = some 1 := by
  by_cases hmerged : answers.merged = true
  · exact (Answers.merged_iff.mp hmerged).imp_right .inl
  · have hforce := (hread.evidence.resolve_left hmerged).1
    exact .inr (.inr ⟨hforce, hsettled.remote (by simpa using hmerged)⟩)

theorem PlanSound.justified {removal : Removal} (hplan : PlanSound processCwd plan h)
    (hle : h <:+ earlier) (happly : options.apply = true) (htarget : target ∈ plan.targets)
    (hanswers : target.answers = some answers) (hremoval : removal ∈ target.removals answers)
    (hread : answers.Read options.force) (hsettled : answers.Settled plan target.path) :
    Justified processCwd options plan earlier removal target answers := by
  have hchecked := (hplan.considered target htarget).checked hanswers
  have hplaced := hplan.placed target htarget
  have hlisting := hle.subset hplan.listing
  exact {
    applied := happly
    planned := htarget
    classified := hanswers
    removes := hremoval
    asked := hchecked.asked.mono hle
    unprotected := hchecked.unprotected
    worktree := by
      intro path hpath
      cases hkind : target.kind with
      | worktree =>
        obtain ⟨entry, hentry, hentryPath, hroot, hbranch⟩ := hplaced.worktree hkind
        obtain rfl := Option.some.inj (hpath.symm.trans hentryPath)
        have hlisted := hbranch (by simp [hanswers])
        obtain ⟨status, hstatus, -⟩ := hchecked.asked.status _ hpath
        refine ⟨hroot, hlisting, ⟨entry, hentry, rfl, hlisted⟩, status, hstatus,
          hsettled.status status hstatus, ?_⟩
        have hclean := hread.clean
        rw [hstatus] at hclean
        exact hclean
      | branch => exact absurd (hpath.symm.trans (hplaced.branch hkind).1) nofun
    elsewhere := by
      intro hnone
      cases hkind : target.kind with
      | worktree =>
        obtain ⟨entry, -, hentryPath, -⟩ := hplaced.worktree hkind
        exact absurd (hnone.symm.trans hentryPath) nofun
      | branch =>
        obtain ⟨-, hactive, hcurrent⟩ := hplaced.branch hkind
        obtain ⟨hlistingStatus, hcurrentStatus⟩ := hsettled.elsewhere hnone
        exact ⟨⟨hlisting, hlistingStatus, hactive⟩, hle.subset hplan.current, hcurrentStatus, hcurrent⟩
    evidence := hsettled.evidence hread
    forced := by
      rintro branch rfl
      rcases CleanupTarget.mem_removals.mp hremoval with ⟨_, -, hworktree⟩ | hbranch
      · cases hworktree
      · have hmerged : answers.merged = false := by
          by_contra hmerged
          rw [if_pos (by simpa using hmerged)] at hbranch
          cases hbranch
        exact ⟨(hread.evidence.resolve_left (by simp [hmerged])).1, hsettled.remote hmerged⟩ }

theorem Justified.settled {removal : Removal} (hplan : PlanSound processCwd plan h)
    (hjustified : Justified processCwd options plan earlier removal target answers) :
    answers.Read options.force ∧ answers.Settled plan target.path := by
  have hchecked := (hplan.considered target hjustified.planned).checked hjustified.classified
  refine ⟨⟨hchecked.clean, ?_⟩, ?_, fun hnone => ?_, fun hunmerged => ?_⟩
  · rw [Answers.merged_iff, or_assoc]
    refine hjustified.evidence.imp_right (.imp_right fun ⟨hforce, hremote⟩ => ⟨hforce, ?_⟩)
    simp [Answers.remoteGone, succeeded, hremote]
  · intro status hstatus
    cases hpath : target.path with
    | none => exact absurd (hstatus.symm.trans (hchecked.asked.absent hpath).1) nofun
    | some path =>
      obtain ⟨-, -, -, status', hstatus', hzero, -⟩ := hjustified.worktree path hpath
      obtain rfl := Option.some.inj (hstatus.symm.trans hstatus')
      exact hzero
  · obtain ⟨⟨-, hlisting, -⟩, -, hcurrent, -⟩ := hjustified.elsewhere hnone
    exact ⟨hlisting, hcurrent⟩
  · have hevidence := hjustified.evidence
    rw [← or_assoc, ← Answers.merged_iff, hunmerged] at hevidence
    exact (hevidence.resolve_left nofun).2

theorem PlanSound.issuedFor_iff {removal : Removal} (hplan : PlanSound processCwd plan h)
    (htarget : target ∈ plan.targets) (hanswers : target.answers = some answers) :
    IssuedFor target removal ↔ removal ∈ target.removals answers :=
  Cleanup.issuedFor_iff (parseWorktreePorcelain_wellFormed _)
    ((hplan.considered target htarget).checked hanswers) (hplan.placed target htarget)

theorem RemovesProven.settled (hplan : PlanSound processCwd plan h)
    (hremoves : RemovesProven processCwd options plan h) (happly : options.apply = true) :
    ReadingsSettled options plan := by
  intro target htarget answers hanswers hread removal hremoval
  have hremovable := (hplan.considered target htarget).removable_iff.mpr ⟨answers, hanswers, hread⟩
  obtain ⟨o, ho, result, h', earlier, hrun, hin⟩ := applyCleanupPlan_mayIssue (h := h) happly
    htarget hremovable ((hplan.issuedFor_iff htarget hanswers).mpr hremoval)
  obtain ⟨other, answers', hjustified⟩ := hremoves.applying result h' earlier o removal hrun hin ho
  obtain ⟨hread', hsettled⟩ := hjustified.settled hplan
  exact ⟨other, hjustified.planned, answers', hjustified.classified, hjustified.removes, hread',
    hsettled⟩

theorem applyCleanupPlan_idle {result : Except Str (List Str)} {o : Op}
    (happly : options.apply ≠ true)
    (hrun : Runs recording h (applyCleanupPlan plan options).run result h') :
    ¬ Issued h h' earlier o := by
  unfold applyCleanupPlan at hrun
  rw [if_neg happly] at hrun
  rintro ⟨hwithin, r, hsuffix⟩
  cases hrun
  have := hwithin.length_le
  have := hsuffix.length_le
  simp only [List.length_cons] at this
  omega

theorem ReadingsSettled.proven (hplan : PlanSound processCwd plan h)
    (hbuild : Runs recording [] (buildCleanupPlan processCwd cwd options).run (.ok plan) h)
    (hsettled : options.apply = true → ReadingsSettled options plan) :
    RemovesProven processCwd options plan h := by
  refine ⟨fun earlier o hin => buildCleanupPlan_building.issued hbuild hin, ?_⟩
  intro result h' earlier o removal hrun hin ho
  by_cases happly : options.apply = true
  · obtain ⟨target, htarget, hfor⟩ := (applyCleanupPlan_applying happly).issued hrun hin removal ho
    obtain ⟨hmem, hremovable⟩ := List.mem_filter.mp htarget
    obtain ⟨answers, hanswers, hread⟩ := (hplan.considered target hmem).removable_iff.mp hremovable
    obtain ⟨other, hother, answers', hanswers', hremoval, hread', hsettled'⟩ :=
      hsettled happly target hmem answers hanswers hread removal
        ((hplan.issuedFor_iff hmem hanswers).mp hfor)
    exact ⟨other, answers',
      hplan.justified hin.within happly hother hanswers' hremoval hread' hsettled'⟩
  · exact absurd hin (applyCleanupPlan_idle happly hrun)

/-- Only what is proven removable is removed exactly when what is read as
removable is settled. -/
theorem cleanup_removes_proven
    (hbuild : Runs recording [] (buildCleanupPlan processCwd cwd options).run (.ok plan) h) :
    RemovesProven processCwd options plan h ↔
      (options.apply = true → ReadingsSettled options plan) := by
  have hplan : PlanSound processCwd plan h := buildCleanupPlan_building.post hbuild plan rfl
  exact ⟨fun hremoves => hremoves.settled hplan, fun hsettled => ReadingsSettled.proven hplan hbuild hsettled⟩

-- -----
-- A status that timed out
-- -----

def mergedWorktree : Str :=
  lit "worktree /repo\nbranch refs/heads/main\n\nworktree /work\nbranch refs/heads/feature\n"

/-- A repository with a merged worktree whose status takes too long. -/
def slowStatus : GitHistory → (o : Op) → Res o
  | _, .gitSync _ args _ =>
    if args = statusArgs then killed
    else if args.head? = some (lit "rev-parse") then ⟨some 0, lit "/repo", []⟩
    else if args.head? = some (lit "worktree") then ⟨some 0, mergedWorktree, []⟩
    else ⟨some 0, [], []⟩
  | _, .existsSync _ => true

def applyMain : CleanupOptions := ⟨true, false, false, some (lit "origin/main"), none⟩

def slowBuild : Except Str CleanupPlan × GitHistory :=
  (buildCleanupPlan (lit "/repo") (lit "/repo") applyMain).run.answered slowStatus []

/-- Its only target that is read as removable is the merged worktree. -/
def readsUnanswered (plan : CleanupPlan) : Bool :=
  plan.targets.any (fun target => target.answers.any fun answers =>
    !answers.status.any isDirty && answers.merged) &&
  plan.targets.all fun target => target.answers.all fun answers =>
    answers.status == some killed

theorem slowBuild_runs : ∃ plan h, readsUnanswered plan = true ∧
    Runs recording [] (buildCleanupPlan (lit "/repo") (lit "/repo") applyMain).run (.ok plan) h := by
  have hrun : Runs recording [] (buildCleanupPlan (lit "/repo") (lit "/repo") applyMain).run
      slowBuild.1 slowBuild.2 := Prog.answered_runs ..
  have hreads : (match slowBuild.1 with | .ok plan => readsUnanswered plan | .error _ => false) = true := by
    decide +kernel
  generalize slowBuild.1 = result at hrun hreads
  cases result with
  | ok plan => exact ⟨plan, _, hreads, hrun⟩
  | error e => exact absurd hreads nofun

theorem cleanup_removes_proven_slowStatus :
    ∃ plan h, RemovesProven (lit "/repo") applyMain plan h ↔
      (applyMain.apply = true → ReadingsSettled applyMain plan) := by
  obtain ⟨plan, h, -, hrun⟩ := slowBuild_runs
  exact ⟨plan, h, cleanup_removes_proven hrun⟩

theorem slowStatus_removed :
    ¬ ∀ (processCwd cwd : Str) (options : CleanupOptions) (plan : CleanupPlan) (h : GitHistory),
      Runs recording [] (buildCleanupPlan processCwd cwd options).run (.ok plan) h →
        RemovesProven processCwd options plan h := by
  intro hproven
  obtain ⟨plan, h, hreads, hrun⟩ := slowBuild_runs
  have hsettled := (hproven _ _ _ plan h hrun).settled
    (buildCleanupPlan_building.post hrun plan rfl) rfl
  simp only [readsUnanswered, Bool.and_eq_true, List.any_eq_true, List.all_eq_true] at hreads
  obtain ⟨⟨target, htarget, hread⟩, hkilled⟩ := hreads
  obtain ⟨answers, hanswers⟩ : ∃ answers, target.answers = some answers :=
    Option.ne_none_iff_exists'.mp fun hnone => by simp [hnone] at hread
  simp only [hanswers, Option.any_some, Bool.and_eq_true, Bool.not_eq_true'] at hread
  have hremoval : .branch .safe target.branch ∈ target.removals answers :=
    CleanupTarget.mem_removals.mpr (.inr (by rw [hread.2]; rfl))
  obtain ⟨other, hother, answers', hanswers', -, -, hstatus⟩ :=
    hsettled target htarget answers hanswers ⟨hread.1, .inl hread.2⟩ _ hremoval
  have hkilled' := hkilled other hother
  rw [hanswers', Option.all_some, beq_iff_eq] at hkilled'
  exact absurd (hstatus.status killed hkilled') nofun

end PiEnv.DevTools.Cleanup
