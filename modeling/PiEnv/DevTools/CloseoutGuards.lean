import PiEnv.DevTools.Closeout

/-!
# What a closeout removes

No command that destroys anything is issued before what the workflow verifies,
whatever the commands answer.
-/

namespace PiEnv.DevTools.Closeout

open Js
open Effects

abbrev CommandHistory := History Op Res

variable {guard : CommandHistory → Op → Prop} {h h' h'' h₀ earlier : CommandHistory}
  {cwd command branch label text : Str} {args : List Str} {timeout : Nat} {failOnNonZero : Bool}
  {α : Type}

-- -----
-- Commands that destroy
-- -----

/-- `git worktree remove`, `git branch -d` and the like, `git update-ref -d`. -/
def destroysArgs (args : List Str) : Bool :=
  [[lit "worktree", lit "remove"], [lit "branch", lit "-d"], [lit "branch", lit "-D"],
    [lit "branch", lit "--delete"], [lit "update-ref", lit "-d"]].contains (args.take 2)

def Destroys : Op → Prop
  | .exec command args _ _ => command = git ∧ destroysArgs args = true
  | _ => False

theorem quiet_git {first second : Str} {rest : List Str}
    (hquiet : destroysArgs [first, second] = false) :
    ¬ Destroys (.exec git (first :: second :: rest) cwd timeout) := by
  rintro ⟨-, hdestroys⟩
  exact absurd (hdestroys.symm.trans hquiet) nofun

theorem quiet_other {first : Str} {rest : List Str}
    (hquiet : [lit "worktree", lit "branch", lit "update-ref"].contains first = false) :
    ¬ Destroys (.exec git (first :: rest) cwd timeout) := by
  rintro ⟨-, hdestroys⟩
  simp only [destroysArgs, List.take_succ_cons, List.contains_cons, List.contains_nil, Bool.or_false,
    Bool.or_eq_true, beq_iff_eq, List.cons.injEq] at hdestroys
  simp only [List.contains_cons, List.contains_nil, Bool.or_false, Bool.or_eq_false_iff,
    beq_eq_false_iff_ne] at hquiet
  obtain ⟨hworktree, hbranch, hupdate⟩ := hquiet
  rcases hdestroys with h | h | h | h | h
  · exact hworktree h.1
  · exact hbranch h.1
  · exact hbranch h.1
  · exact hbranch h.1
  · exact hupdate h.1

theorem quiet_command (hcommand : command ≠ git) : ¬ Destroys (.exec command args cwd timeout) :=
  fun h => hcommand h.1

/-- What does not destroy is always allowed. -/
def AllowsQuiet (guard : CommandHistory → Op → Prop) : Prop := ∀ h o, ¬ Destroys o → guard h o

-- -----
-- What commands print
-- -----

/-- The command ran, between two histories. -/
structure Ran (h h' : CommandHistory) (command : Str) (args : List Str) (cwd : Str) (timeout : Nat)
    (result : ExecResult) : Prop where
  answered : Answered h h' (.exec command args cwd timeout) (some result)
  ended : result.killed = false

theorem Ran.later {result : ExecResult} (h₁ : Ran h h' command args cwd timeout result)
    (hle : h' <:+ h'') : Ran h h'' command args cwd timeout result :=
  ⟨h₁.answered.later hle, h₁.ended⟩

theorem Ran.sooner {result : ExecResult} (h₁ : Ran h h' command args cwd timeout result)
    (hle : h₀ <:+ h) : Ran h₀ h' command args cwd timeout result :=
  ⟨h₁.answered.sooner hle, h₁.ended⟩

def Printed (h h' : CommandHistory) (cwd : Str) (args : List Str) (text : Str) : Prop :=
  ∃ result, Ran h h' git args cwd defaultTimeout result ∧ result.code = 0 ∧ trim result.stdout = text

theorem Printed.later (hp : Printed h h' cwd args text) (hle : h' <:+ h'') :
    Printed h h'' cwd args text :=
  let ⟨result, hran, hrest⟩ := hp
  ⟨result, hran.later hle, hrest⟩

theorem Printed.sooner (hp : Printed h h' cwd args text) (hle : h₀ <:+ h) :
    Printed h₀ h' cwd args text :=
  let ⟨result, hran, hrest⟩ := hp
  ⟨result, hran.sooner hle, hrest⟩

def Exited (h h' : CommandHistory) (cwd : Str) (args : List Str) (code : Int) : Prop :=
  ∃ result, Ran h h' git args cwd defaultTimeout result ∧ result.code = code

theorem Exited.later {code : Int} (he : Exited h h' cwd args code) (hle : h' <:+ h'') :
    Exited h h'' cwd args code :=
  let ⟨result, hran, hcode⟩ := he
  ⟨result, hran.later hle, hcode⟩

theorem ensure_yields {condition : Bool} {message : Str} :
    Yields guard (ensure condition message) (fun _ h' => h' = h ∧ condition = true) h := by
  unfold ensure
  split
  · exact Yields.ret ⟨rfl, ‹_›⟩
  · exact Yields.throws

theorem run_yields (hallowed : guard h (.exec command args cwd timeout)) :
    Yields guard (run command args cwd timeout failOnNonZero) (fun result h' =>
      Ran h h' command args cwd timeout result ∧ (failOnNonZero = true → result.code = 0)) h := by
  unfold run
  refine Yields.bindLift (P := fun answer h' => Answered h h' (.exec command args cwd timeout) answer)
    (Guarded.call hallowed fun _ => Answered.head) fun answer h' _ hanswer => ?_
  cases answer with
  | none => exact Yields.throws
  | some result =>
    show Yields guard (if result.killed then _ else _) _ h'
    split
    case isTrue => exact Yields.throws
    case isFalse hkilled =>
      split
      case isTrue hcode =>
        refine Yields.ret ⟨⟨hanswer, by simpa using hkilled⟩, fun hfail => ?_⟩
        exact hcode.resolve_left (by simp [hfail])
      case isFalse => exact Yields.throws

theorem gitText_yields (hallowed : guard h (.exec git args cwd defaultTimeout)) :
    Yields guard (gitText cwd args) (fun text h' => Printed h h' cwd args text) h := by
  refine (run_yields hallowed).bind fun result h' _ hran => ?_
  exact Yields.ret ⟨result, hran.1, hran.2 rfl, rfl⟩

theorem gitExit_yields (hallowed : guard h (.exec git args cwd defaultTimeout)) :
    Yields guard (gitExit cwd args) (fun code h' => Exited h h' cwd args code) h := by
  refine (run_yields hallowed).bind fun result h' _ hran => ?_
  exact Yields.ret ⟨result, hran.1, rfl⟩

theorem whenSome_yields {value : Option α} {effect : α → Script Unit} {P : α → CommandHistory → Prop}
    (heffect : ∀ a, value = some a → Yields guard (effect a) (fun _ => P a) h) :
    Yields guard (whenSome value effect) (fun _ h' => ∀ a, value = some a → P a h') h := by
  unfold whenSome
  split
  · rename_i a
    refine (heffect a rfl).mono fun _ h' _ hp a' ha' => ?_
    exact Option.some.inj ha' ▸ hp
  · exact Yields.ret nofun

theorem whenTrue_yields {condition : Bool} {effect : Script Unit} {P : CommandHistory → Prop}
    (heffect : condition = true → Yields guard effect (fun _ => P) h) :
    Yields guard (whenTrue condition effect) (fun _ h' => condition = true → P h') h := by
  unfold whenTrue
  split
  · rename_i hcondition
    exact (heffect hcondition).mono fun _ _ _ hp _ => hp
  · rename_i hcondition
    exact Yields.ret fun htrue => absurd htrue hcondition

theorem retry_yields {again : CloseoutError → Bool} {effect : Script α}
    {P : α → CommandHistory → Prop} (times : Nat)
    (heffect : ∀ h', h <:+ h' → Yields guard effect P h') :
    Yields guard (retry again effect times) P h := by
  induction times generalizing h with
  | zero => exact heffect h (List.suffix_refl _)
  | succ times ih =>
    refine (heffect h (List.suffix_refl _)).tryCatch fun error h' hle => ?_
    split
    · exact ih fun h'' hle' => heffect h'' (hle.trans hle')
    · exact Yields.throws

theorem mapError_yields {f : CloseoutError → CloseoutError} {effect : Script α}
    {P : α → CommandHistory → Prop} (heffect : Yields guard effect P h) :
    Yields guard (mapError f effect) P h :=
  heffect.tryCatch fun _ _ _ => Yields.throws

-- -----
-- The pull request
-- -----

variable {platform : Platform}

/-- A script that destroys nothing. -/
def Harmless (x : Script α) : Prop :=
  ∀ (guard : CommandHistory → Op → Prop) (h : CommandHistory), AllowsQuiet guard →
    Yields guard x (fun _ _ => True) h

theorem Harmless.bind {β : Type} {x : Script α} {f : α → Script β} (hx : Harmless x)
    (hf : ∀ a, Harmless (f a)) : Harmless (x >>= f) :=
  fun guard h hguard => (hx guard h hguard).bind fun a h' _ _ => hf a guard h' hguard

theorem harmless_ret {a : α} : Harmless (pure a : Script α) := fun _ _ _ => Yields.ret trivial

theorem harmless_throw {error : CloseoutError} : Harmless (throw error : Script α) :=
  fun _ _ _ => Yields.throws

theorem harmless_ensure {condition : Bool} {message : Str} : Harmless (ensure condition message) :=
  fun _ _ _ => ensure_yields.mono fun _ _ _ _ => trivial

theorem harmless_run (hquiet : ¬ Destroys (.exec command args cwd timeout)) :
    Harmless (run command args cwd timeout failOnNonZero) :=
  fun _ h hguard => (run_yields (hguard h _ hquiet)).mono fun _ _ _ _ => trivial

theorem harmless_gitText (hquiet : ¬ Destroys (.exec git args cwd defaultTimeout)) :
    Harmless (gitText cwd args) :=
  (harmless_run hquiet).bind fun _ => harmless_ret

theorem harmless_gitExit (hquiet : ¬ Destroys (.exec git args cwd defaultTimeout)) :
    Harmless (gitExit cwd args) :=
  (harmless_run hquiet).bind fun _ => harmless_ret

theorem harmless_githubRepositoryFromRemote {value : Str} :
    Harmless (githubRepositoryFromRemote platform cwd value) := by
  unfold githubRepositoryFromRemote
  split
  · exact harmless_ret
  · split
    · exact harmless_ret
    · split
      · exact (harmless_run (quiet_command (by decide))).bind fun _ => harmless_ret
      · exact harmless_ret

theorem harmless_urlCandidates {name : Str} {urls : List Str} (rest : List Str) :
    Harmless (urlCandidates platform cwd name urls rest) := by
  induction rest with
  | nil => exact harmless_ret
  | cons url rest ih =>
    exact harmless_githubRepositoryFromRemote.bind fun _ => ih.bind fun _ => harmless_ret

theorem harmless_remoteCandidates (names : List Str) :
    Harmless (remoteCandidates platform cwd names) := by
  induction names with
  | nil => exact harmless_ret
  | cons name names ih =>
    refine (harmless_gitText (quiet_other (by decide))).bind fun _ => ?_
    refine harmless_ensure.bind fun _ => (harmless_urlCandidates _).bind fun _ => ?_
    exact ih.bind fun _ => harmless_ret

theorem harmless_selectGitHubRemote {requested : Option Str} :
    Harmless (selectGitHubRemote platform cwd requested) := by
  refine (harmless_gitText (quiet_other (by decide))).bind fun _ => ?_
  refine (harmless_remoteCandidates _).bind fun _ => ?_
  refine harmless_ensure.bind fun _ => harmless_ensure.bind fun _ => ?_
  split
  · exact harmless_throw
  · refine harmless_ensure.bind fun _ => (harmless_gitExit (quiet_other (by decide))).bind fun _ => ?_
    exact harmless_ensure.bind fun _ => harmless_ret

theorem harmless_acquireCloseoutLock {commonDir : Str} : Harmless (acquireCloseoutLock commonDir) := by
  intro guard h hguard
  refine mapError_yields (retry_yields _ fun h' _ => ?_)
  refine Yields.bindLift (P := fun _ _ => True) ?_ fun answer h'' _ _ => ?_
  · exact Guarded.call (hguard h' _ id) fun _ => trivial
  · cases answer with
    | acquired => exact Yields.ret trivial
    | failed code => exact Yields.throws

/-- GitHub printed the pull request, for the repository of the selected remote. -/
structure Viewed (platform : Platform) (h h' : CommandHistory) (resolved : Resolved) : Prop where
  viewed : ∃ cwd requested result,
    Ran h h' (lit "gh") (viewArgs requested resolved.remote.repository) cwd defaultTimeout result ∧
      result.code = 0 ∧ decodePullRequest result.stdout = .ok resolved.pr
  url : parseGitHubPullRequestUrl resolved.pr.url = some resolved.parsedUrl
  repository : repositoryOf platform resolved.parsedUrl = resolved.remote.repository

theorem Viewed.later {resolved : Resolved} (hv : Viewed platform h h' resolved) (hle : h' <:+ h'') :
    Viewed platform h h'' resolved :=
  let ⟨cwd, requested, result, hran, hrest⟩ := hv.viewed
  ⟨⟨cwd, requested, result, hran.later hle, hrest⟩, hv.url, hv.repository⟩

theorem loadPullRequest_yields {requested repository : Str} (hguard : AllowsQuiet guard) :
    Yields guard (loadPullRequest cwd requested repository) (fun pr h' => ∃ result,
      Ran h h' (lit "gh") (viewArgs requested repository) cwd defaultTimeout result ∧
        result.code = 0 ∧ decodePullRequest result.stdout = .ok pr) h := by
  refine (run_yields (hguard _ _ (quiet_command (by decide)))).bind fun result h' _ hran => ?_
  split
  · exact Yields.ret ⟨result, hran.1, hran.2 rfl, ‹_›⟩
  · exact Yields.throws

theorem harmless_lookupReferenceOf (requested : Option Str) :
    Harmless (lookupReferenceOf cwd requested) := by
  cases requested with
  | some requested => exact harmless_ret
  | none => exact harmless_gitText (quiet_git (by decide))

theorem resolvePullRequest_yields {requested : Option Str} (hguard : AllowsQuiet guard) :
    Yields guard (resolvePullRequest platform cwd requested)
      (fun resolved h' => Viewed platform h h' resolved) h := by
  have hnormalize : Harmless (normalizeRequested requested) := by
    unfold normalizeRequested
    split
    · exact harmless_ret
    · split
      · exact harmless_ret
      · exact harmless_throw
  refine (hnormalize _ _ hguard).bind fun requested h₁ hle₁ _ => ?_
  refine (harmless_gitText (quiet_other (by decide)) _ _ hguard).bind fun repoRoot h₂ hle₂ _ => ?_
  refine (harmless_selectGitHubRemote _ _ hguard).bind fun remote h₃ hle₃ _ => ?_
  refine (harmless_lookupReferenceOf requested _ _ hguard).bind fun reference h₄ hle₄ _ => ?_
  refine ensure_yields.bind fun _ h₅ _ hnamed => ?_
  obtain ⟨rfl, -⟩ := hnamed
  refine (loadPullRequest_yields hguard).bind fun pr h₆ _ hviewed => ?_
  obtain ⟨result, hran, hrest⟩ := hviewed
  have hbefore : h <:+ h₅ := ((hle₁.trans hle₂).trans hle₃).trans hle₄
  split
  case h_1 => exact Yields.throws
  case h_2 parsedUrl hurl =>
    refine ensure_yields.bind fun _ h₇ _ hrepository => ?_
    obtain ⟨rfl, hrepository⟩ := hrepository
    refine ensure_yields.bind fun _ h₈ _ hnumber => ?_
    obtain ⟨rfl, -⟩ := hnumber
    exact Yields.ret ⟨⟨_, _, result, hran.sooner hbefore, hrest⟩, hurl, by simpa using hrepository⟩

/-- A pull request whose head branch may be deleted. -/
structure Eligible (pr : PullRequest) : Prop where
  state : pr.state = lit "MERGED"
  mergedAt : truthy pr.mergedAt = true
  mergeCommit : truthy pr.mergeCommit = true
  sameRepository : pr.isCrossRepository = false
  differs : pr.headRefName ≠ pr.baseRefName
  unprotected : isProtectedBranch pr.headRefName = false

theorem verifyMerged_yields {pr : PullRequest} :
    Yields guard (verifyMerged pr) (fun _ h' => h' = h ∧ Eligible pr) h := by
  refine ensure_yields.bind fun _ h₁ _ hmerged => ?_
  obtain ⟨rfl, hmerged⟩ := hmerged
  refine ensure_yields.bind fun _ h₂ _ hsame => ?_
  obtain ⟨rfl, hsame⟩ := hsame
  refine ensure_yields.bind fun _ h₃ _ hdiffers => ?_
  obtain ⟨rfl, hdiffers⟩ := hdiffers
  refine ensure_yields.mono fun _ h₄ _ hunprotected => ?_
  obtain ⟨rfl, hunprotected⟩ := hunprotected
  simp only [Bool.and_eq_true, decide_eq_true_eq] at hmerged
  obtain ⟨⟨hstate, hmergedAt⟩, hcommit⟩ := hmerged
  exact ⟨rfl, hstate, hmergedAt, hcommit, by simpa using hsame, by simpa using hdiffers,
    by simpa using hunprotected⟩

-- -----
-- Worktrees
-- -----

/-- The worktree is there, on its branch, and clean. -/
structure Observed (h h' : CommandHistory) (worktree : WorktreeEntry) (branch : Str) : Prop where
  exist : Answered h h' (.existsSync worktree.path) true
  branch : Printed h h' worktree.path currentBranchArgs branch
  clean : Printed h h' worktree.path statusArgs []

theorem Observed.later {worktree : WorktreeEntry} (ho : Observed h h' worktree branch)
    (hle : h' <:+ h'') : Observed h h'' worktree branch :=
  ⟨ho.exist.later hle, ho.branch.later hle, ho.clean.later hle⟩

theorem Observed.sooner {worktree : WorktreeEntry} (ho : Observed h h' worktree branch)
    (hle : h₀ <:+ h) : Observed h₀ h' worktree branch :=
  ⟨ho.exist.sooner hle, ho.branch.sooner hle, ho.clean.sooner hle⟩

theorem verifyWorktree_yields {worktree : WorktreeEntry} (hguard : AllowsQuiet guard) :
    Yields guard (verifyWorktree worktree branch label)
      (fun _ h' => Observed h h' worktree branch) h := by
  refine Yields.bindLift
    (P := fun answer h' => Answered h h' (.existsSync worktree.path) answer)
    (Guarded.call (hguard _ _ id) fun _ => Answered.head) fun exist h₁ hle₁ hexist => ?_
  refine ensure_yields.bind fun _ h₂ _ htrue => ?_
  obtain ⟨rfl, rfl⟩ := htrue
  refine (gitText_yields (hguard _ _ (quiet_git (by decide)))).bind fun shown h₃ hle₃ hbranch => ?_
  refine ensure_yields.bind fun _ h₄ _ hsame => ?_
  obtain ⟨rfl, hsame⟩ := hsame
  obtain rfl : shown = branch := by simpa using hsame
  have hstatus : Yields guard (isDirty worktree.path) (fun dirty h' => ∃ status,
      Printed h₄ h' worktree.path statusArgs status ∧ dirty = decide (status.length > 0)) h₄ := by
    refine (gitText_yields (hguard _ _ (quiet_other (by decide)))).bind fun status h₅ _ hprinted => ?_
    exact Yields.ret ⟨status, hprinted, rfl⟩
  refine hstatus.bind fun dirty h₅ hle₅ hdirty => ?_
  obtain ⟨status, hprinted, rfl⟩ := hdirty
  refine ensure_yields.mono fun _ h₆ _ hclean => ?_
  obtain ⟨rfl, hclean⟩ := hclean
  obtain rfl : status = [] := by simpa using hclean
  exact ⟨hexist.later (hle₃.trans hle₅), (hbranch.sooner hle₁).later hle₅,
    hprinted.sooner (hle₁.trans hle₃)⟩

theorem verifyLocalHead_yields {oid : Str} (hguard : AllowsQuiet guard) :
    Yields guard (verifyLocalHead cwd branch oid)
      (fun _ h' => Printed h h' cwd (headOidArgs branch) oid) h := by
  refine (gitText_yields (hguard _ _ (quiet_other (by decide)))).bind fun shown h₁ _ hprinted => ?_
  refine ensure_yields.mono fun _ h₂ _ hsame => ?_
  obtain ⟨rfl, hsame⟩ := hsame
  obtain rfl : shown = oid := by simpa using hsame
  exact hprinted

theorem harmless_refExists {ref : Str} : Harmless (refExists cwd ref) :=
  (harmless_gitExit (quiet_other (by decide))).bind fun _ => harmless_ret

/-- Two paths that were resolved to different ones. -/
def Distinct (platform : Platform) (h h' : CommandHistory) (left right : Str) : Prop :=
  ∃ resolvedLeft resolvedRight, Answered h h' (.realpath left) resolvedLeft ∧
    Answered h h' (.realpath right) resolvedRight ∧
      resolvedLeft.getD (Posix.resolve platform.processCwd left) ≠
        resolvedRight.getD (Posix.resolve platform.processCwd right)

theorem Distinct.later {left right : Str} (hd : Distinct platform h h' left right)
    (hle : h' <:+ h'') : Distinct platform h h'' left right :=
  let ⟨l, r, hleft, hright, hne⟩ := hd
  ⟨l, r, hleft.later hle, hright.later hle, hne⟩

theorem Distinct.sooner {left right : Str} (hd : Distinct platform h h' left right)
    (hle : h₀ <:+ h) : Distinct platform h₀ h' left right :=
  let ⟨l, r, hleft, hright, hne⟩ := hd
  ⟨l, r, hleft.sooner hle, hright.sooner hle, hne⟩

theorem canonicalPath_guarded {path : Str} (hguard : AllowsQuiet guard) :
    Guarded guard (canonicalPath platform path) (fun canonical h' => ∃ resolved,
      Answered h h' (.realpath path) resolved ∧
        canonical = resolved.getD (Posix.resolve platform.processCwd path)) h :=
  Guarded.bind (Guarded.call (hguard _ _ id) fun resolved => ⟨resolved, Answered.head, rfl⟩)

theorem samePath_guarded {left right : Str} (hguard : AllowsQuiet guard) :
    Guarded guard (samePath platform left right)
      (fun same h' => same = false → Distinct platform h h' left right) h := by
  refine (canonicalPath_guarded hguard).seq fun l h₁ hle₁ hleft => ?_
  obtain ⟨resolvedLeft, hleft, rfl⟩ := hleft
  refine (canonicalPath_guarded hguard).seq fun r h₂ hle₂ hright => ?_
  obtain ⟨resolvedRight, hright, rfl⟩ := hright
  exact fun hsame => ⟨resolvedLeft, resolvedRight, hleft.later hle₂, hright.sooner hle₁,
    by simpa using hsame⟩

theorem pathContains_guarded {root candidate : Str} (hguard : AllowsQuiet guard) :
    Guarded guard (pathContains platform root candidate) (fun _ _ => True) h :=
  (canonicalPath_guarded hguard).seq fun _ _ _ _ =>
    (canonicalPath_guarded hguard).seq fun _ _ _ _ => trivial

theorem verifyHeadWorktree_yields {worktrees : List WorktreeEntry} {pr : PullRequest}
    {head : WorktreeEntry} (hguard : AllowsQuiet guard) :
    Yields guard (verifyHeadWorktree platform cwd worktrees pr head) (fun _ h' =>
      ∀ primary, worktrees.head? = some primary →
        Distinct platform h h' head.path primary.path) h := by
  refine (whenSome_yields (P := fun primary h' => Distinct platform h h' head.path primary.path)
    fun primary _ => ?_).bind fun _ h₁ hle₁ hprimary => ?_
  · refine Yields.bindLift (samePath_guarded hguard) fun same h₁ _ hdistinct => ?_
    refine ensure_yields.mono fun _ h₂ _ hsame => ?_
    obtain ⟨rfl, hsame⟩ := hsame
    exact hdistinct (by simpa using hsame)
  · refine Yields.bindLift (pathContains_guarded hguard) fun contains h₂ hle₂ _ => ?_
    refine ensure_yields.bind fun _ h₃ hle₃ _ => ?_
    refine (verifyWorktree_yields hguard).mono fun _ h₄ hle₄ _ primary hhead => ?_
    exact (hprimary primary hhead).later ((hle₂.trans hle₃).trans hle₄)

/-- The worktrees that git listed, with the base and the head among them. -/
structure Inspected (platform : Platform) (h h' : CommandHistory) (repoRoot : Str) (pr : PullRequest)
    (checkouts : Checkouts) : Prop where
  listed : ∃ listing, Printed h h' repoRoot listArgs listing ∧
    checkouts.worktrees = parseWorktreePorcelain listing
  base : findWorktree checkouts.worktrees pr.baseRefName = some checkouts.base
  head : findWorktree checkouts.worktrees pr.headRefName = checkouts.head
  /-- The head is not the primary worktree, which is listed first. -/
  secondary : ∀ head, checkouts.head = some head → ∀ primary,
    checkouts.worktrees.head? = some primary → Distinct platform h h' head.path primary.path
  localHead : checkouts.head.isSome = true → checkouts.localHeadExists = true

theorem Inspected.later {repoRoot : Str} {pr : PullRequest} {checkouts : Checkouts}
    (hi : Inspected platform h h' repoRoot pr checkouts) (hle : h' <:+ h'') :
    Inspected platform h h'' repoRoot pr checkouts where
  listed := let ⟨listing, hprinted, hparsed⟩ := hi.listed; ⟨listing, hprinted.later hle, hparsed⟩
  base := hi.base
  head := hi.head
  secondary := fun head hhead primary hprimary =>
    (hi.secondary head hhead primary hprimary).later hle
  localHead := hi.localHead

theorem Inspected.sooner {repoRoot : Str} {pr : PullRequest} {checkouts : Checkouts}
    (hi : Inspected platform h h' repoRoot pr checkouts) (hle : h₀ <:+ h) :
    Inspected platform h₀ h' repoRoot pr checkouts where
  listed := let ⟨listing, hprinted, hparsed⟩ := hi.listed; ⟨listing, hprinted.sooner hle, hparsed⟩
  base := hi.base
  head := hi.head
  secondary := fun head hhead primary hprimary =>
    (hi.secondary head hhead primary hprimary).sooner hle
  localHead := hi.localHead

theorem inspectCheckouts_yields {repoRoot : Str} {pr : PullRequest} (hguard : AllowsQuiet guard) :
    Yields guard (inspectCheckouts platform cwd repoRoot pr)
      (fun checkouts h' => Inspected platform h h' repoRoot pr checkouts) h := by
  refine (gitText_yields (hguard _ _ (quiet_git (by decide)))).bind fun listing h₁ hle₁ hlisting => ?_
  dsimp only
  split
  case h_1 => exact Yields.throws
  case h_2 base hbase =>
    refine (whenSome_yields (P := fun head h' => ∀ primary,
      (parseWorktreePorcelain listing).head? = some primary →
        Distinct platform h₁ h' head.path primary.path)
      fun head _ => verifyHeadWorktree_yields hguard).bind fun _ h₂ hle₂ hsecondary => ?_
    refine (verifyWorktree_yields hguard).bind fun _ h₃ hle₃ _ => ?_
    refine (harmless_refExists _ _ hguard).bind fun localHeadExists h₄ hle₄ _ => ?_
    refine (whenTrue_yields (P := fun _ => localHeadExists = true) fun _ =>
      ensure_yields.mono fun _ _ _ hexists => hexists.2).bind fun _ h₅ hle₅ hlocal => ?_
    refine (whenTrue_yields (P := fun _ => True) fun _ =>
      (verifyLocalHead_yields hguard).mono fun _ _ _ _ => trivial).bind fun _ h₆ hle₆ _ => ?_
    have hlater : h₂ <:+ h₆ := ((hle₃.trans hle₄).trans hle₅).trans hle₆
    exact Yields.ret {
      listed := ⟨listing, hlisting.later (hle₂.trans hlater), rfl⟩
      base := hbase
      head := rfl
      secondary := fun head hhead primary hprimary =>
        ((hsecondary head hhead primary hprimary).later hlater).sooner hle₁
      localHead := hlocal }

-- -----
-- After the fetch
-- -----

theorem fetchBase_yields {remote : Remote} {checkouts : Checkouts} (hguard : AllowsQuiet guard) :
    Yields guard (fetchBase remote checkouts) (fun _ h' => ∃ result,
      Ran h h' git (fetchArgs remote) checkouts.base.path 180000 result ∧ result.code = 0) h := by
  refine (run_yields (hguard _ _ (quiet_other (by decide)))).bind fun result h' _ hran => ?_
  exact Yields.ret ⟨result, hran.1, hran.2 rfl⟩

/-- What was verified between two histories. -/
structure Verified (h h' : CommandHistory) (pr : PullRequest) (remote : Remote)
    (checkouts : Checkouts) : Prop where
  forward : Exited h h' checkouts.base.path
    (ancestorArgs (localRef pr.baseRefName) (remoteBaseRef remote pr)) 0
  merged : Exited h h' checkouts.base.path
    (ancestorArgs (pr.mergeCommit.getD (lit "undefined")) (remoteBaseRef remote pr)) 0
  head : ∀ head, checkouts.head = some head → Observed h h' head pr.headRefName
  localHead : checkouts.localHeadExists = true →
    Printed h h' checkouts.base.path (headOidArgs pr.headRefName) pr.headRefOid

theorem Verified.later {pr : PullRequest} {remote : Remote} {checkouts : Checkouts}
    (hv : Verified h h' pr remote checkouts) (hle : h' <:+ h'') :
    Verified h h'' pr remote checkouts where
  forward := hv.forward.later hle
  merged := hv.merged.later hle
  head := fun head hhead => (hv.head head hhead).later hle
  localHead := fun hlocal => (hv.localHead hlocal).later hle

theorem Exited.sooner {code : Int} (he : Exited h h' cwd args code) (hle : h₀ <:+ h) :
    Exited h₀ h' cwd args code :=
  let ⟨result, hran, hcode⟩ := he
  ⟨result, hran.sooner hle, hcode⟩

theorem verifyFetched_yields {pr : PullRequest} {remote : Remote} {checkouts : Checkouts}
    (hguard : AllowsQuiet guard) :
    Yields guard (verifyFetched pr remote checkouts)
      (fun _ h' => Verified h h' pr remote checkouts) h := by
  refine (harmless_refExists _ _ hguard).bind fun _ h₁ hle₁ _ => ?_
  refine ensure_yields.bind fun _ h₁' _ hlocal => ?_
  obtain ⟨rfl, -⟩ := hlocal
  refine (harmless_refExists _ _ hguard).bind fun _ h₂ hle₂ _ => ?_
  refine ensure_yields.bind fun _ h₂' _ hremote => ?_
  obtain ⟨rfl, -⟩ := hremote
  refine (gitExit_yields (hguard _ _ (quiet_other (by decide)))).bind fun code h₃ hle₃ hforward => ?_
  refine ensure_yields.bind fun _ h₃' _ hzero => ?_
  obtain ⟨rfl, hzero⟩ := hzero
  obtain rfl : code = 0 := by simpa using hzero
  refine (gitExit_yields (hguard _ _ (quiet_other (by decide)))).bind fun code h₄ hle₄ hpresent => ?_
  refine ensure_yields.bind fun _ h₄' _ hzero => ?_
  obtain ⟨rfl, hzero⟩ := hzero
  obtain rfl : code = 0 := by simpa using hzero
  refine (whenSome_yields (P := fun head h' => Observed h₄' h' head pr.headRefName)
    fun head _ => verifyWorktree_yields hguard).bind fun _ h₅ hle₅ hhead => ?_
  refine (whenTrue_yields (P := fun h' =>
    Printed h₅ h' checkouts.base.path (headOidArgs pr.headRefName) pr.headRefOid) fun _ =>
      verifyLocalHead_yields hguard).mono fun _ h₆ hle₆ hoid => ?_
  have hto₂ : h <:+ h₂' := hle₁.trans hle₂
  have hto₄ : h <:+ h₄' := (hto₂.trans hle₃).trans hle₄
  exact {
    forward := (hforward.sooner hto₂).later ((hle₄.trans hle₅).trans hle₆)
    merged := (hpresent.sooner (hto₂.trans hle₃)).later (hle₅.trans hle₆)
    head := fun head hsome => ((hhead head hsome).sooner hto₄).later hle₆
    localHead := fun hlocal => (hoid hlocal).sooner (hto₄.trans hle₅) }

theorem harmless_fastForward {pr : PullRequest} {remote : Remote} {checkouts : Checkouts} :
    Harmless (fastForward pr remote checkouts) := by
  intro guard h hguard
  refine mapError_yields (retry_yields _ fun h' _ => ?_)
  refine (verifyWorktree_yields hguard).bind fun _ h₁ _ _ => ?_
  exact (harmless_run (quiet_other (by decide)) _ _ hguard).bind fun _ _ _ _ => Yields.ret trivial

-- -----
-- The workflow
-- -----

/-- What a run knows when it destroys something. -/
structure Knowledge where
  resolved : Resolved
  checkouts : Checkouts
  /-- The history up to the fetch. -/
  fetched : CommandHistory

/-- The removal of the head worktree, or the deletion of the head branch where
it still is the head of the pull request. -/
def Knowledge.Issues (known : Knowledge) (o : Op) : Prop :=
  (∃ head, known.checkouts.head = some head ∧
    o = .exec git (removeArgs head.path) known.checkouts.base.path 30000) ∨
  o = .exec git (deleteRefArgs (localRef known.resolved.pr.headRefName) known.resolved.pr.headRefOid)
    known.checkouts.base.path 30000

/-- What was observed in a run before the operation. -/
structure Cleared (platform : Platform) (known : Knowledge) (earlier : CommandHistory) (o : Op) :
    Prop where
  viewed : Viewed platform [] earlier known.resolved
  eligible : Eligible known.resolved.pr
  inspected : Inspected platform [] earlier known.resolved.repoRoot known.resolved.pr known.checkouts
  fetched : known.fetched <:+ earlier ∧ ∃ result, Ran [] known.fetched git
    (fetchArgs known.resolved.remote) known.checkouts.base.path 180000 result ∧ result.code = 0
  verified : Verified known.fetched earlier known.resolved.pr known.resolved.remote known.checkouts
  localHead : Printed known.fetched earlier known.checkouts.base.path
    (headOidArgs known.resolved.pr.headRefName) known.resolved.pr.headRefOid
  issues : known.Issues o

theorem removeCheckouts_yields {pr : PullRequest} {checkouts : Checkouts}
    (hremove : ∀ h', h <:+ h' → ∀ head, checkouts.head = some head →
      guard h' (.exec git (removeArgs head.path) checkouts.base.path 30000))
    (hdelete : ∀ h', h <:+ h' → checkouts.localHeadExists = true → guard h'
      (.exec git (deleteRefArgs (localRef pr.headRefName) pr.headRefOid) checkouts.base.path 30000)) :
    Yields guard (removeCheckouts pr checkouts) (fun _ _ => True) h := by
  refine (whenSome_yields (P := fun _ _ => True) fun head hhead => ?_).bind fun _ h₁ hle _ => ?_
  · refine (run_yields (hremove h (List.suffix_refl _) head hhead)).bind fun _ _ _ _ => ?_
    exact Yields.ret trivial
  · refine (whenTrue_yields (P := fun _ => True) fun hlocal => ?_).mono fun _ _ _ _ => trivial
    exact (run_yields (hdelete h₁ hle hlocal)).bind fun _ _ _ _ => Yields.ret trivial

/-- What destroys is issued only where the run has cleared it. -/
def Guards (platform : Platform) (earlier : CommandHistory) (o : Op) : Prop :=
  Destroys o → ∃ known, Cleared platform known earlier o

theorem closeoutWorkflow_yields {request : CloseoutRequest} :
    Yields (Guards platform) (closeoutWorkflow platform cwd request) (fun _ _ => True) [] := by
  have hguard : AllowsQuiet (Guards platform) := fun _ _ hquiet hdestroys => absurd hdestroys hquiet
  refine (resolvePullRequest_yields hguard).bind fun resolved h₁ _ hviewed => ?_
  refine verifyMerged_yields.bind fun _ h₁' _ heligible => ?_
  obtain ⟨rfl, heligible⟩ := heligible
  refine (harmless_gitText (quiet_other (by decide)) _ _ hguard).bind fun commonDir h₂ hle₂ _ => ?_
  refine (harmless_acquireCloseoutLock _ _ hguard).bind fun _ h₃ hle₃ _ => ?_
  refine (inspectCheckouts_yields hguard).bind fun checkouts h₄ hle₄ hinspected => ?_
  refine (fetchBase_yields hguard).bind fun _ h₅ hle₅ hfetched => ?_
  refine (verifyFetched_yields hguard).bind fun _ h₆ hle₆ hverified => ?_
  refine (harmless_fastForward _ _ hguard).bind fun _ h₇ hle₇ _ => ?_
  refine (harmless_gitText (quiet_other (by decide)) _ _ hguard).bind fun baseOid h₈ hle₈ _ => ?_
  let known : Knowledge := ⟨resolved, checkouts, h₅⟩
  have hcleared {o : Op} (h₉ : CommandHistory) (hle₉ : h₈ <:+ h₉)
      (hlocal : checkouts.localHeadExists = true) (hissues : known.Issues o) :
      Cleared platform known h₉ o := by
    have hto₉ : h₆ <:+ h₉ := (hle₇.trans hle₈).trans hle₉
    have hto₅ : h₄ <:+ h₉ := (hle₅.trans hle₆).trans hto₉
    obtain ⟨result, hran, hcode⟩ := hfetched
    exact {
      viewed := hviewed.later (((hle₂.trans hle₃).trans hle₄).trans hto₅)
      eligible := heligible
      inspected := (hinspected.later hto₅).sooner (List.nil_suffix ..)
      fetched := ⟨hle₆.trans hto₉, result, hran.sooner (List.nil_suffix ..), hcode⟩
      verified := hverified.later hto₉
      localHead := (hverified.localHead hlocal).later hto₉
      issues := hissues }
  refine (removeCheckouts_yields (fun h₉ hle₉ head hhead _ => ?_)
    (fun h₉ hle₉ hlocal _ => ?_)).bind fun _ _ _ _ => Yields.ret trivial
  · have hlocal := hinspected.localHead (by simp [hhead])
    exact ⟨known, hcleared h₉ hle₉ hlocal (.inl ⟨head, hhead, rfl⟩)⟩
  · exact ⟨known, hcleared h₉ hle₉ hlocal (.inr rfl)⟩

theorem closeout_cleared {request : CloseoutRequest} {result : Except CloseoutError CloseoutResult}
    {o : Op} (hrun : Runs recording [] (closeoutWorkflow platform cwd request).run result h)
    (hissued : Issued [] h earlier o) (hdestroys : Destroys o) :
    ∃ known, Cleared platform known earlier o :=
  closeoutWorkflow_yields.issued hrun hissued hdestroys

-- -----
-- A head branch without a worktree
-- -----

def asciiPlatform : Platform := ⟨lit "/repo", fun _ => none, fun text => text.map asciiLower⟩

def mergedPullRequest : Str :=
  lit "\x7b\"state\":\"MERGED\",\"mergedAt\":\"2026\",\"mergeCommit\":\x7b\"oid\":\"abc\"\x7d," ++
  lit "\"url\":\"https://github.com/o/r/pull/1\",\"headRefName\":\"feature\"," ++
  lit "\"headRefOid\":\"abc\",\"baseRefName\":\"main\",\"isCrossRepository\":false\x7d"

def printing (text : Str) : Option ExecResult := some ⟨text, [], 0, false⟩

/-- A repository whose one worktree is on `main`, with a local branch `feature`. -/
def oneWorktree : CommandHistory → (o : Op) → Res o
  | _, .exec command args _ _ =>
    if command = lit "gh" then printing mergedPullRequest
    else if args = [lit "rev-parse", lit "--show-toplevel"] then printing (lit "/repo")
    else if args = [lit "remote"] then printing (lit "origin")
    else if args.head? = some (lit "remote") then printing (lit "git@github.com:o/r.git")
    else if args = listArgs then printing (lit "worktree /repo\nbranch refs/heads/main\n")
    else if args = currentBranchArgs then printing (lit "main")
    else if args = headOidArgs (lit "feature") then printing (lit "abc")
    else printing []
  | _, .existsSync _ => true
  | _, .realpath path => some path
  | _, .lock _ => .acquired

def firstPullRequest : CloseoutRequest := ⟨some (lit "1"), none⟩

def oneWorktreeRun : Except CloseoutError CloseoutResult × CommandHistory :=
  (closeoutWorkflow asciiPlatform (lit "/repo") firstPullRequest).run.answered oneWorktree []

def deletesFeature : Op :=
  .exec git (deleteRefArgs (lit "refs/heads/feature") (lit "abc")) (lit "/repo") 30000

/-- GitHub names the head `feature`, and git prints `main` for every checkout. -/
def onlyMain (entry : (o : Op) × Res o) : Bool :=
  match entry with
  | ⟨.exec command args _ _, some result⟩ =>
    (if command = lit "gh" then
      match decodePullRequest result.stdout with
      | .ok pr => pr.headRefName == lit "feature"
      | .error _ => true
    else true) &&
    (if args = currentBranchArgs then trim result.stdout == lit "main" else true)
  | _ => true

theorem oneWorktreeRun_deletes : ∃ result h earlier,
    Runs recording [] (closeoutWorkflow asciiPlatform (lit "/repo") firstPullRequest).run result h ∧
      Issued [] h earlier deletesFeature ∧ earlier.all onlyMain = true := by
  have hrun : Runs recording [] (closeoutWorkflow asciiPlatform (lit "/repo") firstPullRequest).run
      oneWorktreeRun.1 oneWorktreeRun.2 := Prog.answered_runs ..
  have hlast : (match oneWorktreeRun.2 with
      | ⟨o, _⟩ :: earlier => decide (o = deletesFeature) && earlier.all onlyMain
      | [] => false) = true := by
    decide +kernel
  generalize oneWorktreeRun.1 = result at hrun
  generalize oneWorktreeRun.2 = h at hrun hlast
  cases h with
  | nil => exact absurd hlast nofun
  | cons entry earlier =>
    obtain ⟨o, r⟩ := entry
    simp only [Bool.and_eq_true, decide_eq_true_eq] at hlast
    obtain ⟨rfl, honly⟩ := hlast
    exact ⟨result, _, earlier, hrun, ⟨List.nil_suffix .., r, List.suffix_refl _⟩, honly⟩

theorem closeout_cleared_oneWorktree :
    ∃ earlier known, Cleared asciiPlatform known earlier deletesFeature := by
  obtain ⟨result, h, earlier, hrun, hissued, -⟩ := oneWorktreeRun_deletes
  exact ⟨earlier, closeout_cleared hrun hissued ⟨rfl, by decide⟩⟩

theorem Answered.mem {o : Op} {r : Res o} (ha : Answered h h' o r) : ⟨o, r⟩ ∈ h' :=
  let ⟨_, _, hsuffix⟩ := ha
  hsuffix.subset (List.mem_cons_self ..)

theorem unobserved_branch_deleted :
    ¬ ∀ (platform : Platform) (cwd : Str) (request : CloseoutRequest)
      (result : Except CloseoutError CloseoutResult) (h earlier : CommandHistory) (o : Op),
      Runs recording [] (closeoutWorkflow platform cwd request).run result h →
        Issued [] h earlier o → Destroys o →
          ∃ known head, Cleared platform known earlier o ∧
            Observed [] earlier head known.resolved.pr.headRefName := by
  intro hclaim
  obtain ⟨result, h, earlier, hrun, hissued, honly⟩ := oneWorktreeRun_deletes
  obtain ⟨known, head, hcleared, hobserved⟩ := hclaim _ _ _ result h earlier _ hrun hissued
    ⟨rfl, by decide⟩
  obtain ⟨cwd, requested, viewed, hviewed, -, hdecoded⟩ := hcleared.viewed.viewed
  obtain ⟨shown, hshown, -, htrim⟩ := hobserved.branch
  have hhead := List.all_eq_true.mp honly _ (Answered.mem hviewed.answered)
  have hmain := List.all_eq_true.mp honly _ (Answered.mem hshown.answered)
  simp only [onlyMain, hdecoded, if_true, Bool.and_eq_true, beq_iff_eq] at hhead
  simp only [onlyMain, if_true, Bool.and_eq_true, beq_iff_eq] at hmain
  have hsame : lit "main" = lit "feature" := hmain.2.symm.trans (htrim.trans hhead.1)
  exact absurd hsame (by decide)

end PiEnv.DevTools.Closeout
