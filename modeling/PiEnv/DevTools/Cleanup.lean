import PiEnv.DevTools.Worktrees
import PiEnv.Lib.History
import PiEnv.Lib.PosixPath

/-!
# Cleanup of merged worktrees and branches

The plan is built from what git answers, and then applied. Nothing is known of
git: each command may print anything, fail, or time out.
-/

namespace PiEnv.DevTools.Cleanup

open Js
open Effects

-- -----
-- Git
-- -----

structure GitResult where
  /-- `none` for a command that was killed or did not start. -/
  status : Option Int
  stdout : Str
  stderr : Str
deriving DecidableEq, Repr

inductive Op where
  /-- No timeout: the default one. -/
  | gitSync (cwd : Str) (args : List Str) (timeout : Option Nat)
  | existsSync (path : Str)
deriving DecidableEq

abbrev Res : Op → Type
  | .gitSync .. => GitResult
  | .existsSync _ => Bool

abbrev Git := Prog Op Res

def gitSync (cwd : Str) (args : List Str) (timeout : Option Nat) : Git GitResult :=
  call (Op.gitSync cwd args timeout)

def succeeded (result : GitResult) : Bool := result.status == some 0

/-- What `gitOutput` makes of the answer to its command. -/
def output (result : GitResult) : Str := if succeeded result then trim result.stdout else []

def gitOutput (cwd : Str) (args : List Str) : Git Str := output <$> gitSync cwd args none

def firstLine (text : Str) : Str :=
  (((split [LF] text).find? fun line => trim line ≠ []).map trim).getD (lit "unknown error")

/-- `result.stderr || result.stdout` -/
def complaint (result : GitResult) : Str :=
  if result.stderr = [] then result.stdout else result.stderr

-- -----
-- The plan
-- -----

inductive CleanupDisposition where
  | safe
  | needsForce
  | skipped
deriving DecidableEq, Repr

inductive CleanupTargetKind where
  | worktree
  | branch
deriving DecidableEq, Repr

inductive DeleteMode where
  | safe
  | force
deriving DecidableEq, Repr

inductive MergeState where
  | merged
  | remoteGone
  | notMerged
deriving DecidableEq, Repr

structure CleanupOptions where
  apply : Bool
  force : Bool
  fetch : Bool
  baseRef : Option Str
  repoPath : Option Str
deriving DecidableEq, Repr

/-- What git answered to the questions about a target; no step reads it. -/
structure Answers where
  status : Option GitResult
  branch : GitResult
  head : Option GitResult
  remote : GitResult
deriving DecidableEq, Repr

structure CleanupTarget where
  kind : CleanupTargetKind
  branch : Str
  path : Option Str
  disposition : CleanupDisposition
  proof : List Str
  reason : Option Str
  deleteMode : Option DeleteMode
  /-- None where it was skipped before its merge state was asked for. -/
  answers : Option Answers
deriving DecidableEq, Repr

structure CleanupPlan where
  repoRoot : Str
  baseRef : Str
  currentBranch : Option Str
  protectedBranches : List Str
  targets : List CleanupTarget
  warnings : List Str
  /-- What git answered to `branch --show-current`; no step reads it. -/
  current : GitResult
  /-- What git answered to `worktree list`; no step reads it. -/
  listing : GitResult
deriving DecidableEq, Repr

-- -----
-- Questions
-- -----

def statusArgs : List Str := [lit "status", lit "--porcelain"]

def isDirty (status : GitResult) : Bool := (trim (output status)).length > 0

def ancestorArgs (maybeAncestor descendant : Str) : List Str :=
  [lit "merge-base", lit "--is-ancestor", maybeAncestor, descendant]

def isAncestor (cwd maybeAncestor descendant : Str) : Git GitResult :=
  gitSync cwd (ancestorArgs maybeAncestor descendant) none

def showRefArgs (ref : Str) : List Str := [lit "show-ref", lit "--verify", lit "--quiet", ref]

def branchRef (branch : Str) : Str := headsPrefix ++ branch

def remoteRef (branch : Str) : Str := lit "refs/remotes/origin/" ++ branch

def localBranchExists (repoRoot branch : Str) : Git Bool :=
  succeeded <$> gitSync repoRoot (showRefArgs (branchRef branch)) none

def remoteBranchExists (repoRoot branch : Str) : Git GitResult :=
  gitSync repoRoot (showRefArgs (remoteRef branch)) none

def resolveRepoRoot (cwd : Str) : ExceptT Str Git Str := do
  let root ← gitOutput cwd [lit "rev-parse", lit "--show-toplevel"]
  if root = [] then throw (cwd ++ lit " is not inside a git repository") else return root

def resolveDefaultBaseRef (repoRoot : Str) : Git Str := do
  let originHead ← gitOutput repoRoot
    [lit "symbolic-ref", lit "--quiet", lit "--short", lit "refs/remotes/origin/HEAD"]
  return if originHead = [] then lit "origin/main" else originHead

def listLocalBranches (repoRoot : Str) : Git (List Str) := do
  let refs ← gitOutput repoRoot [lit "for-each-ref", lit "--format=%(refname:short)", lit "refs/heads"]
  return ((split [LF] refs).map trim).filter (· ≠ [])

def samePath (processCwd a b : Str) : Bool := Posix.relative processCwd a b == []

-- -----
-- Classification
-- -----

def mergeState (branchMerged headMerged remoteGone : Bool) : MergeState :=
  if branchMerged || headMerged then .merged else if remoteGone then .remoteGone else .notMerged

/-- A question that is only asked where there is a worktree. -/
def atWorktree (path : Option Str) (question : Str → Git GitResult) : Git (Option GitResult) :=
  match path with
  | some path => if path = [] then return none else some <$> question path
  | none => return none

def Answers.branchMerged (answers : Answers) : Bool := succeeded answers.branch

def Answers.headMerged (answers : Answers) : Bool :=
  (answers.head.map succeeded).getD answers.branchMerged

def Answers.remoteGone (answers : Answers) : Bool := !succeeded answers.remote

/-- What the answers come to for a target that is not skipped before. -/
def classified (baseRef branch : Str) (path : Option Str) (kind : CleanupTargetKind)
    (answers : Answers) : CleanupTarget :=
  let proof :=
    (if answers.branchMerged then [branchRef branch ++ lit " is ancestor of " ++ baseRef] else []) ++
    (if answers.headMerged && named path then
      [lit "worktree HEAD is ancestor of " ++ baseRef] else []) ++
    (if answers.remoteGone then [lit "remote branch is gone after fetch --prune"] else [])
  match mergeState answers.branchMerged answers.headMerged answers.remoteGone with
  | .merged => ⟨kind, branch, path, .safe, proof, none, some .safe, some answers⟩
  | .remoteGone =>
    let reason := lit "remote branch is gone, but local commits are not ancestors of the base ref " ++
      lit "(common after squash merge)"
    ⟨kind, branch, path, .needsForce, proof, some reason, some .force, some answers⟩
  | .notMerged =>
    ⟨kind, branch, path, .skipped, proof, some (lit "not proven merged into " ++ baseRef), none,
      some answers⟩

def protectedReason : Str := lit "protected branch"

def classifyTarget (repoRoot baseRef branch : Str) (path : Option Str)
    (kind : CleanupTargetKind) : Git CleanupTarget :=
  if isProtectedBranch branch then
    return ⟨kind, branch, path, .skipped, [], some protectedReason, none, none⟩
  else do
    let status ← atWorktree path fun path => gitSync path statusArgs none
    if status.any isDirty then
      return ⟨kind, branch, path, .skipped, [], some (lit "worktree has uncommitted changes"), none,
        none⟩
    else do
      let branchAnswer ← isAncestor repoRoot (branchRef branch) baseRef
      let headAnswer ← atWorktree path fun path => isAncestor path (lit "HEAD") baseRef
      let remoteAnswer ← remoteBranchExists repoRoot branch
      return classified baseRef branch path kind ⟨status, branchAnswer, headAnswer, remoteAnswer⟩

def detachedTarget (path : Str) : CleanupTarget :=
  ⟨.worktree, lit "(detached)", some path, .skipped, [], some (lit "detached worktree"), none, none⟩

def classifyWorktree (repoRoot baseRef : Str) (entry : WorktreeEntry) : Git CleanupTarget :=
  match entry.branch with
  | some branch =>
    if branch = [] then return detachedTarget entry.path
    else classifyTarget repoRoot baseRef branch (some entry.path) .worktree
  | none => return detachedTarget entry.path

def classifyWorktrees (processCwd repoRoot baseRef : Str) :
    List WorktreeEntry → Git (List CleanupTarget)
  | [] => return []
  | entry :: entries => do
    if samePath processCwd entry.path repoRoot then
      classifyWorktrees processCwd repoRoot baseRef entries
    else
      let target ← classifyWorktree repoRoot baseRef entry
      return target :: (← classifyWorktrees processCwd repoRoot baseRef entries)

def classifyBranches (repoRoot baseRef : Str) (activeBranches : List Str)
    (currentBranch : Option Str) : List Str → Git (List CleanupTarget)
  | [] => return []
  | branch :: branches => do
    if branch ∈ activeBranches ∨ some branch = currentBranch then
      classifyBranches repoRoot baseRef activeBranches currentBranch branches
    else
      let target ← classifyTarget repoRoot baseRef branch none .branch
      let targets ← classifyBranches repoRoot baseRef activeBranches currentBranch branches
      return if target.disposition = .skipped ∧ target.reason = some protectedReason then targets
        else target :: targets

def fetchWarnings (repoRoot : Str) (options : CleanupOptions) : Git (List Str) :=
  if options.fetch then do
    let fetched ← gitSync repoRoot [lit "fetch", lit "--prune", lit "origin"] (some 30000)
    return if succeeded fetched then []
      else [lit "git fetch --prune origin failed: " ++ firstLine (complaint fetched)]
  else return []

def buildCleanupPlan (processCwd cwd : Str) (options : CleanupOptions) :
    ExceptT Str Git CleanupPlan := do
  let repoRoot ← resolveRepoRoot (options.repoPath.getD cwd)
  let baseRef ← (match options.baseRef with
    | some baseRef => return baseRef
    | none => resolveDefaultBaseRef repoRoot : Git Str)
  let current ← gitSync repoRoot [lit "branch", lit "--show-current"] none
  let currentBranch := if output current = [] then none else some (output current)
  let warnings ← fetchWarnings repoRoot options
  let listing ← gitSync repoRoot [lit "worktree", lit "list", lit "--porcelain"] none
  let worktrees := parseWorktreePorcelain (output listing)
  let activeBranches := (worktrees.filterMap (·.branch)).filter (· ≠ [])
  let worktreeTargets ← classifyWorktrees processCwd repoRoot baseRef worktrees
  let branches ← listLocalBranches repoRoot
  let branchTargets ← classifyBranches repoRoot baseRef activeBranches currentBranch branches
  return ⟨repoRoot, baseRef, currentBranch, PROTECTED_BRANCHES, worktreeTargets ++ branchTargets,
    warnings, current, listing⟩

-- -----
-- Application
-- -----

def removeArgs (path : Str) : List Str := [lit "worktree", lit "remove", path]

def deleteFlagForDisposition : CleanupDisposition → Str
  | .safe => lit "-d"
  | .needsForce | .skipped => lit "-D"

def deleteArgs (flag branch : Str) : List Str := [lit "branch", flag, branch]

def removeWorktrees (repoRoot : Str) : List CleanupTarget → ExceptT Str Git (List Str)
  | [] => return []
  | target :: targets =>
    match target.path with
    | none => removeWorktrees repoRoot targets
    | some path =>
      if path = [] then removeWorktrees repoRoot targets
      else do
        let there ← (call (Op.existsSync path) : Git Bool)
        if there then
          let result ← gitSync repoRoot (removeArgs path) (some 30000)
          if succeeded result then
            return (lit "removed worktree " ++ path) :: (← removeWorktrees repoRoot targets)
          else throw (lit "failed to remove worktree " ++ path ++ lit ": " ++ complaint result)
        else removeWorktrees repoRoot targets

def deleteBranches (repoRoot : Str) (deletedBranches : List Str) :
    List CleanupTarget → ExceptT Str Git (List Str)
  | [] => return []
  | target :: targets =>
    if target.branch ∈ deletedBranches then deleteBranches repoRoot deletedBranches targets
    else do
      let there ← localBranchExists repoRoot target.branch
      if there then
        let result ← gitSync repoRoot
          (deleteArgs (deleteFlagForDisposition target.disposition) target.branch) (some 30000)
        if succeeded result then
          let actions ← deleteBranches repoRoot (target.branch :: deletedBranches) targets
          return (lit "deleted branch " ++ target.branch) :: actions
        else throw (lit "failed to delete branch " ++ target.branch ++ lit ": " ++ complaint result)
      else deleteBranches repoRoot deletedBranches targets

def removable (options : CleanupOptions) (target : CleanupTarget) : Bool :=
  target.disposition = .safe || (options.force && target.disposition = .needsForce)

def applyCleanupPlan (plan : CleanupPlan) (options : CleanupOptions) : ExceptT Str Git (List Str) :=
  if options.apply then do
    let targets := plan.targets.filter (removable options)
    let removed ← removeWorktrees plan.repoRoot (targets.filter (·.kind = .worktree))
    let deleted ← deleteBranches plan.repoRoot [] targets
    return removed ++ deleted
  else return []

end PiEnv.DevTools.Cleanup
