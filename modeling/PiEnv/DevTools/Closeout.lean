import PiEnv.DevTools.Worktrees
import PiEnv.Lib.History
import PiEnv.Lib.JsonText
import PiEnv.Lib.PosixPath
import Mathlib.Data.List.Sort

/-!
# Closeout of a merged pull request

The workflow over the commands it runs. Each command may print anything, fail,
be killed or not start at all.
-/

namespace PiEnv.DevTools.Closeout

open Js
open Effects

-- -----
-- Commands
-- -----

structure Url where
  protocol : Str
  hostname : Str
  pathname : Str
deriving DecidableEq, Repr

/-- What the workflow uses of its process and of its platform. -/
structure Platform where
  processCwd : Str
  newURL : Str → Option Url
  toLowerCase : Str → Str

structure ExecResult where
  stdout : Str
  stderr : Str
  code : Int
  killed : Bool
deriving DecidableEq, Repr

inductive LockAnswer where
  | acquired
  | failed (code : Option Str)
deriving DecidableEq, Repr

inductive Op where
  | exec (command : Str) (args : List Str) (cwd : Str) (timeout : Nat)
  | existsSync (path : Str)
  | realpath (path : Str)
  | lock (commonDir : Str)
deriving DecidableEq

/-- A command that is not run rejects, and a path that cannot be resolved throws. -/
abbrev Res : Op → Type
  | .exec .. => Option ExecResult
  | .existsSync _ => Bool
  | .realpath _ => Option Str
  | .lock _ => LockAnswer

structure CloseoutError where
  message : Str
  /-- `error.cause.code`, where there is one. -/
  causeCode : Option Str
deriving DecidableEq, Repr

abbrev Effect := Prog Op Res

abbrev Script := ExceptT CloseoutError Effect

def closeoutFailure (message : Str) : CloseoutError := ⟨message, none⟩

def ensure (condition : Bool) (message : Str) : Script Unit :=
  if condition then return () else throw (closeoutFailure message)

/-- `if (value) ...`, of what may be missing. -/
def whenSome {α : Type} (value : Option α) (effect : α → Script Unit) : Script Unit :=
  match value with
  | some value => effect value
  | none => return ()

def whenTrue (condition : Bool) (effect : Script Unit) : Script Unit :=
  if condition then effect else return ()

def defaultTimeout : Nat := 120000

/-- `result.stderr || result.stdout` -/
def complaint (result : ExecResult) : Str :=
  if result.stderr = [] then result.stdout else result.stderr

def run (command : Str) (args : List Str) (cwd : Str) (timeout : Nat) (failOnNonZero : Bool) :
    Script ExecResult := do
  let answer ← (call (Op.exec command args cwd timeout) : Effect (Option ExecResult))
  let rendered := join [space] (command :: args)
  match answer with
  | none => throw (closeoutFailure (rendered ++ lit " failed."))
  | some result =>
    if result.killed then
      throw (closeoutFailure (rendered ++ lit " was terminated: " ++ complaint result))
    else if failOnNonZero = false ∨ result.code = 0 then return result
    else throw (closeoutFailure
      (rendered ++ lit " exited " ++ decimalInt result.code ++ lit ": " ++ complaint result))

def git : Str := lit "git"

def gitText (cwd : Str) (args : List Str) : Script Str := do
  let result ← run git args cwd defaultTimeout true
  return trim result.stdout

def gitExit (cwd : Str) (args : List Str) : Script Int := do
  let result ← run git args cwd defaultTimeout false
  return result.code

/-- `Effect.retry` with a number of times, while the error asks for it. -/
def retry {α : Type} (again : CloseoutError → Bool) (effect : Script α) : Nat → Script α
  | 0 => effect
  | times + 1 => tryCatch effect fun error =>
      if again error then retry again effect times else throw error

def lockRetryTimes : Nat := 480

def mapError {α : Type} (f : CloseoutError → CloseoutError) (effect : Script α) : Script α :=
  tryCatch effect fun error => throw (f error)

-- -----
-- Locks
-- -----

def isCloseoutLockBusy (error : CloseoutError) : Bool := error.causeCode == some (lit "ELOCKED")

def tryCloseoutLock (commonDir : Str) : Script Unit := do
  let answer ← (call (Op.lock commonDir) : Effect LockAnswer)
  match answer with
  | .acquired => return ()
  | .failed code =>
    throw ⟨lit "Could not acquire closeout lock for " ++ commonDir ++ lit ".", code⟩

def acquireCloseoutLock (commonDir : Str) : Script Unit :=
  mapError (fun error =>
    if isCloseoutLockBusy error then
      closeoutFailure (lit "Timed out waiting for another closeout in " ++ commonDir ++
        lit " after 120 seconds.")
    else error)
    (retry isCloseoutLockBusy (tryCloseoutLock commonDir) lockRetryTimes)

def asciiLower (u : UInt16) : UInt16 := if 65 ≤ u && u ≤ 90 then u + 32 else u

/-- `/Unable to create '[^\n]*[/\\]index\.lock': File exists\./i` -/
def isIndexLockBusy (error : CloseoutError) : Bool :=
  (split [LF] (error.message.map asciiLower)).any fun line => line.tails.any fun rest =>
    (lit "unable to create '").isPrefixOf rest &&
      let named := rest.drop (lit "unable to create '").length
      includes named (lit "/index.lock': file exists.") ||
        includes named (lit "\\index.lock': file exists.")

-- -----
-- Pull requests
-- -----

structure PullRequest where
  state : Str
  mergedAt : Option Str
  mergeCommit : Option Str
  url : Str
  headRefName : Str
  headRefOid : Str
  baseRefName : Str
  isCrossRepository : Bool
deriving DecidableEq, Repr

def stringField (fields : List (Str × Json)) (key : Str) : Option Str :=
  match field fields key with
  | some (.str value) => some value
  | _ => none

/-- `Schema.NullOr` of what is read of the value. -/
def nullOr {α : Type} (value : Option Json) (read : Json → Option α) : Option (Option α) :=
  match value with
  | some .null => some none
  | some value => (read value).map some
  | none => none

def decodeFields (fields : List (Str × Json)) : Option PullRequest := do
  let state ← stringField fields (lit "state")
  let mergedAt ← nullOr (field fields (lit "mergedAt")) fun value =>
    match value with
    | .str text => some text
    | _ => none
  let mergeCommit ← nullOr (field fields (lit "mergeCommit")) fun value =>
    match value with
    | .obj commit => stringField commit (lit "oid")
    | _ => none
  let url ← stringField fields (lit "url")
  let headRefName ← stringField fields (lit "headRefName")
  let headRefOid ← stringField fields (lit "headRefOid")
  let baseRefName ← stringField fields (lit "baseRefName")
  match field fields (lit "isCrossRepository") with
  | some (.bool isCrossRepository) =>
    return ⟨state, mergedAt, mergeCommit, url, headRefName, headRefOid, baseRefName,
      isCrossRepository⟩
  | _ => none

def decodePullRequest (raw : Str) : Except CloseoutError PullRequest :=
  match parse (if raw = [] then lit "\x7b\x7d" else raw) with
  | none => .error (closeoutFailure (lit "GitHub returned invalid pull request JSON."))
  | some value =>
    match (match value with
      | .obj fields => decodeFields fields
      | _ => none) with
    | some pr => .ok pr
    | none => .error (closeoutFailure (lit "GitHub returned incomplete pull request metadata."))

structure GitHubPullRequestReference where
  owner : Str
  repo : Str
  number : Nat
  url : Str
deriving DecidableEq, Repr

def isAlphanumeric (u : UInt16) : Bool :=
  isDigit u || (65 ≤ u && u ≤ 90) || (97 ≤ u && u ≤ 122)

/-- `[A-Za-z0-9](?:[A-Za-z0-9._-]{0,98}[A-Za-z0-9])?` -/
def isGithubName (name : Str) : Bool :=
  name.length ≤ 100 && name.head?.any isAlphanumeric && name.getLast?.any isAlphanumeric &&
    name.all fun u => isAlphanumeric u || u == 46 || u == 95 || u == 45

/-- `[1-9][0-9]{0,9}` -/
def isPullRequestNumber (digits : Str) : Bool :=
  digits.all isDigit && digits.length ≤ 10 && digits.head?.any (· != 48)

def githubUrl : Str := lit "https://github.com/"

def pullRequestUrl (owner repo digits : Str) : Str :=
  githubUrl ++ owner ++ lit "/" ++ repo ++ lit "/pull/" ++ digits

def parseGitHubPullRequestUrl (value : Str) : Option GitHubPullRequestReference :=
  if githubUrl.isPrefixOf value then
    match split [Posix.slash] (value.drop githubUrl.length) with
    | owner :: repo :: pull :: rest =>
      let tail := join [Posix.slash] rest
      let digits := tail.takeWhile isDigit
      let after := tail.dropWhile isDigit
      let ends := after = [] ∨ after.head?.any (fun u => u == 47 || u == 63 || u == 35) = true ∧
        after.tail.all (fun u => !isLineTerminator u) = true
      if isGithubName owner && isGithubName repo && pull == lit "pull" && isPullRequestNumber digits &&
          rest ≠ [] && ends then
        some ⟨owner, repo, digitsValue digits, pullRequestUrl owner repo digits⟩
      else none
    | _ => none
  else none

def normalizePullRequestReference (value : Str) : Option Str :=
  if isPullRequestNumber value then some value else (parseGitHubPullRequestUrl value).map (·.url)

def pullRequestFields : Str :=
  lit "state,mergedAt,mergeCommit,url,headRefName,headRefOid,baseRefName,isCrossRepository"

def viewArgs (requested repository : Str) : List Str :=
  [lit "pr", lit "view", requested, lit "--repo", lit "github.com/" ++ repository, lit "--json",
    pullRequestFields]

def loadPullRequest (cwd requested repository : Str) : Script PullRequest := do
  let result ← run (lit "gh") (viewArgs requested repository) cwd defaultTimeout true
  match decodePullRequest result.stdout with
  | .ok pr => return pr
  | .error error => throw error

-- -----
-- Remotes
-- -----

section
variable (platform : Platform)

structure GitRemoteRepository where
  host : Str
  repository : Str
  resolvesSshAlias : Bool
deriving DecidableEq, Repr

def normalizeRepositoryPath (value : Str) : Option Str :=
  let path := if value.head? = some Posix.slash then value.tail else value
  let path := if (lit ".git").isSuffixOf path then path.dropLast.dropLast.dropLast.dropLast else path
  match split [Posix.slash] path with
  | [owner, repo] => if owner ≠ [] ∧ repo ≠ [] then some (platform.toLowerCase path) else none
  | _ => none

/-- `([^:/]+):(.+)$`, from the beginning. -/
def scpHost (value : Str) : Option (Str × Str) :=
  let host := value.takeWhile fun u => u != 58 && u != 47
  match value.dropWhile fun u => u != 58 && u != 47 with
  | 58 :: path =>
    if host ≠ [] ∧ path ≠ [] ∧ path.all (fun u => !isLineTerminator u) = true then some (host, path)
    else none
  | _ => none

/-- `/^(?:[^@]+@)?([^:/]+):(.+)$/` -/
def scpMatch (value : Str) : Option (Str × Str) :=
  let user := value.takeWhile (· != 64)
  match value.dropWhile (· != 64) with
  | 64 :: rest => if user ≠ [] then (scpHost rest).or (scpHost value) else scpHost value
  | _ => scpHost value

def parseGitRemoteRepository (value : Str) : Option GitRemoteRepository :=
  let trimmed := trim value
  if includes trimmed (lit "://") then do
    let url ← platform.newURL trimmed
    let repository ← normalizeRepositoryPath platform url.pathname
    let protocol := platform.toLowerCase url.protocol
    return ⟨platform.toLowerCase url.hostname, repository,
      protocol == lit "ssh:" || protocol == lit "git+ssh:"⟩
  else do
    let (host, path) ← scpMatch trimmed
    let repository ← normalizeRepositoryPath platform path
    return ⟨platform.toLowerCase host, repository, true⟩

/-- `/^hostname\s+(\S+)$/i` -/
def hostnameLine (line : Str) : Option Str :=
  let key := line.takeWhile fun u => !isSpace u
  let value := (line.dropWhile fun u => !isSpace u).dropWhile isSpace
  if key.map asciiLower = lit "hostname" ∧ value ≠ [] ∧ value.all (fun u => !isSpace u) = true then
    some value
  else none

def sshConfigHostname (raw : Str) : Option Str :=
  (((split [LF] raw).filterMap fun line => hostnameLine (trim line)).head?).map platform.toLowerCase

def githubHost : Str := lit "github.com"

def githubRepositoryFromRemote (cwd value : Str) : Script (Option Str) :=
  match parseGitRemoteRepository platform value with
  | none => return none
  | some remote =>
    if remote.host = githubHost then return some remote.repository
    else if remote.resolvesSshAlias then do
      let result ← run (lit "ssh") [lit "-G", lit "--", remote.host] cwd defaultTimeout false
      return if result.code = 0 ∧ sshConfigHostname platform result.stdout = some githubHost then
        some remote.repository else none
    else return none

structure Candidate where
  name : Str
  repository : Str
  urls : List Str
deriving DecidableEq, Repr

def urlCandidates (cwd name : Str) (urls : List Str) : List Str → Script (List Candidate)
  | [] => return []
  | url :: rest => do
    let repository ← githubRepositoryFromRemote platform cwd url
    let candidates ← urlCandidates cwd name urls rest
    return (repository.map fun repository => ⟨name, repository, urls⟩).toList ++ candidates

def remoteCandidates (cwd : Str) : List Str → Script (List Candidate)
  | [] => return []
  | name :: names => do
    let text ← gitText cwd [lit "remote", lit "get-url", lit "--all", name]
    let urls := ((split [LF] text).filter (· ≠ [])).eraseDups
    ensure (urls ≠ []) (lit "Remote " ++ name ++ lit " has no effective fetch URL.")
    let candidates ← urlCandidates platform cwd name urls urls
    let others ← remoteCandidates cwd names
    return candidates ++ others

def remoteRank (name : Str) : Nat :=
  if name = lit "origin" then 0 else if name = lit "github" then 1 else 2

/-- Of two candidates, the left one is not behind the right one. -/
def inOrder (left right : Candidate) : Bool :=
  remoteRank left.name < remoteRank right.name ||
    remoteRank left.name == remoteRank right.name && !decide (right.name < left.name)

structure Remote where
  name : Str
  repository : Str
deriving DecidableEq, Repr

def selectGitHubRemote (cwd : Str) (requestedRepository : Option Str) : Script Remote := do
  let text ← gitText cwd [lit "remote"]
  let candidates ← remoteCandidates platform cwd ((split [LF] text).filter (· ≠ []))
  let matched := match requestedRepository with
    | some requested => candidates.filter (·.repository = requested)
    | none => candidates
  ensure (matched ≠ []) (match requestedRepository with
    | some requested => lit "No configured GitHub fetch remote matches " ++ requested ++
        lit ". Configure a matching remote before closeout."
    | none => lit "No configured GitHub fetch remote found. " ++
        lit "Configure a GitHub remote before closeout.")
  ensure ((matched.map (·.repository)).eraseDups.length = 1)
    (lit "Multiple GitHub repositories are configured. " ++
      lit "Pass an explicit GitHub PR URL to select one.")
  match matched.insertionSort fun left right => inOrder left right = true with
  | [] => throw (closeoutFailure [])
  | selected :: _ =>
    ensure (selected.urls.length = 1)
      (lit "Remote " ++ selected.name ++ lit " has multiple distinct effective fetch URLs. " ++
        lit "Configure one fetch URL before closeout.")
    let code ← gitExit cwd
      [lit "check-ref-format", lit "refs/remotes/" ++ selected.name ++ lit "/closeout-check"]
    ensure (code = 0) (lit "Remote " ++ selected.name ++
      lit " has an invalid tracking namespace. Rename it before closeout.")
    return ⟨selected.name, selected.repository⟩

def repositoryOf (reference : GitHubPullRequestReference) : Str :=
  platform.toLowerCase (reference.owner ++ lit "/" ++ reference.repo)

structure Resolved where
  pr : PullRequest
  parsedUrl : GitHubPullRequestReference
  repoRoot : Str
  remote : Remote
deriving DecidableEq, Repr

def normalizeRequested : Option Str → Script (Option Str)
  | none => return none
  | some raw =>
    match normalizePullRequestReference raw with
    | some requested => return some requested
    | none => throw (closeoutFailure (lit "Expected a PR number or GitHub PR URL."))

/-- `requestedUrl?.number ?? (requested ? Number(requested) : undefined)` -/
def requestedNumber (requested : Option Str) : Option Nat :=
  requested.map fun requested =>
    match parseGitHubPullRequestUrl requested with
    | some url => url.number
    | none => digitsValue requested

def currentBranchArgs : List Str := [lit "branch", lit "--show-current"]

def lookupReferenceOf (lookupCwd : Str) : Option Str → Script Str
  | some requested => return requested
  | none => gitText lookupCwd currentBranchArgs

def resolvePullRequest (lookupCwd : Str) (rawRequested : Option Str) : Script Resolved := do
  let requested ← normalizeRequested rawRequested
  let requestedUrl := requested.bind parseGitHubPullRequestUrl
  let repoRoot ← gitText lookupCwd [lit "rev-parse", lit "--show-toplevel"]
  let remote ← selectGitHubRemote platform repoRoot (requestedUrl.map (repositoryOf platform))
  let lookupReference ← lookupReferenceOf lookupCwd requested
  ensure (lookupReference ≠ []) (lit "Cannot resolve a PR from a detached checkout. " ++
    lit "Pass a PR number or GitHub PR URL.")
  let pr ← loadPullRequest lookupCwd lookupReference remote.repository
  match parseGitHubPullRequestUrl pr.url with
  | none => throw (closeoutFailure (lit "GitHub returned an invalid pull request URL."))
  | some parsedUrl =>
    ensure (repositoryOf platform parsedUrl = remote.repository)
      (lit "GitHub returned a pull request outside the selected repository " ++ remote.repository ++
        lit ".")
    ensure ((requestedNumber requested).all (· = parsedUrl.number))
      (lit "GitHub returned a different pull request than requested (" ++
        ((requestedNumber requested).map fun number => decimal number).getD (lit "undefined") ++
          lit ").")
    return ⟨pr, parsedUrl, repoRoot, remote⟩

-- -----
-- Worktrees
-- -----

def canonicalPath (path : Str) : Effect Str := do
  let resolved ← (call (Op.realpath path) : Effect (Option Str))
  return resolved.getD (Posix.resolve platform.processCwd path)

def pathContains (root candidate : Str) : Effect Bool := do
  let canonicalRoot ← canonicalPath platform root
  let canonicalCandidate ← canonicalPath platform candidate
  let path := Posix.relative platform.processCwd canonicalRoot canonicalCandidate
  return path == [] || (!(lit "..").isPrefixOf path && !Posix.isAbsolute path)

def samePath (left right : Str) : Effect Bool := do
  let canonicalLeft ← canonicalPath platform left
  let canonicalRight ← canonicalPath platform right
  return canonicalLeft == canonicalRight

def findWorktree (worktrees : List WorktreeEntry) (branch : Str) : Option WorktreeEntry :=
  worktrees.find? (·.branch = some branch)

def statusArgs : List Str := [lit "status", lit "--porcelain"]

def isDirty (cwd : Str) : Script Bool := do
  let status ← gitText cwd statusArgs
  return status.length > 0

def verifyWorktree (worktree : WorktreeEntry) (expectedBranch label : Str) : Script Unit := do
  let exist ← (call (Op.existsSync worktree.path) : Effect Bool)
  ensure exist (label ++ lit " worktree is missing: " ++ worktree.path)
  let branch ← gitText worktree.path currentBranchArgs
  ensure (branch = expectedBranch)
    (label ++ lit " worktree is not on branch " ++ expectedBranch ++ lit ": " ++ worktree.path)
  let dirty ← isDirty worktree.path
  ensure (!dirty) (label ++ lit " worktree has uncommitted changes: " ++ worktree.path)

def localRef (branch : Str) : Str := headsPrefix ++ branch

def headOidArgs (branch : Str) : List Str := [lit "rev-parse", localRef branch ++ lit "^\x7bcommit\x7d"]

def verifyLocalHead (cwd branch expectedOid : Str) : Script Unit := do
  let oid ← gitText cwd (headOidArgs branch)
  ensure (oid = expectedOid)
    (lit "Local branch " ++ branch ++ lit " does not match the merged PR head.")

def showRefArgs (ref : Str) : List Str := [lit "show-ref", lit "--verify", lit "--quiet", ref]

def refExists (cwd ref : Str) : Script Bool := do
  let code ← gitExit cwd (showRefArgs ref)
  return code = 0

-- -----
-- The workflow
-- -----

def truthy (text : Option Str) : Bool := text.any (· ≠ [])

def verifyMerged (pr : PullRequest) : Script Unit := do
  ensure (pr.state = lit "MERGED" && truthy pr.mergedAt && truthy pr.mergeCommit)
    (lit "Pull request " ++ pr.url ++ lit " is not merged.")
  ensure (!pr.isCrossRepository)
    (lit "Closeout does not delete local branches for fork pull requests.")
  ensure (pr.headRefName ≠ pr.baseRefName) (lit "The PR head branch matches its base branch.")
  ensure (!isProtectedBranch pr.headRefName)
    (lit "Refusing to delete protected branch " ++ pr.headRefName ++ lit ".")

structure Checkouts where
  worktrees : List WorktreeEntry
  base : WorktreeEntry
  head : Option WorktreeEntry
  localHeadExists : Bool
deriving DecidableEq, Repr

def headLabel : Str := lit "PR head"
def baseLabel : Str := lit "Base branch"

def verifyHeadWorktree (cwd : Str) (worktrees : List WorktreeEntry) (pr : PullRequest)
    (head : WorktreeEntry) : Script Unit := do
  whenSome worktrees.head? fun primary => do
    let same ← samePath platform head.path primary.path
    ensure (!same) (lit "Refusing to remove the repository's primary worktree: " ++ head.path)
  let contains ← pathContains platform head.path cwd
  ensure (!contains) (lit "Refusing to remove the worktree that contains " ++
    lit "the current Pi working directory: " ++ head.path)
  verifyWorktree head pr.headRefName headLabel

def listArgs : List Str := [lit "worktree", lit "list", lit "--porcelain"]

def inspectCheckouts (cwd repoRoot : Str) (pr : PullRequest) : Script Checkouts := do
  let listing ← gitText repoRoot listArgs
  let worktrees := parseWorktreePorcelain listing
  let head := findWorktree worktrees pr.headRefName
  match findWorktree worktrees pr.baseRefName with
  | none =>
    throw (closeoutFailure (lit "Base branch " ++ pr.baseRefName ++ lit " has no local worktree."))
  | some base =>
    whenSome head (verifyHeadWorktree platform cwd worktrees pr)
    verifyWorktree base pr.baseRefName baseLabel
    let localHeadExists ← refExists base.path (localRef pr.headRefName)
    whenTrue head.isSome
      (ensure localHeadExists (lit "Local branch " ++ pr.headRefName ++ lit " is missing."))
    whenTrue localHeadExists (verifyLocalHead base.path pr.headRefName pr.headRefOid)
    return ⟨worktrees, base, head, localHeadExists⟩

def fetchArgs (remote : Remote) : List Str :=
  [lit "fetch", lit "--prune", lit "--no-tags",
    lit "https://github.com/" ++ remote.repository ++ lit ".git",
    lit "+refs/heads/*:refs/remotes/" ++ remote.name ++ lit "/*"]

def remoteBaseRef (remote : Remote) (pr : PullRequest) : Str :=
  lit "refs/remotes/" ++ remote.name ++ lit "/" ++ pr.baseRefName

def ancestorArgs (maybeAncestor descendant : Str) : List Str :=
  [lit "merge-base", lit "--is-ancestor", maybeAncestor, descendant]

def fetchBase (remote : Remote) (checkouts : Checkouts) : Script Unit := do
  let _ ← run git (fetchArgs remote) checkouts.base.path 180000 true

/-- What is verified after the fetch. -/
def verifyFetched (pr : PullRequest) (remote : Remote) (checkouts : Checkouts) : Script Unit := do
  let base := checkouts.base.path
  let localBase ← refExists base (localRef pr.baseRefName)
  ensure localBase (lit "Local base branch " ++ pr.baseRefName ++ lit " is missing.")
  let remoteBase ← refExists base (remoteBaseRef remote pr)
  ensure remoteBase (lit "Remote base branch " ++ remote.name ++ lit "/" ++ pr.baseRefName ++
    lit " is missing after fetch.")
  let forward ← gitExit base (ancestorArgs (localRef pr.baseRefName) (remoteBaseRef remote pr))
  ensure (forward = 0) (lit "Local base branch " ++ pr.baseRefName ++
    lit " cannot fast-forward to " ++ remote.name ++ lit "/" ++ pr.baseRefName ++ lit ".")
  let present ← gitExit base
    (ancestorArgs (pr.mergeCommit.getD (lit "undefined")) (remoteBaseRef remote pr))
  ensure (present = 0) (lit "The merged PR commit is not present on " ++ remote.name ++ lit "/" ++
    pr.baseRefName ++ lit ".")
  whenSome checkouts.head fun head => verifyWorktree head pr.headRefName headLabel
  whenTrue checkouts.localHeadExists (verifyLocalHead base pr.headRefName pr.headRefOid)

def tryFastForward (pr : PullRequest) (remote : Remote) (checkouts : Checkouts) : Script Unit := do
  verifyWorktree checkouts.base pr.baseRefName baseLabel
  let _ ← run git [lit "merge", lit "--ff-only", remoteBaseRef remote pr] checkouts.base.path
    120000 true

def fastForward (pr : PullRequest) (remote : Remote) (checkouts : Checkouts) : Script Unit :=
  mapError (fun error =>
    if isIndexLockBusy error then
      closeoutFailure (lit "Timed out waiting for the Git index lock after 120 seconds. " ++
        error.message)
    else error)
    (retry isIndexLockBusy (tryFastForward pr remote checkouts) lockRetryTimes)

def removeArgs (path : Str) : List Str := [lit "worktree", lit "remove", path]

def deleteRefArgs (ref oid : Str) : List Str := [lit "update-ref", lit "-d", ref, oid]

def removeCheckouts (pr : PullRequest) (checkouts : Checkouts) : Script Unit := do
  whenSome checkouts.head fun head => do
    let _ ← run git (removeArgs head.path) checkouts.base.path 30000 true
  whenTrue checkouts.localHeadExists do
    let _ ← run git (deleteRefArgs (localRef pr.headRefName) pr.headRefOid) checkouts.base.path
      30000 true

structure CloseoutRequest where
  pr : Option Str
  repoPath : Option Str
deriving DecidableEq, Repr

structure CloseoutResult where
  prNumber : Nat
  prUrl : Str
  baseBranch : Str
  baseOid : Str
  headBranch : Str
  removedWorktree : Option Str
  deletedBranch : Bool
deriving DecidableEq, Repr

def closeoutWorkflow (cwd : Str) (request : CloseoutRequest) : Script CloseoutResult := do
  let lookupCwd := match request.repoPath with
    | some path => if path = [] then cwd
        else Posix.resolve (Posix.resolve platform.processCwd cwd) path
    | none => cwd
  let ⟨pr, parsedUrl, repoRoot, remote⟩ ← resolvePullRequest platform lookupCwd request.pr
  verifyMerged pr
  let commonDir ← gitText repoRoot
    [lit "rev-parse", lit "--path-format=absolute", lit "--git-common-dir"]
  acquireCloseoutLock commonDir
  let checkouts ← inspectCheckouts platform cwd repoRoot pr
  fetchBase remote checkouts
  verifyFetched pr remote checkouts
  fastForward pr remote checkouts
  let baseOid ← gitText checkouts.base.path [lit "rev-parse", lit "HEAD"]
  removeCheckouts pr checkouts
  return ⟨parsedUrl.number, parsedUrl.url, pr.baseRefName, baseOid, pr.headRefName,
    checkouts.head.map (·.path), checkouts.localHeadExists⟩

end

end PiEnv.DevTools.Closeout
