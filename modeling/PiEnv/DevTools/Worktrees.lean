import PiEnv.Lib.JsString

/-!
# Worktrees and protected branches

How a listing of worktrees is read, and which branches are never deleted.
-/

namespace PiEnv.DevTools

open Js

structure WorktreeEntry where
  path : Str
  head : Option Str
  branch : Option Str
  detached : Bool
deriving DecidableEq, Repr

/-- An entry whose end has not been read; `detached` of one is set, never read. -/
structure PartialEntry where
  path : Str
  head : Option Str
  branch : Option Str
deriving DecidableEq, Repr

def headsPrefix : Str := lit "refs/heads/"

/-- A branch counts as there when its name is not empty. -/
def named (branch : Option Str) : Bool := branch.any (· ≠ [])

def pushEntry (entries : List WorktreeEntry) : Option PartialEntry → List WorktreeEntry
  | some current =>
    if current.path = [] then entries
    else entries ++ [⟨current.path, current.head, current.branch, !named current.branch⟩]
  | none => entries

def porcelainLine (state : List WorktreeEntry × Option PartialEntry) (line : Str) :
    List WorktreeEntry × Option PartialEntry :=
  let (entries, current) := state
  if trim line = [] then (pushEntry entries current, none)
  else
    let key := (split [space] line).headD []
    let value := join [space] (split [space] line).tail
    if key = lit "worktree" then (pushEntry entries current, some ⟨value, none, none⟩)
    else if key = lit "HEAD" then (entries, current.map ({ · with head := some value }))
    else if key = lit "branch" then
      let branch := if headsPrefix.isPrefixOf value then value.drop headsPrefix.length else value
      (entries, current.map ({ · with branch := some branch }))
    else (entries, current)

def parseWorktreePorcelain (stdout : Str) : List WorktreeEntry :=
  let (entries, current) := (split [LF] stdout).foldl porcelainLine ([], none)
  pushEntry entries current

def PROTECTED_BRANCHES : List Str :=
  [lit "main", lit "master", lit "develop", lit "dev", lit "prod", lit "production"]

def isProtectedBranch (branch : Str) : Bool :=
  PROTECTED_BRANCHES.contains branch || (lit "release/").isPrefixOf branch

-- -----
-- What is read
-- -----

/-- An entry has a path, and is detached when it has no branch. -/
def WorktreeEntry.WellFormed (entry : WorktreeEntry) : Prop :=
  entry.path ≠ [] ∧ entry.detached = !named entry.branch

theorem pushEntry_wellFormed {entries : List WorktreeEntry} (current : Option PartialEntry)
    (h : ∀ entry ∈ entries, entry.WellFormed) :
    ∀ entry ∈ pushEntry entries current, entry.WellFormed := by
  intro entry hentry
  unfold pushEntry at hentry
  split at hentry
  · split at hentry
    · exact h entry hentry
    · rename_i hpath
      rcases List.mem_append.mp hentry with hold | hnew
      · exact h entry hold
      · rw [List.mem_singleton.mp hnew]
        exact ⟨hpath, rfl⟩
  · exact h entry hentry

theorem porcelainLine_wellFormed {state : List WorktreeEntry × Option PartialEntry} (line : Str)
    (h : ∀ entry ∈ state.1, entry.WellFormed) :
    ∀ entry ∈ (porcelainLine state line).1, entry.WellFormed := by
  unfold porcelainLine
  simp only
  split
  · exact pushEntry_wellFormed _ h
  · split
    · exact pushEntry_wellFormed _ h
    · split
      · exact h
      · split <;> exact h

theorem parseWorktreePorcelain_wellFormed (stdout : Str) :
    ∀ entry ∈ parseWorktreePorcelain stdout, entry.WellFormed := by
  have hlines : ∀ (lines : List Str) (state : List WorktreeEntry × Option PartialEntry),
      (∀ entry ∈ state.1, entry.WellFormed) →
        ∀ entry ∈ (lines.foldl porcelainLine state).1, entry.WellFormed := by
    intro lines
    induction lines with
    | nil => exact fun _ h => h
    | cons line lines ih => exact fun state h => ih _ (porcelainLine_wellFormed line h)
  exact pushEntry_wellFormed _ (hlines _ _ nofun)

end PiEnv.DevTools
