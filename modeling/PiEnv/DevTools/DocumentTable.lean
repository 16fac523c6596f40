import PiEnv.DevTools.DocumentSync

/-!
# The tables of open documents

The files of each project, the documents that are open and the order of their
last accesses, over every sequence of operations. The projects are those that a
backend finds.
-/

namespace PiEnv.DevTools

open Js

-- -----
-- Project roots
-- -----

/-- From `dir` on upwards; every turn leaves a shorter directory. -/
def findNearestRootMarker (existsSync : Str → Bool) (markers : List Str) : Nat → Str → Option Str
  | 0, _ => none
  | fuel + 1, dir =>
    if markers.any fun marker => existsSync (Posix.resolve dir marker) then some dir
    else
      let parent := Posix.dirname dir
      if parent = dir then none else findNearestRootMarker existsSync markers fuel parent

def isConfigMarker (marker : Str) : Bool := marker == lit "tsconfig.json" || marker == lit "jsconfig.json"

def findProjectRoot (rootMarkers : List Str) (existsSync : Str → Bool) (filePath : Str) : Option Str :=
  let nearest := fun markers =>
    findNearestRootMarker existsSync markers (filePath.length + 1) (Posix.dirname filePath)
  (nearest (rootMarkers.filter isConfigMarker)).or (nearest rootMarkers)

theorem dirname_ne_nil (path : Str) : Posix.dirname path ≠ [] := by
  unfold Posix.dirname
  simp only
  split
  · exact List.cons_ne_nil _ _
  · split
    · split <;> exact List.cons_ne_nil _ _
    · rename_i hparent
      split
      · exact List.cons_ne_nil _ _
      · intro hnil
        exact hparent (congrArg List.length hnil)

theorem findNearestRootMarker_ne_nil {existsSync : Str → Bool} {markers : List Str} {fuel : Nat}
    {dir root : Str} (hdir : dir ≠ []) (h : findNearestRootMarker existsSync markers fuel dir = some root) :
    root ≠ [] := by
  induction fuel generalizing dir with
  | zero => exact absurd h nofun
  | succ fuel ih =>
    unfold findNearestRootMarker at h
    split at h
    · exact Option.some.inj h ▸ hdir
    · simp only at h
      split at h
      · exact absurd h nofun
      · exact ih (dirname_ne_nil dir) h

theorem findProjectRoot_ne_nil {rootMarkers : List Str} {existsSync : Str → Bool} {filePath root : Str}
    (h : findProjectRoot rootMarkers existsSync filePath = some root) : root ≠ [] := by
  rcases Option.or_eq_some_iff.mp h with h | ⟨-, h⟩
  · exact findNearestRootMarker_ne_nil (dirname_ne_nil _) h
  · exact findNearestRootMarker_ne_nil (dirname_ne_nil _) h

-- -----
-- Operations
-- -----

/-- An operation, with what the file system answers while it runs. -/
inductive DocumentOp where
  | ensure (absolutePath : Str) (content : Option Str) (existsSync : Str → Bool)
  | getProjectRoot (absolutePath : Str) (existsSync : Str → Bool)
  | evict (maxOpen : Nat)
  | close (absolutePath : Str)
  | clear

/-- The manager of a backend. -/
structure ManagedDocuments extends Documents where
  rootMarkers : List Str

namespace ManagedDocuments

variable (env : ManagedDocuments)

def resolved (existsSync : Str → Bool) (absolutePath : Str) : Option Str :=
  findProjectRoot env.rootMarkers existsSync (Posix.resolve env.cwd absolutePath)

def uriOf (absolutePath : Str) : Str := env.pathToUri (Posix.resolve env.cwd absolutePath)

def apply (m : DocumentManager) : DocumentOp → DocumentManager
  | .ensure absolutePath content existsSync =>
    (m.ensure env.toDocuments absolutePath content (env.resolved existsSync absolutePath)).2.2
  | .getProjectRoot absolutePath existsSync =>
    (m.getProjectRoot (Posix.resolve env.cwd absolutePath) (env.resolved existsSync absolutePath)).2
  | .evict maxOpen => (m.evict maxOpen).2
  | .close absolutePath => (m.close env.toDocuments absolutePath).2
  | .clear => m.clear

def run (ops : List DocumentOp) : DocumentManager := ops.foldl env.apply .empty

/-- The document that an operation ensures; a file has to be read for that. -/
def ensuredBy : DocumentOp → Option Str
  | .ensure absolutePath (some _) _ => some (env.uriOf absolutePath)
  | _ => none

/-- The documents ensured in turn. -/
def ensured (ops : List DocumentOp) : List Str := ops.filterMap env.ensuredBy

end ManagedDocuments

/-- The place of the last time a document was ensured; 0 stands for never. -/
def lastEnsured (ensured : List Str) (uri : Str) : Nat :=
  ensured.length - ensured.reverse.idxOf uri

theorem lastEnsured_append (ensured : List Str) (uri other : Str) :
    lastEnsured (ensured ++ [uri]) other =
      if other = uri then ensured.length + 1 else lastEnsured ensured other := by
  unfold lastEnsured
  rw [List.reverse_append, List.reverse_singleton, List.singleton_append, List.length_append,
    List.length_singleton, List.idxOf_cons]
  by_cases h : other = uri
  · simp [h]
  · rw [if_neg h, beq_false_of_ne (Ne.symm h), cond_false]
    omega

theorem lastEnsured_inj {ensured : List Str} {uri other : Str} (huri : uri ∈ ensured)
    (hother : other ∈ ensured) (h : lastEnsured ensured uri = lastEnsured ensured other) :
    uri = other := by
  have hu := List.idxOf_lt_length_of_mem (List.mem_reverse.mpr huri)
  have ho := List.idxOf_lt_length_of_mem (List.mem_reverse.mpr hother)
  rw [List.length_reverse] at hu ho
  unfold lastEnsured at h
  exact (List.idxOf_inj (List.mem_reverse.mpr huri)).mp (by omega)

-- -----
-- The files of a project
-- -----

namespace DocumentManager

variable {m : DocumentManager}

def filesOf (m : DocumentManager) (projectRoot : Str) : List Str :=
  (m.projectFiles.get projectRoot).getD []

/-- No set of files is empty or has a file twice. -/
def FileSets (m : DocumentManager) : Prop :=
  ∀ projectRoot files, m.projectFiles.get projectRoot = some files → files ≠ [] ∧ files.Nodup

theorem filesOf_addProjectFile {projectRoot uri root : Str} :
    (m.addProjectFile projectRoot uri).filesOf root =
      if root = projectRoot then (m.filesOf projectRoot).insert uri else m.filesOf root := by
  unfold filesOf addProjectFile
  simp only [JsMap.get_set]
  split <;> rfl

theorem fileSets_addProjectFile {projectRoot uri : Str} (h : m.FileSets) :
    (m.addProjectFile projectRoot uri).FileSets := by
  intro root files hfiles
  unfold addProjectFile at hfiles
  simp only [JsMap.get_set] at hfiles
  split at hfiles
  case isTrue =>
    obtain rfl := Option.some.inj hfiles
    refine ⟨List.ne_nil_of_mem List.mem_insert_self, List.Nodup.insert ?_⟩
    cases hold : m.projectFiles.get projectRoot with
    | none => exact List.nodup_nil
    | some old => exact (h projectRoot old hold).2
  case isFalse => exact h root files hfiles

theorem filesOf_removeProjectFile {projectRoot uri root : Str} :
    (m.removeProjectFile projectRoot uri).filesOf root =
      if root = projectRoot then (m.filesOf projectRoot).filter (· ≠ uri) else m.filesOf root := by
  unfold filesOf removeProjectFile
  split
  case h_1 hnone =>
    by_cases hroot : root = projectRoot
    · simp [hroot, hnone]
    · simp [hroot]
  case h_2 files hsome =>
    simp only
    split
    case isTrue hempty =>
      rw [JsMap.get_delete, hsome]
      by_cases hroot : root = projectRoot
      · rw [if_pos hroot, if_pos hroot]
        exact (List.isEmpty_iff.mp hempty).symm
      · rw [if_neg hroot, if_neg hroot]
    case isFalse =>
      rw [JsMap.get_set, hsome]
      by_cases hroot : root = projectRoot
      · rw [if_pos hroot, if_pos hroot]
        rfl
      · rw [if_neg hroot, if_neg hroot]

theorem fileSets_removeProjectFile {projectRoot uri : Str} (h : m.FileSets) :
    (m.removeProjectFile projectRoot uri).FileSets := by
  unfold removeProjectFile
  split
  case h_1 => exact h
  case h_2 old hold =>
    intro root files hfiles
    simp only at hfiles
    split at hfiles
    case isTrue =>
      rw [JsMap.get_delete] at hfiles
      split at hfiles
      · cases hfiles
      · exact h root files hfiles
    case isFalse hleft =>
      rw [JsMap.get_set] at hfiles
      split at hfiles
      · obtain rfl := Option.some.inj hfiles
        exact ⟨fun hnil => hleft (List.isEmpty_iff.mpr hnil), (h projectRoot old hold).2.filter _⟩
      · exact h root files hfiles

-- -----
-- The invariant
-- -----

/-- Where a document of a manager comes from, and its last access. -/
structure Placed (env : ManagedDocuments) (ensured : List Str) (m : DocumentManager) (uri : Str)
    (doc : OpenDocument) : Prop where
  keyed : doc.uri = uri
  named : uri = env.pathToUri doc.absolutePath
  absolute : Posix.isAbsolute doc.absolutePath = true
  cached : m.rootCache.get doc.absolutePath = some doc.projectRoot
  known : uri ∈ ensured
  access : doc.lastAccess = lastEnsured ensured uri

structure Inv (env : ManagedDocuments) (ensured : List Str) (m : DocumentManager) : Prop where
  roots : ∀ abs root, m.rootCache.get abs = some root → root ≠ []
  placed : ∀ uri doc, m.getDoc uri = some doc → Placed env ensured m uri doc
  partition : ∀ root uri, uri ∈ m.filesOf root ↔
    ∃ doc, m.getDoc uri = some doc ∧ doc.projectRoot = root
  fileSets : m.FileSets
  counter : m.accessCounter = ensured.length

variable {env : ManagedDocuments} {ensured : List Str}

theorem Inv.keyed (h : m.Inv env ensured) : m.Keyed := fun uri doc hdoc => (h.placed uri doc hdoc).keyed

theorem inv_empty : empty.Inv env [] :=
  ⟨fun _ _ h => absurd h nofun, fun _ _ h => absurd h nofun,
    fun _ _ => ⟨fun h => absurd h nofun, fun ⟨_, h, _⟩ => absurd h nofun⟩,
    fun _ _ h => absurd h nofun, rfl⟩

theorem inv_clear (h : m.Inv env ensured) : m.clear.Inv env ensured :=
  ⟨fun _ _ h => absurd h nofun, fun _ _ h => absurd h nofun,
    fun _ _ => ⟨fun h => absurd h nofun, fun ⟨_, h, _⟩ => absurd h nofun⟩,
    fun _ _ h => absurd h nofun, h.counter⟩

/-- What looking up a root does to the cache. -/
structure Rooted (m : DocumentManager) (abs root : Str) (m' : DocumentManager) : Prop where
  same : { m' with rootCache := m.rootCache } = m
  found : m'.rootCache.get abs = some root
  ne_nil : root ≠ []
  kept : ∀ other earlier, m.rootCache.get other = some earlier → earlier ≠ [] →
    m'.rootCache.get other = some earlier
  source : ∀ other later, m'.rootCache.get other = some later →
    later = root ∨ m.rootCache.get other = some later

theorem getProjectRoot_rooted {abs : Str} {resolved : Option Str}
    (hresolved : ∀ root, resolved = some root → root ≠ []) :
    Rooted m abs (m.getProjectRoot abs resolved).1 (m.getProjectRoot abs resolved).2 := by
  unfold getProjectRoot
  split
  case h_1 unit cached hcached =>
    exact ⟨rfl, hcached, List.cons_ne_nil _ _, fun _ _ h _ => h, fun _ _ h => .inr h⟩
  case h_2 hnone =>
    refine ⟨rfl, ?_, ?_, fun other earlier hearlier hne => ?_, fun other later hlater => ?_⟩
    · exact JsMap.get_set.trans (if_pos rfl)
    · cases resolved with
      | none => exact dirname_ne_nil abs
      | some root => exact hresolved root rfl
    · refine JsMap.get_set.trans ?_
      rw [if_neg ?_, hearlier]
      rintro rfl
      obtain ⟨unit, rest, rfl⟩ := List.exists_cons_of_ne_nil hne
      exact hnone unit rest hearlier
    · rw [JsMap.get_set] at hlater
      split at hlater
      · exact .inl (Option.some.inj hlater).symm
      · exact .inr hlater

theorem Rooted.getDoc {abs root : Str} {m' : DocumentManager} (h : Rooted m abs root m') (uri : Str) :
    m'.getDoc uri = m.getDoc uri := by
  rw [← h.same]
  rfl

theorem Rooted.inv {abs root : Str} {m' : DocumentManager} (h : Rooted m abs root m')
    (hm : m.Inv env ensured) : m'.Inv env ensured := by
  have hdocs := h.getDoc
  have hfiles : m'.projectFiles = m.projectFiles := by rw [← h.same]
  have hcounter : m'.accessCounter = m.accessCounter := by rw [← h.same]
  refine ⟨fun other later hlater => ?_, fun uri doc hdoc => ?_, fun root uri => ?_, ?_, ?_⟩
  · rcases h.source other later hlater with rfl | hearlier
    · exact h.ne_nil
    · exact hm.roots other later hearlier
  · obtain ⟨huri, hnamed, habsolute, hcached, hensured, haccess⟩ := hm.placed uri doc (hdocs uri ▸ hdoc)
    exact ⟨huri, hnamed, habsolute, h.kept _ _ hcached (hm.roots _ _ hcached), hensured, haccess⟩
  · rw [filesOf, hfiles, hdocs]
    exact hm.partition root uri
  · unfold FileSets
    rw [hfiles]
    exact hm.fileSets
  · rw [hcounter]
    exact hm.counter

-- -----
-- Documents that are closed
-- -----

/-- A document leaves both tables. -/
theorem inv_remove {m' : DocumentManager} {uri : Str} {doc : OpenDocument} (hm : m.Inv env ensured)
    (hopen : m.getDoc uri = some doc)
    (h : m' = { m with openDocs := m.openDocs.delete uri }.removeProjectFile doc.projectRoot uri) :
    m'.Inv env ensured := by
  have hdocs : ∀ other, m'.getDoc other = if other = uri then none else m.getDoc other := by
    intro other
    rw [h, getDoc, removeProjectFile_openDocs]
    exact JsMap.get_delete
  have hcache : m'.rootCache = m.rootCache := by
    rw [h]
    unfold removeProjectFile
    split <;> rfl
  have hcounter : m'.accessCounter = m.accessCounter := by
    rw [h]
    unfold removeProjectFile
    split <;> rfl
  refine ⟨?_, fun other found hfound => ?_, fun root other => ?_, ?_, ?_⟩
  · rw [hcache]
    exact hm.roots
  · rw [hdocs] at hfound
    split at hfound
    · cases hfound
    · obtain ⟨huri, hnamed, habsolute, hcached, hensured, haccess⟩ := hm.placed other found hfound
      exact ⟨huri, hnamed, habsolute, hcache ▸ hcached, hensured, haccess⟩
  · have hbefore : other ∈ m.filesOf root ↔ _ := hm.partition root other
    have hfiles : m'.filesOf root =
        if root = doc.projectRoot then (m.filesOf doc.projectRoot).filter (· ≠ uri)
        else m.filesOf root := by
      rw [h]
      exact filesOf_removeProjectFile
    rw [hfiles, hdocs]
    by_cases hother : other = uri
    · subst hother
      rw [if_pos rfl]
      constructor
      · intro hmem
        split at hmem
        case isTrue => exact absurd hmem (by simp)
        case isFalse hroot =>
          obtain ⟨found, hfound, hfoundRoot⟩ := hbefore.mp hmem
          rw [hopen] at hfound
          exact absurd (Option.some.inj hfound ▸ hfoundRoot).symm hroot
      · rintro ⟨_, hnone, -⟩
        cases hnone
    · rw [if_neg hother, ← hbefore]
      split
      case isTrue hroot =>
        subst hroot
        simp [hother]
      case isFalse => exact Iff.rfl
  · rw [h]
    exact fileSets_removeProjectFile hm.fileSets
  · rw [hcounter]
    exact hm.counter

theorem inv_close (absolutePath : Str) (hm : m.Inv env ensured) :
    (m.close env.toDocuments absolutePath).2.Inv env ensured := by
  unfold close
  simp only
  split
  case h_1 => exact hm
  case h_2 doc hopen => exact inv_remove hm hopen rfl

theorem inv_removeDocs {docs : List OpenDocument} (hm : m.Inv env ensured)
    (hopen : ∀ doc ∈ docs, m.getDoc doc.uri = some doc) (hnodup : (docs.map (·.uri)).Nodup) :
    (docs.foldl removeDoc m).Inv env ensured := by
  induction docs generalizing m with
  | nil => exact hm
  | cons doc rest ih =>
    obtain ⟨hnot, hrest⟩ := List.nodup_cons.mp hnodup
    refine ih (inv_remove hm (hopen doc List.mem_cons_self) rfl) (fun other hother => ?_) hrest
    have hne : other.uri ≠ doc.uri := fun h => hnot (List.mem_map.mpr ⟨other, hother, h⟩)
    rw [getDoc, removeDoc_openDocs, JsMap.get_delete, if_neg hne]
    exact hopen other (List.mem_cons_of_mem _ hother)

theorem inv_evict (maxOpen : Nat) (hm : m.Inv env ensured) : (m.evict maxOpen).2.Inv env ensured :=
  inv_removeDocs hm (fun _ hdoc => hm.keyed.values (toEvict_subperm.subset hdoc)) (toEvict_nodup hm.keyed)

-- -----
-- Documents that are ensured
-- -----

/-- The document that a file that was read leaves in the table. -/
def refreshed (env : Documents) (m : DocumentManager) (abs root content : Str) : OpenDocument :=
  let access := m.accessCounter + 1
  match m.getDoc (env.pathToUri abs) with
  | none => ⟨env.pathToUri abs, abs, root, env.resolveLanguageId abs, 1, content, access⟩
  | some existing =>
    { existing with
      version := if existing.content = content then existing.version else existing.version + 1
      content
      lastAccess := access }

theorem openFile_read {env : Documents} {abs content : Str} {resolved : Option Str} :
    (m.openFile env abs (some content) resolved).2 =
      { (m.getProjectRoot abs resolved).2.addProjectFile (m.getProjectRoot abs resolved).1
          (env.pathToUri abs) with
        openDocs := m.openDocs.set (env.pathToUri abs)
          (refreshed env m abs (m.getProjectRoot abs resolved).1 content)
        accessCounter := m.accessCounter + 1 } := by
  have hdocs : ((m.getProjectRoot abs resolved).2.addProjectFile
      (m.getProjectRoot abs resolved).1 (env.pathToUri abs)).openDocs = m.openDocs := by simp
  have hcounter : ((m.getProjectRoot abs resolved).2.addProjectFile
      (m.getProjectRoot abs resolved).1 (env.pathToUri abs)).accessCounter = m.accessCounter := by
    unfold getProjectRoot
    split <;> rfl
  unfold openFile refreshed getDoc
  simp only [hdocs, hcounter]
  split
  case h_1 hclosed => simp only [hclosed]
  case h_2 existing hopen =>
    split
    case isTrue hsame => simp [hopen, hsame]
    case isFalse hchanged => simp [hopen, hchanged]

/-- Distinct absolute paths have distinct uris. -/
def DistinctUris (pathToUri : Str → Str) : Prop :=
  ∀ path other, Posix.isAbsolute path = true → Posix.isAbsolute other = true →
    pathToUri path = pathToUri other → path = other

theorem inv_read (content : Str) {abs root : Str} {m' : DocumentManager} (hm : m.Inv env ensured)
    (huris : DistinctUris env.pathToUri) (habs : Posix.isAbsolute abs = true)
    (hroot : Rooted m abs root m') :
    DocumentManager.Inv env (ensured ++ [env.pathToUri abs])
      { m'.addProjectFile root (env.pathToUri abs) with
        openDocs := m.openDocs.set (env.pathToUri abs)
          (refreshed env.toDocuments m abs root content)
        accessCounter := m.accessCounter + 1 } := by
  have hm' : m'.Inv env ensured := hroot.inv hm
  generalize huri : env.pathToUri abs = uri
  generalize hdoc : refreshed env.toDocuments m abs root content = doc
  -- a document that is open keeps its root
  have hopen : ∀ existing, m.getDoc uri = some existing →
      existing.absolutePath = abs ∧ existing.projectRoot = root := by
    intro existing hexisting
    have hplaced := hm.placed uri existing hexisting
    have hpath : existing.absolutePath = abs :=
      huris _ _ hplaced.absolute habs (hplaced.named.symm.trans huri.symm)
    have hcached := hroot.kept _ _ hplaced.cached (hm.roots _ _ hplaced.cached)
    rw [hpath, hroot.found] at hcached
    exact ⟨hpath, (Option.some.inj hcached).symm⟩
  have hplace : doc.uri = uri ∧ doc.absolutePath = abs ∧ doc.projectRoot = root ∧
      doc.lastAccess = m.accessCounter + 1 := by
    subst hdoc
    unfold refreshed
    rw [huri]
    cases hexisting : m.getDoc uri with
    | none => exact ⟨rfl, rfl, rfl, rfl⟩
    | some existing =>
      obtain ⟨hpath, hroot⟩ := hopen existing hexisting
      exact ⟨(hm.placed uri existing hexisting).keyed, hpath, hroot, rfl⟩
  obtain ⟨hkeyed, hpath, hdocRoot, haccess⟩ := hplace
  have hget : ∀ other, (m.openDocs.set uri doc).get other =
      if other = uri then some doc else m.getDoc other := fun other => JsMap.get_set
  refine ⟨hm'.roots, fun other found hfound => ?_, fun projectRoot other => ?_,
    fileSets_addProjectFile hm'.fileSets, ?_⟩
  · replace hfound := (hget other).symm.trans hfound
    split at hfound
    case isTrue hother =>
      obtain rfl := Option.some.inj hfound
      subst hother
      refine ⟨hkeyed, hpath ▸ huri.symm, hpath ▸ habs, ?_, by simp, ?_⟩
      · show m'.rootCache.get doc.absolutePath = some doc.projectRoot
        rw [hpath, hdocRoot]
        exact hroot.found
      · rw [haccess, lastEnsured_append, if_pos rfl, hm.counter]
    case isFalse hother =>
      obtain ⟨hkeyed, hnamed, habsolute, hcached, hknown, haccess⟩ :=
        hm'.placed other found ((hroot.getDoc other).trans hfound)
      refine ⟨hkeyed, hnamed, habsolute, hcached, by simp [hknown], ?_⟩
      rw [haccess, lastEnsured_append, if_neg hother]
  · have hbefore := hm.partition projectRoot other
    have hsame : ∀ r, m'.filesOf r = m.filesOf r := fun r => by
      rw [filesOf, filesOf, ← hroot.same]
    show other ∈ (m'.addProjectFile root uri).filesOf projectRoot ↔
      ∃ found, (m.openDocs.set uri doc).get other = some found ∧ found.projectRoot = projectRoot
    rw [filesOf_addProjectFile, hsame, hsame, hget]
    by_cases hother : other = uri
    · subst hother
      rw [if_pos rfl]
      constructor
      · intro hmem
        refine ⟨doc, rfl, ?_⟩
        split at hmem
        case isTrue hprojectRoot => rw [hdocRoot, hprojectRoot]
        case isFalse =>
          obtain ⟨existing, hexisting, hexistingRoot⟩ := hbefore.mp hmem
          rw [hdocRoot, ← (hopen existing hexisting).2, hexistingRoot]
      · rintro ⟨found, hfound, hfoundRoot⟩
        obtain rfl := Option.some.inj hfound
        rw [if_pos (hfoundRoot.symm.trans hdocRoot)]
        exact List.mem_insert_self
    · rw [if_neg hother, ← hbefore]
      split
      case isTrue hprojectRoot =>
        subst hprojectRoot
        simp [List.mem_insert_iff, hother]
      case isFalse => exact Iff.rfl
  · show m.accessCounter + 1 = (ensured ++ [uri]).length
    rw [hm.counter, List.length_append, List.length_singleton]

end DocumentManager

-- -----
-- Runs
-- -----

namespace ManagedDocuments

open DocumentManager

variable {env : ManagedDocuments} {ensured : List Str} {m : DocumentManager}

theorem resolved_rooted (m : DocumentManager) (absolutePath : Str) (existsSync : Str → Bool) :
    Rooted m (Posix.resolve env.cwd absolutePath)
      (m.getProjectRoot (Posix.resolve env.cwd absolutePath) (env.resolved existsSync absolutePath)).1
      (m.getProjectRoot (Posix.resolve env.cwd absolutePath) (env.resolved existsSync absolutePath)).2 :=
  getProjectRoot_rooted fun _ h => findProjectRoot_ne_nil h

theorem inv_apply (huris : DistinctUris env.pathToUri) (hm : m.Inv env ensured) (op : DocumentOp) :
    (env.apply m op).Inv env (ensured ++ (env.ensuredBy op).toList) := by
  cases op with
  | ensure absolutePath content existsSync =>
    have hroot := env.resolved_rooted m absolutePath existsSync
    cases content with
    | none => simpa [ensuredBy, apply, ensure, openFile] using hroot.inv hm
    | some content =>
      have hread := inv_read content hm huris rfl hroot
      rw [← openFile_read] at hread
      exact hread
  | getProjectRoot absolutePath existsSync =>
    simpa [ensuredBy, apply] using (env.resolved_rooted m absolutePath existsSync).inv hm
  | evict maxOpen => simpa [ensuredBy, apply] using inv_evict maxOpen hm
  | close absolutePath => simpa [ensuredBy, apply] using inv_close absolutePath hm
  | clear => simpa [ensuredBy, apply] using inv_clear hm

theorem inv_run (huris : DistinctUris env.pathToUri) (ops : List DocumentOp) :
    (env.run ops).Inv env (env.ensured ops) := by
  have hfold : ∀ (ops : List DocumentOp) (ensured : List Str) (m : DocumentManager),
      m.Inv env ensured → (ops.foldl env.apply m).Inv env (ensured ++ env.ensured ops) := by
    intro ops
    induction ops with
    | nil => exact fun ensured m hm => by simpa [ManagedDocuments.ensured] using hm
    | cons op rest ih =>
      intro ensured m hm
      have hrest := ih _ _ (inv_apply huris hm op)
      have hcons : env.ensured (op :: rest) = (env.ensuredBy op).toList ++ env.ensured rest := by
        cases hop : env.ensuredBy op <;> simp [ManagedDocuments.ensured, hop]
      rwa [hcons, ← List.append_assoc]
  simpa [run] using hfold ops [] .empty inv_empty

end ManagedDocuments

namespace DocumentManager

variable {m : DocumentManager}

theorem getDoc_removeDocs {docs : List OpenDocument} (uri : Str) :
    (docs.foldl removeDoc m).getDoc uri = if uri ∈ docs.map (·.uri) then none else m.getDoc uri := by
  induction docs generalizing m with
  | nil => simp
  | cons doc rest ih =>
    rw [List.foldl_cons, ih, getDoc, removeDoc_openDocs, JsMap.get_delete, List.map_cons]
    by_cases hrest : uri ∈ rest.map (·.uri)
    · rw [if_pos hrest, if_pos (List.mem_cons_of_mem _ hrest)]
    · by_cases hdoc : uri = doc.uri
      · rw [if_neg hrest, if_pos hdoc, if_pos (hdoc ▸ List.mem_cons_self)]
      · rw [if_neg hrest, if_neg hdoc, if_neg (by simp [hdoc, hrest]), getDoc]

/-- A document that stays open has a new version when it has a new content. -/
def Versioned (m m' : DocumentManager) : Prop :=
  ∀ uri doc doc', m.getDoc uri = some doc → m'.getDoc uri = some doc' →
    doc'.content = doc.content ∧ doc'.version = doc.version ∨
      doc'.content ≠ doc.content ∧ doc'.version = doc.version + 1

/-- Documents are closed or stay what they are. -/
theorem versioned_of_kept {m' : DocumentManager}
    (h : ∀ uri, m'.getDoc uri = none ∨ m'.getDoc uri = m.getDoc uri) : Versioned m m' := by
  intro uri doc doc' hdoc hdoc'
  rcases h uri with hnone | hsame
  · rw [hnone] at hdoc'
    exact absurd hdoc' nofun
  · rw [hsame, hdoc] at hdoc'
    obtain rfl := Option.some.inj hdoc'
    exact .inl ⟨rfl, rfl⟩

theorem versioned_read {env : Documents} {abs content : Str} {resolved : Option Str} :
    Versioned m (m.openFile env abs (some content) resolved).2 := by
  intro uri doc doc' hdoc hdoc'
  rw [openFile_read] at hdoc'
  replace hdoc' := JsMap.get_set.symm.trans hdoc'
  split at hdoc'
  case isTrue huri =>
    obtain rfl := Option.some.inj hdoc'
    unfold refreshed
    rw [← huri, hdoc]
    simp only
    by_cases hsame : doc.content = content
    · exact .inl ⟨hsame.symm, if_pos hsame⟩
    · exact .inr ⟨Ne.symm hsame, if_neg hsame⟩
  case isFalse =>
    rw [getDoc] at hdoc
    rw [hdoc] at hdoc'
    obtain rfl := Option.some.inj hdoc'
    exact .inl ⟨rfl, rfl⟩

theorem versioned_apply (env : ManagedDocuments) (m : DocumentManager) (op : DocumentOp) :
    Versioned m (env.apply m op) := by
  cases op with
  | ensure absolutePath content existsSync =>
    cases content with
    | none => exact versioned_of_kept fun uri => .inr ((env.resolved_rooted m absolutePath existsSync).getDoc uri)
    | some content => exact versioned_read
  | getProjectRoot absolutePath existsSync =>
    exact versioned_of_kept fun uri => .inr ((env.resolved_rooted m absolutePath existsSync).getDoc uri)
  | evict maxOpen =>
    refine versioned_of_kept fun uri => ?_
    have hget : (env.apply m (.evict maxOpen)).getDoc uri =
        if uri ∈ (m.toEvict maxOpen).map (·.uri) then none else m.getDoc uri := getDoc_removeDocs uri
    rw [hget]
    split
    · exact .inl rfl
    · exact .inr rfl
  | close absolutePath =>
    refine versioned_of_kept fun uri => ?_
    show (m.close env.toDocuments absolutePath).2.getDoc uri = none ∨
      (m.close env.toDocuments absolutePath).2.getDoc uri = m.getDoc uri
    unfold close
    simp only
    split
    · exact .inr rfl
    · simp only [getDoc, removeProjectFile_openDocs, JsMap.get_delete]
      split
      · exact .inl rfl
      · exact .inr rfl
  | clear => exact versioned_of_kept fun uri => .inl rfl

-- -----
-- Eviction
-- -----

/-- What is evicted of a manager after these documents were ensured in turn. -/
structure Evicts (m : DocumentManager) (ensured : List Str) (maxOpen : Nat) : Prop where
  bounded : (m.evict maxOpen).2.openDocs.size ≤ maxOpen
  number : (m.evict maxOpen).1.length = m.openDocs.size - maxOpen
  once : (m.evict maxOpen).1.Nodup
  wasOpen : ∀ uri ∈ (m.evict maxOpen).1, (m.getDoc uri).isSome = true
  rest : ∀ uri, (m.evict maxOpen).2.getDoc uri =
    if uri ∈ (m.evict maxOpen).1 then none else m.getDoc uri
  oldest : ∀ gone ∈ (m.evict maxOpen).1, ∀ kept ∈ (m.evict maxOpen).2.openUris,
    lastEnsured ensured gone < lastEnsured ensured kept

variable {env : ManagedDocuments} {ensured : List Str}

/-- The documents in front are not younger than those that stay. -/
theorem toEvict_oldest {maxOpen : Nat} {gone kept : OpenDocument} (hgone : gone ∈ m.toEvict maxOpen)
    (hkept : kept ∈ m.openDocs.values) (hnot : kept ∉ m.toEvict maxOpen) :
    gone.lastAccess ≤ kept.lastAccess := by
  unfold toEvict at hgone hnot
  split at hgone
  case isTrue => exact absurd hgone List.not_mem_nil
  case isFalse hsize =>
    rw [if_neg hsize] at hnot
    let order : OpenDocument → OpenDocument → Bool := fun a b => decide (a.lastAccess ≤ b.lastAccess)
    have hsorted : (m.openDocs.values.mergeSort order).Pairwise fun a b => order a b = true :=
      List.pairwise_mergeSort (by simp [order]; omega) (by simp [order]; omega) _
    have hmem : kept ∈ m.openDocs.values.mergeSort order := List.mem_mergeSort.mpr hkept
    rw [← List.take_append_drop (m.openDocs.size - maxOpen) (m.openDocs.values.mergeSort order)]
      at hsorted hmem
    have hdrop := (List.mem_append.mp hmem).resolve_left hnot
    simpa [order] using (List.pairwise_append.mp hsorted).2.2 gone hgone kept hdrop

theorem evicts (hm : m.Inv env ensured) (maxOpen : Nat) : m.Evicts ensured maxOpen := by
  have hopen : ∀ doc ∈ m.toEvict maxOpen, m.getDoc doc.uri = some doc :=
    fun doc hdoc => hm.keyed.values (toEvict_subperm.subset hdoc)
  have hrest : ∀ uri, (m.evict maxOpen).2.getDoc uri =
      if uri ∈ (m.evict maxOpen).1 then none else m.getDoc uri := fun uri => getDoc_removeDocs uri
  refine ⟨evict_size hm.keyed, (List.length_map _).trans toEvict_length, toEvict_nodup hm.keyed,
    fun uri huri => ?_, hrest, fun gone hgone kept hkept => ?_⟩
  · obtain ⟨doc, hdoc, rfl⟩ := List.mem_map.mp huri
    exact Option.isSome_iff_exists.mpr ⟨doc, hopen doc hdoc⟩
  · obtain ⟨doc, hdoc, rfl⟩ := List.mem_map.mp hgone
    obtain ⟨left, hleft⟩ := Option.isSome_iff_exists.mp (JsMap.mem_keys.mp hkept)
    have hstays : kept ∉ (m.evict maxOpen).1 ∧ m.getDoc kept = some left := by
      have hget := (hrest kept).symm.trans hleft
      split at hget
      · exact absurd hget nofun
      · exact ⟨‹_›, hget⟩
    have hplacedDoc := hm.placed _ doc (hopen doc hdoc)
    have hplacedLeft := hm.placed kept left hstays.2
    have hnot : left ∉ m.toEvict maxOpen := fun hmem =>
      hstays.1 (List.mem_map.mpr ⟨left, hmem, hplacedLeft.keyed⟩)
    have hvalue : left ∈ m.openDocs.values :=
      List.mem_map.mpr ⟨(kept, left), JsMap.mem_of_get hstays.2, rfl⟩
    have hle := toEvict_oldest hdoc hvalue hnot
    rw [hplacedDoc.access, hplacedLeft.access] at hle
    refine lt_of_le_of_ne hle fun heq => hstays.1 ?_
    rw [← lastEnsured_inj hplacedDoc.known hplacedLeft.known heq]
    exact hgone

-- -----
-- Every sequence of operations
-- -----

structure Tabled (m : DocumentManager) : Prop where
  partition : ∀ root uri, uri ∈ m.filesOf root ↔
    ∃ doc, m.getDoc uri = some doc ∧ doc.projectRoot = root
  fileSets : m.FileSets
  stamps : ∀ uri other doc doc', m.getDoc uri = some doc → m.getDoc other = some doc' →
    doc.lastAccess = doc'.lastAccess → uri = other

/-- Two files of a project; the first is ensured again. -/
def twoFiles : List DocumentOp :=
  [.ensure (lit "/w/a.ts") (some (lit "1")) (· == lit "/w/tsconfig.json"),
    .ensure (lit "/w/b.ts") (some (lit "2")) (· == lit "/w/tsconfig.json"),
    .ensure (lit "a.ts") (some (lit "3")) fun _ => false]

def plainUris : ManagedDocuments where
  cwd := lit "/w"
  pathToUri := fun path => lit "file://" ++ path
  resolveLanguageId := fun _ => lit "typescript"
  rootMarkers := [lit "tsconfig.json"]

end DocumentManager

end PiEnv.DevTools
