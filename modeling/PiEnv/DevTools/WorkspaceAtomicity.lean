import PiEnv.DevTools.WorkspaceStaging

/-!
# A workspace edit is all or nothing

Whatever the edit is and wherever it fails, every file is as it was, or every
target holds its edited text.
-/

namespace PiEnv.DevTools

open Js Posix Effects
open Js.Utf8 (Bytes)
open Relation (ReflTransGen)

section
variable {links : Links} {W : Str → Prop} {disk : Disk} {β : Type}

-- -----
-- Preparation
-- -----

/-- A path is in an allowed root, by where both lead. -/
def Within (host : Host) (options : ApplyOptions) (links : Links) (path : Str) : Prop :=
  ∃ root ∈ options.allowedRoots, ∃ real, links.target (resolve host.cwd root) = some real ∧
    pathContains host.cwd real path = true

/-- A target in the write scope: lexically, and by where it leads. -/
structure InScope (host : Host) (options : ApplyOptions) (links : Links) (file : WorkspaceFileEdits)
    (path : Str) : Prop where
  lexical : ∃ root ∈ options.allowedRoots, pathContains host.cwd (resolve host.cwd root)
    (resolve host.cwd file.absolutePath) = true
  leads : links.target file.absolutePath = some path
  within : Within host options links path

/-- What preparing an edited file has found out. -/
structure Prepared (host : Host) (options : ApplyOptions) (links : Links) (disk : Disk)
    (file : WorkspaceFileEdits) (update : PreparedFileEdit) : Prop where
  edits : update.toWorkspaceFileEdits = file
  scope : InScope host options links file update.writePath
  source : ∃ stored, disk.files update.writePath = some stored ∧
    update.content = Utf8.decode stored.content
  text : applyTextEdits update.content file = .ok update.updatedContent

/-- A computation that only reads, and what it finds. -/
def Reads (links : Links) (W : Str → Prop) (disk : Disk) (x : FsM β) (P : β → Prop) : Prop :=
  Spec links W x.run (fun r d => d = disk ∧ ∀ a, r = .ok a → P a) disk

theorem reads_ret (links : Links) (W : Str → Prop) {P : β → Prop} {r : Except Failure β} (h : ∀ a, r = .ok a → P a) :
    Spec links W (.ret r) (fun r d => d = disk ∧ ∀ a, r = .ok a → P a) disk :=
  Alone.ret ⟨rfl, h⟩

theorem Reads.throw {P : β → Prop} (e : Failure) : Reads links W disk (throw e) P :=
  reads_ret links W (r := .error e) fun _ hr => by cases hr

theorem Reads.pure {P : β → Prop} {a : β} (h : P a) : Reads links W disk (pure a) P :=
  reads_ret links W (r := .ok a) fun _ hr => Except.ok.inj hr ▸ h

theorem Reads.lift {P : β → Prop} {e : Except Failure β} (h : ∀ a, e = .ok a → P a) :
    Reads links W disk (liftM e) P := by
  cases e with
  | error e => exact .throw e
  | ok a => exact .pure (h a rfl)

theorem Reads.bind {γ : Type} {x : FsM β} {f : β → FsM γ} {P : β → Prop} {Q : γ → Prop}
    (h : Reads links W disk x P) (hf : ∀ a, P a → Reads links W disk (f a) Q) :
    Reads links W disk (x >>= f) Q := by
  refine Safe.bindExcept _ h ?_ ?_
  · rintro a _ ⟨rfl, ha⟩
    exact hf a (ha a rfl)
  · rintro e _ ⟨rfl, -⟩
    exact Alone.ret ⟨rfl, fun _ hr => by cases hr⟩

theorem Reads.mapM {γ : Type} {f : β → FsM γ} {P : β → γ → Prop} (items : List β)
    (hf : ∀ a, Reads links W disk (f a) (P a)) :
    Reads links W disk (items.mapM f) (List.Forall₂ P items) := by
  refine Safe.mapM (fun _ _ _ hf => hf.elim) (fun a _ d hd => ?_) rfl
  rw [hd]
  exact hf a

theorem forall₂_right {γ : Type} {P : β → γ → Prop} {xs : List β} {ys : List γ}
    (h : List.Forall₂ P xs ys) {y : γ} (hy : y ∈ ys) : ∃ x ∈ xs, P x y := by
  induction h with
  | nil => simp at hy
  | @cons x y' xs ys hxy _ ih =>
    rcases List.mem_cons.mp hy with rfl | hy
    · exact ⟨x, by simp, hxy⟩
    · obtain ⟨x', hx', hp⟩ := ih hy
      exact ⟨x', by simp [hx'], hp⟩

section
variable {host : Host} {options : ApplyOptions}

theorem authorizeTarget_reads (lexicalRoots realRoots : List Str) (file : WorkspaceFileEdits) :
    Reads links W disk (authorizeTarget host options lexicalRoots realRoots file)
      fun authorized => authorized.toWorkspaceFileEdits = file ∧
        lexicalRoots.any (pathContains host.cwd · (resolve host.cwd file.absolutePath)) = true ∧
          links.target file.absolutePath = some authorized.writePath ∧
            realRoots.any (pathContains host.cwd · authorized.writePath) = true := by
  unfold authorizeTarget
  split
  · exact .throw _
  · rename_i hlexical
    refine Reads.bind (realpath_spec file.absolutePath) fun writePath hreal => ?_
    split
    · exact .throw _
    · rename_i hwithin
      simp only [Bool.not_eq_true', Bool.not_eq_false] at hlexical hwithin
      split
      · exact .pure ⟨rfl, hlexical, hreal, hwithin⟩
      · exact (Reads.lift fun _ _ => trivial).bind fun _ _ => .pure ⟨rfl, hlexical, hreal, hwithin⟩

theorem authorizeWorkspaceTargets_reads (files : List WorkspaceFileEdits) :
    Reads links W disk (authorizeWorkspaceTargets host files options)
      (List.Forall₂ (fun file a => a.toWorkspaceFileEdits = file ∧
        InScope host options links file a.writePath) files) := by
  unfold authorizeWorkspaceTargets
  split
  · exact .throw _
  · split
    · exact .throw _
    · refine (Reads.mapM _ realpath_spec).bind fun realRoots hreals => ?_
      refine Reads.mapM files fun file => ?_
      refine (authorizeTarget_reads _ realRoots file).mono fun r d hr => ⟨hr.1, fun a ha => ?_⟩
      obtain ⟨hfile, hlexical, hleads, hwithin⟩ := hr.2 a ha
      obtain ⟨real, hreal, hcontains⟩ := List.any_eq_true.mp hwithin
      obtain ⟨_, hl, hlr⟩ := forall₂_right hreals hreal
      obtain ⟨root, hroot, rfl⟩ := List.mem_map.mp hl
      obtain ⟨_, hl', hlexical'⟩ := List.any_eq_true.mp hlexical
      obtain ⟨root', hroot', rfl⟩ := List.mem_map.mp hl'
      exact ⟨hfile, ⟨root', hroot', hlexical'⟩, hleads, root, hroot, real, hlr, hcontains⟩

theorem readSource_reads (file : AuthorizedFileEdit) :
    Reads links W disk (readSource options file) fun source =>
      source.toAuthorizedFileEdit = file ∧ ∃ stored, disk.files source.writePath = some stored ∧
        source.content = Utf8.decode stored.content := by
  refine Reads.bind (readFile_spec file.writePath) fun content hcontent => ?_
  exact (Reads.lift fun _ _ => trivial).bind fun _ _ => .pure ⟨rfl, hcontent⟩

theorem prepare_ok {source : SourceFileEdit} {update : PreparedFileEdit}
    (h : prepare source = .ok update) : update.toSourceFileEdit = source ∧
      applyTextEdits source.content source.toWorkspaceFileEdits = .ok update.updatedContent := by
  simp only [prepare, bind, Except.bind] at h
  split at h
  · cases h
  · rename_i text ht
    cases h
    exact ⟨rfl, ht⟩

theorem forall₂_comp {γ δ : Type} {P : β → γ → Prop} {Q : γ → δ → Prop} {T : β → δ → Prop}
    (hT : ∀ x y z, P x y → Q y z → T x z) {xs : List β} {ys : List γ} {zs : List δ}
    (h : List.Forall₂ P xs ys) (h' : List.Forall₂ Q ys zs) : List.Forall₂ T xs zs := by
  induction h generalizing zs with
  | nil =>
    cases h'
    exact .nil
  | cons hxy _ ih =>
    cases h' with
    | cons hyz hrest => exact .cons (hT _ _ _ hxy hyz) (ih hrest)

theorem map_of_forall₂ {γ δ : Type} {f : β → δ} {g : γ → δ} {xs : List β} {ys : List γ}
    (h : List.Forall₂ (fun x y => g y = f x) xs ys) : ys.map g = xs.map f := by
  induction h with
  | nil => rfl
  | cons hxy _ ih => simp [hxy, ih]

theorem prepareAll_reads (value : Json) : Reads links W disk (prepareAll host value options)
    fun updates => (updates.map (·.writePath)).Nodup ∧ ∃ files,
      parseWorkspaceEdit host value = .ok files ∧
        List.Forall₂ (Prepared host options links disk) files updates := by
  refine (Reads.lift (e := parseWorkspaceEdit host value) fun files h => h).bind fun files hfiles => ?_
  refine (authorizeWorkspaceTargets_reads files).bind fun authorized hauthorized => ?_
  refine (Reads.mapM authorized readSource_reads).bind fun sources hsources => ?_
  split
  · exact .throw _
  · rename_i hnodup
    have hread : Reads links W disk (sources.mapM fun file => (prepare file : FsM PreparedFileEdit))
        (List.Forall₂ (fun source update => update.toSourceFileEdit = source ∧
          applyTextEdits source.content source.toWorkspaceFileEdits = .ok update.updatedContent)
            sources) :=
      Reads.mapM sources fun source => Reads.lift fun update h => prepare_ok h
    refine hread.mono ?_
    rintro r d ⟨rfl, hr⟩
    refine ⟨rfl, fun updates hupdates => ?_⟩
    have hprepared := hr updates hupdates
    refine ⟨?_, files, hfiles, ?_⟩
    · have hpaths : updates.map (fun u => u.writePath) = sources.map (fun s => s.writePath) :=
        map_of_forall₂ (hprepared.imp fun _ _ h => h.1 ▸ rfl)
      rw [hpaths]
      exact not_not.mp hnodup
    · refine forall₂_comp ?_ (forall₂_comp (T := fun file source =>
        source.toWorkspaceFileEdits = file ∧ InScope host options links file source.writePath ∧
          ∃ stored, d.files source.writePath = some stored ∧
            source.content = Utf8.decode stored.content) ?_ hauthorized hsources) hprepared
      · rintro file source update ⟨rfl, hscope, hsource⟩ ⟨rfl, htext⟩
        exact ⟨rfl, hscope, hsource, htext⟩
      · rintro file a source ⟨rfl, hscope⟩ ⟨rfl, hsource⟩
        exact ⟨rfl, hscope, hsource⟩

-- -----
-- The edit
-- -----

/-- The paths an edit may write: its targets, and the temporary files beside
them. -/
def Writable (host : Host) (value : Json) (options : ApplyOptions) (links : Links) (disk : Disk)
    (path : Str) : Prop :=
  ∃ files, parseWorkspaceEdit host value = .ok files ∧ ∃ file ∈ files, ∃ target,
    InScope host options links file target ∧ disk.files target ≠ none ∧
      (path = target ∨ ∃ role uuid, slash ∉ uuid ∧ path = siblingPath host target role uuid)

/-- Every target of the edit holds its edited text, in its old mode. -/
def Applied (host : Host) (value : Json) (links : Links) (before after : Files) : Prop :=
  ∃ files, parseWorkspaceEdit host value = .ok files ∧ ∀ file ∈ files, ∃ target stored text,
    links.target file.absolutePath = some target ∧ before target = some stored ∧
      applyTextEdits (Utf8.decode stored.content) file = .ok text ∧
        after target = some ⟨Utf8.encode text, stored.mode⟩

theorem Prepared.sourced {files : List WorkspaceFileEdits} {file : WorkspaceFileEdits}
    {update : PreparedFileEdit} {value : Json} (h : Prepared host options links disk file update)
    (hfiles : parseWorkspaceEdit host value = .ok files) (hfile : file ∈ files) :
    Sourced host (Writable host value options links disk) disk.files update := by
  obtain ⟨stored, hstored, hcontent⟩ := h.source
  have hne : disk.files update.writePath ≠ none := by simp [hstored]
  exact ⟨links.canonical h.scope.leads, ⟨stored, hstored, hcontent⟩,
    ⟨files, hfiles, file, hfile, _, h.scope, hne, .inl rfl⟩,
    fun role uuid hu => ⟨files, hfiles, file, hfile, _, h.scope, hne, .inr ⟨role, uuid, hu, rfl⟩⟩⟩

theorem applyWorkspaceEdit_spec (value : Json) :
    Spec links (Writable host value options links disk) (applyWorkspaceEdit host value options)
      (fun result d => (∃ message, result = .error message) ∧ d.files = disk.files ∨
        (∃ done, result = .ok done) ∧ Applied host value links disk.files d.files) disk := by
  refine Alone.bind (fun result d => (∃ cause, result = .error cause) ∧ d.files = disk.files ∨
    (∃ done, result = .ok done) ∧ Applied host value links disk.files d.files) ?_ ?_
  · refine Safe.bindExcept _ (prepareAll_reads value) ?_ ?_
    · rintro updates d ⟨rfl, hupdates⟩
      obtain ⟨hnodup, files, hfiles, hprepared⟩ := hupdates updates rfl
      have hsourced : ∀ u ∈ updates,
          Sourced host (Writable host value options links d) d.files u := by
        intro u hu
        obtain ⟨file, hfile, h⟩ := forall₂_right hprepared hu
        exact h.sourced hfiles hfile
      refine Safe.bindExcept _ (replaceWorkspaceFiles_spec hsourced hnodup) ?_ ?_
      · rintro ⟨⟩ d' (⟨⟨_, hf⟩, -⟩ | ⟨-, hedited⟩)
        · cases hf
        · refine Alone.ret (.inr ⟨⟨_, rfl⟩, files, hfiles, fun file hfile => ?_⟩)
          obtain ⟨u, hu, h⟩ := forall₂_right hprepared.flip hfile
          obtain ⟨stored, hstored, hcontent⟩ := h.source
          refine ⟨u.writePath, stored, u.updatedContent, h.scope.leads, hstored, ?_, ?_⟩
          · rw [← hcontent]
            exact h.text
          · rw [hedited u hu, edited, hstored]
            rfl
      · rintro cause d' (⟨-, hd⟩ | ⟨hf, -⟩)
        · exact Alone.ret (.inl ⟨⟨cause, rfl⟩, hd⟩)
        · cases hf
    · rintro cause d ⟨rfl, -⟩
      exact Alone.ret (.inl ⟨⟨cause, rfl⟩, rfl⟩)
  · rintro result d (⟨⟨cause, rfl⟩, hd⟩ | ⟨⟨done, rfl⟩, hd⟩)
    · exact Alone.ret (.inl ⟨⟨_, rfl⟩, hd⟩)
    · exact Alone.ret (.inr ⟨⟨_, rfl⟩, hd⟩)

/-- What a writable path is contained in, when no allowed root is a file. -/
theorem Writable.within {value : Json} {path : Str}
    (h : Writable host value options links disk path)
    (hroots : ∀ root ∈ options.allowedRoots, ∀ real,
      links.target (resolve host.cwd root) = some real → disk.files real = none) :
    Within host options links path := by
  obtain ⟨files, -, file, -, target, hscope, hfile, rfl | ⟨role, uuid, hu, rfl⟩⟩ := h
  · exact hscope.within
  · obtain ⟨root, hroot, real, hreal, hcontains⟩ := hscope.within
    refine ⟨root, hroot, real, hreal, ?_⟩
    refine siblingPath_contained host role (links.canonical hreal) (links.canonical hscope.leads) hu
      hcontains ?_
    rintro rfl
    exact hfile (hroots root hroot _ hreal)

end

end

/-- However a run of the edit ends, every file is as it was or every target
holds its edited text, and all it wrote are its targets and temporary files
beside them, in an allowed root. -/
theorem workspaceEdit_all_or_nothing (host : Host) (value : Json) (options : ApplyOptions)
    (links : Links) {disk disk' : Disk} {result : Except Str AppliedWorkspaceEdit}
    (hr : Runs (FsExec links) disk (applyWorkspaceEdit host value options) result disk') :
    ((∃ message, result = .error message) ∧ disk'.files = disk.files ∨
      (∃ done, result = .ok done) ∧ Applied host value links disk.files disk'.files) ∧
    ∀ path ∈ disk'.written, path ∈ disk.written ∨
      Writable host value options links disk path ∧
        ((∀ root ∈ options.allowedRoots, ∀ real,
          links.target (resolve host.cwd root) = some real → disk.files real = none) →
            Within host options links path) := by
  have hspec : Spec links (Writable host value options links disk)
      (applyWorkspaceEdit host value options) _ disk := applyWorkspaceEdit_spec value
  refine ⟨hr.post hspec, ?_⟩
  have hsteps := hr.guarantee hspec
  clear hspec hr
  induction hsteps with
  | refl => exact fun path hpath => .inl hpath
  | tail _ hstep ih =>
    intro path hpath
    rcases hstep path hpath with hpath | hpath
    · exact ih path hpath
    · exact .inr ⟨hpath, hpath.within⟩

-- -----
-- An edit of one file
-- -----

def sampleHost : Host where
  cwd := lit "/w"
  pid := 7
  fileURLToPath uri := if uri = lit "file:///w/a" then .ok (lit "/w/a") else .error .invalid

def sampleLinks : Links where
  target path := if path = lit "/w" ∨ path = lit "/w/a" then some path else none
  canonical := by
    intro path real h
    split at h
    · rename_i hp
      obtain rfl := Option.some.inj h
      have hseg : ∀ s, s = lit "w" ∨ s = lit "a" → IsSegment s := by
        rintro s (rfl | rfl) <;> exact ⟨by decide, by decide, by decide, by decide⟩
      rcases hp with rfl | rfl
      · exact ⟨[lit "w"], by simpa using hseg _ (.inl rfl), by decide⟩
      · exact ⟨[lit "w", lit "a"], by simpa using ⟨hseg _ (.inl rfl), hseg _ (.inr rfl)⟩, by decide⟩
    · cases h

def samplePosition (line character : Int) : Json :=
  .obj [(lit "line", .num (.ofInt line)), (lit "character", .num (.ofInt character))]

def sampleEdit : Json :=
  .obj [(lit "changes", .obj [(lit "file:///w/a", .arr [.obj [
    (lit "range", .obj [(lit "start", samplePosition 0 0), (lit "end", samplePosition 0 1)]),
    (lit "newText", .str (lit "x"))]])])]

def sampleOptions : ApplyOptions := ⟨[lit "/w"], none, none⟩

def sampleDisk : Disk where
  files path := if path = lit "/w/a" then some ⟨[97, 98], 420⟩ else none
  issued := []
  written := []

section
variable {links : Links} {host : Host} {disk : Disk}

theorem siblingTemporaryPath_runs {path uuid : Str} (role : TemporaryRole) (h : disk.Fresh uuid) :
    Runs (FsExec links) disk (siblingTemporaryPath host path role).run
      (.ok (siblingPath host path role uuid)) { disk with issued := uuid :: disk.issued } :=
  .op (.identified h) .ret

/-- Nothing stops the edit of one file whose system calls all succeed. -/
theorem replaceOne_runs {update : PreparedFileEdit} {file : File} {a b : Str}
    (hfile : disk.files update.writePath = some file)
    (hcontent : update.content = Utf8.decode file.content) (ha : disk.Fresh a)
    (hb : { disk with issued := a :: disk.issued : Disk }.Fresh b)
    (hplaces : ([update.writePath, siblingPath host update.writePath .staged a,
      siblingPath host update.writePath .backup b]).Nodup)
    (hfree : disk.files (siblingPath host update.writePath .staged a) = none) :
    ∃ disk', Runs (FsExec links) disk (replaceWorkspaceFiles host [update]).run (.ok ()) disk' := by
  generalize hs : siblingPath host update.writePath .staged a = staged at *
  generalize hk : siblingPath host update.writePath .backup b = backup at *
  simp only [List.nodup_cons, List.mem_cons, List.not_mem_nil, or_false, not_or] at hplaces
  obtain ⟨⟨hws, hwb⟩, hsb, -⟩ := hplaces
  let edit : File := ⟨Utf8.encode update.updatedContent, file.mode⟩
  let opened : Disk := { disk with issued := b :: a :: disk.issued : Disk }.put staged
    (some ⟨[], file.mode⟩)
  let ready : Disk := (opened.put staged (some edit)).put staged (some edit)
  let moved : Disk := (ready.put update.writePath none).put backup (some file)
  let done : Disk := (moved.put staged none).put update.writePath (some edit)
  have hready : ready.files update.writePath = some file := by simp [ready, opened, hws, hfile]
  have hmoved : moved.files staged = some edit := by simp [moved, ready, hsb, Ne.symm hws]
  have hwrite : Runs (FsExec links) opened (writeStaged staged update.updatedContent file.mode).run
      (.ok ()) ready := by
    refine Runs.bindExcept (.op (.wrote (Function.update_self ..)) .ret) ?_
    refine Runs.bindExcept (.op (.moded (Function.update_self ..)) .ret) ?_
    refine Runs.bindExcept (.op (.synced (.ok ())) .ret) ?_
    exact .op (.closed (.ok ())) .ret
  have hstage : Runs (FsExec links) disk (stageWorkspaceFile host update).run
      (.ok ⟨update, staged, backup⟩) ready := by
    refine Runs.bindExcept (a := staged) (hs ▸ siblingTemporaryPath_runs .staged ha) ?_
    refine Runs.bindExcept (a := backup) (hk ▸ siblingTemporaryPath_runs .backup hb) ?_
    refine Runs.bindExcept (a := file.mode) (.op (.statted hfile) .ret) ?_
    refine Runs.bindExcept (.op (.opened hfree) .ret) ?_
    refine Runs.bindExcept (a := ()) ?_ .ret
    rw [ExceptT.run_tryCatch]
    exact hwrite.bind .ret
  have hcheck : Runs (FsExec links) disk (stageAndCheck host [update])
      ([⟨update, staged, backup⟩], .ok ()) ready := by
    refine Runs.bind (hstage.bind .ret) ?_
    have hread : Runs (FsExec links) ready
        ([(⟨update, staged, backup⟩ : StagedFileEdit)].mapM fun u => readFile u.writePath).run
          (.ok [update.content]) ready := by
      refine Runs.mapM_singleton ?_
      rw [hcontent]
      exact .op (.read hready) .ret
    have hunchanged : checkUnchanged [⟨update, staged, backup⟩] [update.content] = .ok () := by
      simp [checkUnchanged]
    have hrecheck : Runs (FsExec links) ready (recheck [⟨update, staged, backup⟩]).run (.ok ())
        ready := by
      refine Runs.bindExcept hread ?_
      rw [hunchanged]
      exact .ret
    exact Runs.bind hrecheck .ret
  have hcommit : Runs (FsExec links) ready (commitAll [] [⟨update, staged, backup⟩])
      ([⟨update, staged, backup⟩], .ok ()) done := by
    refine Runs.bind (.op (.renamed hready) .ret) ?_
    exact Runs.bind (.op (.renamed hmoved) .ret) .ret
  refine ⟨done.put backup none, Runs.bindLift hcheck (Runs.bindLift hcommit ?_)⟩
  refine Runs.bindLift (a := [.ok ()]) ?_ .ret
  rw [List.map_cons, List.map_nil, allSettled_cons]
  exact Runs.bind (.op .removed .ret) .ret

end

def sampleFile : WorkspaceFileEdits := ⟨lit "/w/a", [⟨⟨⟨0, 0⟩, ⟨0, 1⟩⟩, lit "x"⟩], .undefined⟩

def sampleUpdate : PreparedFileEdit := ⟨⟨⟨sampleFile, lit "/w/a", none⟩, lit "ab"⟩, lit "xb"⟩

def sampleUuid (n : UInt16) : Str := List.replicate 35 48 ++ [n]

theorem sample_prepared : Runs (FsExec sampleLinks) sampleDisk
    (prepareAll sampleHost sampleEdit sampleOptions).run (.ok [sampleUpdate]) sampleDisk := by
  have hparse : parseWorkspaceEdit sampleHost sampleEdit = .ok [sampleFile] := by decide +kernel
  have htext : applyTextEdits (lit "ab") sampleFile = .ok (lit "xb") := by decide +kernel
  have hlexical : [lit "/w"].any (pathContains (lit "/w") · (lit "/w/a")) = true := by
    decide +kernel
  have hresolve : resolve (lit "/w") (lit "/w") = lit "/w" ∧
      resolve (lit "/w") (lit "/w/a") = lit "/w/a" := by decide +kernel
  have hroot : Runs (FsExec sampleLinks) sampleDisk (realpath (lit "/w")).run (.ok (lit "/w"))
      sampleDisk := .op (.resolved (by decide +kernel)) .ret
  have htarget : Runs (FsExec sampleLinks) sampleDisk (realpath (lit "/w/a")).run
      (.ok (lit "/w/a")) sampleDisk := .op (.resolved (by decide +kernel)) .ret
  have hread : Runs (FsExec sampleLinks) sampleDisk (readFile (lit "/w/a")).run (.ok (lit "ab"))
      sampleDisk := by
    have hbytes : Utf8.decode [97, 98] = lit "ab" := by decide +kernel
    have hfile : sampleDisk.files (lit "/w/a") = some ⟨[97, 98], 420⟩ := by decide +kernel
    rw [← hbytes]
    exact .op (.read hfile) .ret
  have hauthorized : Runs (FsExec sampleLinks) sampleDisk
      (authorizeWorkspaceTargets sampleHost [sampleFile] sampleOptions).run
        (.ok [⟨sampleFile, lit "/w/a", none⟩]) sampleDisk := by
    refine Runs.bindExcept (Runs.mapM_singleton hroot) ?_
    exact Runs.mapM_singleton (Runs.bindExcept htarget .ret)
  have hparsed : Runs (FsExec sampleLinks) sampleDisk
      (parseWorkspaceEdit sampleHost sampleEdit : FsM (List WorkspaceFileEdits)).run
        (.ok [sampleFile]) sampleDisk := by
    rw [hparse]
    exact .ret
  have hprepare : Runs (FsExec sampleLinks) sampleDisk
      (prepare ⟨⟨sampleFile, lit "/w/a", none⟩, lit "ab"⟩ : FsM PreparedFileEdit).run
        (.ok sampleUpdate) sampleDisk := by
    unfold prepare
    rw [htext]
    exact .ret
  refine Runs.bindExcept hparsed (Runs.bindExcept hauthorized ?_)
  refine Runs.bindExcept (Runs.mapM_singleton (Runs.bindExcept hread .ret)) ?_
  exact Runs.mapM_singleton hprepare

theorem fresh_sampleUuid {disk : Disk} {n : UInt16} (hfiles : disk.files = sampleDisk.files)
    (hn : n = 49 ∨ n = 50) (hu : sampleUuid n ∉ disk.issued) : disk.Fresh (sampleUuid n) := by
  refine ⟨by simp [sampleUuid], ?_, hu, fun path hpath => ?_⟩
  · rcases hn with rfl | rfl <;> decide
  · rw [hfiles] at hpath
    have hp : path = lit "/w/a" := by
      by_contra hne
      exact hpath (if_neg hne)
    subst hp
    rcases hn with rfl | rfl <;> decide

/-- An edit that applies: `ab` becomes `xb`, in the file's mode. -/
theorem workspaceEdit_applied : ∃ disk' : Disk,
    disk'.files (lit "/w/a") = some ⟨Utf8.encode (lit "xb"), 420⟩ ∧
      ∀ path ∈ disk'.written,
        Writable sampleHost sampleEdit sampleOptions sampleLinks sampleDisk path := by
  have hparse : parseWorkspaceEdit sampleHost sampleEdit = .ok [sampleFile] := by decide +kernel
  have htext : applyTextEdits (Utf8.decode [97, 98]) sampleFile = .ok (lit "xb") := by
    decide +kernel
  have hfile : sampleDisk.files sampleUpdate.writePath = some ⟨[97, 98], 420⟩ := by decide +kernel
  have hreplaces : ∃ disk', Runs (FsExec sampleLinks) sampleDisk
      (replaceWorkspaceFiles sampleHost [sampleUpdate]).run (.ok ()) disk' :=
    replaceOne_runs hfile (by decide +kernel) (fresh_sampleUuid rfl (.inl rfl) (by decide))
      (fresh_sampleUuid rfl (.inr rfl) (by decide)) (by decide +kernel) (by decide +kernel)
  obtain ⟨disk', hreplaced⟩ := hreplaces
  have hrun : Runs (FsExec sampleLinks) sampleDisk
      (applyWorkspaceEdit sampleHost sampleEdit sampleOptions) (.ok (applied [sampleUpdate]))
        disk' := by
    refine Runs.bind (a := .ok (applied [sampleUpdate])) ?_ .ret
    exact Runs.bindExcept sample_prepared (Runs.bindExcept hreplaced .ret)
  obtain ⟨hend, hwritten⟩ := workspaceEdit_all_or_nothing _ _ _ _ hrun
  refine ⟨disk', ?_, fun path hpath => ?_⟩
  · rcases hend with ⟨⟨message, hm⟩, -⟩ | ⟨-, files, hfiles, happlied⟩
    · cases hm
    · obtain rfl := Except.ok.inj (hparse.symm.trans hfiles)
      obtain ⟨target, stored, text, htarget, hstored, ht, hafter⟩ := happlied sampleFile (by simp)
      obtain rfl := Option.some.inj htarget
      obtain rfl := Option.some.inj hstored
      obtain rfl := Except.ok.inj (htext.symm.trans ht)
      exact hafter
  · rcases hwritten path hpath with h | ⟨h, -⟩
    · cases h
    · exact h

end PiEnv.DevTools
