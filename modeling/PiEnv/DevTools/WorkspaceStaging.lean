import PiEnv.DevTools.WorkspaceCommit

/-!
# Staging a workspace edit

The temporary files beside each target, and the recheck of the targets before
the first rename.
-/

namespace PiEnv.DevTools

open Js Posix Effects
open Js.Utf8 (Bytes)
open Relation (ReflTransGen)

section
variable {links : Links} {W : Str → Prop} {disk : Disk} {β : Type}
variable {files₀ : Files} {updates : List StagedFileEdit}

-- -----
-- Staging
-- -----

/-- A path ends in an identifier that was handed out. -/
def Named (disk : Disk) (path : Str) : Prop :=
  ∃ uuid ∈ disk.issued, uuid.length = 36 ∧ uuid <:+ path

/-- The files staged so far. -/
structure Staging (files₀ : Files) (disk : Disk) (staged : List StagedFileEdit) : Prop where
  layout : Layout files₀ disk.files (staged.map (stagedCells files₀))
  planned : Planned files₀ staged
  named : ∀ u ∈ staged, Named disk u.backupPath

section
variable {staged : List StagedFileEdit}

theorem Staging.issue (h : Staging files₀ disk staged) (uuid : Str) :
    Staging files₀ { disk with issued := uuid :: disk.issued } staged := by
  refine ⟨h.layout, h.planned, fun u hu => ?_⟩
  obtain ⟨a, ha, hlen, hs⟩ := h.named u hu
  exact ⟨a, by simp [ha], hlen, hs⟩

theorem Staging.holds (h : Staging files₀ disk staged) {u : StagedFileEdit} (hu : u ∈ staged) :
    disk.files u.writePath ≠ none ∧ disk.files u.stagedPath ≠ none := by
  obtain ⟨file, hfile⟩ := Option.ne_none_iff_exists'.mp (h.planned.there u hu)
  have hin := h.layout.inside _ (List.mem_map_of_mem hu)
  constructor
  · have ht : disk.files u.writePath = files₀ u.writePath := hin .target
    simp [ht, hfile]
  · have hs : disk.files u.stagedPath = edited files₀ u.toPreparedFileEdit := hin .staged
    simp [hs, edited, hfile]

/-- A path that ends in a fresh identifier is none of those in use. -/
theorem Staging.fresh_ne (h : Staging files₀ disk staged) {uuid path : Str} (hf : disk.Fresh uuid)
    (hs : uuid <:+ path) : ∀ u ∈ staged, ∀ p, u.path p ≠ path := by
  rintro u hu p rfl
  cases p with
  | target => exact hf.unused _ (h.holds hu).1 hs
  | staged => exact hf.unused _ (h.holds hu).2 hs
  | backup =>
    obtain ⟨other, ho, hlen, hother⟩ := h.named u hu
    have hle : other.length ≤ uuid.length := by rw [hlen, hf.length]
    have heq := (List.suffix_of_suffix_length_le hother hs hle).eq_of_length (hlen.trans hf.length.symm)
    exact hf.unissued (heq ▸ ho)

theorem Staging.free (h : Staging files₀ disk staged) {uuid path : Str} (hf : disk.Fresh uuid)
    (hs : uuid <:+ path) : disk.files path = none ∧ files₀ path = none := by
  have hnone : disk.files path = none := by
    by_contra hne
    exact hf.unused path hne hs
  refine ⟨hnone, (h.layout.outside path fun x hx p => ?_).symm.trans hnone⟩
  obtain ⟨u, hu, rfl⟩ := List.mem_map.mp hx
  exact (h.fresh_ne hf hs u hu p).symm

/-- One more file is staged: its target is another one, and its temporary
files have fresh names. -/
theorem Staging.add (h : Staging files₀ disk staged) {u : StagedFileEdit} {a b : Str} {disk' : Disk}
    (hthere : files₀ u.writePath ≠ none) (hother : ∀ v ∈ staged, v.writePath ≠ u.writePath)
    (ha : disk.Fresh a) (hb : { disk with issued := a :: disk.issued : Disk }.Fresh b)
    (hstaged : a <:+ u.stagedPath) (hbackup : b <:+ u.backupPath)
    (hfiles : disk'.files = Function.update disk.files u.stagedPath
      (edited files₀ u.toPreparedFileEdit))
    (hissued : disk'.issued = b :: a :: disk.issued) :
    Staging files₀ disk' (staged ++ [u]) := by
  have hfree₁ := h.free ha hstaged
  have hfree₂ := (h.issue a).free hb hbackup
  have hne : u.stagedPath ≠ u.backupPath := by
    intro he
    have hle : a.length ≤ b.length := by rw [ha.length, hb.length]
    have heq := (List.suffix_of_suffix_length_le (he ▸ hstaged) hbackup hle).eq_of_length
      (ha.length.trans hb.length.symm)
    exact hb.unissued (by simp [heq])
  have htarget : ∀ path, files₀ path = none → u.writePath ≠ path := by
    rintro path hnone rfl
    exact hthere hnone
  have hplaces : ∀ p q, u.path p = u.path q → p = q := by
    have h₁ := htarget _ hfree₁.2
    have h₂ := htarget _ hfree₂.2
    intro p q hpq
    cases p <;> cases q <;> first | rfl | exact absurd hpq ‹_› | exact absurd hpq.symm ‹_›
  have hapart : ∀ v ∈ staged, ∀ p q, v.path p ≠ u.path q := by
    intro v hv p q
    cases q with
    | target =>
      cases p with
      | target => exact hother v hv
      | staged => exact (htarget _ (h.planned.free v hv).1).symm
      | backup => exact (htarget _ (h.planned.free v hv).2).symm
    | staged => exact h.fresh_ne ha hstaged v hv p
    | backup => exact (h.issue a).fresh_ne hb hbackup v hv p
  refine ⟨?_, h.planned.add hapart hplaces hthere ⟨hfree₁.2, hfree₂.2⟩, ?_⟩
  · rw [hfiles, List.map_append]
    refine h.layout.add (fun x hx => ?_) hplaces ⟨hfree₁.2, hfree₂.2⟩ _
    obtain ⟨v, hv, rfl⟩ := List.mem_map.mp hx
    exact hapart v hv
  · simp only [List.mem_append, List.mem_singleton]
    rintro v (hv | rfl)
    · obtain ⟨c, hc, hlen, hs⟩ := h.named v hv
      exact ⟨c, by simp [hissued, hc], hlen, hs⟩
    · exact ⟨b, by simp [hissued], hb.length, hbackup⟩

end

theorem siblingTemporaryPath_spec (host : Host) (path : Str) (role : TemporaryRole) :
    Spec links W (siblingTemporaryPath host path role).run
      (fun r d => ∃ uuid, r = .ok (siblingPath host path role uuid) ∧ disk.Fresh uuid ∧
        d = { disk with issued := uuid :: disk.issued }) disk := by
  refine Alone.op fun r d he => ?_
  cases he with
  | identified fresh => exact ⟨.refl _, Alone.ret ⟨_, rfl, fresh, rfl⟩⟩

/-- The staged file exists, with some content; every other file is as in `base`. -/
def Holding (base : Disk) (path : Str) (file : File) (d : Disk) : Prop :=
  d.files = Function.update base.files path (some file) ∧ d.issued = base.issued

section
variable {base : Disk} {path : Str} {file : File}

theorem Holding.put (h : Holding base path file disk) (file' : File) :
    Holding base path file' (disk.put path (some file')) :=
  ⟨by rw [Disk.put_files, h.1, Function.update_idem], h.2⟩

theorem Holding.get (h : Holding base path file disk) : disk.files path = some file := by
  rw [h.1, Function.update_self]

theorem openNew_spec (mode : Nat) (hW : W path) : Spec links W (openNew path mode).run
    (fun r d => r = .ok () ∧ Holding disk path ⟨[], mode⟩ d ∨ r = .error .io ∧ d = disk) disk := by
  refine Alone.op fun r d he => ?_
  cases he with
  | opened => exact ⟨.put hW _, Alone.ret (.inl ⟨rfl, rfl, rfl⟩)⟩
  | openFails => exact ⟨.refl _, Alone.ret (.inr ⟨rfl, rfl⟩)⟩

theorem writeFile_spec (bytes : Bytes) (hW : W path) (h : Holding base path file disk) :
    Spec links W (writeFile path bytes).run (fun r d => ∃ file', Holding base path file' d ∧
      file'.mode = file.mode ∧ (r = .ok () → file'.content = bytes)) disk := by
  refine Alone.op fun r d he => ?_
  cases he with
  | wrote hf =>
    obtain rfl := Option.some.inj (h.get.symm.trans hf)
    exact ⟨.put hW _, Alone.ret ⟨_, h.put _, rfl, fun _ => rfl⟩⟩
  | writeFails torn hf =>
    obtain rfl := Option.some.inj (h.get.symm.trans hf)
    exact ⟨.put hW _, Alone.ret ⟨_, h.put _, rfl, fun hr => by cases hr⟩⟩

theorem chmod_spec (mode : Nat) (hW : W path) (h : Holding base path file disk) :
    Spec links W (chmod path mode).run (fun r d => ∃ file', Holding base path file' d ∧
      file'.content = file.content ∧ (r = .ok () → file'.mode = mode)) disk := by
  refine Alone.op fun r d he => ?_
  cases he with
  | moded hf =>
    obtain rfl := Option.some.inj (h.get.symm.trans hf)
    exact ⟨.put hW _, Alone.ret ⟨_, h.put _, rfl, fun _ => rfl⟩⟩
  | chmodFails => exact ⟨.refl _, Alone.ret ⟨_, h, rfl, fun hr => by cases hr⟩⟩

theorem sync_spec (path : Str) : Spec links W (sync path).run (fun _ d => d = disk) disk := by
  refine Alone.op fun r d he => ?_
  cases he with
  | synced => exact ⟨.refl _, Alone.ret rfl⟩

theorem close_spec (path : Str) : Spec links W (close path).run (fun _ d => d = disk) disk := by
  refine Alone.op fun r d he => ?_
  cases he with
  | closed => exact ⟨.refl _, Alone.ret rfl⟩

theorem writeStaged_spec (updatedContent : Str) (mode : Nat) (hW : W path)
    (h : Holding base path file disk) : Spec links W (writeStaged path updatedContent mode).run
      (fun r d => ∃ file', Holding base path file' d ∧
        (r = .ok () → file' = ⟨Utf8.encode updatedContent, mode⟩)) disk := by
  have herror : ∀ {e : Failure} {d : Disk} {file'}, Holding base path file' d →
      Spec links W (.ret (.error e) : FsProg (Except Failure Unit))
        (fun r d => ∃ file', Holding base path file' d ∧
          (r = .ok () → file' = ⟨Utf8.encode updatedContent, mode⟩)) d :=
    fun hd => Alone.ret ⟨_, hd, fun hr => by cases hr⟩
  refine Safe.bindExcept _ (writeFile_spec _ hW h) ?_ fun e d ⟨_, hd, _⟩ => herror hd
  rintro ⟨⟩ d ⟨file₁, hd₁, -, hcontent⟩
  refine Safe.bindExcept _ (chmod_spec mode hW hd₁) ?_ fun e d ⟨_, hd, _⟩ => herror hd
  rintro ⟨⟩ d ⟨file₂, hd₂, hcontent₂, hmode⟩
  refine Safe.bindExcept _ (sync_spec path) ?_ fun e d hd => herror (hd ▸ hd₂)
  rintro ⟨⟩ d rfl
  refine (close_spec path).mono fun r d hd => ⟨file₂, hd ▸ hd₂, fun _ => ?_⟩
  rw [← hmode rfl, ← hcontent rfl, ← hcontent₂]

theorem discardStaged_spec (cause : Failure) (hW : W path) (hnone : base.files path = none)
    (h : Holding base path file disk) : Spec links W (discardStaged path cause).run
      (fun r d => r = .error cause ∧ d.files = base.files ∧ d.issued = base.issued) disk := by
  refine Safe.bindLift (fun _ d => d = disk) ?_ ?_
  · rw [allSettled_cons]
    refine Alone.bind _ (close_spec path) ?_
    rintro _ d rfl
    exact Alone.ret rfl
  · rintro _ d rfl
    refine Safe.bindLift (fun _ d' => d' = d.put path none) ?_ ?_
    · rw [allSettled_cons]
      refine Alone.bind _ (undo_spec hW) ?_
      rintro _ d' ⟨-, rfl⟩
      exact Alone.ret rfl
    · rintro _ d' rfl
      refine Alone.ret ⟨rfl, ?_, h.2⟩
      rw [Disk.put_files, h.1, Function.update_idem, ← hnone, Function.update_eq_self]

end

theorem stageText_spec {base : Disk} {path : Str} {file : File} (updatedContent : Str) (mode : Nat)
    (hW : W path) (hnone : base.files path = none) (h : Holding base path file disk) :
    Spec links W (tryCatch (writeStaged path updatedContent mode) (discardStaged path)).run
      (fun r d => (∃ cause, r = .error cause) ∧ d.files = base.files ∧ d.issued = base.issued ∨
        r = .ok () ∧ Holding base path ⟨Utf8.encode updatedContent, mode⟩ d) disk := by
  refine Safe.tryCatch _ (writeStaged_spec updatedContent mode hW h) ?_ ?_
  · rintro ⟨⟩ d ⟨file', hd, hfile⟩
    rw [hfile rfl] at hd
    exact Alone.ret (.inr ⟨rfl, hd⟩)
  · rintro cause d ⟨file', hd, -⟩
    exact (discardStaged_spec cause hW hnone hd).mono fun r d' hr => .inl ⟨⟨cause, hr.1⟩, hr.2⟩

/-- An update whose target was read, and whose files may be written. -/
structure Sourced (host : Host) (W : Str → Prop) (files₀ : Files) (update : PreparedFileEdit) :
    Prop where
  canonical : Canonical update.writePath
  there : ∃ file, files₀ update.writePath = some file ∧
    update.content = Utf8.decode file.content
  target : W update.writePath
  temporary : ∀ role uuid, slash ∉ uuid → W (siblingPath host update.writePath role uuid)

section
variable {host : Host} {staged : List StagedFileEdit} {update : PreparedFileEdit}

theorem Staging.congr {d : Disk} (h : Staging files₀ disk staged) (hf : d.files = disk.files)
    (hi : d.issued = disk.issued) : Staging files₀ d staged :=
  ⟨hf ▸ h.layout, h.planned, fun u hu => by rw [Named, hi]; exact h.named u hu⟩

theorem Staging.target (h : Staging files₀ disk staged) {path : Str} {file : File}
    (hother : ∀ v ∈ staged, v.writePath ≠ path) (hfile : files₀ path = some file) :
    disk.files path = some file := by
  rw [← hfile]
  refine h.layout.outside _ fun x hx p => ?_
  obtain ⟨v, hv, rfl⟩ := List.mem_map.mp hx
  rintro rfl
  have hfree := h.planned.free v hv
  cases p with
  | target => exact hother v hv rfl
  | staged => exact absurd (hfile.symm.trans hfree.1) (by simp)
  | backup => exact absurd (hfile.symm.trans hfree.2) (by simp)

/-- What staging one file does. -/
def StagedOne (W : Str → Prop) (files₀ : Files) (staged : List StagedFileEdit)
    (update : PreparedFileEdit) (r : Except Failure StagedFileEdit) (d : Disk) : Prop :=
  (∃ cause, r = .error cause) ∧ Staging files₀ d staged ∨
    ∃ u, r = .ok u ∧ u.toPreparedFileEdit = update ∧ Staging files₀ d (staged ++ [u]) ∧
      ∀ p, W (u.path p)

theorem stageWorkspaceFile_spec (hst : Staging files₀ disk staged)
    (hu : Sourced host W files₀ update) (hother : ∀ v ∈ staged, v.writePath ≠ update.writePath) :
    Spec links W (stageWorkspaceFile host update).run (StagedOne W files₀ staged update) disk := by
  obtain ⟨file, hfile, -⟩ := hu.there
  have herror : ∀ {e : Failure} {d : Disk}, Staging files₀ d staged →
      Spec links W (.ret (.error e) : FsProg (Except Failure StagedFileEdit))
        (StagedOne W files₀ staged update) d :=
    fun hd => Alone.ret (.inl ⟨⟨_, rfl⟩, hd⟩)
  refine Safe.bindExcept _ (siblingTemporaryPath_spec host _ .staged) ?_ (by simp)
  rintro _ _ ⟨a, hstaged, ha, rfl⟩
  obtain rfl := Except.ok.inj hstaged
  refine Safe.bindExcept _ (siblingTemporaryPath_spec host _ .backup) ?_ (by simp)
  rintro _ _ ⟨b, hbackup, hb, rfl⟩
  obtain rfl := Except.ok.inj hbackup
  have hst₂ := (hst.issue a).issue b
  have ha' := suffix_siblingPath host .staged hu.canonical ha.no_slash
  have hb' := suffix_siblingPath host .backup hu.canonical hb.no_slash
  generalize hs : siblingPath host update.writePath .staged a = stagedPath at *
  generalize hk : siblingPath host update.writePath .backup b = backupPath at *
  have hWs : W stagedPath := hs ▸ hu.temporary .staged a ha.no_slash
  have hWb : W backupPath := hk ▸ hu.temporary .backup b hb.no_slash
  have htarget := hst.target hother hfile
  generalize hdisk : ({ disk with issued := b :: a :: disk.issued } : Disk) = disk₂ at *
  have hfiles₂ : disk₂.files = disk.files := by rw [← hdisk]
  have hissued₂ : disk₂.issued = b :: a :: disk.issued := by rw [← hdisk]
  refine Safe.bindExcept _ (stat_spec update.writePath) ?_ ?_
  · rintro mode d ⟨rfl, hmode⟩
    obtain ⟨file', hfile', rfl⟩ := hmode mode rfl
    rw [hfiles₂, htarget] at hfile'
    obtain rfl := Option.some.inj hfile'
    refine Safe.bindExcept _ (openNew_spec _ hWs) ?_ ?_
    · rintro ⟨⟩ d' (⟨-, hopen⟩ | ⟨hf, -⟩)
      · have hnone : d.files stagedPath = none := hfiles₂ ▸ (hst.free ha ha').1
        refine Safe.bindExcept _ (stageText_spec _ _ hWs hnone hopen) ?_ ?_
        · rintro ⟨⟩ d'' (⟨⟨_, hf⟩, -⟩ | ⟨-, hhold⟩)
          · cases hf
          · have hedit : edited files₀ update = some ⟨Utf8.encode update.updatedContent, file.mode⟩ := by
              simp [edited, hfile]
            have hadd := hst.add (u := ⟨update, stagedPath, backupPath⟩) (by simp [hfile]) hother ha hb
              ha' hb' (by rw [hhold.1, hfiles₂, hedit]) (hhold.2.trans hissued₂)
            refine Alone.ret (.inr ⟨_, rfl, rfl, hadd, fun p => ?_⟩)
            cases p with
            | target => exact hu.target
            | staged => exact hWs
            | backup => exact hWb
        · rintro e d'' (⟨-, hfiles, hissued⟩ | ⟨hf, -⟩)
          · exact herror (hst₂.congr hfiles hissued)
          · cases hf
      · cases hf
    · rintro e d' (⟨hf, -⟩ | ⟨-, rfl⟩)
      · cases hf
      · exact herror hst₂
  · rintro e d ⟨rfl, -⟩
    exact herror hst₂

theorem stageAll_spec {rest : List PreparedFileEdit} (hst : Staging files₀ disk staged)
    (hW : ∀ u ∈ staged, ∀ p, W (u.path p)) (hrest : ∀ u ∈ rest, Sourced host W files₀ u)
    (hnodup : (staged.map (·.writePath) ++ rest.map (·.writePath)).Nodup) :
    Spec links W (stageAll host staged rest) (fun r d => ∃ done, Staging files₀ d done ∧
      (∀ u ∈ done, ∀ p, W (u.path p)) ∧
        (r = (done, .ok ()) ∧
            done.map (·.toPreparedFileEdit) = staged.map (·.toPreparedFileEdit) ++ rest ∨
          ∃ cause, r = (done, .error cause))) disk := by
  induction rest generalizing staged disk with
  | nil => exact Alone.ret ⟨staged, hst, hW, .inl ⟨rfl, by simp⟩⟩
  | cons update rest ih =>
    have hother : ∀ v ∈ staged, v.writePath ≠ update.writePath := by
      intro v hv he
      rw [List.nodup_append] at hnodup
      exact hnodup.2.2 _ (List.mem_map_of_mem hv) _ (by simp) he
    refine Alone.bind _ (stageWorkspaceFile_spec hst (hrest update (by simp)) hother) ?_
    rintro _ d (⟨⟨cause, rfl⟩, hd⟩ | ⟨u, rfl, hu, hd, hWu⟩)
    · exact Alone.ret ⟨staged, hd, hW, .inr ⟨cause, rfl⟩⟩
    · have hWall : ∀ v ∈ staged ++ [u], ∀ p, W (v.path p) := by
        simp only [List.mem_append, List.mem_singleton]
        rintro v (hv | rfl)
        exacts [hW v hv, hWu]
      have hstep := ih hd hWall (fun v hv => hrest v (by simp [hv])) (by simpa [← hu] using hnodup)
      refine hstep.mono ?_
      rintro r d' ⟨done, hdone, hWd, ⟨rfl, hmap⟩ | hcause⟩
      · exact ⟨done, hdone, hWd, .inl ⟨rfl, by simp [hmap, hu]⟩⟩
      · exact ⟨done, hdone, hWd, .inr hcause⟩

theorem recheck_spec (staged : List StagedFileEdit) :
    Spec links W (recheck staged).run (fun _ d => d = disk) disk := by
  have hread : Spec links W (staged.mapM fun update => readFile update.writePath).run
      (fun r d => d = disk ∧ ∀ results, r = .ok results →
        List.Forall₂ (fun _ _ => True) staged results) disk := by
    refine Safe.mapM (fun _ _ _ hf => hf.elim) (fun update _ d hd => ?_) rfl
    exact (readFile_spec update.writePath).mono fun _ _ hr => ⟨hr.1.trans hd, fun _ _ => trivial⟩
  refine Safe.bindExcept _ hread (fun contents d hd => ?_) fun e d hd => Alone.ret hd.1
  exact Alone.ret hd.1

theorem replaceWorkspaceFiles_spec {updates : List PreparedFileEdit}
    (hupdates : ∀ u ∈ updates, Sourced host W disk.files u)
    (hnodup : (updates.map (·.writePath)).Nodup) :
    Spec links W (replaceWorkspaceFiles host updates).run (fun r d =>
      (∃ cause, r = .error cause) ∧ d.files = disk.files ∨
        r = .ok () ∧ ∀ u ∈ updates, d.files u.writePath = edited disk.files u) disk := by
  have hstart : Staging disk.files disk [] := ⟨.nil _, ⟨by simp, by simp, by simp, by simp⟩, by simp⟩
  have hcheck : Spec links W (stageAndCheck host updates) (fun r d => ∃ done,
      Staging disk.files d done ∧ (∀ u ∈ done, ∀ p, W (u.path p)) ∧
        (r = (done, .ok ()) ∧ done.map (·.toPreparedFileEdit) = updates ∨
          ∃ cause, r = (done, .error cause))) disk := by
    refine Alone.bind _ (stageAll_spec hstart (by simp) hupdates (by simpa using hnodup)) ?_
    rintro r d ⟨done, hd, hWd, ⟨rfl, hmap⟩ | ⟨cause, rfl⟩⟩
    · refine Alone.bind _ (recheck_spec done) ?_
      rintro (cause | ⟨⟩) _ rfl
      · exact Alone.ret ⟨done, hd, hWd, .inr ⟨cause, rfl⟩⟩
      · exact Alone.ret ⟨done, hd, hWd, .inl ⟨rfl, by simpa using hmap⟩⟩
    · exact Alone.ret ⟨done, hd, hWd, .inr ⟨cause, rfl⟩⟩
  refine Safe.bindLift _ hcheck ?_
  rintro r d ⟨done, hd, hWd, ⟨rfl, rfl⟩ | ⟨cause, rfl⟩⟩
  · refine (commitFiles_spec hd.planned hWd hd.layout).mono ?_
    rintro r d' (herror | ⟨rfl, cells, hcells, hlayout, hreplaced⟩)
    · exact .inl herror
    · refine .inr ⟨rfl, fun u hu => ?_⟩
      obtain ⟨v, hv, rfl⟩ := List.mem_map.mp hu
      rw [← hcells] at hv
      obtain ⟨x, hx, rfl⟩ := List.mem_map.mp hv
      exact (hlayout.inside x hx .target).trans (hreplaced x hx).1
  · have hplan : Planned disk.files (([] ++ done.map (stagedCells disk.files)).map Prod.fst) := by
      rw [List.nil_append, map_stagedCells]
      exact hd.planned
    have hmem : ∀ x ∈ done.map (stagedCells disk.files), x.1 ∈ done ∧ Intact disk.files x := by
      intro x hx
      obtain ⟨u, hu, rfl⟩ := List.mem_map.mp hx
      exact ⟨hu, rfl, rfl⟩
    have hdiscard : Spec links W _ _ d := discard_spec (fun x hx => hWd x.1 (hmem x hx).1) hplan
      hd.layout (by simp) (fun x hx => (hmem x hx).2)
    rw [map_stagedCells] at hdiscard
    exact Safe.bindLift _ hdiscard fun _ d' hd' => Alone.ret (.inl ⟨⟨cause, rfl⟩, hd'⟩)

end

end

end PiEnv.DevTools
