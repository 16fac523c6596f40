import PiEnv.DevTools.WorkspaceDisk

/-!
# Committing a workspace edit, and taking it back

For each target there are three files: the target itself, its staged text and
its backup. A commit that stops anywhere leaves a mixture of them, and the
rollback puts every file back.
-/

namespace PiEnv.DevTools

open Js Posix Effects
open Js.Utf8 (Bytes)
open Relation (ReflTransGen)

-- -----
-- Three files for each target
-- -----

inductive Place where
  | target | staged | backup
  deriving DecidableEq, Repr

def StagedFileEdit.path (update : StagedFileEdit) : Place → Str
  | .target => update.writePath
  | .staged => update.stagedPath
  | .backup => update.backupPath

structure Cells where
  target : Option File
  staged : Option File
  backup : Option File

def Cells.get (cells : Cells) : Place → Option File
  | .target => cells.target
  | .staged => cells.staged
  | .backup => cells.backup

def Cells.set (cells : Cells) (p : Place) (file : Option File) : Cells :=
  match p with
  | .target => { cells with target := file }
  | .staged => { cells with staged := file }
  | .backup => { cells with backup := file }

theorem Cells.get_set (cells : Cells) (p q : Place) (file : Option File) :
    (cells.set p file).get q = if q = p then file else cells.get q := by
  cases p <;> cases q <;> rfl

abbrev Files := Str → Option File

/-- No two of the paths of an edit are the same, every target was there, and
nothing was where its other files go. -/
structure Planned (files₀ : Files) (updates : List StagedFileEdit) : Prop where
  apart : updates.Pairwise fun u v => ∀ p q, u.path p ≠ v.path q
  places : ∀ u ∈ updates, ∀ p q, u.path p = u.path q → p = q
  there : ∀ u ∈ updates, files₀ u.writePath ≠ none
  free : ∀ u ∈ updates, files₀ u.stagedPath = none ∧ files₀ u.backupPath = none

/-- What each update's files hold; every other file is as it was. -/
structure Layout (files₀ files : Files) (cells : List (StagedFileEdit × Cells)) : Prop where
  inside : ∀ x ∈ cells, ∀ p, files (x.1.path p) = x.2.get p
  outside : ∀ path, (∀ x ∈ cells, ∀ p, path ≠ x.1.path p) → files path = files₀ path

section
variable {files₀ files files' : Files} {u : StagedFileEdit} {c c' : Cells}
  {xs ys : List (StagedFileEdit × Cells)}

/-- A step on the files of one update. -/
theorem Layout.set (h : Layout files₀ files (xs ++ (u, c) :: ys))
    (hp : Planned files₀ ((xs ++ (u, c) :: ys).map Prod.fst))
    (hin : ∀ p, files' (u.path p) = c'.get p)
    (hout : ∀ path, (∀ p, path ≠ u.path p) → files' path = files path) :
    Layout files₀ files' (xs ++ (u, c') :: ys) := by
  have hapart := hp.apart
  simp only [List.map_append, List.map_cons, List.pairwise_append, List.pairwise_cons] at hapart
  obtain ⟨-, ⟨hy, -⟩, hx⟩ := hapart
  refine ⟨fun x hm p => ?_, fun path hpath => ?_⟩
  · rcases List.mem_append.mp hm with hm | hm
    · rw [hout _ fun q => hx _ (List.mem_map_of_mem hm) _ (by simp) p q]
      exact h.inside x (by simp [hm]) p
    · rcases List.mem_cons.mp hm with rfl | hm
      · exact hin p
      · rw [hout _ fun q => (hy _ (List.mem_map_of_mem hm) q p).symm]
        exact h.inside x (by simp [hm]) p
  · rw [hout path fun p => hpath (u, c') (by simp) p]
    refine h.outside path fun x hm p => ?_
    rcases List.mem_append.mp hm with hm | hm
    · exact hpath x (by simp [hm]) p
    · rcases List.mem_cons.mp hm with rfl | hm
      · exact hpath (u, c') (by simp) p
      · exact hpath x (by simp [hm]) p

theorem Layout.put (h : Layout files₀ files (xs ++ (u, c) :: ys))
    (hp : Planned files₀ ((xs ++ (u, c) :: ys).map Prod.fst)) (p : Place) (file : Option File) :
    Layout files₀ (Function.update files (u.path p) file) (xs ++ (u, c.set p file) :: ys) := by
  refine h.set hp (fun q => ?_) (fun path hpath => Function.update_of_ne (hpath p) ..)
  rw [Cells.get_set]
  split
  · rename_i hq
    rw [hq, Function.update_self]
  · rename_i hq
    have hne : u.path q ≠ u.path p := fun he => hq (hp.places u (by simp) q p he)
    rw [Function.update_of_ne hne]
    exact h.inside (u, c) (by simp) q

theorem Layout.get (h : Layout files₀ files (xs ++ (u, c) :: ys)) (p : Place) :
    files (u.path p) = c.get p :=
  h.inside (u, c) (by simp) p

theorem Layout.nil (files₀ : Files) : Layout files₀ files₀ [] := ⟨by simp, by simp⟩

/-- The files of one more update: its target as it was, and its staged text. -/
theorem Layout.add {cells : List (StagedFileEdit × Cells)} (h : Layout files₀ files cells)
    (hapart : ∀ x ∈ cells, ∀ p q, x.1.path p ≠ u.path q)
    (hplaces : ∀ p q, u.path p = u.path q → p = q)
    (hfree : files₀ u.stagedPath = none ∧ files₀ u.backupPath = none) (file : Option File) :
    Layout files₀ (Function.update files u.stagedPath file)
      (cells ++ [(u, ⟨files₀ u.writePath, file, none⟩)]) := by
  have houtside : ∀ q, q ≠ .staged → Function.update files u.stagedPath file (u.path q) =
      files₀ (u.path q) := by
    intro q hq
    have hne : u.path q ≠ u.stagedPath := fun he => hq (hplaces q .staged he)
    rw [Function.update_of_ne hne]
    exact h.outside _ fun x hx p => (hapart x hx p q).symm
  refine ⟨fun x hx p => ?_, fun path hpath => ?_⟩
  · rcases List.mem_append.mp hx with hx | hx
    · exact (Function.update_of_ne (hapart x hx p .staged) ..).trans (h.inside x hx p)
    · rw [List.mem_singleton.mp hx]
      cases p with
      | target => exact houtside .target (by decide)
      | staged => exact Function.update_self ..
      | backup => exact (houtside .backup (by decide)).trans hfree.2
  · have hne : path ≠ u.stagedPath :=
      hpath (u, ⟨files₀ u.writePath, file, none⟩) (by simp) .staged
    rw [Function.update_of_ne hne]
    exact h.outside path fun x hx p => hpath x (by simp [hx]) p

theorem Planned.add {updates : List StagedFileEdit} (h : Planned files₀ updates)
    (hapart : ∀ v ∈ updates, ∀ p q, v.path p ≠ u.path q)
    (hplaces : ∀ p q, u.path p = u.path q → p = q) (hthere : files₀ u.writePath ≠ none)
    (hfree : files₀ u.stagedPath = none ∧ files₀ u.backupPath = none) :
    Planned files₀ (updates ++ [u]) where
  apart := by
    rw [List.pairwise_append]
    exact ⟨h.apart, by simp, by simpa using hapart⟩
  places := by
    simp only [List.mem_append, List.mem_singleton]
    rintro v (hv | rfl)
    exacts [h.places v hv, hplaces]
  there := by
    simp only [List.mem_append, List.mem_singleton]
    rintro v (hv | rfl)
    exacts [h.there v hv, hthere]
  free := by
    simp only [List.mem_append, List.mem_singleton]
    rintro v (hv | rfl)
    exacts [h.free v hv, hfree]

/-- As it was: the target in its place, and no other file. -/
def Restored (files₀ : Files) (x : StagedFileEdit × Cells) : Prop :=
  x.2 = ⟨files₀ x.1.writePath, none, none⟩

theorem Layout.restored {cells : List (StagedFileEdit × Cells)} (h : Layout files₀ files cells)
    (hp : Planned files₀ (cells.map Prod.fst)) (hr : ∀ x ∈ cells, Restored files₀ x) :
    files = files₀ := by
  funext path
  by_cases hpath : ∃ x ∈ cells, ∃ p, path = x.1.path p
  · obtain ⟨x, hx, p, rfl⟩ := hpath
    rw [h.inside x hx p, hr x hx]
    have hfree := hp.free x.1 (List.mem_map_of_mem hx)
    cases p with
    | target => rfl
    | staged => exact hfree.1.symm
    | backup => exact hfree.2.symm
  · refine h.outside path fun x hx p he => hpath ⟨x, hx, p, he⟩

end

-- -----
-- System calls
-- -----

section
variable {links : Links} {W : Str → Prop} {disk : Disk} {β : Type}

/-- Only paths in `W` are written. -/
def Writes (W : Str → Prop) (disk disk' : Disk) : Prop :=
  ∀ path ∈ disk'.written, path ∈ disk.written ∨ W path

theorem Writes.refl (disk : Disk) : Writes W disk disk := fun _ h => .inl h

theorem Writes.put {path : Str} (h : W path) (file : Option File) :
    Writes W disk (disk.put path file) := by
  intro p hp
  rcases List.mem_cons.mp hp with rfl | hp
  · exact .inr h
  · exact .inl hp

abbrev Spec (links : Links) (W : Str → Prop) (p : FsProg β) (Q : β → Disk → Prop) (disk : Disk) :
    Prop :=
  Alone (FsExec links) (Writes W) p Q disk

theorem realpath_spec (path : Str) : Spec links W (realpath path).run
    (fun r d => d = disk ∧ ∀ real, r = .ok real → links.target path = some real) disk := by
  refine Alone.op fun r d he => ?_
  cases he with
  | resolved h =>
    refine ⟨.refl _, Alone.ret ⟨rfl, fun real hr => ?_⟩⟩
    rw [h, Except.ok.inj hr]
  | realpathFails => exact ⟨.refl _, Alone.ret ⟨rfl, fun _ hr => by cases hr⟩⟩

theorem readFile_spec (path : Str) : Spec links W (readFile path).run
    (fun r d => d = disk ∧ ∀ content, r = .ok content →
      ∃ file, disk.files path = some file ∧ content = Utf8.decode file.content) disk := by
  refine Alone.op fun r d he => ?_
  cases he with
  | read h =>
    refine ⟨.refl _, Alone.ret ⟨rfl, fun content hr => ?_⟩⟩
    exact ⟨_, h, (Except.ok.inj hr).symm⟩
  | readFails => exact ⟨.refl _, Alone.ret ⟨rfl, fun _ hr => by cases hr⟩⟩

theorem stat_spec (path : Str) : Spec links W (stat path).run
    (fun r d => d = disk ∧ ∀ mode, r = .ok mode →
      ∃ file, disk.files path = some file ∧ mode = file.mode) disk := by
  refine Alone.op fun r d he => ?_
  cases he with
  | statted h =>
    refine ⟨.refl _, Alone.ret ⟨rfl, fun mode hr => ?_⟩⟩
    exact ⟨_, h, (Except.ok.inj hr).symm⟩
  | statFails => exact ⟨.refl _, Alone.ret ⟨rfl, fun _ hr => by cases hr⟩⟩

theorem rename_spec {source target : Str} (undo : Bool) {file : File}
    (h : disk.files source = some file) (hs : W source) (ht : W target) :
    Spec links W (rename source target undo).run
      (fun r d => r = .ok () ∧ d = (disk.put source none).put target (some file) ∨
        undo = false ∧ r = .error .io ∧ d = disk) disk := by
  refine Alone.op fun r d he => ?_
  cases he with
  | renamed h' =>
    obtain rfl := Option.some.inj (h.symm.trans h')
    refine ⟨?_, Alone.ret (.inl ⟨rfl, rfl⟩)⟩
    intro p hp
    rcases List.mem_cons.mp hp with rfl | hp
    · exact .inr ht
    · exact Writes.put hs none p hp
  | renameFails => exact ⟨.refl _, Alone.ret (.inr ⟨rfl, rfl, rfl⟩)⟩
  | renameMissing hnone => simp [h] at hnone

theorem rm_spec {path : Str} (undo : Bool) (h : W path) : Spec links W (rm path undo).run
    (fun r d => r = .ok () ∧ d = disk.put path none ∨ undo = false ∧ d = disk) disk := by
  refine Alone.op fun r d he => ?_
  cases he with
  | removed => exact ⟨.put h none, Alone.ret (.inl ⟨rfl, rfl⟩)⟩
  | rmFails => exact ⟨.refl _, Alone.ret (.inr ⟨rfl, rfl⟩)⟩

theorem undo_spec {path : Str} (h : W path) : Spec links W (rm path true).run
    (fun r d => r = .ok () ∧ d = disk.put path none) disk :=
  (rm_spec true h).mono fun _ _ hr => hr.resolve_right (by simp)

-- -----
-- Commit
-- -----

variable {files₀ : Files} {updates : List StagedFileEdit}

/-- The file a target becomes. -/
def edited (files₀ : Files) (u : PreparedFileEdit) : Option File :=
  (files₀ u.writePath).map fun file => ⟨Utf8.encode u.updatedContent, file.mode⟩

def stagedCells (files₀ : Files) (u : StagedFileEdit) : StagedFileEdit × Cells :=
  (u, ⟨files₀ u.writePath, edited files₀ u.toPreparedFileEdit, none⟩)

def committedCells (files₀ : Files) (u : StagedFileEdit) : StagedFileEdit × Cells :=
  (u, ⟨edited files₀ u.toPreparedFileEdit, none, files₀ u.writePath⟩)

theorem map_stagedCells (us : List StagedFileEdit) :
    (us.map (stagedCells files₀)).map Prod.fst = us := by
  simp [Function.comp_def, stagedCells]

theorem map_committedCells (us : List StagedFileEdit) :
    (us.map (committedCells files₀)).map Prod.fst = us := by
  simp [Function.comp_def, committedCells]

/-- How the commit loop ends: all committed, or stopped with the original of
every file it moved away in the backup. -/
def Committed (files₀ : Files) (updates : List StagedFileEdit)
    (result : List StagedFileEdit × Except Failure Unit) (files : Files) : Prop :=
  result = (updates, .ok ()) ∧ Layout files₀ files (updates.map (committedCells files₀)) ∨
    ∃ cause moved left, result = (moved.map Prod.fst, .error cause) ∧
      updates = moved.map Prod.fst ++ left ∧
        (∀ x ∈ moved, x.2.backup = files₀ x.1.writePath) ∧
          Layout files₀ files (moved ++ left.map (stagedCells files₀))

theorem commitAll_spec (hp : Planned files₀ updates) (hW : ∀ u ∈ updates, ∀ p, W (u.path p))
    (rest done : List StagedFileEdit) (hsplit : updates = done ++ rest)
    (hl : Layout files₀ disk.files
      (done.map (committedCells files₀) ++ rest.map (stagedCells files₀))) :
    Spec links W (commitAll done rest) (fun r d => Committed files₀ updates r d.files) disk := by
  induction rest generalizing done disk with
  | nil =>
    refine Alone.ret (.inl ⟨by simp [hsplit], ?_⟩)
    simpa [hsplit] using hl
  | cons u rest ih =>
    have hu : u ∈ updates := by simp [hsplit]
    obtain ⟨file, hfile⟩ := Option.ne_none_iff_exists'.mp (hp.there u hu)
    have hplan : ∀ c, Planned files₀ ((done.map (committedCells files₀) ++
        (u, c) :: rest.map (stagedCells files₀)).map Prod.fst) := by
      intro c
      rw [List.map_append, List.map_cons, map_stagedCells, map_committedCells]
      exact hsplit ▸ hp
    have hmoved : ∀ x ∈ done.map (committedCells files₀), x.2.backup = files₀ x.1.writePath := by
      intro x hx
      obtain ⟨v, -, rfl⟩ := List.mem_map.mp hx
      rfl
    have hl₀ := hl
    rw [List.map_cons, stagedCells, hfile] at hl
    have hsource : disk.files u.writePath = some file := hl.get .target
    refine Alone.bind _ (rename_spec false hsource (hW u hu .target) (hW u hu .backup)) ?_
    rintro r d (⟨rfl, rfl⟩ | ⟨-, rfl, rfl⟩)
    · have hl₁ := (hl.put (hplan _) .target none).put (hplan _) .backup (some file)
      have hedit : edited files₀ u.toPreparedFileEdit =
          some ⟨Utf8.encode u.updatedContent, file.mode⟩ := by simp [edited, hfile]
      have hstaged : (Function.update (Function.update disk.files u.writePath none) u.backupPath
          (some file)) u.stagedPath = _ := (hl₁.get .staged).trans hedit
      refine Alone.bind _ (rename_spec false hstaged (hW u hu .staged) (hW u hu .target)) ?_
      rintro r d (⟨rfl, rfl⟩ | ⟨-, rfl, rfl⟩)
      · have hl₂ := (hl₁.put (hplan _) .staged none).put (hplan _) .target
          (some ⟨Utf8.encode u.updatedContent, file.mode⟩)
        have hcells : (⟨some ⟨Utf8.encode u.updatedContent, file.mode⟩, none, some file⟩ : Cells) =
            (committedCells files₀ u).2 := by rw [← hedit, ← hfile]; rfl
        refine ih (done ++ [u]) (by simp [hsplit]) ?_
        rw [List.map_append, List.append_assoc]
        show Layout _ _ (_ ++ (u, (committedCells files₀ u).2) :: _)
        rw [← hcells]
        exact hl₂
      · refine Alone.ret (.inr ⟨.io, done.map (committedCells files₀) ++
          [(u, ⟨none, edited files₀ u.toPreparedFileEdit, some file⟩)], rest, ?_, ?_, ?_, ?_⟩)
        · simp [-List.map_map, map_committedCells]
        · simp [-List.map_map, map_committedCells, hsplit]
        · intro x hx
          rcases List.mem_append.mp hx with hx | hx
          · exact hmoved x hx
          · rw [List.mem_singleton.mp hx]
            exact hfile.symm
        · rw [List.append_assoc]
          exact hl₁
    · refine Alone.ret (.inr ⟨.io, done.map (committedCells files₀), u :: rest, ?_, ?_, hmoved, hl₀⟩)
      · simp [-List.map_map, map_committedCells]
      · simp [-List.map_map, map_committedCells, hsplit]

-- -----
-- Rollback
-- -----

/-- The target is back in its place; its staged text may be there still. -/
def Intact (files₀ : Files) (x : StagedFileEdit × Cells) : Prop :=
  x.2.target = files₀ x.1.writePath ∧ x.2.backup = none

theorem allSettled_cons (action : FsM Unit) (rest : List (FsM Unit)) :
    allSettled (action :: rest) =
      action.run >>= fun r => allSettled rest >>= fun rs => pure (r :: rs) :=
  List.mapM_cons

section
variable {u : StagedFileEdit} {c : Cells} {xs ys : List (StagedFileEdit × Cells)}

theorem restore_spec (hW : ∀ p, W (u.path p)) (hp : Planned files₀ ((xs ++ (u, c) :: ys).map Prod.fst))
    (hl : Layout files₀ disk.files (xs ++ (u, c) :: ys)) (hc : c.backup = files₀ u.writePath) :
    Spec links W (restore u).run (fun r d => r = .ok () ∧
      Layout files₀ d.files (xs ++ (u, ⟨files₀ u.writePath, c.staged, none⟩) :: ys)) disk := by
  have hplan : ∀ c', Planned files₀ ((xs ++ (u, c') :: ys).map Prod.fst) := fun c' => by
    simpa using hp
  obtain ⟨file, hfile⟩ := Option.ne_none_iff_exists'.mp (hp.there u (by simp))
  refine Safe.bindExcept _ (undo_spec (hW .target)) ?_ ?_
  · rintro ⟨⟩ d ⟨-, rfl⟩
    have hl₁ := hl.put (hplan _) .target none
    have hbackup : (Function.update disk.files u.writePath none) u.backupPath = some file :=
      (hl₁.get .backup).trans (hc.trans hfile)
    refine (rename_spec true hbackup (hW .backup) (hW .target)).mono ?_
    rintro r d (⟨rfl, rfl⟩ | ⟨hf, -⟩)
    · have hl₂ := (hl₁.put (hplan _) .backup none).put (hplan _) .target (some file)
      exact ⟨rfl, by rw [hfile]; exact hl₂⟩
    · cases hf
  · rintro e d ⟨he, -⟩
    cases he

theorem restoreAll_spec (hW : ∀ x ∈ xs, ∀ p, W (x.1.path p))
    (hp : Planned files₀ ((xs ++ ys).map Prod.fst)) (hl : Layout files₀ disk.files (xs ++ ys))
    (hmoved : ∀ x ∈ xs, x.2.backup = files₀ x.1.writePath) :
    Spec links W (allSettled ((xs.map Prod.fst).reverse.map restore))
      (fun results d => (∀ r ∈ results, r = .ok ()) ∧ ∃ back, back.map Prod.fst = xs.map Prod.fst ∧
        (∀ x ∈ back, Intact files₀ x) ∧ Layout files₀ d.files (back ++ ys)) disk := by
  induction xs using List.reverseRecOn generalizing ys disk with
  | nil => exact Alone.ret ⟨by simp, [], rfl, by simp, hl⟩
  | append_singleton xs x ih =>
    obtain ⟨u, c⟩ := x
    rw [List.append_assoc] at hp hl
    have hc : c.backup = files₀ u.writePath := hmoved (u, c) (by simp)
    have hx := hW (u, c) (by simp)
    rw [List.map_append, List.reverse_append]
    simp only [List.map_cons, List.map_nil, List.reverse_cons, List.reverse_nil, List.nil_append,
      List.singleton_append]
    rw [allSettled_cons]
    refine Alone.bind _ (restore_spec hx hp hl hc) ?_
    rintro r d ⟨rfl, hl₁⟩
    have hrest := ih (fun x hx => hW x (by simp [hx])) (by simpa using hp) hl₁
      (fun x hx => hmoved x (by simp [hx]))
    refine Alone.bind _ hrest ?_
    rintro results d ⟨hok, back, hback, hintact, hl₂⟩
    refine Alone.ret ⟨by simpa using hok, back ++ [(u, ⟨files₀ u.writePath, c.staged, none⟩)],
      by simp [hback], fun x hx => ?_, by simpa using hl₂⟩
    rcases List.mem_append.mp hx with hx | hx
    · exact hintact x hx
    · rw [List.mem_singleton.mp hx]
      exact ⟨rfl, rfl⟩

/-- When the staged texts are removed, all is as it was. -/
theorem discard_spec (hW : ∀ x ∈ ys, ∀ p, W (x.1.path p))
    (hp : Planned files₀ ((xs ++ ys).map Prod.fst)) (hl : Layout files₀ disk.files (xs ++ ys))
    (hxs : ∀ x ∈ xs, Restored files₀ x) (hys : ∀ x ∈ ys, Intact files₀ x) :
    Spec links W (allSettled ((ys.map Prod.fst).map fun u => rm u.stagedPath true))
      (fun _ d => d.files = files₀) disk := by
  induction ys generalizing xs disk with
  | nil =>
    rw [List.append_nil] at hp hl
    exact Alone.ret (hl.restored hp hxs)
  | cons x ys ih =>
    obtain ⟨u, c⟩ := x
    rw [List.map_cons, List.map_cons, allSettled_cons]
    refine Alone.bind _ (undo_spec (hW (u, c) (by simp) .staged)) ?_
    rintro r d ⟨rfl, rfl⟩
    obtain ⟨htarget, hbackup⟩ := hys (u, c) (by simp)
    have hl₁ := hl.put hp .staged none
    have hl₂ : Layout files₀ (disk.put u.stagedPath none).files
        ((xs ++ [(u, c.set .staged none)]) ++ ys) := by
      rw [List.append_assoc]
      exact hl₁
    have hdone : ∀ x ∈ xs ++ [(u, c.set .staged none)], Restored files₀ x := by
      intro x hx
      rcases List.mem_append.mp hx with hx | hx
      · exact hxs x hx
      · rw [List.mem_singleton.mp hx, Restored, ← htarget]
        exact congrArg (Cells.mk c.target none) hbackup
    have hrest := ih (fun x hx => hW x (by simp [hx])) (by simpa using hp) hl₂ hdone
      (fun x hx => hys x (by simp [hx]))
    refine Alone.bind _ hrest fun _ _ hd => Alone.ret hd

end

/-- The target holds its edited text, and the staged text is gone. -/
def Replaced (files₀ : Files) (x : StagedFileEdit × Cells) : Prop :=
  x.2.target = edited files₀ x.1.toPreparedFileEdit ∧ x.2.staged = none

/-- The targets stay as they are when the backups are removed, or are not. -/
theorem release_spec {xs ys : List (StagedFileEdit × Cells)}
    (hW : ∀ x ∈ ys, ∀ p, W (x.1.path p)) (hp : Planned files₀ ((xs ++ ys).map Prod.fst))
    (hl : Layout files₀ disk.files (xs ++ ys)) (hr : ∀ x ∈ xs ++ ys, Replaced files₀ x) :
    Spec links W (allSettled ((ys.map Prod.fst).map fun u => rm u.backupPath false))
      (fun _ d => ∃ cells, cells.map Prod.fst = (xs ++ ys).map Prod.fst ∧
        Layout files₀ d.files cells ∧ ∀ x ∈ cells, Replaced files₀ x) disk := by
  induction ys generalizing xs disk with
  | nil => exact Alone.ret ⟨xs ++ [], rfl, hl, hr⟩
  | cons x ys ih =>
    obtain ⟨u, c⟩ := x
    rw [List.map_cons, List.map_cons, allSettled_cons]
    have hstep : ∀ {d : Disk} {c' : Cells}, Layout files₀ d.files (xs ++ (u, c') :: ys) →
        Replaced files₀ (u, c') → Spec links W
          (allSettled ((ys.map Prod.fst).map fun u => rm u.backupPath false))
          (fun _ d => ∃ cells, cells.map Prod.fst = (xs ++ (u, c) :: ys).map Prod.fst ∧
            Layout files₀ d.files cells ∧ ∀ x ∈ cells, Replaced files₀ x) d := by
      intro d c' hl' hc'
      have hl₁ : Layout files₀ d.files ((xs ++ [(u, c')]) ++ ys) := by
        rw [List.append_assoc]
        exact hl'
      have hr₁ : ∀ x ∈ (xs ++ [(u, c')]) ++ ys, Replaced files₀ x := by
        intro x hx
        simp only [List.append_assoc, List.mem_append, List.mem_cons, List.singleton_append] at hx
        rcases hx with hx | rfl | hx
        · exact hr x (by simp [hx])
        · exact hc'
        · exact hr x (by simp [hx])
      have hrest := ih (fun x hx => hW x (by simp [hx])) (by simpa using hp) hl₁ hr₁
      simpa using hrest
    refine Alone.bind _ (rm_spec false (hW (u, c) (by simp) .backup)) ?_
    rintro r d (⟨-, rfl⟩ | ⟨-, rfl⟩)
    · exact Alone.bind _ (hstep (hl.put hp .backup none) (hr (u, c) (by simp)))
        fun _ _ hd => Alone.ret hd
    · exact Alone.bind _ (hstep hl (hr (u, c) (by simp))) fun _ _ hd => Alone.ret hd

/-- What a commit of staged files does: everything, or nothing. -/
theorem commitFiles_spec (hp : Planned files₀ updates) (hW : ∀ u ∈ updates, ∀ p, W (u.path p))
    (hl : Layout files₀ disk.files (updates.map (stagedCells files₀))) :
    Spec links W (commitFiles updates).run (fun r d =>
      (∃ cause, r = .error cause) ∧ d.files = files₀ ∨
        r = .ok () ∧ ∃ cells, cells.map Prod.fst = updates ∧ Layout files₀ d.files cells ∧
          ∀ x ∈ cells, Replaced files₀ x) disk := by
  refine Safe.bindLift _ (commitAll_spec hp hW updates [] rfl (by simpa using hl)) ?_
  rintro r d (⟨rfl, hl₁⟩ | ⟨cause, moved, left, rfl, hsplit, hmoved, hl₁⟩)
  · have hplan : Planned files₀
        (([] ++ updates.map (committedCells files₀)).map Prod.fst) := by
      rw [List.nil_append, map_committedCells]
      exact hp
    have hwritten : ∀ x ∈ updates.map (committedCells files₀), ∀ p, W (x.1.path p) := by
      intro x hx
      obtain ⟨u, hu, rfl⟩ := List.mem_map.mp hx
      exact hW u hu
    have hreplaced : ∀ x ∈ [] ++ updates.map (committedCells files₀), Replaced files₀ x := by
      intro x hx
      obtain ⟨u, hu, rfl⟩ := List.mem_map.mp hx
      exact ⟨rfl, rfl⟩
    have hrelease : Spec links W _ _ d := release_spec hwritten hplan hl₁ hreplaced
    rw [List.nil_append, map_committedCells] at hrelease
    exact Safe.bindLift _ hrelease fun _ _ hd => Alone.ret (.inr ⟨rfl, hd⟩)
  · have hplan : Planned files₀ ((moved ++ left.map (stagedCells files₀)).map Prod.fst) := by
      rw [List.map_append, map_stagedCells, ← hsplit]
      exact hp
    have hmem : ∀ x ∈ moved, x.1 ∈ updates := fun x hx => by
      rw [hsplit]
      exact List.mem_append_left _ (List.mem_map_of_mem hx)
    refine Safe.bindLift _ (restoreAll_spec (fun x hx => hW x.1 (hmem x hx)) hplan hl₁ hmoved) ?_
    rintro results d ⟨hok, back, hback, hintact, hl₂⟩
    have hall : ((back ++ left.map (stagedCells files₀)).map Prod.fst) = updates := by
      rw [List.map_append, map_stagedCells, hback, hsplit]
    have hplan₂ : Planned files₀
        (([] ++ (back ++ left.map (stagedCells files₀))).map Prod.fst) := by
      rw [List.nil_append, hall]
      exact hp
    have hall_intact : ∀ x ∈ back ++ left.map (stagedCells files₀), Intact files₀ x := by
      intro x hx
      rcases List.mem_append.mp hx with hx | hx
      · exact hintact x hx
      · obtain ⟨u, -, rfl⟩ := List.mem_map.mp hx
        exact ⟨rfl, rfl⟩
    have hdiscard : Spec links W _ _ d :=
      discard_spec (fun x hx => hW x.1 (hall ▸ List.mem_map_of_mem hx)) hplan₂ hl₂ (by simp)
        hall_intact
    rw [hall] at hdiscard
    refine Safe.bindLift _ hdiscard fun _ d hd => ?_
    have hnone : results.any isRejected = false := by
      rw [List.any_eq_false]
      intro r hr
      simp [hok r hr, isRejected]
    rw [hnone]
    exact Alone.ret (.inl ⟨⟨cause, rfl⟩, hd⟩)

end

end PiEnv.DevTools
