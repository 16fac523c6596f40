import PiEnv.Lib.Program
import PiEnv.Scripts.LicenseBundle

/-!
# What a license bundle holds

Every file of a record is in the directory of its package with the bytes that
it was copied from, unless another package writes to the same place. That takes
two names and versions that the name of a directory does not tell apart.
-/

namespace PiEnv.Scripts.Licenses

open Js

-- -----
-- Names of directories
-- -----

def isPlus (u : UInt16) : Bool := u == 43 || u == 47

/-- `_` and what it stands for. -/
def isBlank (u : UInt16) : Bool := u == 95 || (!isDirectoryUnit u && u != 47)

/-- Units that are one in the name of a directory. -/
def Alike (u v : UInt16) : Prop :=
  u = v ∨ (isPlus u = true ∧ isPlus v = true) ∨ (isBlank u = true ∧ isBlank v = true)

def directoryUnit (u : UInt16) : UInt16 := if isPlus u then 43 else if isBlank u then 95 else u

theorem directoryUnit_plus {u : UInt16} (h : isPlus u = true) : directoryUnit u = 43 := if_pos h

theorem directoryUnit_blank {u : UInt16} (h : isBlank u = true) : directoryUnit u = 95 := by
  have hplus : isPlus u = false := by
    by_contra hp
    rcases Bool.or_eq_true_iff.mp (eq_true_of_ne_false hp) with h43 | h47
    · rw [eq_of_beq h43] at h
      exact absurd h (by decide)
    · rw [eq_of_beq h47] at h
      exact absurd h (by decide)
  rw [directoryUnit, hplus, h]
  rfl

theorem directoryUnit_kept {u : UInt16} (hp : isPlus u = false) (hb : isBlank u = false) :
    directoryUnit u = u := by
  rw [directoryUnit, hp, hb]
  rfl

theorem directoryNameOf_map (key : Str) : directoryNameOf key = key.map directoryUnit := by
  simp only [directoryNameOf, replaceUnit, List.map_map]
  refine List.map_congr_left fun u _ => ?_
  simp only [Function.comp_apply]
  by_cases hat : u = 64
  · subst hat
    decide
  by_cases hslash : u = 47
  · subst hslash
    decide
  rw [if_neg hat, if_neg hslash]
  cases hunit : isDirectoryUnit u with
  | false => exact (directoryUnit_blank (by simp [isBlank, hunit, hslash])).symm
  | true =>
    by_cases hplus : u = 43
    · subst hplus
      decide
    by_cases hblank : u = 95
    · subst hblank
      decide
    exact (directoryUnit_kept (by simp [isPlus, hplus, hslash]) (by simp [isBlank, hblank, hunit])).symm

theorem directoryUnit_eq_plus {u : UInt16} : directoryUnit u = 43 ↔ isPlus u = true := by
  refine ⟨fun h => ?_, directoryUnit_plus⟩
  cases hp : isPlus u with
  | true => rfl
  | false =>
    cases hb : isBlank u with
    | true => exact absurd (h.symm.trans (directoryUnit_blank hb)) (by decide)
    | false =>
      rw [directoryUnit_kept hp hb] at h
      rw [h] at hp
      cases hp

theorem directoryUnit_eq_blank {u : UInt16} : directoryUnit u = 95 ↔ isBlank u = true := by
  refine ⟨fun h => ?_, directoryUnit_blank⟩
  cases hb : isBlank u with
  | true => rfl
  | false =>
    cases hp : isPlus u with
    | true => exact absurd (h.symm.trans (directoryUnit_plus hp)) (by decide)
    | false =>
      rw [directoryUnit_kept hp hb] at h
      rw [h] at hb
      cases hb

theorem directoryUnit_eq {u v : UInt16} : directoryUnit u = directoryUnit v ↔ Alike u v := by
  constructor
  · intro h
    cases hp : isPlus u with
    | true => exact .inr (.inl ⟨hp, directoryUnit_eq_plus.mp (h.symm.trans (directoryUnit_plus hp))⟩)
    | false =>
      cases hb : isBlank u with
      | true => exact .inr (.inr ⟨hb, directoryUnit_eq_blank.mp (h.symm.trans (directoryUnit_blank hb))⟩)
      | false =>
        rw [directoryUnit_kept hp hb] at h
        have hpv : isPlus v = false := by
          by_contra hv
          rw [directoryUnit_plus (eq_true_of_ne_false hv)] at h
          rw [h] at hp
          cases hp
        have hbv : isBlank v = false := by
          by_contra hv
          rw [directoryUnit_blank (eq_true_of_ne_false hv)] at h
          rw [h] at hb
          cases hb
        exact .inl (h.trans (directoryUnit_kept hpv hbv))
  · rintro (rfl | ⟨hu, hv⟩ | ⟨hu, hv⟩)
    · rfl
    · rw [directoryUnit_plus hu, directoryUnit_plus hv]
    · rw [directoryUnit_blank hu, directoryUnit_blank hv]

/-- Two keys have one directory where their units are alike, one for one. -/
theorem directoryNameOf_eq {key key' : Str} :
    directoryNameOf key = directoryNameOf key' ↔ List.Forall₂ Alike key key' := by
  rw [directoryNameOf_map, directoryNameOf_map, ← List.forall₂_eq_eq_eq, List.forall₂_map_left_iff,
    List.forall₂_map_right_iff]
  simp only [directoryUnit_eq]

-- -----
-- Packages
-- -----

section
variable {host : Host}

/-- What a package is when it has been loaded. -/
structure Loaded (pkg : Package) : Prop where
  distinct : (pkg.legalFiles.map (·.name)).Nodup
  notice : ∀ file ∈ pkg.legalFiles, file.type = .notice → NOTICE_FILE_PATTERN file.name = true

variable (host) in
theorem sortBy_perm {α : Type} (key : α → Str) (values : List α) :
    (sortBy host key values).Perm values :=
  List.perm_insertionSort _ _

variable (host) in
theorem legalFiles_loaded (packageRoot : Str) (listing : Listing) :
    ((legalFiles host packageRoot listing).map (·.name)).Nodup ∧
      ∀ file ∈ legalFiles host packageRoot listing, file.type = .notice →
        NOTICE_FILE_PATTERN file.name = true := by
  constructor
  · refine ((sortBy_perm _ _ _).map _).nodup_iff.mpr ?_
    rw [List.map_map]
    exact listing.distinct.sublist (List.filter_sublist.map _)
  · intro file hfile htype
    obtain ⟨entry, -, rfl⟩ := List.mem_map.mp ((sortBy_perm _ _ _).mem_iff.mp hfile)
    simp only [legalFile] at htype ⊢
    split at htype
    case isTrue h => exact h
    case isFalse => cases htype

theorem loadPackage_loaded {installed : Installed} {pkg : Package}
    (h : loadPackage host installed = .ok pkg) : Loaded pkg := by
  have hlegal := legalFiles_loaded host installed.root installed.listing
  rw [loadPackage] at h
  split at h
  case h_1 =>
    split at h
    case h_1 =>
      obtain rfl := Except.ok.inj h
      exact ⟨hlegal.1, hlegal.2⟩
    case h_2 => cases h
  case h_2 => cases h

/-- The packages stand under their keys. -/
def Keyed (packages : JsMap Str Package) : Prop :=
  ∀ entry ∈ packages.entries, entry.1 = packageKey entry.2 ∧ Loaded entry.2

theorem keyed_set {packages : JsMap Str Package} (h : Keyed packages) {record : Package}
    (hrecord : Loaded record) : Keyed (packages.set (packageKey record) record) := by
  intro entry hmem
  have hget := JsMap.get_of_mem hmem
  rw [JsMap.get_set] at hget
  split at hget
  case isTrue hkey =>
    obtain rfl := Option.some.inj hget
    exact ⟨hkey, hrecord⟩
  case isFalse => exact h entry (JsMap.mem_of_get hget)

theorem keyed_keep {packages : JsMap Str Package} (h : Keyed packages) {record : Package}
    (hrecord : Loaded record) : Keyed (keepPackage packages record) := by
  rw [keepPackage]
  split
  · split
    · exact keyed_set h hrecord
    · exact h
  · exact keyed_set h hrecord

theorem keyed_foldl {records : List Package} (hrecords : ∀ record ∈ records, Loaded record) :
    ∀ {packages : JsMap Str Package}, Keyed packages → Keyed (records.foldl keepPackage packages) := by
  induction records with
  | nil => exact fun h => h
  | cons record rest ih =>
    intro packages h
    exact ih (fun other hmem => hrecords other (List.mem_cons_of_mem _ hmem))
      (keyed_keep h (hrecords record List.mem_cons_self))

theorem loadPackages_spec {roots : List Installed} {packages : List Package}
    (h : loadPackages host roots = .ok packages) :
    (packages.map packageKey).Nodup ∧ ∀ pkg ∈ packages, Loaded pkg := by
  obtain ⟨records, hrecords, h⟩ := Effects.bind_eq_ok.mp h
  obtain rfl := Except.ok.inj h
  have hloaded : ∀ record ∈ records, Loaded record := fun record hmem => by
    obtain ⟨installed, -, hload⟩ := Effects.mem_mapM_ok hrecords record hmem
    exact loadPackage_loaded hload
  have hkeyed : Keyed (records.foldl keepPackage JsMap.empty) :=
    keyed_foldl hloaded fun _ hmem => nomatch hmem
  have hperm := sortBy_perm host packageKey (records.foldl keepPackage JsMap.empty).values
  constructor
  · refine (hperm.map _).nodup_iff.mpr ?_
    have hkeys : (records.foldl keepPackage JsMap.empty).values.map packageKey =
        (records.foldl keepPackage JsMap.empty).entries.map (·.1) := by
      rw [JsMap.values, List.map_map]
      exact List.map_congr_left fun entry hmem => (hkeyed entry hmem).1.symm
    rw [hkeys]
    exact (records.foldl keepPackage JsMap.empty).nodup
  · intro pkg hmem
    obtain ⟨entry, hentry, rfl⟩ := List.mem_map.mp (hperm.mem_iff.mp hmem)
    exact (hkeyed entry hentry).2

-- -----
-- Sources
-- -----

theorem mem_foldl_addDonor {packages : List Package} {key : Str} {pkg : Package} :
    ∀ {donors : JsMap Str (List Package)},
      pkg ∈ ((packages.foldl addDonor donors).get key).getD [] →
      pkg ∈ (donors.get key).getD [] ∨ pkg ∈ packages := by
  induction packages with
  | nil => exact fun h => .inl h
  | cons first rest ih =>
    intro donors h
    rcases ih h with hdonor | hrest
    · rw [addDonor] at hdonor
      split at hdonor
      · exact .inl hdonor
      · rw [JsMap.get_set] at hdonor
        split at hdonor
        case isTrue hkey =>
          rcases List.mem_append.mp hdonor with hold | hnew
          · exact .inl (hkey ▸ hold)
          · exact .inr (List.mem_singleton.mp hnew ▸ List.mem_cons_self)
        case isFalse => exact .inl hdonor
    · exact .inr (List.mem_cons_of_mem _ hrest)

theorem mem_licenseDonors {packages : List Package} {key : Str} {pkg : Package}
    (h : pkg ∈ ((licenseDonors host packages).get key).getD []) : pkg ∈ packages := by
  rw [licenseDonors, JsMap.get_mapValues] at h
  cases hget : (packages.foldl addDonor JsMap.empty).get key with
  | none => simp [hget] at h
  | some donors =>
    rw [hget, Option.map_some, Option.getD_some, (sortBy_perm _ _ _).mem_iff] at h
    have hmem : pkg ∈ ((packages.foldl addDonor JsMap.empty).get key).getD [] := by
      rwa [hget, Option.getD_some]
    rcases mem_foldl_addDonor hmem with hnone | hpackage
    · simp at hnone
    · exact hpackage

/-- What a source is when it has been found for a package. -/
structure Sourced (pkg : Package) (source : Source) : Prop where
  own : source.type = .package → ∀ file ∈ source.files, file ∈ pkg.legalFiles
  distinct : (source.files.map (·.name)).Nodup

theorem resolveLicenseSource_sourced {packages : List Package} {policy : Policy} {pkg : Package}
    {source : Source} (hloaded : ∀ pkg ∈ packages, Loaded pkg) (hpkg : pkg ∈ packages)
    (h : resolveLicenseSource host (licenseDonors host packages) policy pkg = some source) :
    Sourced pkg source := by
  have hown : ∀ pkg ∈ packages, ((ownLicenseFiles pkg).map (·.name)).Nodup := fun pkg hmem =>
    (hloaded pkg hmem).distinct.sublist (List.filter_sublist.map _)
  rw [resolveLicenseSource] at h
  split at h
  · obtain rfl := Option.some.inj h
    exact ⟨fun _ file hfile => List.mem_of_mem_filter hfile, hown pkg hpkg⟩
  · split at h
    case h_1 donor hdonor =>
      obtain rfl := Option.some.inj h
      exact ⟨by simp, hown donor (mem_licenseDonors (List.mem_of_find?_eq_some hdonor))⟩
    case h_2 =>
      obtain ⟨override, -, rfl⟩ := Option.map_eq_some_iff.mp h
      exact ⟨by simp, by simp⟩

/-- Entries of loaded packages with their sources, one for each key. -/
structure Prepared (resolved : List Resolved) : Prop where
  distinct : (resolved.map fun entry => packageKey entry.pkg).Nodup
  loaded : ∀ entry ∈ resolved, Loaded entry.pkg
  sourced : ∀ entry ∈ resolved, Sourced entry.pkg entry.source

theorem keys_filterMap (sourceOf : Package → Option Source) (packages : List Package) :
    ((packages.filterMap fun pkg => (sourceOf pkg).map fun source => Resolved.mk pkg source).map
      fun entry => packageKey entry.pkg).Sublist (packages.map packageKey) := by
  induction packages with
  | nil => exact .slnil
  | cons pkg rest ih =>
    cases hsource : sourceOf pkg with
    | none =>
      rw [List.filterMap_cons_none (by rw [hsource]; rfl)]
      exact ih.cons _
    | some source =>
      rw [List.filterMap_cons_some (by rw [hsource]; rfl)]
      exact ih.cons_cons _

theorem resolved_prepared (policy : Policy) {roots : List Installed} {packages : List Package}
    (h : loadPackages host roots = .ok packages) :
    Prepared (resolvePackageLicenses host policy packages).1 := by
  obtain ⟨hdistinct, hloaded⟩ := loadPackages_spec h
  have hentry : ∀ entry ∈ (resolvePackageLicenses host policy packages).1, entry.pkg ∈ packages ∧
      Sourced entry.pkg entry.source := by
    intro entry hmem
    obtain ⟨pkg, hpkg, hmap⟩ := List.mem_filterMap.mp hmem
    obtain ⟨source, hsource, rfl⟩ := Option.map_eq_some_iff.mp hmap
    exact ⟨hpkg, resolveLicenseSource_sourced hloaded hpkg hsource⟩
  exact ⟨hdistinct.sublist (keys_filterMap _ packages), fun entry hmem => hloaded _ (hentry entry hmem).1,
    fun entry hmem => (hentry entry hmem).2⟩

-- -----
-- Copies
-- -----

theorem notice_no_license (rest : Str) : NOTICE_FILE_PATTERN (lit "LICENSE.from-" ++ rest) = false :=
  rfl

theorem targetName_own {source : Source} (h : source.type = .package) (file : LegalFile) :
    targetName source file = file.name := by
  rw [targetName, h]

theorem targetName_other {source : Source} (h : source.type ≠ .package) (file : LegalFile) :
    targetName source file = lit "LICENSE.from-" ++
      (directoryNameOf (keyOf (source.package.getD (lit "override")) (lit "source")) ++ lit "-" ++
        file.name) := by
  rw [targetName.eq_def]
  cases hs : source.type with
  | package => exact absurd hs h
  | repositoryPackage | reviewedOverride => simp only [List.append_assoc]

theorem targetName_injective {source : Source} {file file' : LegalFile}
    (h : targetName source file = targetName source file') : file.name = file'.name := by
  by_cases hown : source.type = .package
  · rwa [targetName_own hown, targetName_own hown] at h
  · rw [targetName_other hown, targetName_other hown] at h
    exact List.append_cancel_left (List.append_cancel_left h)

theorem Loaded.unique {pkg : Package} (h : Loaded pkg) {file file' : LegalFile}
    (hfile : file ∈ pkg.legalFiles) (hfile' : file' ∈ pkg.legalFiles) (hname : file.name = file'.name) :
    file = file' :=
  List.inj_on_of_nodup_map h.distinct hfile hfile' hname

/-- A copy of a license and one of a notice have two names, or are of one file. -/
theorem source_notice {entry : Resolved} (hloaded : Loaded entry.pkg)
    (hsourced : Sourced entry.pkg entry.source) {file notice : LegalFile}
    (hfile : file ∈ entry.source.files) (hnotice : notice ∈ entry.pkg.legalFiles)
    (htype : notice.type = .notice) (h : targetName entry.source file = notice.name) :
    file = notice := by
  by_cases hown : entry.source.type = .package
  · rw [targetName_own hown] at h
    exact hloaded.unique (hsourced.own hown file hfile) hnotice h
  · have hpattern := hloaded.notice notice hnotice htype
    rw [← h, targetName_other hown, notice_no_license] at hpattern
    cases hpattern

/-- Within a package a name is of one file. -/
theorem copies_agree {entry : Resolved} (hloaded : Loaded entry.pkg)
    (hsourced : Sourced entry.pkg entry.source) {copy copy' : LegalFile × Str}
    (hcopy : copy ∈ entry.copies) (hcopy' : copy' ∈ entry.copies) (hname : copy.2 = copy'.2) :
    copy.1 = copy'.1 := by
  have hnotices : ∀ file ∈ entry.pkg.legalFiles.filter (·.type = .notice),
      file ∈ entry.pkg.legalFiles ∧ file.type = .notice := fun file hmem => by
    simpa using hmem
  rcases List.mem_append.mp hcopy with hc | hc <;> rcases List.mem_append.mp hcopy' with hc' | hc' <;>
    obtain ⟨file, hfile, rfl⟩ := List.mem_map.mp hc <;>
    obtain ⟨file', hfile', rfl⟩ := List.mem_map.mp hc'
  · exact List.inj_on_of_nodup_map hsourced.distinct hfile hfile' (targetName_injective hname)
  · obtain ⟨hmem, htype⟩ := hnotices file' hfile'
    exact source_notice hloaded hsourced hfile hmem htype hname
  · obtain ⟨hmem, htype⟩ := hnotices file hfile
    exact (source_notice hloaded hsourced hfile' hmem htype hname.symm).symm
  · exact hloaded.unique (hnotices file hfile).1 (hnotices file' hfile').1 hname

-- -----
-- Writes
-- -----

variable (host) in
/-- What is written for a package, place by place. -/
def Resolved.writes (entry : Resolved) : List ((Str × Str) × Bytes) :=
  entry.copies.map fun copy =>
    ((packageDirectoryName entry.pkg, copy.2), (host.read copy.1.path).getD [])

def setAll (bundle : Bundle) (writes : List ((Str × Str) × Bytes)) : Bundle :=
  writes.foldl (fun bundle write => bundle.set write.1 write.2) bundle

theorem copyLegalFile_ok {directory : Str} {copies : List (LegalFile × Str)} :
    ∀ {bundle bundle' : Bundle},
      copies.foldlM (copyLegalFile host directory) bundle = .ok bundle' →
      (∀ copy ∈ copies, (host.read copy.1.path).isSome = true) ∧
        bundle' = setAll bundle (copies.map fun copy =>
          ((directory, copy.2), (host.read copy.1.path).getD [])) := by
  induction copies with
  | nil =>
    intro bundle bundle' h
    exact ⟨fun _ hmem => (nomatch hmem), (Except.ok.inj h).symm⟩
  | cons copy rest ih =>
    intro bundle bundle' h
    rw [List.foldlM_cons] at h
    obtain ⟨next, hcopy, hrest⟩ := Effects.bind_eq_ok.mp h
    obtain ⟨hall, rfl⟩ := ih hrest
    rw [copyLegalFile] at hcopy
    split at hcopy
    case h_1 bytes hread =>
      obtain rfl := Except.ok.inj hcopy
      exact ⟨List.forall_mem_cons.mpr ⟨by rw [hread]; rfl, hall⟩, by simp [setAll, hread]⟩
    case h_2 => cases hcopy

theorem writePackageRecords_ok {resolved : List Resolved} :
    ∀ {bundle bundle' : Bundle} {records : List Record},
      writePackageRecords host bundle resolved = .ok (bundle', records) →
      (∀ entry ∈ resolved, ∀ copy ∈ entry.copies, (host.read copy.1.path).isSome = true) ∧
        bundle' = setAll bundle (resolved.flatMap (·.writes host)) ∧
        records = resolved.map (·.record) := by
  induction resolved with
  | nil =>
    intro bundle bundle' records h
    cases Except.ok.inj h
    exact ⟨fun _ hmem => (nomatch hmem), rfl, rfl⟩
  | cons entry rest ih =>
    intro bundle bundle' records h
    obtain ⟨copied, hcopied, h⟩ := Effects.bind_eq_ok.mp h
    obtain ⟨⟨written, others⟩, hothers, h⟩ := Effects.bind_eq_ok.mp h
    cases Except.ok.inj h
    obtain ⟨hall, rfl⟩ := copyLegalFile_ok hcopied
    obtain ⟨hrest, rfl, rfl⟩ := ih hothers
    refine ⟨List.forall_mem_cons.mpr ⟨hall, hrest⟩, ?_, rfl⟩
    simp [setAll, Resolved.writes, List.foldl_append]

-- -----
-- What is promised
-- -----

variable (host) in
/-- A record of a package, with every file that it lists as it was copied. -/
structure Recorded (bundle : Bundle) (entry : Resolved) (record : Record) : Prop where
  name : record.name = entry.pkg.name
  version : record.version = entry.pkg.version
  listed : ∀ target, target ∈ record.files ↔ ∃ file, (file, target) ∈ entry.copies
  kept : ∀ file target, (file, target) ∈ entry.copies →
    ∃ bytes, host.read file.path = some bytes ∧
      bundle.get (packageDirectoryName entry.pkg, target) = some bytes

variable (host) in
/-- No legal text is lost. -/
structure Lossless (resolved : List Resolved) (bundle : Bundle) (records : List Record) : Prop where
  recorded : List.Forall₂ (Recorded host bundle) resolved records
  apart : ∀ a ∈ resolved, ∀ b ∈ resolved, packageKey a.pkg ≠ packageKey b.pkg →
    ∀ write ∈ a.writes host, ∀ write' ∈ b.writes host, write.1 ≠ write'.1

def Resolved.targets (entry : Resolved) : List Str := entry.copies.map (·.2)

/-- Different packages whose keys have one directory have no name of a file in common. -/
def Separate (resolved : List Resolved) : Prop :=
  ∀ a ∈ resolved, ∀ b ∈ resolved, packageKey a.pkg ≠ packageKey b.pkg →
    List.Forall₂ Alike (packageKey a.pkg) (packageKey b.pkg) → ∀ target ∈ a.targets, target ∉ b.targets

theorem writes_apart {a b : Resolved} :
    (∀ write ∈ a.writes host, ∀ write' ∈ b.writes host, write.1 ≠ write'.1) ↔
      (List.Forall₂ Alike (packageKey a.pkg) (packageKey b.pkg) →
        ∀ target ∈ a.targets, target ∉ b.targets) := by
  rw [← directoryNameOf_eq]
  constructor
  · intro h hdirectory target ha hb
    obtain ⟨copy, hcopy, rfl⟩ := List.mem_map.mp ha
    obtain ⟨copy', hcopy', htarget⟩ := List.mem_map.mp hb
    refine h _ (List.mem_map_of_mem hcopy) _ (List.mem_map_of_mem hcopy') ?_
    exact Prod.ext hdirectory htarget.symm
  · intro h write hw write' hw' hplace
    obtain ⟨copy, hcopy, rfl⟩ := List.mem_map.mp hw
    obtain ⟨copy', hcopy', rfl⟩ := List.mem_map.mp hw'
    obtain ⟨hdirectory, htarget⟩ := Prod.mk.inj hplace
    refine h hdirectory copy.2 (List.mem_map_of_mem hcopy) ?_
    rw [htarget]
    exact List.mem_map_of_mem hcopy'

theorem Lossless.kept {resolved : List Resolved} {bundle : Bundle} {records : List Record}
    (h : Lossless host resolved bundle records) {entry : Resolved} (hentry : entry ∈ resolved)
    {copy : LegalFile × Str} (hcopy : copy ∈ entry.copies) :
    bundle.get (packageDirectoryName entry.pkg, copy.2) = host.read copy.1.path := by
  obtain ⟨n, hn, rfl⟩ := List.mem_iff_getElem.mp hentry
  have hlength := h.recorded.length_eq
  have hrecorded := h.recorded.get hn (hlength ▸ hn)
  obtain ⟨bytes, hread, hget⟩ := hrecorded.kept copy.1 copy.2 hcopy
  exact hget.trans hread.symm

/-- What stands at a place that only one package writes to. -/
theorem get_written {resolved : List Resolved} (hprepared : Prepared resolved)
    (hapart : ∀ a ∈ resolved, ∀ b ∈ resolved, packageKey a.pkg ≠ packageKey b.pkg →
      ∀ write ∈ a.writes host, ∀ write' ∈ b.writes host, write.1 ≠ write'.1)
    {entry : Resolved} (hentry : entry ∈ resolved) {copy : LegalFile × Str}
    (hcopy : copy ∈ entry.copies) :
    (setAll JsMap.empty (resolved.flatMap (·.writes host))).get
        (packageDirectoryName entry.pkg, copy.2) = some ((host.read copy.1.path).getD []) := by
  have hwrite := List.mem_map_of_mem (f := fun copy : LegalFile × Str =>
    ((packageDirectoryName entry.pkg, copy.2), (host.read copy.1.path).getD [])) hcopy
  have hagree : ∀ write ∈ resolved.flatMap (·.writes host),
      write.1 = (packageDirectoryName entry.pkg, copy.2) →
      write.2 = (host.read copy.1.path).getD [] := by
    intro write hmem hplace
    obtain ⟨other, hother, hin⟩ := List.mem_flatMap.mp hmem
    by_cases hkey : packageKey other.pkg = packageKey entry.pkg
    · obtain rfl := List.inj_on_of_nodup_map hprepared.distinct hother hentry hkey
      obtain ⟨copy', hcopy', rfl⟩ := List.mem_map.mp hin
      rw [copies_agree (hprepared.loaded _ hentry) (hprepared.sourced _ hentry) hcopy' hcopy
        (Prod.mk.inj hplace).2]
    · exact absurd hplace (hapart other hother entry hentry hkey write hin _ hwrite)
  rw [setAll, JsMap.get_foldl_set hagree, if_pos]
  exact List.mem_map.mpr ⟨_, List.mem_flatMap.mpr ⟨entry, hentry, hwrite⟩, rfl⟩

end

/-- A bundle that is generated holds every file of every record as it was copied,
and no two packages write to one place, if and only if packages whose keys have
one directory have no name of a file in common. -/
theorem bundle_lossless (host : Host) (policy : Policy) (errors : List Str) (roots : List Installed)
    {packages : List Package} (hpackages : loadPackages host roots = .ok packages)
    {bundle : Bundle} {records : List Record}
    (h : generateLicenseBundle host policy errors roots = .ok (bundle, records)) :
    Lossless host (resolvePackageLicenses host policy packages).1 bundle records ↔
      Separate (resolvePackageLicenses host policy packages).1 := by
  have hprepared := resolved_prepared policy hpackages
  have hwritten : writePackageRecords host JsMap.empty (resolvePackageLicenses host policy packages).1 =
      .ok (bundle, records) := by
    obtain ⟨loaded, hloaded, hchecked⟩ := Effects.bind_eq_ok.mp h
    obtain rfl := Except.ok.inj (hpackages.symm.trans hloaded)
    dsimp only at hchecked
    split at hchecked
    · cases hchecked
    · exact hchecked
  obtain ⟨hread, rfl, rfl⟩ := writePackageRecords_ok hwritten
  generalize (resolvePackageLicenses host policy packages).1 = resolved at hprepared hread ⊢
  constructor
  · intro hlossless a ha b hb hkey
    exact writes_apart.mp (hlossless.apart a ha b hb hkey)
  · intro hseparate
    have hapart : ∀ a ∈ resolved, ∀ b ∈ resolved, packageKey a.pkg ≠ packageKey b.pkg →
        ∀ write ∈ a.writes host, ∀ write' ∈ b.writes host, write.1 ≠ write'.1 := fun a ha b hb hkey =>
      writes_apart.mpr (hseparate a ha b hb hkey)
    refine ⟨List.forall₂_map_right_iff.mpr (List.forall₂_same.mpr fun entry hentry => ?_), hapart⟩
    refine ⟨rfl, rfl, fun target => ?_, fun file target hcopy => ?_⟩
    · simp [Resolved.record]
    · obtain ⟨bytes, hbytes⟩ := Option.isSome_iff_exists.mp (hread entry hentry _ hcopy)
      have hget := get_written hprepared hapart hentry hcopy
      rw [hbytes] at hget
      exact ⟨bytes, hbytes, hget⟩

-- -----
-- Bundles of two packages
-- -----

def codeUnitCompare (left right : Str) : Ordering :=
  if left = right then .eq else if left < right then .lt else .gt

def MITManifest (name : Str) : Json :=
  .obj [(lit "name", .str name), (lit "version", .str (lit "1.0.0")), (lit "license", .str (lit "MIT"))]

/-- A package with one license file. -/
def licensed (root : String) (name : Str) : Installed :=
  ⟨lit root, MITManifest name, ⟨[(lit "LICENSE", true)], by simp⟩⟩

/-- The license of each root has a text of its own. -/
def twoTexts : Host where
  repoRoot := lit "/repo"
  toLowerCase := id
  localeCompare := codeUnitCompare
  existsSync := fun _ => false
  read := fun path =>
    if path = lit "/a/LICENSE" then some [1] else if path = lit "/b/LICENSE" then some [2] else none

def MITPolicy : Policy := ⟨[lit "MIT"], [], [], [], []⟩

def apartRoots : List Installed := [licensed "/a" (lit "left-pad"), licensed "/b" (lit "right-pad")]

def keptApart : Bool :=
  match loadPackages twoTexts apartRoots, generateLicenseBundle twoTexts MITPolicy [] apartRoots with
  | .ok packages, .ok _ =>
    let resolved := (resolvePackageLicenses twoTexts MITPolicy packages).1
    resolved.all fun a => resolved.all fun b =>
      packageKey a.pkg == packageKey b.pkg || packageDirectoryName a.pkg != packageDirectoryName b.pkg
  | _, _ => false

theorem apart_lossless : ∃ packages bundle records,
    loadPackages twoTexts apartRoots = .ok packages ∧
    generateLicenseBundle twoTexts MITPolicy [] apartRoots = .ok (bundle, records) ∧
    Lossless twoTexts (resolvePackageLicenses twoTexts MITPolicy packages).1 bundle records := by
  have hruns : keptApart = true := by decide +kernel
  unfold keptApart at hruns
  split at hruns
  case h_1 packages generated hload hgenerate =>
    refine ⟨packages, generated.1, generated.2, hload, hgenerate,
      (bundle_lossless twoTexts MITPolicy [] apartRoots hload hgenerate).mpr ?_⟩
    intro a ha b hb hkey halike
    have hchecked := List.all_eq_true.mp (List.all_eq_true.mp hruns a ha) b hb
    simp only [Bool.or_eq_true, beq_iff_eq, hkey, false_or, bne_iff_ne] at hchecked
    exact absurd (directoryNameOf_eq.mpr halike) hchecked
  case h_2 => cases hruns

/-- Names that the name of a directory does not tell apart. -/
def foldedRoots : List Installed := [licensed "/a" (lit "left~pad"), licensed "/b" (lit "left_pad")]

def lostFolded : Bool :=
  match loadPackages twoTexts foldedRoots, generateLicenseBundle twoTexts MITPolicy [] foldedRoots with
  | .ok packages, .ok (bundle, _) =>
    (resolvePackageLicenses twoTexts MITPolicy packages).1.any fun entry => entry.copies.any fun copy =>
      bundle.get (packageDirectoryName entry.pkg, copy.2) != twoTexts.read copy.1.path
  | _, _ => false

theorem folded_lost : ∃ packages bundle records,
    loadPackages twoTexts foldedRoots = .ok packages ∧
    generateLicenseBundle twoTexts MITPolicy [] foldedRoots = .ok (bundle, records) ∧
    ¬ Lossless twoTexts (resolvePackageLicenses twoTexts MITPolicy packages).1 bundle records := by
  have hruns : lostFolded = true := by decide +kernel
  unfold lostFolded at hruns
  split at hruns
  case h_1 packages bundle records hload hgenerate =>
    obtain ⟨entry, hentry, hcopies⟩ := List.any_eq_true.mp hruns
    obtain ⟨copy, hcopy, hlost⟩ := List.any_eq_true.mp hcopies
    exact ⟨packages, bundle, records, hload, hgenerate, fun h =>
      bne_iff_ne.mp hlost (h.kept hentry hcopy)⟩
  case h_2 => cases hruns

end PiEnv.Scripts.Licenses
