import Mathlib.Data.List.Sort
import PiEnv.Lib.JsMap
import PiEnv.Lib.Json
import PiEnv.Lib.PosixPath

/-!
# License bundles

What `generateLicenseBundle` makes of the installed packages that have been
discovered: the checks, the source of each package's license text and the
files that are copied into the bundle.
-/

namespace PiEnv.Scripts.Licenses

open Js

-- -----
-- What is there
-- -----

abbrev Bytes := List UInt8

/-- What the script has from its surroundings. -/
structure Host where
  repoRoot : Str
  toLowerCase : Str → Str
  localeCompare : Str → Str → Ordering
  existsSync : Str → Bool
  /-- The bytes of the regular file at a path. -/
  read : Str → Option Bytes

/-- The names in a directory, with whether each is of a file. -/
structure Listing where
  entries : List (Str × Bool)
  distinct : (entries.map (·.1)).Nodup

/-- A root with its `package.json`. -/
structure Installed where
  root : Str
  manifest : Json
  listing : Listing

inductive LegalType where
  | license | notice
  deriving DecidableEq, Repr

structure LegalFile where
  name : Str
  path : Str
  type : LegalType
  deriving DecidableEq, Repr

structure Package where
  name : Str
  version : Str
  license : Str
  repository : Str
  normalizedRepository : Str
  author : Json
  root : Str
  legalFiles : List LegalFile

-- -----
-- Names
-- -----

/-- A unit under the flag `i`. -/
def foldCase (u : UInt16) : UInt16 := if 65 ≤ u && u ≤ 90 then u + 32 else u

/-- `(?:$|[._ -])` -/
def endsWord : Str → Bool
  | [] => true
  | u :: _ => u == 46 || u == 95 || u == 32 || u == 45

/-- A word at the start of a name, in any case, with its end. -/
def startsWord (name : Str) (word : String) : Bool :=
  (lit word).isPrefixOf (name.map foldCase) && endsWord (name.drop (lit word).length)

/-- `^third[-_ ]?party` -/
def startsThirdParty (name : Str) : Bool :=
  ["thirdparty", "third-party", "third_party", "third party"].any fun word =>
    (lit word).isPrefixOf (name.map foldCase)

def LEGAL_FILE_PATTERN (name : Str) : Bool :=
  ["license", "licence", "copying", "notice"].any (startsWord name) || startsThirdParty name

def LICENSE_FILE_PATTERN (name : Str) : Bool := ["license", "licence", "copying"].any (startsWord name)

def NOTICE_FILE_PATTERN (name : Str) : Bool := startsWord name "notice" || startsThirdParty name

def keyOf (name version : Str) : Str := name ++ lit "@" ++ version

def packageKey (pkg : Package) : Str := keyOf pkg.name pkg.version

/-- `[A-Za-z0-9._+-]` -/
def isDirectoryUnit (u : UInt16) : Bool :=
  (65 ≤ u && u ≤ 90) || (97 ≤ u && u ≤ 122) || isDigit u || u == 46 || u == 95 || u == 43 || u == 45

/-- `s.replaceAll(u, v)` of one unit. -/
def replaceUnit (u v : UInt16) (s : Str) : Str := s.map fun w => if w = u then v else w

def directoryNameOf (key : Str) : Str :=
  (replaceUnit 47 43 (replaceUnit 64 95 key)).map fun u => if isDirectoryUnit u then u else 95

def packageDirectoryName (pkg : Package) : Str := directoryNameOf (packageKey pkg)

-- -----
-- Manifests
-- -----

section
variable (host : Host)

/-- `value.url` of a record, and else the value. -/
def repositoryValue : Option Json → Option Json
  | some (.obj fields) => field fields (lit "url")
  | value => value

/-- `value.replace(/^.../, replacement)` of a fixed start. -/
def replaceStart (start : String) (replacement value : Str) : Str :=
  if (lit start).isPrefixOf value then replacement ++ value.drop (lit start).length else value

/-- `(?:#.*)?$` -/
def endsReference : Str → Bool
  | [] => true
  | u :: rest => u == 35 && rest.all fun u => !isLineTerminator u

/-- `value.replace(/\.git(?:#.*)?$/, "")` -/
def withoutGit : Str → Str
  | [] => []
  | u :: rest =>
    if (lit ".git").isPrefixOf (u :: rest) && endsReference (rest.drop 3) then []
    else u :: withoutGit rest

/-- `value.replace(/\/$/, "")` -/
def withoutSlash (value : Str) : Str := if value.getLast? = some 47 then value.dropLast else value

def normalizeRepository (repository : Option Json) : Str :=
  match repositoryValue repository with
  | some (.str text) =>
    let value := replaceStart "git@github.com:" (lit "https://github.com/")
      (replaceStart "git://" (lit "https://") (replaceStart "git+" [] (trim text)))
    let value := if (lit "github.com/").isPrefixOf (value.map foldCase) then lit "https://" ++ value else value
    host.toLowerCase (withoutSlash (withoutGit value))
  | _ => []

def displayRepository (repository : Option Json) : Str :=
  match repositoryValue repository with
  | some (.str value) => replaceStart "git+" [] value
  | _ => []

def licenseExpression (manifest : List (Str × Json)) : Str :=
  match field manifest (lit "license") with
  | some (.str license) => if trim license ≠ [] then trim license else []
  | some (.obj license) =>
    match field license (lit "type") with
    | some (.str type) => trim type
    | _ => []
  | _ => []

def legalFile (packageRoot name : Str) : LegalFile :=
  ⟨name, Posix.joinPath packageRoot name, if NOTICE_FILE_PATTERN name then .notice else .license⟩

/-- `sort((left, right) => key(left).localeCompare(key(right)))` -/
def sortBy {α : Type} (key : α → Str) (values : List α) : List α :=
  values.insertionSort fun left right => (host.localeCompare (key left) (key right)).isLE = true

def legalFiles (packageRoot : Str) (listing : Listing) : List LegalFile :=
  sortBy host (·.name) ((listing.entries.filter fun entry =>
    entry.2 && LEGAL_FILE_PATTERN entry.1).map fun entry => legalFile packageRoot entry.1)

def loadPackage (installed : Installed) : Except Str Package :=
  match installed.manifest with
  | .obj manifest =>
    match field manifest (lit "name"), field manifest (lit "version") with
    | some (.str name), some (.str version) =>
      .ok {
        name, version
        license := licenseExpression manifest
        repository := displayRepository (field manifest (lit "repository"))
        normalizedRepository := normalizeRepository host (field manifest (lit "repository"))
        author := (field manifest (lit "author")).getD .null
        root := installed.root
        legalFiles := legalFiles host installed.root installed.listing }
    | _, _ => .error (lit "Installed package manifest is missing name or version: " ++
        Posix.joinPath installed.root (lit "package.json"))
  | _ => .error (lit "Installed package manifest is missing name or version: " ++
      Posix.joinPath installed.root (lit "package.json"))

/-- Of packages of one key the first with the most legal files is kept. -/
def keepPackage (packages : JsMap Str Package) (record : Package) : JsMap Str Package :=
  match packages.get (packageKey record) with
  | some prior =>
    if prior.legalFiles.length < record.legalFiles.length then packages.set (packageKey record) record
    else packages
  | none => packages.set (packageKey record) record

def loadPackages (roots : List Installed) : Except Str (List Package) := do
  let records ← roots.mapM (loadPackage host)
  return sortBy host packageKey (records.foldl keepPackage JsMap.empty).values

-- -----
-- Policy
-- -----

structure Override where
  repository : Option Json
  license : Str
  versions : List Str
  file : Str

structure SourceRepository where
  repository : Option Json
  versions : List Str
  reference : Str
  revision : Str

structure Policy where
  allowedLicenseIds : List Str
  prohibitedLicensePrefixes : List Str
  sourceRequiredLicenseIds : List Str
  overrides : List Override
  sourceRepositories : List SourceRepository

def SPDX_OPERATOR : List Str := [lit "AND", lit "OR", lit "WITH"]

/-- Between parentheses and blanks. -/
def licenseIdentifiers (expression : Str) : List Str :=
  (expression.splitOnP fun u => u == 40 || u == 41 || isSpace u).filter fun token =>
    token ≠ [] && token ∉ SPDX_OPERATOR

def validateLicense (policy : Policy) (pkg : Package) : List Str :=
  if pkg.license = [] then [packageKey pkg ++ lit ": package license metadata is missing"]
  else
    let identifiers := licenseIdentifiers pkg.license
    if identifiers = [] then
      [packageKey pkg ++ lit ": package license expression is invalid: " ++ pkg.license]
    else identifiers.flatMap fun identifier =>
      if policy.prohibitedLicensePrefixes.any fun start => start.isPrefixOf identifier then
        [packageKey pkg ++ lit ": prohibited license: " ++ identifier]
      else if identifier ∈ policy.allowedLicenseIds then []
      else [packageKey pkg ++ lit ": unapproved license identifier: " ++ identifier]

/-- `/^[0-9a-f]{40}$/i` -/
def isRevision (revision : Str) : Bool :=
  revision.length == 40 && revision.all fun u => isDigit u || (97 ≤ foldCase u && foldCase u ≤ 102)

def matchingSourceRepository (policy : Policy) (pkg : Package) : Option SourceRepository :=
  policy.sourceRepositories.find? fun candidate =>
    normalizeRepository host candidate.repository = pkg.normalizedRepository &&
      pkg.version ∈ candidate.versions && includes candidate.reference (lit "\x7brevision\x7d") &&
      isRevision candidate.revision

def validateSourceRequirement (policy : Policy) (pkg : Package) : List Str :=
  if (licenseIdentifiers pkg.license).any (· ∈ policy.sourceRequiredLicenseIds) &&
      (matchingSourceRepository host policy pkg).isNone then
    [packageKey pkg ++ lit ": exact source reference is required for " ++ pkg.license]
  else []

def validatePackages (policy : Policy) (packages : List Package) : List Str :=
  packages.flatMap fun pkg => validateLicense policy pkg ++ validateSourceRequirement host policy pkg

-- -----
-- License texts
-- -----

inductive SourceType where
  | package | repositoryPackage | reviewedOverride
  deriving DecidableEq, Repr

structure Source where
  type : SourceType
  package : Option Str
  files : List LegalFile

structure Resolved where
  pkg : Package
  source : Source

def ownLicenseFiles (pkg : Package) : List LegalFile :=
  pkg.legalFiles.filter fun file => LICENSE_FILE_PATTERN file.name

def donorKey (pkg : Package) : Str := pkg.normalizedRepository ++ LF :: pkg.license

def addDonor (donors : JsMap Str (List Package)) (pkg : Package) : JsMap Str (List Package) :=
  if pkg.normalizedRepository = [] || ownLicenseFiles pkg = [] then donors
  else donors.set (donorKey pkg) ((donors.get (donorKey pkg)).getD [] ++ [pkg])

def licenseDonors (packages : List Package) : JsMap Str (List Package) :=
  (packages.foldl addDonor JsMap.empty).mapValues (sortBy host packageKey)

def matchingOverride (policy : Policy) (pkg : Package) : Option Override :=
  policy.overrides.find? fun candidate =>
    normalizeRepository host candidate.repository = pkg.normalizedRepository &&
      candidate.license = pkg.license && pkg.version ∈ candidate.versions &&
      host.existsSync (Posix.resolve host.repoRoot candidate.file)

def resolveLicenseSource (donors : JsMap Str (List Package)) (policy : Policy) (pkg : Package) :
    Option Source :=
  if ownLicenseFiles pkg ≠ [] then some ⟨.package, some (packageKey pkg), ownLicenseFiles pkg⟩
  else
    match ((donors.get (donorKey pkg)).getD []).find? (·.version = pkg.version) with
    | some donor => some ⟨.repositoryPackage, some (packageKey donor), ownLicenseFiles donor⟩
    | none => (matchingOverride host policy pkg).map fun override =>
      ⟨.reviewedOverride, none, [⟨Posix.basename override.file,
        Posix.resolve host.repoRoot override.file, .license⟩]⟩

def resolvePackageLicenses (policy : Policy) (packages : List Package) : List Resolved × List Str :=
  let sourceOf := resolveLicenseSource host (licenseDonors host packages) policy
  (packages.filterMap fun pkg => (sourceOf pkg).map fun source => ⟨pkg, source⟩,
    (packages.filter fun pkg => (sourceOf pkg).isNone).map fun pkg =>
      packageKey pkg ++ lit ": no license text or reviewed override is available")

-- -----
-- Files
-- -----

/-- The files below `packages/` by directory and name. -/
abbrev Bundle := JsMap (Str × Str) Bytes

structure Record where
  name : Str
  version : Str
  license : Str
  repository : Str
  author : Json
  upstreamLicenseTextMissing : Bool
  licenseSource : SourceType × Option Str
  files : List Str

def targetName (source : Source) (file : LegalFile) : Str :=
  match source.type with
  | .package => file.name
  | _ => lit "LICENSE.from-" ++
    directoryNameOf (keyOf (source.package.getD (lit "override")) (lit "source")) ++
    lit "-" ++ file.name

/-- The files that are copied for a package, with their names in the bundle. -/
def Resolved.copies (entry : Resolved) : List (LegalFile × Str) :=
  entry.source.files.map (fun file => (file, targetName entry.source file)) ++
    (entry.pkg.legalFiles.filter (·.type = .notice)).map fun file => (file, file.name)

def copyLegalFile (directory : Str) (bundle : Bundle) (copy : LegalFile × Str) : Except Str Bundle :=
  match host.read copy.1.path with
  | some bytes => .ok (bundle.set (directory, copy.2) bytes)
  | none => .error (lit "Legal file is not a regular file: " ++ copy.1.path)

def Resolved.record (entry : Resolved) : Record where
  name := entry.pkg.name
  version := entry.pkg.version
  license := entry.pkg.license
  repository := entry.pkg.repository
  author := entry.pkg.author
  upstreamLicenseTextMissing := !entry.pkg.legalFiles.any fun file => LICENSE_FILE_PATTERN file.name
  licenseSource := (entry.source.type, entry.source.package)
  files := (entry.copies.map (·.2)).insertionSort (· ≤ ·)

def writePackageRecords : Bundle → List Resolved → Except Str (Bundle × List Record)
  | bundle, [] => .ok (bundle, [])
  | bundle, entry :: rest => do
    let copied ← entry.copies.foldlM (copyLegalFile host (packageDirectoryName entry.pkg)) bundle
    let (written, records) ← writePackageRecords copied rest
    return (written, entry.record :: records)

/-- The bundle of these packages. `errors` are those of the repository itself. -/
def generateLicenseBundle (policy : Policy) (errors : List Str) (roots : List Installed) :
    Except Str (Bundle × List Record) := do
  let packages ← loadPackages host roots
  let (resolved, unresolved) := resolvePackageLicenses host policy packages
  let errors := errors ++ validatePackages host policy packages ++ unresolved
  if errors ≠ [] then throw (join [LF] errors)
  writePackageRecords host JsMap.empty resolved

end

end PiEnv.Scripts.Licenses
