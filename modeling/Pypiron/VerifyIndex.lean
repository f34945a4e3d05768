import Pypiron.ExcludeReconcile
import Pypiron.Publish
import Pypiron.Quarantine
import Pypiron.Text

/-! Two pipelines over the stored objects of one package: the rebuild, which
derives the package's views, and the check, which recomputes them by rules of its
own and reports where storage differs. -/
namespace Pypiron.VerifyIndex
open ExcludeReconcile

/-! ### Stored objects -/

def sidecarSuffix : String := ".meta.json"

def suffixText : Suffix → String
  | .body => ""
  | .metadata => ".metadata"
  | .provenance => ".provenance"
  | .tombstone => ".tombstone"
  | .frozen => ".frozen"
  | .mirrorQuarantined => ".mirror-quarantined"
  | .superseding => ".superseding"

def endsWith (text suf : String) : Bool := suf.toList.isSuffixOf text.toList

/-- A body, not a companion, a marker or a dotfile. -/
def isArtifact (filename : String) : Bool :=
  filename ≠ "" && filename.toList.head? ≠ some '.' &&
    !([sidecarSuffix, ".metadata", ".provenance", ".tombstone", ".frozen", ".mirror-quarantined",
      ".superseding"].any (endsWith filename))

structure Views where
  html : Option Bytes
  json : Option Bytes
  deriving DecidableEq

/-- The objects under `packages/<pkg>/` in key order, and the package's views. -/
structure Store where
  objects : KeyedMap String Bytes
  views : Views

/-- The objects of the package's own directory. -/
def Store.names (store : Store) : List String :=
  store.objects.keys.filter fun name => !name.toList.contains '/'

def has (names : List String) (filename : String) (suffix : Suffix) : Bool :=
  names.contains (filename ++ suffixText suffix)

/-- An index entry. -/
structure FileMetadata where
  filename : String
  sha256 : String
  size : ℕ
  uploadTime : Option String
  version : Option String
  yanked : Yanked
  requiresPython : Option String
  coreMetadata : Bool
  coreMetadataSha256 : Option String
  provenance : Bool
  deriving DecidableEq

def FileMetadata.fromSidecar (filename : String) (sc : Sidecar) (coreMetadataSha256 : Option String)
    (provenance : Bool) : FileMetadata where
  filename := filename
  sha256 := sc.sha256
  size := sc.size
  uploadTime := if trim sc.uploadTime = "" then none else some sc.uploadTime
  version := if sc.version = "" then none else some sc.version
  yanked := sc.yanked
  requiresPython := sc.requiresPython
  coreMetadata := coreMetadataSha256.isSome
  coreMetadataSha256 := coreMetadataSha256
  provenance := provenance

/-- What the two pipelines call alike: the parsers of stored objects, the digest
and the renderers. -/
structure Shared where
  sidecar : Bytes → Option Sidecar
  status : Bytes → Option ProjectStatusDoc
  claim : Bytes → Option OriginState
  sha256 : Bytes → String
  pep503ProjectHtml : String → List FileMetadata → ProjectStatusDoc → Bytes
  pep691ProjectJson : String → List FileMetadata → ProjectStatusDoc → Bytes

section
variable (shared : Shared)

/-- A claim that does not parse is an error; one that is absent is none. -/
def readOriginClaim (store : Store) : Option (Option OriginState) :=
  match store.objects.lookup ".origin" with
  | none => some none
  | some bytes => (shared.claim bytes).map some

def readStatus (store : Store) : Option ProjectStatusDoc :=
  match store.objects.lookup ".project-status.json" with
  | none => some default
  | some bytes => shared.status bytes

def readMetadataSha256 (store : Store) (filename : String) : Option String :=
  (store.objects.lookup (filename ++ suffixText .metadata)).map shared.sha256

/-- The views of these files under this status. -/
def rendered (pkg : String) (files : List FileMetadata) (status : ProjectStatusDoc) : Bytes × Bytes :=
  let shown := if Quarantine.blocksDownloads status.status then [] else files
  (shared.pep503ProjectHtml pkg shown status, shared.pep691ProjectJson pkg shown status)

/-! ### The rebuild -/

/-- A sidecar that does not parse leaves its file out. -/
def readListedSidecar (store : Store) (filename : String) : Option Sidecar :=
  (store.objects.lookup (filename ++ sidecarSuffix)).bind shared.sidecar

/-- One artifact's index entry, or none where the index leaves it out. -/
def loadFileMetadata (backfill : String → Option Sidecar) (store : Store) (claim : Option Origin)
    (filename : String) : Option FileMetadata := do
  let names := store.names
  let record := fun sidecar => Record.fromListing (has names filename) sidecar claim
  let fenced := Publish.fencedByMarkers (has names filename .tombstone) (has names filename .frozen)
  let sidecar ← if names.contains (filename ++ sidecarSuffix) && !fenced then
    (readListedSidecar shared store filename).map some else some none
  let sidecar ← if classifyRecord (record sidecar) = .bare then
    (backfill filename).map some else some sidecar
  if Publish.listed (record sidecar) claim then
    let sc ← sidecar
    let coreMetadataSha256 := if has names filename .metadata then
      readMetadataSha256 shared store filename else none
    some (.fromSidecar filename sc coreMetadataSha256 (has names filename .provenance))
  else none

def listArtifactsForClaim (backfill : String → Option Sidecar) (store : Store) :
    Option (List FileMetadata) := do
  let claim ← readOriginClaim shared store
  some ((store.names.filter isArtifact).filterMap
    (loadFileMetadata shared backfill store (claim.bind Origin.ofState)))

variable {S V : Type} (pep : Pep440 S V)

/-- The views the rebuild leaves, and whether the package is still live. -/
def rebuildPackage (backfill : String → Option Sidecar) (denylist : Denylist S) (pkg : String)
    (store : Store) : Option (Views × Bool) := do
  let files ← listArtifactsForClaim shared backfill store
  let files := files.filter fun file => !denylist.fileDenied pep pkg file.filename
  if files ≠ [] then
    let status ← readStatus shared store
    let (html, json) := rendered shared pkg files status
    some (⟨some html, some json⟩, true)
  else some (⟨none, none⟩, false)

/-! ### The check -/

inductive DivergenceKind where
  | badPackageDir
  | missingSidecar
  | corruptSidecar
  | sizeMismatch
  | bodyMismatch
  | missingBody
  | staleView
  | missingView
  | orphanView
  deriving DecidableEq

/-- A finding, and the file or view it is about. -/
structure Divergence where
  kind : DivergenceKind
  subject : String
  deriving DecidableEq

/-- The renderer's mirror omissions, written as one predicate. -/
def suppressedMirror (pkgOrigin : Option OriginState) (sc : Sidecar) (mirrorQuarantined : Bool) :
    Bool :=
  (pkgOrigin = some .priv && sc.origin = some Origin.mirror.asStr) ||
    (mirrorQuarantined && sc.origin ≠ some Origin.priv.asStr)

/-- What the check has gathered so far. -/
structure Checked where
  divs : List Divergence
  files : List FileMetadata
  comparable : Bool
  suppressed : ℕ
  attested : List (String × String × ℕ)

/-- The files whose markers the names carry. -/
def marked (names : List String) (suffix : Suffix) : List String :=
  names.filterMap (stripSuffix (suffixText suffix))

/-- Whether the check expects an artifact to be read at all. -/
def expected (names : List String) (filename : String) : Bool :=
  let untypedQuarantine := (marked names .mirrorQuarantined).contains filename &&
    !names.contains (filename ++ sidecarSuffix)
  !filename.toList.contains '/' && isArtifact filename &&
    !(marked names .tombstone).contains filename && !(marked names .frozen).contains filename &&
    !untypedQuarantine

/-- Check one artifact of the given length against its sidecar. -/
def checkArtifact (denylist : Denylist S) (deep : Bool) (pkg : String) (store : Store)
    (pkgOrigin : Option OriginState) (acc : Checked) (filename : String) (size : ℕ) : Checked :=
  let names := store.objects.keys
  match store.objects.lookup (filename ++ sidecarSuffix) with
  | none => { acc with divs := acc.divs ++ [⟨.missingSidecar, filename⟩], comparable := false }
  | some bytes =>
    match shared.sidecar bytes with
    | none => { acc with divs := acc.divs ++ [⟨.corruptSidecar, filename⟩] }
    | some sc =>
      let acc :=
        if size ≠ sc.size then { acc with divs := acc.divs ++ [⟨.sizeMismatch, filename⟩] }
        else if deep then { acc with attested := acc.attested ++ [(filename, sc.sha256, sc.size)] }
        else acc
      if denylist.fileDenied pep pkg filename ||
          suppressedMirror pkgOrigin sc ((marked names .mirrorQuarantined).contains filename) then
        { acc with suppressed := acc.suppressed + 1 }
      else
        let coreMetadataSha256 := if has names filename .metadata then
          readMetadataSha256 shared store filename else none
        { acc with files := acc.files ++
            [.fromSidecar filename sc coreMetadataSha256 (has names filename .provenance)] }

/-- Hash one body again; one that ends early could not be checked. -/
def rehashBody (store : Store) (attested : String × String × ℕ) : Option (List Divergence) :=
  let (filename, published, size) := attested
  match store.objects.lookup filename with
  | none => some [⟨.missingBody, filename⟩]
  | some body =>
    if body.length ≠ size then none
    else if shared.sha256 body ≠ published then some [⟨.bodyMismatch, filename⟩]
    else some []

def rehashBodies (store : Store) (attested : List (String × String × ℕ)) :
    Option (List Divergence) :=
  (attested.mapM (rehashBody shared store)).map List.flatten

def compareView (suffix : String) (expected : Bytes) : Option Bytes → List Divergence
  | none => [⟨.missingView, suffix⟩]
  | some actual => if actual = expected then [] else [⟨.staleView, suffix⟩]

def orphanView (suffix : String) (actual : Option Bytes) : List Divergence :=
  if actual.isSome then [⟨.orphanView, suffix⟩] else []

/-- Whether the package has artifacts to show, and the findings. -/
def checkPackage (denylist : Denylist S) (deep : Bool) (pkg : String) (store : Store) :
    Option (Bool × List Divergence) := do
  let dir := if normalizePkgName pkg ≠ pkg then [⟨.badPackageDir, pkg⟩] else []
  let pkgOrigin ← readOriginClaim shared store
  let artifacts := store.objects.entries.filter fun entry => expected store.objects.keys entry.1
  let checked := artifacts.foldl
    (fun acc entry => checkArtifact shared pep denylist deep pkg store pkgOrigin acc entry.1
      entry.2.length) ⟨dir, [], true, 0, []⟩
  let rehashed ← rehashBodies shared store checked.attested
  let hasArtifacts : Bool := checked.suppressed < artifacts.length
  let views ←
    if hasArtifacts && checked.comparable then do
      let status ← readStatus shared store
      let (html, json) := rendered shared pkg checked.files status
      some (compareView "index.html" html store.views.html ++
        compareView "index.json" json store.views.json)
    else some []
  let orphans := if hasArtifacts then [] else
    orphanView "index.html" store.views.html ++ orphanView "index.json" store.views.json
  some (hasArtifacts, checked.divs ++ rehashed ++ views ++ orphans)

end

end Pypiron.VerifyIndex
