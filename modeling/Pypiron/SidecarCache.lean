import Pypiron.Contention
import Pypiron.TalliedMap
import Pypiron.ThreadPool
import Pypiron.VerifyIndex

/-! The parsed-sidecar memo of package rebuilds. A rebuild lists its package, takes the
package's memo out, reads only the sidecars whose change detector has moved, and puts back
what it listed, while other rebuilds share the memo and anyone writes the objects. -/
namespace Pypiron.SidecarCache
open KeyedMap
open VerifyIndex (FileMetadata has isArtifact sidecarSuffix suffixText)
open Contention (Changes)

/-- What the rebuild calls of other crates: beside the parsers and the digest, the writer of
sidecars and what a fabricated one takes from the filename and from the listing. -/
structure Codec extends VerifyIndex.Shared, Publish.Labels where
  toVec : Sidecar → Bytes

/-! ### The memo -/

/-- One package's memo: by filename, the detector a value was read under, and the value. -/
structure PackageSidecars where
  sidecars : KeyedMap String (ℕ × Sidecar)
  metadata : KeyedMap String (ℕ × String)

namespace PackageSidecars

def empty : PackageSidecars := ⟨∅, ∅⟩

def len (memo : PackageSidecars) : ℕ := KeyedMap.len memo.sidecars + KeyedMap.len memo.metadata

def isEmpty (memo : PackageSidecars) : Bool := memo.len == 0

/-- A value without a detector is not memoized. -/
def noteSidecar (memo : PackageSidecars) (filename : String) (etag : Option ℕ) (sc : Sidecar) :
    PackageSidecars :=
  match etag with
  | some etag => { memo with sidecars := memo.sidecars.insert filename (etag, sc) }
  | none => memo

def noteMetadata (memo : PackageSidecars) (filename : String) (etag : Option ℕ) (sha : Option String) :
    PackageSidecars :=
  match etag, sha with
  | some etag, some sha => { memo with metadata := memo.metadata.insert filename (etag, sha) }
  | _, _ => memo

end PackageSidecars

def maxFiles : ℕ := 100000

/-- The memos by bucket and package; what is counted beside them is the files they hold. -/
abbrev Inner := TalliedMap (ℕ × String) PackageSidecars

/-- Remove and return a package's memo. -/
def take (inner : Inner) (bucket : ℕ) (pkg : String) : Option (PackageSidecars × Inner) :=
  match inner.map.lookup (bucket, pkg) with
  | some memo => (inner.remove PackageSidecars.len (bucket, pkg)).map (memo, ·)
  | none => some (.empty, inner)

/-- Above the ceiling everything else is dropped. -/
def makeRoom (inner : Inner) (files : ℕ) : Inner :=
  if inner.bodyBytes + files > maxFiles then .empty else inner

def put (inner : Inner) (bucket : ℕ) (pkg : String) (memo : PackageSidecars) : Option Inner :=
  if memo.isEmpty || memo.len > maxFiles then some inner
  else
    (inner.remove PackageSidecars.len (bucket, pkg)).bind fun rest =>
      (makeRoom rest memo.len).insert PackageSidecars.len (bucket, pkg) memo

/-! ### Operations -/

/-- An object of a package's directory. -/
structure Place where
  bucket : ℕ
  pkg : String
  name : String
  deriving DecidableEq

/-- A listed object; the backend may report no change detector. -/
structure FileEntry where
  name : String
  size : ℕ
  lastModified : ℕ
  etag : Option ℕ

inductive Op where
  | readOriginClaim (bucket : ℕ) (pkg : String)
  | listDirEntries (bucket : ℕ) (pkg : String)
  | finishInterruptedSupersedes (bucket : ℕ) (pkg : String) (marked : List String)
  | getBytes (place : Place)
  | putIfAbsent (place : Place) (bytes : Bytes)
  | deleteKeys (place : Place)
  | take (bucket : ℕ) (pkg : String)
  | put (bucket : ℕ) (pkg : String) (memo : PackageSidecars)

def Op.Ans : Op → Type
  | readOriginClaim _ _ => Except String (Option OriginState)
  | listDirEntries _ _ => Except String (List FileEntry)
  | finishInterruptedSupersedes _ _ _ => Except String Unit
  | getBytes _ => Except String (Option Bytes)
  | putIfAbsent _ _ => Except String Bool
  | deleteKeys _ => Except String Unit
  | take _ _ => PackageSidecars
  | put _ _ _ => Unit

abbrev RebuildM := Program Op Op.Ans String

def readOriginClaim (bucket : ℕ) (pkg : String) : RebuildM (Option OriginState) :=
  .call (.readOriginClaim bucket pkg) fun answer => .done answer

def listDirEntries (bucket : ℕ) (pkg : String) : RebuildM (List FileEntry) :=
  .call (.listDirEntries bucket pkg) fun answer => .done answer

def finishInterruptedSupersedes (bucket : ℕ) (pkg : String) (marked : List String) : RebuildM Unit :=
  .call (.finishInterruptedSupersedes bucket pkg marked) fun answer => .done answer

/-- An object that is not found is none. -/
def getBytes (place : Place) : RebuildM (Option Bytes) :=
  .call (.getBytes place) fun answer => .done answer

def putIfAbsent (place : Place) (bytes : Bytes) : RebuildM Bool :=
  .call (.putIfAbsent place bytes) fun answer => .done answer

def deleteKeys (place : Place) : RebuildM Unit :=
  .call (.deleteKeys place) fun answer => .done answer

def takeMemo (bucket : ℕ) (pkg : String) : RebuildM PackageSidecars :=
  .call (.take bucket pkg) fun answer => .done (.ok answer)

def putMemo (bucket : ℕ) (pkg : String) (memo : PackageSidecars) : RebuildM Unit :=
  .call (.put bucket pkg memo) fun answer => .done (.ok answer)

/-! ### The rebuild -/

/-- What a rebuild has before it reads its first sidecar. -/
structure Listing where
  bucket : ℕ
  pkg : String
  entries : List FileEntry
  claim : Option Origin
  authoring : Bool

namespace Listing

def names (listing : Listing) : List String := listing.entries.map (·.name)

/-- The artifacts in listing order. -/
def artifacts (listing : Listing) : List FileEntry :=
  listing.entries.filter fun entry => isArtifact entry.name

def place (listing : Listing) (name : String) : Place := ⟨listing.bucket, listing.pkg, name⟩

def sidecarPlace (listing : Listing) (filename : String) : Place :=
  listing.place (filename ++ sidecarSuffix)

def metadataPlace (listing : Listing) (filename : String) : Place :=
  listing.place (filename ++ suffixText .metadata)

/-- The detector an object is listed under. -/
def etag (listing : Listing) (name : String) : Option ℕ :=
  (listing.entries.find? fun entry => entry.name == name).bind (·.etag)

def record (listing : Listing) (filename : String) (sidecar : Option Sidecar) : Record :=
  Record.fromListing (has listing.names filename) sidecar listing.claim

/-- A fenced body's sidecar is never read for nothing. -/
def reads (listing : Listing) (filename : String) : Bool :=
  listing.names.contains (filename ++ sidecarSuffix) &&
    !Publish.fencedByMarkers (has listing.names filename .tombstone) (has listing.names filename .frozen)

/-- The memoized value, where its detector has not moved. -/
def known {V : Type} (etag : Option ℕ) (filename : String) (memo : KeyedMap String (ℕ × V)) : Option V :=
  etag.bind fun etag => ((memo.lookup filename).filter fun seen => seen.1 == etag).map (·.2)

end Listing

section Rebuild
variable (codec : Codec)

/-- A sidecar that vanished or does not parse is none. -/
def readListedSidecar (place : Place) : RebuildM (Option Sidecar) := do
  let bytes ← getBytes place
  pure (bytes.bind codec.sidecar)

def readMetadataSha256 (place : Place) : RebuildM (Option String) := do
  let bytes ← getBytes place
  pure (bytes.map codec.sha256)

def fabricate (listing : Listing) (entry : FileEntry) (body : Bytes) : Sidecar where
  sha256 := codec.sha256 body
  size := entry.size
  version := (codec.inferVersion entry.name).getD ""
  uploadTime := (codec.lastModified entry.lastModified).getD ""
  uploadEpochMs := none
  requiresPython := none
  yanked := .flag false
  origin := listing.claim.map Origin.asStr
  yankEpoch := 0
  uploadTimeRevision := 0
  snapshot := false
  storeChecksum := none

/-- The body has changed: drop the fabrication, unless a real sidecar has replaced it. -/
def retract (place : Place) (fabricated : Bytes) : RebuildM Unit := do
  let current ← getBytes place
  if current = some fabricated then deleteKeys place else pure ()

/-- The body must still hold the hashed bytes. -/
def confirmBackfill (listing : Listing) (filename : String) (sc : Sidecar) : RebuildM (Option Sidecar) := do
  let body ← getBytes (listing.place filename)
  if body.map codec.sha256 = some sc.sha256 then pure (some sc)
  else do
    retract (listing.sidecarPlace filename) (codec.toVec sc)
    pure none

/-- Create-only: where the race is lost, the winner's sidecar is read. -/
def createSidecar (listing : Listing) (filename : String) (sc : Sidecar) : RebuildM (Option Sidecar) := do
  let created ← putIfAbsent (listing.sidecarPlace filename) (codec.toVec sc)
  if created then confirmBackfill codec listing filename sc
  else readListedSidecar codec (listing.sidecarPlace filename)

/-- Hash the bare body once and create a sidecar for it. -/
def backfillSidecar (listing : Listing) (entry : FileEntry) : RebuildM (Option Sidecar) := do
  match ← getBytes (listing.place entry.name) with
  | none => pure none
  | some body =>
    if body.length ≠ entry.size then
      .bail (Replicate.artifactKey listing.pkg entry.name ++ ": read " ++ toString body.length ++
        " bytes but the listing said " ++ toString entry.size ++ "; retrying the rebuild")
    else createSidecar codec listing entry.name (fabricate codec listing entry body)

/-- A bare body is backfilled by a rebuild that may author. -/
def settle (listing : Listing) (entry : FileEntry) (sidecar : Option Sidecar) : RebuildM (Option Sidecar) :=
  if listing.authoring && classifyRecord (listing.record entry.name sidecar) == .bare then
    backfillSidecar codec listing entry
  else pure sidecar

/-- The memoized sidecar, or the stored one. -/
def readSidecar (listing : Listing) (memo : PackageSidecars) (filename : String) :
    RebuildM (Option Sidecar) :=
  match Listing.known (listing.etag (filename ++ sidecarSuffix)) filename memo.sidecars with
  | some sc => pure (some sc)
  | none => readListedSidecar codec (listing.sidecarPlace filename)

def readCompanion (listing : Listing) (memo : PackageSidecars) (filename : String) :
    RebuildM (Option String) :=
  if has listing.names filename .metadata then
    match Listing.known (listing.etag (filename ++ suffixText .metadata)) filename memo.metadata with
    | some sha => pure (some sha)
    | none => readMetadataSha256 codec (listing.metadataPlace filename)
  else pure none

/-- The entry of a file whose record is settled, and the memo with its companion's digest. -/
def indexFile (listing : Listing) (memo fresh : PackageSidecars) (filename : String) (sc : Sidecar) :
    RebuildM (Option FileMetadata × PackageSidecars) :=
  if Publish.listed (listing.record filename (some sc)) listing.claim then do
    let sha ← readCompanion codec listing memo filename
    pure (some (.fromSidecar filename sc sha (has listing.names filename .provenance)),
      fresh.noteMetadata filename (listing.etag (filename ++ suffixText .metadata)) sha)
  else pure (none, fresh)

def settleFile (listing : Listing) (memo fresh : PackageSidecars) (entry : FileEntry)
    (sidecar : Option Sidecar) : RebuildM (Option FileMetadata × PackageSidecars) := do
  match ← settle codec listing entry sidecar with
  | none => pure (none, fresh)
  | some sc => indexFile codec listing memo fresh entry.name sc

/-- One artifact's entry, or none where the index leaves it out, and what is memoized. -/
def loadFileMetadata (listing : Listing) (memo fresh : PackageSidecars) (entry : FileEntry) :
    RebuildM (Option FileMetadata × PackageSidecars) :=
  if listing.reads entry.name then do
    match ← readSidecar codec listing memo entry.name with
    | none => pure (none, fresh)
    | some sc =>
      settleFile codec listing memo
        (fresh.noteSidecar entry.name (listing.etag (entry.name ++ sidecarSuffix)) sc) entry (some sc)
  else settleFile codec listing memo fresh entry none

/-- The reads of a chunk overlap; here they come in listing order. -/
def loadFiles (listing : Listing) (memo : PackageSidecars) :
    List FileEntry → PackageSidecars → RebuildM (List FileMetadata × PackageSidecars)
  | [], fresh => pure ([], fresh)
  | entry :: entries, fresh => do
    let loaded ← loadFileMetadata codec listing memo fresh entry
    let rest ← loadFiles listing memo entries loaded.2
    pure (loaded.1.toList ++ rest.1, rest.2)

/-- The files a `.superseding` marker stands for. -/
def superseding (entries : List FileEntry) : List String :=
  (entries.filterMap fun entry => stripSuffix (suffixText .superseding) entry.name).filter isArtifact

/-- An authoring rebuild finishes interrupted supersedes, and lists again. -/
def settledEntries (bucket : ℕ) (pkg : String) (authoring : Bool) : RebuildM (List FileEntry) := do
  let entries ← listDirEntries bucket pkg
  if authoring && !(superseding entries).isEmpty then do
    finishInterruptedSupersedes bucket pkg (superseding entries)
    listDirEntries bucket pkg
  else pure entries

/-- Which package of which bucket, and whether the rebuild may author truth. -/
structure Call where
  bucket : ℕ
  pkg : String
  authoring : Bool

/-- The index entries, and the raw artifacts with their sizes. -/
abbrev Listed := List FileMetadata × List (String × ℕ)

def loadListing (listing : Listing) : RebuildM Listed := do
  let memo ← takeMemo listing.bucket listing.pkg
  let loaded ← loadFiles codec listing memo listing.artifacts .empty
  putMemo listing.bucket listing.pkg loaded.2
  pure (loaded.1, listing.artifacts.map fun entry => (entry.name, entry.size))

def listArtifactsForClaim (call : Call) : RebuildM Listed := do
  let claim ← readOriginClaim call.bucket call.pkg
  let entries ← settledEntries call.bucket call.pkg call.authoring
  loadListing codec ⟨call.bucket, call.pkg, entries, claim.bind Origin.ofState, call.authoring⟩

end Rebuild

/-! ### The node -/

/-- The buckets, where an object never has one detector twice, and the memo of one node. -/
structure Store where
  objects : Place → VersionedCell Bytes
  claims : ℕ → String → Option OriginState
  memo : Inner

def Store.write (store : Store) (place : Place) (cell : VersionedCell Bytes) : Store :=
  { store with objects := Function.update store.objects place cell }

/-- A listing of a directory: every object with its size and, perhaps, its detector. -/
structure Lists (store : Store) (bucket : ℕ) (pkg : String) (entries : List FileEntry) : Prop where
  present : ∀ name, name ∈ entries.map FileEntry.name ↔ (store.objects ⟨bucket, pkg, name⟩).get ≠ none
  truthful : ∀ entry ∈ entries, ∃ body number,
    (store.objects ⟨bucket, pkg, entry.name⟩).get = some (body, number) ∧ entry.size = body.length ∧
      ∀ etag, entry.etag = some etag → etag = number

/-- Anyone may write or delete objects and claims at any time; the memo is the node's own. -/
structure Drifts (store store' : Store) : Prop where
  objects : ∀ place, Changes (store.objects place) (store'.objects place)
  memo : store'.memo = store.memo

/-- A request is answered, fails outright, or takes effect and is reported as failed. -/
inductive Performs (store : Store) : (op : Op) → op.Ans → Store → Prop where
  | claimRead (bucket : ℕ) (pkg : String) :
      Performs store (.readOriginClaim bucket pkg) (.ok (store.claims bucket pkg)) store
  | claimUnread (bucket : ℕ) (pkg text : String) :
      Performs store (.readOriginClaim bucket pkg) (.error text) store
  | listed (lists : Lists store bucket pkg entries) :
      Performs store (.listDirEntries bucket pkg) (.ok entries) store
  | unlisted (bucket : ℕ) (pkg text : String) :
      Performs store (.listDirEntries bucket pkg) (.error text) store
  | superseded (bucket : ℕ) (pkg : String) (marked : List String) (answer : Except String Unit)
      (drifts : Drifts store store') :
      Performs store (.finishInterruptedSupersedes bucket pkg marked) answer store'
  | got (place : Place) : Performs store (.getBytes place) (.ok (store.objects place).value) store
  | unread (place : Place) (text : String) : Performs store (.getBytes place) (.error text) store
  | created (bytes : Bytes) (missing : (store.objects place).get = none) :
      Performs store (.putIfAbsent place bytes) (.ok true)
        (store.write place ((store.objects place).write bytes))
  | occupied (bytes : Bytes) (found : (store.objects place).get = some stored) :
      Performs store (.putIfAbsent place bytes) (.ok false) store
  | createFailed (place : Place) (bytes : Bytes) (text : String) :
      Performs store (.putIfAbsent place bytes) (.error text) store
  | createLost (bytes : Bytes) (text : String) (missing : (store.objects place).get = none) :
      Performs store (.putIfAbsent place bytes) (.error text)
        (store.write place ((store.objects place).write bytes))
  | deleted (place : Place) : Performs store (.deleteKeys place) (.ok ())
      (store.write place (Contention.remove (store.objects place)))
  | deleteFailed (place : Place) (text : String) : Performs store (.deleteKeys place) (.error text) store
  | deleteLost (place : Place) (text : String) : Performs store (.deleteKeys place) (.error text)
      (store.write place (Contention.remove (store.objects place)))
  | taken (took : SidecarCache.take store.memo bucket pkg = some (memo, rest)) :
      Performs store (.take bucket pkg) memo { store with memo := rest }
  | put (kept : SidecarCache.put store.memo bucket pkg memo = some next) :
      Performs store (.put bucket pkg memo) () { store with memo := next }

/-- Any number of rebuilds on one node, any of which may be dropped anywhere. -/
def rebuilds (codec : Codec) : ThreadPool.System Store Call Op Op.Ans String Listed where
  program := listArtifactsForClaim codec
  performs := fun _ => Performs
  drifts := Drifts
  drops := fun _ store store' => store' = store

end Pypiron.SidecarCache
