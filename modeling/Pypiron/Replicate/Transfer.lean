import Pypiron.Replicate.Storage

/-! The executors of a merge: how one record is copied, superseded, preserved,
frozen, tombstoned or settled, one storage call at a time. -/
namespace Pypiron.Replicate
open Program StoreM RankedMerge
variable {ι : Type}

def artifactKey (pkg filename : String) : String := "packages/" ++ pkg ++ "/" ++ filename

def requireReplicationUnfenced (site : Site ι) : StoreM ι Unit :=
  if site.mutationsFenced then bail "bucket topology mismatch; replication writes are fenced"
  else pure ()

def ensurePrivate (i : ι) (pkg : String) : StoreM ι Unit := onClaim i (ensurePrivateOrigin pkg)

def ensureMirror (i : ι) (pkg : String) : StoreM ι Origin := onClaim i (ensureMirrorOrigin pkg)

/-! ### Verified writes -/

def checkStoredSize (key : String) (stored : Option Bytes) (expected : Nat) : StoreM ι Unit :=
  match stored with
  | none => bail ("artifact " ++ key ++ " vanished immediately after a create success")
  | some bytes =>
    if bytes.length = expected then pure ()
    else bail ("artifact " ++ key ++ " stored " ++ toString bytes.length ++ " bytes, expected " ++
      toString expected ++ " (write landed corrupt)")

def verifyStoredSize (i : ι) (pkg f : String) (expected : Nat) : StoreM ι Unit := do
  checkStoredSize (artifactKey pkg f) (← get i f .body) expected

/-- Create the body if absent; `false` leaves the winner to the caller. -/
def createArtifactVerified (i : ι) (pkg f : String) (bytes : Bytes) : StoreM ι Bool := do
  if ← putIfAbsent i f .body bytes then
    verifyStoredSize i pkg f bytes.length
    pure true
  else pure false

/-- A companion's key ends holding exactly these bytes: a match dedups, a
different body is debris and is overwritten. -/
def putIfAbsentOrVerify (site : Site ι) (i : ι) (pkg f : String) (c : Companion) (bytes : Bytes) :
    StoreM ι Bool := do
  if ← putIfAbsent i f (.companion c) bytes then
    checkStoredSize (artifactKey pkg f) (← get i f (.companion c)) bytes.length
    pure true
  else
    match ← get i f (.companion c) with
    | none => bail ("read back already-present artifact " ++ artifactKey pkg f)
    | some current =>
      if site.encoding.sha256 current = site.encoding.sha256 bytes then pure false
      else
        put i f (.companion c) bytes
        match ← get i f (.companion c) with
        | none => bail ("re-verify repaired artifact " ++ artifactKey pkg f)
        | some after =>
          if site.encoding.sha256 after = site.encoding.sha256 bytes then pure true
          else bail ("artifact " ++ artifactKey pkg f ++ " still wrong after repair: stored " ++
            site.encoding.sha256 after ++ ", expected " ++ site.encoding.sha256 bytes)

/-! ### The verified source -/

/-- Where a copy reads the bytes it verifies: the source bucket, or the upload
that is still held locally. -/
inductive ArtifactSource where
  | bucket
  | spool (bytes : Bytes)
  deriving DecidableEq, Repr

/-- The staging threshold, which is the multipart threshold of the backends. -/
def stageToDiskAbove : Nat := 64 * 1024 * 1024

/-- The most a read of a body of this attested size may take in. -/
def stageLimit (expected : Nat) : Nat :=
  if expected ≤ stageToDiskAbove then stageToDiskAbove else expected

def stage (src : ι) (pkg f : String) (expected : Nat) : ArtifactSource → StoreM ι Bytes
  | .spool bytes => pure bytes
  | .bucket => do
    match ← get src f .body with
    | none => bail ("read source artifact " ++ artifactKey pkg f)
    | some bytes =>
      if bytes.length ≤ stageLimit expected then pure bytes
      else bail ("source body is longer than the " ++ toString (stageLimit expected) ++
        " bytes its sidecar attests; abandoning the read")

/-- A sidecar that names other bytes than the body holds is dropped, so that the
bucket's own rebuild refabricates it. -/
def dropStaleSidecar (src : ι) (f got : String) : StoreM ι Unit := do
  match ← get src f .sidecar with
  | none => pure ()
  | some current =>
    if current.sha256 = got then pure ()
    else
      delete src f .sidecar
      markDirty src

def verifySourceArtifact (site : Site ι) (src : ι) (pkg f : String) (record : Record)
    (source : ArtifactSource) : StoreM ι Bytes := do
  match record.sidecar with
  | none => bail "copy verdict with no source sidecar"
  | some sc =>
    let bytes ← stage src pkg f sc.size source
    let got := site.encoding.sha256 bytes
    if got = sc.sha256 then pure bytes
    else
      match source with
      | .spool _ => bail ("upload spool hashes to " ++ got ++ " but its sidecar names " ++
          sc.sha256 ++ " for " ++ artifactKey pkg f)
      | .bucket =>
        dropStaleSidecar src f got
        bail ("source artifact sha mismatch for " ++ artifactKey pkg f ++ ": sidecar " ++
          sc.sha256 ++ ", bytes " ++ got ++ "; stale sidecar dropped for rebuild")

structure Companions where
  metadata : Option Bytes
  provenance : Option Bytes
  deriving DecidableEq, Repr

def readListedCompanion (src : ι) (pkg f : String) (c : Companion) (listed : Bool) :
    StoreM ι (Option Bytes) := do
  if listed then
    match ← get src f (.companion c) with
    | none => bail ("read source companion " ++ artifactKey pkg f)
    | some bytes => pure (some bytes)
  else pure none

def readSourceCompanions (src : ι) (pkg f : String) (record : Record) : StoreM ι Companions := do
  let metadata ← readListedCompanion src pkg f .metadata record.hasMetadata
  let provenance ← readListedCompanion src pkg f .provenance record.hasProvenance
  return ⟨metadata, provenance⟩

/-! ### Preserving, freezing and deleting -/

def sha12 (sha : String) : String := String.ofList (sha.toList.take 12)

/-- Preserve a body at a key derived from its bytes. An object already there is
accepted only if it is the same bytes. -/
def quarantineBytes (site : Site ι) (i : ι) (pkg f : String) (bytes : Bytes) :
    StoreM ι String := do
  let sha := site.encoding.sha256 bytes
  let qkey := "_quarantine/" ++ pkg ++ "/" ++ f ++ "@" ++ sha12 sha
  if ← putIfAbsent i f (.quarantine (sha12 sha)) bytes then pure sha
  else
    match ← get i f (.quarantine (sha12 sha)) with
    | none => bail ("verify existing quarantine object " ++ qkey)
    | some existing =>
      if existing = bytes then pure sha else bail ("quarantine key collision at " ++ qkey)

def quarantine (site : Site ι) (i : ι) (pkg f : String) : StoreM ι (Option String) := do
  match ← get i f .body with
  | none => pure none
  | some bytes => return some (← quarantineBytes site i pkg f bytes)

def recordObjectKeys : List Kind :=
  [.body, .sidecar, .companion .metadata, .companion .provenance]

/-- Everything a tombstone or a freeze subsumes. -/
def dropRecordObjects (i : ι) (f : String) : StoreM ι Unit :=
  deleteKeys i f (recordObjectKeys ++ [.fence .mirrorQuarantined, .superseding])

def tombstoneWrite (i : ι) (f : String) : StoreM ι Unit := do
  let _ ← putIfAbsent i f (.fence .tombstone) ()
  pure ()

/-- The freeze marker first, then the evidence, then the permanent fence, then
the drop. -/
def freezeSide (site : Site ι) (i : ι) (pkg f : String) : StoreM ι Bool := do
  let markerCreated ← putIfAbsent i f (.fence .frozen) ()
  let _ ← quarantine site i pkg f
  tombstoneWrite i f
  dropRecordObjects i f
  pure markerCreated

/-- Both buckets of a raced copy, with an intent pair of its own on the source. -/
def freezeCopyRace (site : Site ι) (src dst : ι) (pkg f : String) : StoreM ι Unit := do
  markIntent src
  let freezes : StoreM ι Unit := do
    let _ ← freezeSide site src pkg f
    let _ ← freezeSide site dst pkg f
    markDirty dst
  freezes.attempt fun result => (markCommit src).attempt fun _ => done result

/-- What a crashed delete may have left beside its tombstone. -/
def tombstoneDebris : List Kind :=
  [.sidecar, .companion .metadata, .companion .provenance, .fence .mirrorQuarantined]

def anyExists (i : ι) (f : String) : List Kind → StoreM ι Bool
  | [] => pure false
  | k :: rest => do
    let here ← headExists i f k
    let there ← anyExists i f rest
    pure (here || there)

def tombstoneSide (i : ι) (f : String) : StoreM ι Bool := do
  let already ← headExists i f (.fence .tombstone)
  let hadBody ← headExists i f .body
  if already && !hadBody then
    if ← anyExists i f tombstoneDebris then
      deleteKeys i f tombstoneDebris
      pure true
    else pure false
  else
    tombstoneWrite i f
    dropRecordObjects i f
    pure true

/-! ### Demotions -/

/-- Whether private truth stands under the canonical key now. -/
def demotionResolvedByPrivateTruth (i : ι) (f : String) : StoreM ι Bool := do
  match ← get i f .sidecar with
  | none => pure false
  | some sc => if sc.origin = some Origin.priv.asStr then headExists i f .body else pure false

def isLivePrivate : RecordState → Bool
  | .live _ .priv _ => true
  | _ => false

/-- Drop a demotion fence that private truth has already resolved. -/
def clearSpentDemotionFence (i : ι) (f : String) (record : Record) : StoreM ι Unit := do
  if record.mirrorQuarantined && isLivePrivate (classifyRecord record) then
    if ← demotionResolvedByPrivateTruth i f then deleteKeys i f [.fence .mirrorQuarantined]
    else pure ()
  else pure ()

/-- Whether the settle may drop the body: only one it preserved itself, and not
while a supersede is declared. `none` abandons the settle. -/
def settleableBody (site : Site ι) (i : ι) (f : String) (preserved : Option String) :
    StoreM ι (Option Bool) := do
  match ← get i f .body with
  | none => pure (some false)
  | some standing =>
    if preserved ≠ some (site.encoding.sha256 standing) then pure none
    else if ← headExists i f .superseding then pure none
    else pure (some true)

/-- Move a demoted mirror body aside: claim private, fence, preserve, drop. -/
def settleMirrorQuarantine (site : Site ι) (i : ι) (pkg f : String) : StoreM ι Bool := do
  ensurePrivate i pkg
  if ← demotionResolvedByPrivateTruth i f then pure false
  else
    let markerCreated ← putIfAbsent i f (.fence .mirrorQuarantined) ()
    let preserved ← quarantine site i pkg f
    let sidecarLeft ← headExists i f .sidecar
    match ← settleableBody site i f preserved with
    | none => pure (markerCreated || preserved.isSome)
    | some bodyIsOurs =>
      deleteKeys i f (if bodyIsOurs then recordObjectKeys else recordObjectKeys.tail)
      pure (markerCreated || preserved.isSome || sidecarLeft)

/-! ### Sidecars -/

def parsedOrigin (sc : Sidecar) : Option Origin := sc.origin.bind Origin.parse

def checkOrigin (sc : Sidecar) (key : String) : StoreM ι Unit :=
  if sc.origin.isSome && (parsedOrigin sc).isNone then
    bail ("sidecar at " ++ key ++ " holds an unexpected origin '" ++ sc.origin.getD "" ++ "'")
  else pure ()

/-- Whether an incoming private sidecar takes the place of the current one, given
the body it stands beside. -/
def privateReplaces (site : Site ι) (sc current : Sidecar) (body : Option Bytes) : Bool :=
  if current.sha256 ≠ sc.sha256 then
    body.isNone || body.any (fun bytes => site.encoding.sha256 bytes = sc.sha256) ||
      current.origin = some Origin.mirror.asStr
  else
    sidecarMerge site.encoding sc (some .priv) current (parsedOrigin current) = .a

def installLoop (site : Site ι) (dst : ι) (key f : String) (sc : Sidecar) : Nat → StoreM ι Bool
  | 0 => bail ("conditional sidecar replacement retries exhausted for " ++ key)
  | attempts + 1 => do
    match ← get dst f .sidecar with
    | none =>
      if ← putIfAbsent dst f .sidecar sc then pure true
      else installLoop site dst key f sc attempts
    | some current =>
      if current = sc then pure false
      else
        checkOrigin current key
        let body ← get dst f .body
        if privateReplaces site sc current body then
          if ← putIfMatch dst f .sidecar current sc then pure true
          else installLoop site dst key f sc attempts
        else if current.sha256 ≠ sc.sha256 then
          bail ("destination sidecar at " ++ key ++ " names sha " ++ current.sha256 ++
            " backed by different private bytes; expected " ++ sc.sha256)
        else pure false

/-- Install private truth under CAS. Once the body is the incoming bytes, a
sidecar naming others is stale; against a different live body it is a conflict. -/
def installOrVerifySidecar (site : Site ι) (dst : ι) (pkg f : String) (sc : Sidecar) :
    StoreM ι Bool :=
  let key := artifactKey pkg f ++ ".meta.json"
  if sc.origin ≠ some Origin.priv.asStr then
    bail ("replication source sidecar at " ++ key ++ " is not private truth")
  else installLoop site dst key f sc originAttempts

def bodyYields (site : Site ι) (dst : ι) (f : String) (sc : Sidecar) : StoreM ι Bool := do
  let body ← get dst f .body
  return body.isNone || body.any (fun bytes => site.encoding.sha256 bytes = sc.sha256)

/-- Whether an incoming mirror sidecar takes the place of a current one that is
not private truth. -/
def mirrorReplaces (site : Site ι) (dst : ι) (f : String) (sc current : Sidecar) :
    StoreM ι Bool :=
  if current.sha256 ≠ sc.sha256 then bodyYields site dst f sc
  else pure (sidecarMerge site.encoding sc (some .mirror) current (parsedOrigin current) = .a)

def installMirrorLoop (site : Site ι) (dst : ι) (key f : String) (sc : Sidecar) :
    Nat → StoreM ι Bool
  | 0 => bail ("conditional mirror sidecar replacement retries exhausted for " ++ key)
  | attempts + 1 => do
    match ← get dst f .sidecar with
    | none =>
      if ← putIfAbsent dst f .sidecar sc then pure true
      else installMirrorLoop site dst key f sc attempts
    | some current =>
      if current = sc then pure false
      else
        checkOrigin current key
        if current.origin = some Origin.priv.asStr then pure false
        else if ← mirrorReplaces site dst f sc current then
          if ← putIfMatch dst f .sidecar current sc then pure true
          else installMirrorLoop site dst key f sc attempts
        else if current.sha256 ≠ sc.sha256 then
          bail ("destination mirror sidecar at " ++ key ++ " names sha " ++ current.sha256 ++
            " backed by different bytes; expected " ++ sc.sha256)
        else pure false

def installOrVerifyMirrorSidecar (site : Site ι) (dst : ι) (pkg f : String) (sc : Sidecar) :
    StoreM ι Bool :=
  let key := artifactKey pkg f ++ ".meta.json"
  if sc.origin ≠ some Origin.mirror.asStr then
    bail ("mirror replication source sidecar at " ++ key ++ " is not mirror truth")
  else installMirrorLoop site dst key f sc originAttempts

def sidecarStillNames (dst : ι) (f sha : String) : StoreM ι Bool := do
  return (← get dst f .sidecar).any (·.sha256 = sha)

def sidecarHoldsPrivate (dst : ι) (f : String) : StoreM ι Bool := do
  return (← get dst f .sidecar).any (·.origin = some Origin.priv.asStr)

end Pypiron.Replicate
