import Pypiron.Replicate.Transfer

/-! Publishing one verified record on a destination: the copy into an empty key,
by stream or by the provider's own copy verb, and the replacement of a losing
record. -/
namespace Pypiron.Replicate
open Program StoreM
variable {ι : Type}

/-- How the destination's artifact key ended up. -/
inductive ArtifactLeg where
  | landed (changed : Bool)
  | frozen
  deriving DecidableEq, Repr

/-- Repair a body that the destination's own sidecar contradicts. The losing
bytes are preserved first, and the replacement is conditional on them. -/
def repairDebris (site : Site ι) (dst : ι) (pkg f : String) (sc : Sidecar) (bytes : Bytes) :
    StoreM ι Bool := do
  match ← get dst f .body with
  | none => pure false
  | some current =>
    if site.encoding.sha256 current = sc.sha256 then pure false
    else if ← sidecarStillNames dst f sc.sha256 then
      let _ ← quarantineBytes site dst pkg f current
      if ← putIfMatch dst f .body current bytes then
        verifyStoredSize dst pkg f bytes.length
        pure true
      else pure false
    else pure false

/-- `!sidecarPublished && sidecar_still_names(..)`. -/
def describedByOwnSidecar (dst : ι) (f racedSha : String) (sidecarPublished : Bool) :
    StoreM ι Bool :=
  if sidecarPublished then pure false else sidecarStillNames dst f racedSha

/-- Land the verified bytes under a conditional create. A competing body that the
destination's own sidecar names is the merge's to order; any other is frozen. -/
def artifactLeg (site : Site ι) (src dst : ι) (pkg f : String) (sc : Sidecar) (bytes : Bytes)
    (sidecarPublished : Bool) : StoreM ι ArtifactLeg := do
  let changed ← repairDebris site dst pkg f sc bytes
  if ← createArtifactVerified dst pkg f bytes then pure (.landed true)
  else
    match ← get dst f .body with
    | none => bail ("verify raced destination artifact " ++ artifactKey pkg f)
    | some raced =>
      let racedSha := site.encoding.sha256 raced
      if racedSha = sc.sha256 then pure (.landed changed)
      else if ← describedByOwnSidecar dst f racedSha sidecarPublished then
        bail ("destination artifact at " ++ artifactKey pkg f ++
          " holds different private bytes named by its own sidecar (" ++ racedSha ++
          "); expected " ++ sc.sha256)
      else
        freezeCopyRace site src dst pkg f
        pure .frozen

def putCompanions (site : Site ι) (dst : ι) (pkg f : String) (companions : Companions)
    (changed : Bool) : StoreM ι Bool := do
  let withMetadata ← putListed .metadata companions.metadata changed
  putListed .provenance companions.provenance withMetadata
where
  putListed (c : Companion) (bytes : Option Bytes) (changed : Bool) : StoreM ι Bool := do
    match bytes with
    | none => pure changed
    | some bytes => return changed || (← putIfAbsentOrVerify site dst pkg f c bytes)

def installFor (site : Site ι) (dst : ι) (pkg f : String) (sc : Sidecar) (isMirror : Bool) :
    StoreM ι Bool :=
  if isMirror then installOrVerifyMirrorSidecar site dst pkg f sc
  else installOrVerifySidecar site dst pkg f sc

/-- Publish the truth of a record whose bytes are down, if they still are. -/
def copyTruth (site : Site ι) (dst : ι) (pkg f : String) (sc : Sidecar) (companions : Companions)
    (changed isMirror : Bool) (landed : Nat) : StoreM ι Bool := do
  match ← get dst f .body with
  | none => bail ("destination artifact at " ++ artifactKey pkg f ++
      " was removed before its sidecar was published")
  | some stored =>
    if stored.length ≠ landed then
      bail ("destination artifact at " ++ artifactKey pkg f ++ " holds " ++
        toString stored.length ++ " bytes, not the " ++ toString landed ++ " this copy landed")
    else
      let installed ← installFor site dst pkg f sc isMirror
      putCompanions site dst pkg f companions (changed || installed)

def checksumMismatch (expected actual : Option StoreChecksum) : Bool :=
  match expected, actual with
  | some e, some a => e.algo = a.algo && e.value.toList.map Char.toLower ≠ a.value.toList.map Char.toLower
  | _, _ => false

/-- `true` when the provider landed the body; `false` when it declined. -/
def serverSideCopyArtifact (src dst : ι) (pkg f : String) (sc : Sidecar) : StoreM ι Bool := do
  match ← serverSideCopy src dst f sc.size with
  | .notCopyable => pure false
  | .copied checksum =>
    verifyStoredSize dst pkg f sc.size
    if checksumMismatch sc.storeChecksum checksum then
      bail ("server-side copy of " ++ artifactKey pkg f ++
        " landed a body whose content checksum contradicts the source sidecar")
    else pure true

/-- Reserve the name before its bytes land. A mirror record yields to a private
claim. -/
def claimForCopy (site : Site ι) (src dst : ι) (pkg f : String) (isMirror : Bool) :
    StoreM ι Unit := do
  if isMirror then
    if (← ensureMirror dst pkg) = .priv then
      bail ("destination bucket " ++ site.bucketName dst ++ " claims '" ++ pkg ++
        "' private; refusing to replicate mirror record " ++ f ++ " from " ++ site.bucketName src)
    else pure ()
  else ensurePrivate dst pkg

/-- Bytes first: the immutable create is the stronger gate. -/
def copyByStream (site : Site ι) (src dst : ι) (pkg f : String) (sc : Sidecar)
    (companions : Companions) (bytes : Bytes) (isMirror : Bool) : StoreM ι Bool := do
  requireReplicationUnfenced site
  claimForCopy site src dst pkg f isMirror
  match ← artifactLeg site src dst pkg f sc bytes false with
  | .frozen => pure false
  | .landed changed => copyTruth site dst pkg f sc companions changed isMirror bytes.length

/-- A mirror install that wrote nothing may have yielded to private truth. -/
def installGate (site : Site ι) (src dst : ι) (pkg f : String) (sc : Sidecar) (isMirror : Bool) :
    StoreM ι Bool := do
  let installed ← installFor site dst pkg f sc isMirror
  if isMirror && !installed then
    if ← sidecarHoldsPrivate dst f then
      bail ("destination bucket " ++ site.bucketName dst ++ " holds private truth for " ++ pkg ++
        "/" ++ f ++ "; refusing to copy the mirror record from " ++ site.bucketName src)
    else pure installed
  else pure installed

/-- Sidecar first: the copy verb has no create-if-absent, so a pre-check is the
only gate it can have. A declined or failed copy streams instead. -/
def copyByProvider (site : Site ι) (src dst : ι) (pkg f : String) (sc : Sidecar) (record : Record)
    (companions : Companions) (source : ArtifactSource) (isMirror : Bool) : StoreM ι Bool := do
  requireReplicationUnfenced site
  claimForCopy site src dst pkg f isMirror
  let installed ← installGate site src dst pkg f sc isMirror
  let changed ← putCompanions site dst pkg f companions installed
  let streamed : StoreM ι Bool := do
    let bytes ← verifySourceArtifact site src pkg f record source
    match ← artifactLeg site src dst pkg f sc bytes true with
    | .frozen => pure false
    | .landed landed => pure (changed || landed)
  (serverSideCopyArtifact src dst pkg f sc).attempt fun
    | .ok true => pure true
    | _ => streamed

def copyLive (site : Site ι) (src dst : ι) (pkg f : String) (record : Record)
    (source : ArtifactSource) : StoreM ι Bool := do
  match record.sidecar with
  | none => bail "copy verdict with no source sidecar"
  | some sc =>
    let companions ← readSourceCompanions src pkg f record
    let isMirror := record.origin = some .mirror
    if site.allows dst src then
      copyByProvider site src dst pkg f sc record companions source isMirror
    else
      let bytes ← verifySourceArtifact site src pkg f record source
      copyByStream site src dst pkg f sc companions bytes isMirror

/-- Converge a companion of a superseded record: without a source companion, the
loser's is dropped. -/
def replaceCompanion (site : Site ι) (i : ι) (pkg f : String) (c : Companion) (replace : Bool) :
    Option Bytes → StoreM ι Bool
  | none => do
    if replace then
      if ← headExists i f (.companion c) then
        deleteKeys i f [.companion c]
        pure true
      else pure false
    else pure false
  | some bytes =>
    if replace then replaceLoop i pkg f c bytes originAttempts
    else putIfAbsentOrVerify site i pkg f c bytes
where
  replaceLoop (i : ι) (pkg f : String) (c : Companion) (bytes : Bytes) : Nat → StoreM ι Bool
  | 0 => bail ("conditional companion replacement retries exhausted for " ++ artifactKey pkg f)
  | attempts + 1 => do
    match ← get i f (.companion c) with
    | none =>
      if ← putIfAbsent i f (.companion c) bytes then pure true
      else replaceLoop i pkg f c bytes attempts
    | some current =>
      if current = bytes then pure false
      else if ← putIfMatch i f (.companion c) current bytes then pure true
      else replaceLoop i pkg f c bytes attempts

/-- Whether the destination's companions belong to the record being replaced. -/
def replacesCompanions (dst : ι) (pkg f : String) (sc : Sidecar) : StoreM ι Bool := do
  match ← get dst f .sidecar with
  | none => pure false
  | some current =>
    match current.origin with
    | none => pure true
    | some raw =>
      if raw = Origin.priv.asStr then pure (current.sha256 ≠ sc.sha256)
      else if raw = Origin.mirror.asStr then pure true
      else bail ("destination sidecar for " ++ artifactKey pkg f ++ " has invalid origin '" ++
        raw ++ "'")

/-- Replace a body that is not the winner's, after preserving it. `true` when the
artifact key holds the winner's bytes. -/
def supersedeBody (site : Site ι) (dst : ι) (pkg f : String) (sc : Sidecar) (bytes : Bytes) :
    StoreM ι Bool := do
  match ← get dst f .body with
  | none => pure false
  | some current =>
    if site.encoding.sha256 current = sc.sha256 then pure true
    else
      let _ ← quarantineBytes site dst pkg f current
      if ← putIfMatch dst f .body current bytes then
        verifyStoredSize dst pkg f bytes.length
        pure true
      else bail ("destination artifact changed during supersede for " ++ artifactKey pkg f)

/-- Fill an empty artifact key. A racing body with other bytes freezes the
filename, and `false` ends the supersede there. -/
def supersedeCreate (site : Site ι) (src dst : ι) (pkg f : String) (sc : Sidecar) (bytes : Bytes) :
    StoreM ι Bool := do
  if ← createArtifactVerified dst pkg f bytes then pure true
  else
    match ← get dst f .body with
    | none => bail ("verify raced destination artifact " ++ artifactKey pkg f)
    | some raced =>
      if site.encoding.sha256 raced = sc.sha256 then pure true
      else
        freezeCopyRace site src dst pkg f
        deleteKeys dst f [.superseding]
        pure false

def supersedeArtifact (site : Site ι) (src dst : ι) (pkg f : String) (sc : Sidecar)
    (bytes : Bytes) : StoreM ι Bool := do
  if ← supersedeBody site dst pkg f sc bytes then pure true
  else supersedeCreate site src dst pkg f sc bytes

/-- A delete or a freeze that raced the publish keeps its precedence; otherwise
the demotion this record resolves is over. -/
def reassertPrecedence (site : Site ι) (dst : ι) (pkg f : String) (bytes : Bytes) :
    StoreM ι Unit := do
  if ← headExists dst f (.fence .frozen) then
    let _ ← quarantineBytes site dst pkg f bytes
    let _ ← freezeSide site dst pkg f
    pure ()
  else if ← headExists dst f (.fence .tombstone) then
    let _ ← tombstoneSide dst f
    pure ()
  else deleteKeys dst f [.fence .mirrorQuarantined]

/-- From the declared intent to the published record. -/
def publishSuperseding (site : Site ι) (src dst : ι) (pkg f : String) (sc : Sidecar)
    (companions : Companions) (bytes : Bytes) (replace : Bool) : StoreM ι Unit := do
  put dst f .superseding sc
  if ← supersedeArtifact site src dst pkg f sc bytes then
    let _ ← installOrVerifySidecar site dst pkg f sc
    deleteKeys dst f [.superseding]
    let _ ← replaceCompanion site dst pkg f .metadata replace companions.metadata
    let _ ← replaceCompanion site dst pkg f .provenance replace companions.provenance
    reassertPrecedence site dst pkg f bytes
    markDirty dst
  else pure ()

/-- Replace the destination's record with verified private truth. The losing body
is preserved before its conditional replacement. -/
def supersedeRecord (site : Site ι) (src dst : ι) (pkg f : String) (record : Record)
    (source : ArtifactSource) : StoreM ι Unit := do
  requireReplicationUnfenced site
  match record.sidecar with
  | none => bail "supersede verdict with no source sidecar"
  | some sc =>
    if sc.origin ≠ some Origin.priv.asStr then
      bail ("supersede source for " ++ pkg ++ "/" ++ f ++ " is not private truth")
    else
      let bytes ← verifySourceArtifact site src pkg f record source
      let companions ← readSourceCompanions src pkg f record
      ensurePrivate dst pkg
      if ← headExists dst f (.fence .frozen) then
        let _ ← quarantineBytes site dst pkg f bytes
        let _ ← freezeSide site dst pkg f
        markDirty dst
      else if ← headExists dst f (.fence .tombstone) then
        if ← tombstoneSide dst f then markDirty dst else pure ()
      else
        let replace ← replacesCompanions dst pkg f sc
        publishSuperseding site src dst pkg f sc companions bytes replace

end Pypiron.Replicate
