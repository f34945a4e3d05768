import Pypiron.Replicate.Transfer
import Pypiron.Secure

/-! Uploads, deletes, rebuilds and the reaper of interrupted deletes over the
objects of one package on one bucket, one storage call at a time. A call of the
storage answers with an error, a refusal is what the client is told. -/
namespace Pypiron.Publish
open Program Replicate

inductive StatusCode where
  | ok
  | noContent
  | forbidden
  | notFound
  | conflict
  | internalServerError
  | serviceUnavailable
  deriving DecidableEq, Repr

structure Refusal where
  status : StatusCode
  detail : String
  deriving DecidableEq, Repr

/-- What an upload or a delete reads of its node's configuration: whether the
fleet has several buckets, and the reserved private names. -/
structure AppState where
  isMulti : Bool
  privateIsEmpty : Bool
  privateMatches : Bool
  privateRules : String
  deriving DecidableEq, Repr

/-- The handler has validated every field: the digest and the size are the body's. -/
structure PublishRequest (encoding : Encoding) where
  body : Bytes
  sha256 : String
  md5 : String
  size : ℕ
  version : String
  requiresPython : Option String
  isMirror : Bool
  uploadTime : String
  yanked : Yanked
  wheelMetadata : Option Bytes
  isWheel : Bool
  provenance : Option Bytes
  hashed : sha256 = encoding.sha256 body
  sized : size = body.length

/-- `HomeWriteCorrupt`, or a probe that failed. -/
inductive ChecksumError where
  | corrupt (detail : String)
  | failed (error : String)
  deriving DecidableEq, Repr

/-- A storage call, or one of what else an upload consults: the provider's own
checksum, the clock, and the fan-out to the other buckets. -/
inductive RecordOp where
  | store (op : StoreOp Unit)
  | storeContentChecksum (f md5 : String)
  | nowEpochMillis
  | fanoutSync (f : String)

@[reducible] def RecordOp.Ans : RecordOp → Type
  | store op => Except String op.Val
  | storeContentChecksum _ _ => Except ChecksumError (Option StoreChecksum)
  | nowEpochMillis => ℕ
  | fanoutSync _ => Except String Unit

abbrev RecordM (α : Type) := Program RecordOp RecordOp.Ans Refusal α

def store (op : StoreOp Unit) : RecordM (Except String op.Val) := perform (RecordOp.store op)

def storeContentChecksum (f md5 : String) :
    RecordM (Except ChecksumError (Option StoreChecksum)) :=
  perform (RecordOp.storeContentChecksum f md5)

def nowEpochMillis : RecordM ℕ := perform RecordOp.nowEpochMillis

def fanoutSync (f : String) : RecordM (Except String Unit) := perform (RecordOp.fanoutSync f)

/-- Run a storage program, and look at what became of it. -/
def ask {α : Type} : StoreM Unit α → RecordM (Except String α)
  | .done result => .done (.ok result)
  | .call op next => .call (.store op) fun answer => ask (next answer)

def refuse {α : Type} (status : StatusCode) (detail : String) : RecordM α := bail ⟨status, detail⟩

/-- `map_err` and `?`. -/
def demand {α : Type} (status : StatusCode) (text : String → String) :
    Except String α → RecordM α
  | .ok value => pure value
  | .error error => refuse status (text error)

def readOriginObservation : RecordM (Except String (Option OriginObservation)) :=
  store (.claim () .readObservation)

def headExists (f : String) (k : Kind) : RecordM (Except String Bool) := do
  return (← store (.get () f k)).map Option.isSome

def mark (mark : Mark) : RecordM (Except String Unit) := store (.mark () mark)

/-! ### Verified writes -/

inductive SizeCheck where
  | ok
  | wrong (error : String)
  | unknown (error : String)
  deriving DecidableEq, Repr

/-- What a HEAD of the just-created body proves. -/
def sizeCheck (key : String) (expected : ℕ) : Except String (Option Bytes) → SizeCheck
  | .ok (some stored) =>
    if stored.length = expected then .ok
    else .wrong ("artifact " ++ key ++ " stored " ++ toString stored.length ++ " bytes, expected " ++
      toString expected ++ " (write landed corrupt)")
  | .ok none => .unknown ("artifact " ++ key ++ " vanished immediately after a create success")
  | .error _ => .unknown ("HEAD " ++ key ++ " to verify the stored artifact")

/-- `store_artifact_verified` for the upload path, where a body already at the
key is the caller's conflict: only debris that the HEAD has condemned is cleared. -/
def storeArtifactVerified (pkg f : String) (body : Bytes) (expected : ℕ) :
    RecordM (Except String Bool) := do
  match ← store (.putIfAbsent () f .body body) with
  | .error error => return .error error
  | .ok false => return .ok false
  | .ok true =>
    match sizeCheck (artifactKey pkg f) expected (← store (.get () f .body)) with
    | .ok => return .ok true
    | .wrong error =>
      let _ ← store (.delete () f .body)
      return .error error
    | .unknown error => return .error error

/-! ### Upload -/

def desiredOrigin (isMirror : Bool) : OriginState := if isMirror then .mirror else .priv

def isFirstClaim (observed : Option OriginObservation) : Bool :=
  observed.all (·.state = .unclaimed)

def ownedBy (pkg : String) (owner desired : OriginState) : String :=
  "Package '" ++ pkg ++ "' is " ++ owner.asStr ++ "-owned; " ++ desired.asStr ++ " uploads are rejected"

/-- Each package belongs to one world. A reserved name is off-limits to mirrors
whatever the claim says, and only a first claim must be a reserved one. -/
def checkWorld (node : AppState) (pkg : String) (isMirror : Bool)
    (observed : Option OriginObservation) : RecordM Unit :=
  let desired := desiredOrigin isMirror
  if isMirror && node.privateMatches then
    refuse .forbidden ("'" ++ pkg ++ "' is a reserved private name; mirrors may not touch it")
  else if isFirstClaim observed then
    if !isMirror && !node.privateIsEmpty && !node.privateMatches then
      refuse .forbidden ("Package '" ++ pkg ++ "' is not a reserved private name (reserved: " ++
        node.privateRules ++ ")")
    else pure ()
  else
    match observed with
    | some ⟨owner, _⟩ =>
      if owner = desired then pure () else refuse .forbidden (ownedBy pkg owner desired)
    | none => pure ()

/-- A claim is fanned out before the artifact lands; a failure is only logged. -/
def announceClaim (node : AppState) (claim : Claim) : RecordM Unit :=
  if claim.etag.isSome && node.isMulti then do
    let _ ← fanoutSync ".origin"
  else pure ()

/-- The first write claims the package; the observation it consumes from then on. -/
def claimFirst (node : AppState) (pkg : String) (isMirror : Bool)
    (observed : Option OriginObservation) : RecordM OriginObservation := do
  let desired := desiredOrigin isMirror
  let request : ClaimRequest := ⟨desired.asStr, observed.filter (·.state = .unclaimed)⟩
  let claim ← demand .internalServerError ("Failed to claim origin: " ++ ·)
    (← ask (StoreM.onClaim () (claimOrigin pkg request)))
  if claim.owner ≠ desired then
    let _ ← mark .commit
    refuse .forbidden (ownedBy pkg claim.owner desired)
  else
    announceClaim node claim
    match claim.etag with
    | some etag => return ⟨desired, etag⟩
    | none =>
      let current ← demand .serviceUnavailable ("storage error re-reading origin claim: " ++ ·)
        (← readOriginObservation)
      match current.filter (·.state = desired) with
      | some held => return held
      | none =>
        let _ ← mark .commit
        refuse .conflict ("Package '" ++ pkg ++ "' changed origin while claiming")

/-- A claimed package's owner has been matched already. -/
def takeFence (node : AppState) (pkg : String) (isMirror : Bool)
    (observed : Option OriginObservation) : RecordM (Option OriginObservation) :=
  if isFirstClaim observed then some <$> claimFirst node pkg isMirror observed else pure observed

/-- The writer consumes the exact observation it began under. -/
def checkWriteFence (pkg : String) (expected : Option OriginObservation) : RecordM Unit :=
  match expected with
  | none => pure ()
  | some expected => do
    let current ← demand .serviceUnavailable ("storage error re-checking origin claim: " ++ ·)
      (← readOriginObservation)
    if current = some expected then pure ()
    else
      let _ ← mark .commit
      refuse .conflict ("Package '" ++ pkg ++ "' changed origin during upload")

def storeBody (pkg f : String) (body : Bytes) (size : ℕ) : RecordM Unit := do
  match ← storeArtifactVerified pkg f body size with
  | .ok true => pure ()
  | .ok false =>
    let _ ← mark .commit
    refuse .conflict ("File already exists: " ++ f)
  | .error error => refuse .serviceUnavailable ("Failed to store file: " ++ error)

/-- Only on a fleet of several buckets. A proven corrupt home write is deleted
and refused; a probe that fails is not held against the upload. -/
def storeChecksum (node : AppState) (f md5 : String) : RecordM (Option StoreChecksum) := do
  if node.isMulti then
    match ← storeContentChecksum f md5 with
    | .ok checksum => return checksum
    | .error (.corrupt _) =>
      let _ ← store (.delete () f .body)
      refuse .serviceUnavailable ("Stored artifact failed content verification: " ++ f)
    | .error (.failed _) => return none
  else return none

def PublishRequest.sidecar {encoding : Encoding} (req : PublishRequest encoding)
    (uploadEpochMs : Option ℕ) (storeChecksum : Option StoreChecksum) : Sidecar where
  sha256 := req.sha256
  size := req.size
  version := req.version
  uploadTime := req.uploadTime
  uploadEpochMs := uploadEpochMs
  requiresPython := req.requiresPython
  yanked := req.yanked
  origin := some (desiredOrigin req.isMirror).asStr
  yankEpoch := 0
  uploadTimeRevision := 0
  snapshot := req.isMirror
  storeChecksum := storeChecksum

/-- A mirror sidecar lands right after its bytes, ahead of every fence. An
occupied slot is left by an interrupted peer, and is converged. -/
def placeMirrorSidecar (site : Site Unit) (pkg f : String) (sc : Sidecar) : RecordM Unit := do
  let created ← demand .serviceUnavailable ("Failed to store mirror sidecar: " ++ ·)
    (← store (.putIfAbsent () f .sidecar sc))
  if created then pure ()
  else
    let _ ← demand .serviceUnavailable ("Failed to converge mirror sidecar: " ++ ·)
      (← ask (installOrVerifyMirrorSidecar site () pkg f sc))

/-- `post_publish_mirror_claim_is_current` and what hangs on it: only a fleet of
several buckets can demote the claim behind this writer. -/
def confirmMirrorClaim (node : AppState) (pkg : String) (fence : Option OriginObservation) :
    RecordM Unit :=
  match fence with
  | none => refuse .internalServerError "mirror upload lost its origin fence"
  | some expected =>
    if node.isMulti then do
      let current ← demand .serviceUnavailable
        ("storage error re-checking mirror claim after publish: " ++ ·) (← readOriginObservation)
      if current = some expected then pure ()
      else
        let _ ← mark .commit
        refuse .conflict ("Package '" ++ pkg ++ "' changed origin during mirror upload")
    else pure ()

def fencedByMarkers (tombstoned frozen : Bool) : Bool :=
  match classifyRecord ⟨none, false, false, false, tombstoned, frozen, false, false, none⟩ with
  | .frozen _ => true
  | .tombstoned _ => true
  | _ => false

/-- The two HEADs that the source joins; either one's error is the error of both. -/
def filenameFenced (f : String) : RecordM (Except String Bool) := do
  match ← headExists f (.fence .tombstone) with
  | .error error => return .error error
  | .ok tombstoned =>
    match ← headExists f (.fence .frozen) with
    | .error error => return .error error
    | .ok frozen => return .ok (fencedByMarkers tombstoned frozen)

/-- With several buckets the loser of a fenced filename stays where it is. -/
def clearFenced (node : AppState) (f : String) : RecordM Unit :=
  if node.isMulti then pure ()
  else do
    let _ ← store (.delete () f .body)

/-- A fence that stands after the create bars the filename. An unanswered HEAD
never frees the key. -/
def checkFilename (node : AppState) (f : String) : RecordM Unit := do
  match ← filenameFenced f with
  | .ok false => pure ()
  | .ok true =>
    clearFenced node f
    let _ ← mark .commit
    refuse .conflict ("File '" ++ f ++ "' is frozen or deleted and cannot be reused")
  | .error error =>
    let _ ← mark .commit
    refuse .serviceUnavailable ("storage error checking filename fence: " ++ error)

/-- PEP 658. A failure only drops the companion. -/
def storeMetadata {encoding : Encoding} (f : String) (req : PublishRequest encoding) :
    RecordM Unit :=
  match req.isWheel, req.wheelMetadata with
  | true, some metadata =>
    if req.isMirror then do
      let _ ← store (.putIfAbsent () f (.companion .metadata) metadata)
    else do
      let _ ← store (.put () f (.companion .metadata) metadata)
  | _, _ => pure ()

/-- PEP 740, which only a mirror relays. -/
def storeProvenance {encoding : Encoding} (f : String) (req : PublishRequest encoding) :
    RecordM Unit :=
  match req.isMirror, req.provenance with
  | true, some provenance => do
    let _ ← store (.putIfAbsent () f (.companion .provenance) provenance)
  | _, _ => pure ()

inductive Mutation where
  | upload
  | delete
  deriving DecidableEq, Repr

def Mutation.noun : Mutation → String
  | upload => "upload"
  | delete => "delete"

def Mutation.retryAdvice : Mutation → String
  | upload => "the bytes are already stored, so re-sending the file will be refused as a " ++
      "duplicate filename"
  | delete => "sending the same request again is safe"

def unrecordedReplicationGap (op : Mutation) (error : String) : String :=
  "The " ++ op.noun ++ " is durable on this bucket, but the fleet could not record that the " ++
    "other buckets still owe it (" ++ error ++ "). Nothing was lost — " ++ op.retryAdvice ++
    ". Check the other buckets' availability."

/-- `(!is_mirror).then(now_epoch_millis)`. -/
def uploadEpoch (isMirror : Bool) : RecordM (Option ℕ) :=
  if isMirror then pure none else some <$> nowEpochMillis

/-- The mirror record is typed ahead of the filename fence. -/
def typeMirror (site : Site Unit) (node : AppState) (pkg f : String) (isMirror : Bool) (sc : Sidecar)
    (fence : Option OriginObservation) : RecordM Unit :=
  if isMirror then do
    placeMirrorSidecar site pkg f sc
    confirmMirrorClaim node pkg fence
  else pure ()

/-- The private sidecar comes last, after the companions. -/
def typePrivate (f : String) (isMirror : Bool) (sc : Sidecar) : RecordM Unit :=
  if isMirror then pure ()
  else do
    demand .internalServerError ("Failed to store sidecar: " ++ ·) (← store (.put () f .sidecar sc))

/-- From the stored body on. -/
def publishStored {encoding : Encoding} (site : Site Unit) (node : AppState) (pkg f : String)
    (req : PublishRequest encoding) (fence : Option OriginObservation) : RecordM StatusCode := do
  let checksum ← storeChecksum node f req.md5
  let epoch ← uploadEpoch req.isMirror
  let sc := req.sidecar epoch checksum
  typeMirror site node pkg f req.isMirror sc fence
  checkFilename node f
  storeMetadata f req
  storeProvenance f req
  typePrivate f req.isMirror sc
  let _ ← mark .commit
  demand .serviceUnavailable (unrecordedReplicationGap .upload) (← fanoutSync f)
  return .ok

/-- `publish_record`. Where the write fence has been taken, it is the claim as
observed at first, or the one this call made. -/
def publishRecord {encoding : Encoding} (site : Site Unit) (node : AppState) (pkg f : String)
    (req : PublishRequest encoding) : RecordM StatusCode := do
  let observed ← demand .serviceUnavailable ("storage error reading origin: " ++ ·)
    (← readOriginObservation)
  checkWorld node pkg req.isMirror observed
  demand .serviceUnavailable ("failed to reserve package write: " ++ ·) (← mark .intent)
  let fence ← takeFence node pkg req.isMirror observed
  checkWriteFence pkg fence
  storeBody pkg f req.body req.size
  publishStored site node pkg f req fence

/-! ### Rebuild -/

/-- What a fabricated sidecar takes from the filename and from the body's stamp. -/
structure Labels where
  inferVersion : String → Option String
  lastModified : ℕ → Option String

section Rebuild
variable (encoding : Encoding) (labels : Labels)

def fabricate (f : String) (sha256 : String) (size stamp : ℕ) (claim : Option Origin) :
    Sidecar where
  sha256 := sha256
  size := size
  version := (labels.inferVersion f).getD ""
  uploadTime := (labels.lastModified stamp).getD ""
  uploadEpochMs := none
  requiresPython := none
  yanked := .flag false
  origin := claim.map Origin.asStr
  yankEpoch := 0
  uploadTimeRevision := 0
  snapshot := false
  storeChecksum := none

/-- The body no longer holds the hashed bytes: drop the fabrication, unless a
real sidecar has replaced it. -/
def retract (f : String) (fabricated : Sidecar) : StoreM Unit Unit := do
  if (← StoreM.get () f .sidecar) = some fabricated then StoreM.delete () f .sidecar
  else pure ()

/-- Hash the bare body and create a sidecar for it, never overwriting one; `none`
leaves the file out of the index. -/
def backfillSidecar (pkg f : String) (size stamp : ℕ) (claim : Option Origin) :
    StoreM Unit (Option Sidecar) := do
  match ← StoreM.get () f .body with
  | none => pure none
  | some body =>
    if body.length ≠ size then
      bail (artifactKey pkg f ++ ": read " ++ toString body.length ++
        " bytes but the listing said " ++ toString size ++ "; retrying the rebuild")
    else
      let sc := fabricate labels f (encoding.sha256 body) size stamp claim
      if ← StoreM.putIfAbsent () f .sidecar sc then
        let standing ← StoreM.get () f .body
        if standing.map encoding.sha256 = some sc.sha256 then pure (some sc)
        else
          retract f sc
          pure none
      else StoreM.get () f .sidecar

/-- Whether an index lists this record: live and not a late mirror. -/
def listed (record : Record) (claim : Option Origin) : Bool :=
  (match classifyRecord record with
    | .live _ _ _ => true
    | .untyped => true
    | _ => false) && !isLateMirror record claim

def Suffix.kind : Suffix → Kind
  | .body => .body
  | .metadata => .companion .metadata
  | .provenance => .companion .provenance
  | .tombstone => .fence .tombstone
  | .frozen => .fence .frozen
  | .mirrorQuarantined => .fence .mirrorQuarantined
  | .superseding => .superseding

/-- An index entry: the sidecar it is rendered from, and the digest of the listed
metadata companion. -/
structure FileMetadata where
  sidecar : Sidecar
  coreMetadataSha256 : Option String
  deriving DecidableEq

def readListed (there : Bool) (f : String) (k : Kind) : StoreM Unit (Option k.Content) :=
  if there then StoreM.get () f k else pure none

/-- The sidecar to index: the one read, or a fabricated one for a bare body. -/
def backfillBare (pkg f : String) (size stamp : ℕ) (claim : Option Origin) (record : Record) :
    StoreM Unit (Option Sidecar) :=
  if classifyRecord record = .bare then backfillSidecar encoding labels pkg f size stamp claim
  else pure record.sidecar

/-- One artifact's index entry from its sidecar, backfilled where it is bare. A
fenced body is never read for nothing, and a sidecar that vanished since the
listing leaves the file out. -/
def loadFileMetadata (pkg f : String) (listing : Listing) (size stamp : ℕ) (claim : Option Origin) :
    StoreM Unit (Option FileMetadata) := do
  let record (sc : Option Sidecar) :=
    Record.fromListing (fun s => listing.has f (Suffix.kind s)) sc claim
  let read := listing.has f .sidecar && !fencedByMarkers (record none).tombstoned (record none).frozen
  let known ← readListed read f .sidecar
  if read && known.isNone then pure none
  else
    match ← backfillBare encoding labels pkg f size stamp claim (record known) with
    | none => pure none
    | some sc =>
      if listed (record (some sc)) claim then
        let metadata ← readListed (listing.has f (.companion .metadata)) f (.companion .metadata)
        return some ⟨sc, metadata.map encoding.sha256⟩
      else pure none

/-- What a rebuild of the package does to one filename: `list_artifacts`, whose
files are loaded independently of each other after one claim read and one listing. -/
def rebuildRecord (pkg f : String) : StoreM Unit (Option FileMetadata) := do
  let observed ← StoreM.onClaim () ClaimM.readOriginObservation
  let claim := observed.bind fun seen => Origin.ofState seen.state
  let listing ← StoreM.list ()
  match listing.entries f .body with
  | none => pure none
  | some (body, stamp) => loadFileMetadata encoding labels pkg f listing body.length stamp claim

end Rebuild

/-! ### Delete -/

/-- `complete_interrupted_deletes`: how many records it dropped. -/
def completeInterruptedDeletes : List String → StoreM Unit ℕ
  | [] => pure 0
  | f :: rest => do
    if ← StoreM.headExists () f (.fence .tombstone) then
      if ← StoreM.headExists () f (.fence .frozen) then completeInterruptedDeletes rest
      else
        StoreM.deleteKeys () f recordObjectKeys
        return (← completeInterruptedDeletes rest) + 1
    else completeInterruptedDeletes rest

/-- With several buckets the claim must be the one the delete began under. -/
def recheckOrigin (node : AppState) (pkg : String) (before : OriginObservation) : RecordM Unit :=
  if node.isMulti then do
    let current ← demand .serviceUnavailable ("storage error re-checking origin: " ++ ·)
      (← readOriginObservation)
    if current = some before then pure ()
    else
      let _ ← mark .commit
      refuse .conflict ("Package '" ++ pkg ++ "' changed origin during delete")
  else pure ()

/-- A private delete is tombstoned before the artifact goes. -/
def tombstonePrivate (f : String) (before : OriginObservation) : RecordM Unit :=
  if before.state = .priv then do
    demand .internalServerError ("tombstone write failed: " ++ ·) (← ask (tombstoneWrite () f))
  else pure ()

/-- The tombstone is fanned out; a mirror eviction stays local. -/
def fanoutDelete (f : String) (before : OriginObservation) : RecordM Unit :=
  if before.state = .priv then do
    demand .serviceUnavailable (unrecordedReplicationGap .delete) (← fanoutSync f)
  else pure ()

/-- The tail of a delete, from the index rewrite on. -/
def deleteClaimed (node : AppState) (pkg f : String) (before : OriginObservation) :
    RecordM StatusCode := do
  recheckOrigin node pkg before
  tombstonePrivate f before
  demand .internalServerError ("artifact delete failed: " ++ ·) (← store (.delete () f .body))
  let _ ← ask (StoreM.deleteKeys () f [.sidecar, .companion .metadata, .companion .provenance])
  let _ ← mark .commit
  fanoutDelete f before
  return .noContent

/-- `delete_record`. -/
def deleteRecord (encoding : Encoding) (labels : Labels) (node : AppState) (pkg f : String) :
    RecordM StatusCode := do
  let present ← demand .serviceUnavailable ("storage error: " ++ ·) (← headExists f .body)
  if !present then refuse .notFound "No such file"
  else
    demand .serviceUnavailable ("failed to reserve delete: " ++ ·) (← mark .intent)
    let observed ← demand .serviceUnavailable ("storage error reading origin: " ++ ·)
      (← readOriginObservation)
    match observed.filter (·.state ≠ .unclaimed) with
    | none =>
      refuse .internalServerError ("artifact '" ++ f ++ "' has no live origin claim; refusing delete")
    | some before =>
      if node.isMulti && before.state = .mirror then
        let _ ← mark .commit
        refuse .conflict "Mirror cache eviction is disabled with multiple buckets"
      else
        let _ ← demand .internalServerError ("index rewrite failed: " ++ ·)
          (← ask (rebuildRecord encoding labels pkg f))
        deleteClaimed node pkg f before

/-! ### The bucket -/

inductive RecordCall (encoding : Encoding) where
  | publish (node : AppState) (f : String) (req : PublishRequest encoding)
  | delete (node : AppState) (f : String)
  | rebuild (f : String)
  | reap (fs : List String)

inductive RecordOutcome where
  | answered (status : StatusCode)
  | rebuilt (result : Except String (Option FileMetadata))
  | reaped (result : Except String ℕ)

def RecordCall.program (site : Site Unit) (labels : Labels) (pkg : String) :
    RecordCall site.encoding → RecordM RecordOutcome
  | publish node f req => RecordOutcome.answered <$> publishRecord site node pkg f req
  | delete node f => RecordOutcome.answered <$> deleteRecord site.encoding labels node pkg f
  | rebuild f => RecordOutcome.rebuilt <$> ask (rebuildRecord site.encoding labels pkg f)
  | reap fs => RecordOutcome.reaped <$> ask (completeInterruptedDeletes fs)

/-- A storage call is served, fails outright, or takes effect and is reported as
failed; the create of a body may land short. The checksum probe reads the body,
and the fan-out concerns other buckets. -/
inductive Performs (site : Site Unit) (md5 : Bytes → String) (s : Fleet Unit) :
    (op : RecordOp) → op.Ans → Fleet Unit → Prop where
  | served (op : StoreOp Unit) : Performs site md5 s (.store op) (apply site op s).1 (apply site op s).2
  | failed (op : StoreOp Unit) (text : String) : Performs site md5 s (.store op) (.error text) s
  | lost (op : StoreOp Unit) (text : String) :
      Performs site md5 s (.store op) (.error text) (apply site op s).2
  | short {f : String} {body landed : Bytes} (answer : Except String Bool) :
      s.read () f .body = none → landed <+: body → answer ≠ .ok false →
      Performs site md5 s (.store (.putIfAbsent () f .body body)) answer
        (s.write () f .body (some landed))
  | checksum (f hex : String) (answer : Except ChecksumError (Option StoreChecksum)) :
      (∀ detail, answer = .error (.corrupt detail) →
        ∃ body, s.read () f .body = some body ∧ md5 body ≠ hex) →
      Performs site md5 s (.storeContentChecksum f hex) answer s
  | clock (now : ℕ) : Performs site md5 s .nowEpochMillis now s
  | fanout (f : String) (answer : Except String Unit) : Performs site md5 s (.fanoutSync f) answer s

/-- Any number of calls over one bucket. A dropped call has crashed: what its
requests did stands. -/
def records (site : Site Unit) (md5 : Bytes → String) (labels : Labels) (pkg : String) :
    ThreadPool.System (Fleet Unit) (RecordCall site.encoding) RecordOp RecordOp.Ans Refusal
      RecordOutcome where
  program := RecordCall.program site labels pkg
  performs _ := Performs site md5
  drifts _ _ := False
  drops _ s s' := s' = s

end Pypiron.Publish
