import Pypiron.Replicate.Copy

/-! The merge of one filename across two buckets: read both records, decide,
apply the verdict. Above it the package pass and the reconcile job. -/
namespace Pypiron.Replicate
open Program StoreM RankedMerge
variable {ι : Type}

/-! ### Reading records -/

def readPkgOrigin (i : ι) : StoreM ι (Option Origin) := do
  return (← onClaim i ClaimM.readOriginObservation).bind fun observed => Origin.ofState observed.state

def Suffix.kind : Suffix → Kind
  | .body => .body
  | .metadata => .companion .metadata
  | .provenance => .companion .provenance
  | .tombstone => .fence .tombstone
  | .frozen => .fence .frozen
  | .mirrorQuarantined => .fence .mirrorQuarantined
  | .superseding => .superseding

def readListedSidecar (i : ι) (pkg f : String) (listed : Bool) : StoreM ι (Option Sidecar) := do
  if listed then
    match ← get i f .sidecar with
    | none => bail ("parse sidecar for " ++ artifactKey pkg f)
    | some sc =>
      if sc.origin.isSome && (parsedOrigin sc).isNone then
        bail ("sidecar for " ++ pkg ++ "/" ++ f ++ " holds an unexpected origin '" ++
          sc.origin.getD "" ++ "'")
      else pure (some sc)
  else pure none

/-- A record from a listing already in hand; the sidecar is read only when listed. -/
def recordFromNames (i : ι) (pkg f : String) (names : Listing) (pkgOrigin : Option Origin) :
    StoreM ι Record := do
  let sidecar ← readListedSidecar i pkg f (names.has f .sidecar)
  return Record.fromListing (fun suffix => names.has f (Suffix.kind suffix)) sidecar pkgOrigin

def readRecord (i : ι) (pkg f : String) : StoreM ι Record := do
  let names ← list i
  let pkgOrigin ← readPkgOrigin i
  recordFromNames i pkg f names pkgOrigin

/-! ### Same bytes -/

/-- Copy an object that the listings prove missing. -/
def copyMissingObject (site : Site ι) (src dst : ι) (pkg f : String) (c : Companion)
    (sourceHas destinationHas : Bool) : StoreM ι Bool := do
  if !sourceHas || destinationHas then pure false
  else
    match ← get src f (.companion c) with
    | none => bail ("read source companion " ++ artifactKey pkg f)
    | some bytes => putIfAbsentOrVerify site dst pkg f c bytes

def copyMissingCompanions (site : Site ι) (src dst : ι) (pkg f : String)
    (srcRecord dstRecord : Record) : StoreM ι Bool := do
  let metadata ← copyMissingObject site src dst pkg f .metadata srcRecord.hasMetadata
    dstRecord.hasMetadata
  let provenance ← copyMissingObject site src dst pkg f .provenance srcRecord.hasProvenance
    dstRecord.hasProvenance
  pure (metadata || provenance)

/-- Companions flow both ways between two records of one origin, and only from
the private side otherwise. -/
def repairSameShaCompanions (site : Site ι) (a b : ι) (pkg f : String) (ra rb : Record) :
    StoreM ι (Bool × Bool) := do
  match classifyRecord ra, classifyRecord rb with
  | .live shaA originA _, .live shaB originB _ =>
    if shaA = shaB then
      match originA, originB with
      | .priv, .mirror => return (false, ← copyMissingCompanions site a b pkg f ra rb)
      | .mirror, .priv => return (← copyMissingCompanions site b a pkg f rb ra, false)
      | _, _ =>
        let dirtyB ← copyMissingCompanions site a b pkg f ra rb
        let dirtyA ← copyMissingCompanions site b a pkg f rb ra
        pure (dirtyA, dirtyB)
    else pure (false, false)
  | _, _ => pure (false, false)

def sidecarOrigin (key : String) (sc : Sidecar) (fallback : Option Origin) : StoreM ι Origin :=
  match sc.origin with
  | some raw =>
    match Origin.parse raw with
    | some origin => pure origin
    | none => bail ("sidecar " ++ key ++ " holds an unexpected origin '" ++ raw ++ "'")
  | none =>
    match fallback with
    | some origin => pure origin
    | none => bail ("sidecar " ++ key ++ " has no typed origin")

/-- Re-read both sidecars and let the complete precedence order pick one; a lost
CAS reads again. -/
def adoptLoop (site : Site ι) (a b : ι) (pkg f key : String) : Nat → StoreM ι (Bool × Bool)
  | 0 => bail ("sidecar changed repeatedly while reconciling " ++ pkg ++ "/" ++ f)
  | attempts + 1 => do
    let left ← get a f .sidecar
    let right ← get b f .sidecar
    let leftClaim ← readPkgOrigin a
    let rightClaim ← readPkgOrigin b
    match left, right with
    | some left, some right =>
      if left.sha256 ≠ right.sha256 then
        bail ("artifact conflict appeared while reconciling " ++ pkg ++ "/" ++ f)
      else
        let leftOrigin ← sidecarOrigin key left leftClaim
        let rightOrigin ← sidecarOrigin key right rightClaim
        match sidecarMerge site.encoding left (some leftOrigin) right (some rightOrigin) with
        | .equal => pure (false, false)
        | .a =>
          if ← putIfMatch b f .sidecar right left then pure (false, true)
          else adoptLoop site a b pkg f key attempts
        | .b =>
          if ← putIfMatch a f .sidecar left right then pure (true, false)
          else adoptLoop site a b pkg f key attempts
    | _, _ => bail ("sidecar changed while reconciling " ++ pkg ++ "/" ++ f)

def adoptSidecarCas (site : Site ι) (a b : ι) (pkg f : String) : StoreM ι (Bool × Bool) :=
  adoptLoop site a b pkg f (artifactKey pkg f ++ ".meta.json") originAttempts

/-! ### The executor -/

inductive Convergence where
  | converged
  | deferred
  deriving DecidableEq, Repr

def markDirtyIf (changed : Bool) (i : ι) : StoreM ι Unit := if changed then markDirty i else pure ()

/-- The sides a verdict can mutate, `a` first. -/
def brackets : Verdict → Bool × Bool
  | .noop | .defer => (false, false)
  | .copy .a | .supersede .a | .quarantineLoser .a | .propagateFreeze .a => (false, true)
  | .copy .b | .supersede .b | .quarantineLoser .b | .propagateFreeze .b => (true, false)
  | _ => (true, true)

/-- The source, the destination and the source's record of a one-sided verdict. -/
def pick (a b : ι) (ra rb : Record) : Side → ι × ι × Record
  | .a => (a, b, ra)
  | .b => (b, a, rb)

def applyVerdict (site : Site ι) (a b : ι) (pkg f : String) (ra rb : Record)
    (source : ArtifactSource) : Verdict → StoreM ι Unit
  | .noop => do
    let (dirtyA, dirtyB) ← repairSameShaCompanions site a b pkg f ra rb
    markDirtyIf dirtyA a
    markDirtyIf dirtyB b
  | .defer => pure ()
  | .copy side => do
    let (src, dst, record) := pick a b ra rb side
    let changed ← copyLive site src dst pkg f record source
    markDirtyIf changed dst
  | .adoptSidecar _ => do
    let (adoptedA, adoptedB) ← adoptSidecarCas site a b pkg f
    let (dirtyA, dirtyB) ← repairSameShaCompanions site a b pkg f ra rb
    markDirtyIf (adoptedA || dirtyA) a
    markDirtyIf (adoptedB || dirtyB) b
  | .supersede side | .quarantineLoser side =>
    let (src, dst, record) := pick a b ra rb side
    supersedeRecord site src dst pkg f record source
  | .freeze | .finishFreeze => do
    let _ ← freezeSide site a pkg f
    let _ ← freezeSide site b pkg f
    markDirty a
    markDirty b
  | .propagateFreeze side => do
    let target := match side with
      | .a => b
      | .b => a
    let _ ← freezeSide site target pkg f
    markDirty target
  | .settleMirrorQuarantine => do
    let changedA ← settleMirrorQuarantine site a pkg f
    markDirtyIf changedA a
    let changedB ← settleMirrorQuarantine site b pkg f
    markDirtyIf changedB b
  | .tombstone => do
    let changedA ← tombstoneSide a f
    markDirtyIf changedA a
    let changedB ← tombstoneSide b f
    markDirtyIf changedB b

def verdictBody (site : Site ι) (a b : ι) (pkg f : String) (ra rb : Record) (verdict : Verdict)
    (source : ArtifactSource) : StoreM ι Convergence := do
  clearSpentDemotionFence a f ra
  clearSpentDemotionFence b f rb
  applyVerdict site a b pkg f ra rb source verdict
  pure (if verdict = .defer then .deferred else .converged)

def markIntentIf (bracket : Bool) (i : ι) : StoreM ι Unit := if bracket then markIntent i else pure ()

/-- Pair an intent, whatever came of the mutation; a lost commit heals later. -/
def pairIntent (bracket : Bool) (i : ι) {α : Type} (result : StoreM ι α) : StoreM ι α :=
  if bracket then (markCommit i).attempt fun _ => result else result

/-- Apply the merge decision for one filename, inside an intent and commit pair
on every side it can mutate. -/
def execute (site : Site ι) (a b : ι) (pkg f : String) (ra rb : Record) (verdict : Verdict)
    (source : ArtifactSource) : StoreM ι Convergence := do
  requireReplicationUnfenced site
  let (bracketA, bracketB) := brackets verdict
  markIntentIf bracketA a
  (markIntentIf bracketB b).attempt fun
    | .error error => pairIntent bracketA a (bail error)
    | .ok () => (verdictBody site a b pkg f ra rb verdict source).attempt fun result =>
        pairIntent bracketA a (pairIntent bracketB b (done result))

/-! ### The package pass -/

def quarantineListed (site : Site ι) (i : ι) (pkg : String) : List String → StoreM ι Nat
  | [] => pure 0
  | f :: rest => do
    let settled ← quarantineOne f
    let others ← quarantineListed site i pkg rest
    pure (settled + others)
where
  quarantineOne (f : String) : StoreM ι Nat := do
    match ← get i f .sidecar with
    | none => pure 0
    | some sc =>
      if sc.origin = some Origin.mirror.asStr then
        if ← settleMirrorQuarantine site i pkg f then pure 1 else pure 0
      else if sc.origin = some Origin.priv.asStr ∨ sc.origin = none then pure 0
      else bail ("sidecar for " ++ pkg ++ "/" ++ f ++ " holds an unexpected origin '" ++
        sc.origin.getD "" ++ "'")

/-- Settle every live mirror record that stands under a private claim. -/
def quarantineMirrorArtifacts (site : Site ι) (i : ι) (pkg : String) : StoreM ι Nat := do
  match ← onClaim i ClaimM.readOriginObservation with
  | none => pure 0
  | some observed =>
    if observed.state = .priv then
      let names ← list i
      quarantineListed site i pkg (names.names.filter (names.has · .body))
    else pure 0

/-- Reserve a lone mirror claim on the peer that has none. -/
def reserveMirror (i : ι) (pkg : String) (other mine : Option Origin) : StoreM ι (Option Origin) := do
  if other = some .mirror ∧ mine = none then return some (← ensureMirror i pkg) else pure mine

/-- Raise one side to a private claim; a demoted side's mirror bodies are settled.
`true` when the side was scanned. -/
def raiseToPrivate (site : Site ι) (i : ι) (pkg : String) (origin : Option Origin) :
    StoreM ι Bool := do
  if origin = some .priv then pure false
  else
    ensurePrivate i pkg
    if origin = some .mirror then
      let quarantined ← quarantineMirrorArtifacts site i pkg
      markDirtyIf (quarantined > 0) i
      pure true
    else pure false

structure SplitOriginReconciled where
  aOrigin : Option Origin
  bOrigin : Option Origin
  scannedA : Bool
  scannedB : Bool
  deriving DecidableEq, Repr

/-- Both claims join upward before a package is diffed. -/
def reconcileSplitOrigin (site : Site ι) (a b : ι) (pkg : String) (aOrigin bOrigin : Option Origin) :
    StoreM ι SplitOriginReconciled := do
  let bOrigin' ← reserveMirror b pkg aOrigin bOrigin
  let aOrigin' ← reserveMirror a pkg bOrigin aOrigin
  if claimJoin aOrigin' bOrigin' = some .priv then
    let scannedA ← raiseToPrivate site a pkg aOrigin'
    let scannedB ← raiseToPrivate site b pkg bOrigin'
    pure ⟨some .priv, some .priv, scannedA, scannedB⟩
  else pure ⟨aOrigin', bOrigin', false, false⟩

/-- One converge pass of a filename: reconcile the claims, read both records,
decide, execute. -/
def convergePass (site : Site ι) (a b : ι) (pkg f : String) (source : ArtifactSource) :
    StoreM ι Convergence := do
  let aOrigin ← readPkgOrigin a
  let bOrigin ← readPkgOrigin b
  let _ ← reconcileSplitOrigin site a b pkg aOrigin bOrigin
  let ra ← readRecord a pkg f
  let rb ← readRecord b pkg f
  execute site a b pkg f ra rb (decide site.encoding ra rb) source

end Pypiron.Replicate
