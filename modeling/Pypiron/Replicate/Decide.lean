import Pypiron.Origin
import Pypiron.RankedMerge
import Pypiron.Sidecar

/-! Merge algebra: what one bucket's objects under a filename mean, and the
two-sided verdict over two such readings. Nothing here performs I/O. -/
namespace Pypiron
open RankedMerge

/-- The two functions from outside the repository that the merge consults:
SHA-256 in lowercase hex, and `serde_json::to_vec` of a sidecar. -/
structure Encoding where
  sha256 : Bytes → String
  toVec : Sidecar → Bytes

/-- One bucket's view of a single filename: which of its objects exist, and the
sidecar that carries its digest, origin and yank state. -/
structure Record where
  sidecar : Option Sidecar
  hasArtifact : Bool
  hasMetadata : Bool
  hasProvenance : Bool
  tombstoned : Bool
  frozen : Bool
  mirrorQuarantined : Bool
  superseding : Bool
  pkgOrigin : Option Origin
  deriving DecidableEq, Repr

inductive RecordState where
  | frozen (settled : Bool)
  | tombstoned (settled : Bool)
  | quarantinedMirror (settled : Bool)
  | live (sha : String) (origin : Origin) (superseding : Bool)
  | bare
  | untyped
  | absent (debris : Bool)
  deriving DecidableEq, Repr

/-- The companion objects a filename may own besides its body. -/
inductive Suffix where
  | body
  | metadata
  | provenance
  | tombstone
  | frozen
  | mirrorQuarantined
  | superseding
  deriving DecidableEq, Repr

namespace Record

/-- The claim is kept only as the fallback origin of a body whose sidecar
carries none; anywhere else it would type a tombstone. -/
def fromListing (has : Suffix → Bool) (sidecar : Option Sidecar) (claim : Option Origin) :
    Record where
  sidecar := sidecar
  hasArtifact := has .body
  hasMetadata := has .metadata
  hasProvenance := has .provenance
  tombstoned := has .tombstone
  frozen := has .frozen
  mirrorQuarantined := has .mirrorQuarantined
  superseding := has .superseding
  pkgOrigin := if has .body && (sidecar.bind (·.origin)).isNone then claim else none

def origin (r : Record) : Option Origin :=
  ((r.sidecar.bind (·.origin)).bind Origin.parse).or r.pkgOrigin

def leftovers (r : Record) : Bool :=
  r.hasArtifact || r.sidecar.isSome || r.hasMetadata || r.hasProvenance

end Record

/-- Precedence: freeze, tombstone, demotion fence, body. A demotion fence yields
only to a private sidecar. -/
def classifyRecord (r : Record) : RecordState :=
  if r.frozen then .frozen (r.tombstoned && !r.leftovers && !r.mirrorQuarantined)
  else if r.tombstoned then .tombstoned (!r.leftovers && !r.mirrorQuarantined)
  else if r.mirrorQuarantined && r.sidecar.bind (·.origin) != some Origin.priv.asStr then
    .quarantinedMirror !r.leftovers
  else if !r.hasArtifact then .absent r.leftovers
  else
    match r.sidecar, r.origin with
    | none, _ => .bare
    | some _, none => .untyped
    | some sc, some origin => .live sc.sha256 origin r.superseding

/-- A mirror record standing under a private package claim: a demotion loser,
never truth to replicate. -/
def isLateMirror (record : Record) (pkgOrigin : Option Origin) : Bool :=
  pkgOrigin == some .priv &&
    match classifyRecord record with
    | .live _ .mirror _ => true
    | _ => false

inductive Side where
  | a
  | b
  deriving DecidableEq, Repr

def Side.other : Side → Side
  | a => b
  | b => a

inductive Verdict where
  | noop
  | defer
  | copy (source : Side)
  | adoptSidecar (winner : Side)
  | supersede (winner : Side)
  | quarantineLoser (winner : Side)
  | freeze
  | tombstone
  | propagateFreeze (holder : Side)
  | finishFreeze
  | settleMirrorQuarantine
  deriving DecidableEq, Repr

def conflictSkewMs : Nat := 2000

def absDiff (m n : Nat) : Nat := max m n - min m n

/-- Different private bytes go to the older receive time, unless the two are too
close to order or one is missing. -/
def conflictWinner (a b : Record) : Option Side := do
  let ta ← (← a.sidecar).uploadEpochMs
  let tb ← (← b.sidecar).uploadEpochMs
  if absDiff ta tb ≤ conflictSkewMs then none
  else some (if ta < tb then .a else .b)

/-- The rank of a sidecar before its digest: origin, yank epoch, yanked over not,
upload-time revision. An untyped sidecar ranks as mirror. -/
def sidecarKey (sc : Sidecar) (origin : Option Origin) : Nat ×ₗ Nat ×ₗ Bool ×ₗ Nat :=
  toLex ((origin.getD .mirror).rank,
    toLex (sc.yankEpoch, toLex (isYanked sc, sc.uploadTimeRevision)))

section Verdicts
variable (encoding : Encoding)

def sidecarMerge (a : Sidecar) (oa : Option Origin) (b : Sidecar) (ob : Option Origin) :
    MergeChoice :=
  rankedMerge encoding.sha256 (sidecarKey a oa) (encoding.toVec a) (sidecarKey b ob)
    (encoding.toVec b)

/-- Both sides hold the same bytes: the merge winner's sidecar is adopted whole. -/
def sameBytes (a b : Record) (oa ob : Origin) : Verdict :=
  match a.sidecar, b.sidecar with
  | some sca, some scb =>
    match sidecarMerge encoding sca (some oa) scb (some ob) with
    | .a => .adoptSidecar .a
    | .b => .adoptSidecar .b
    | .equal => .noop
  | _, _ => .noop

/-- The core merge decision. It reads bucket state only through
`classifyRecord`, and its arms are tried in this order. -/
def decide (a b : Record) : Verdict :=
  match classifyRecord a, classifyRecord b with
  | .frozen true, .frozen true => .noop
  | .frozen _, .frozen _ => .finishFreeze
  | .frozen true, _ => .propagateFreeze .a
  | _, .frozen true => .propagateFreeze .b
  | .frozen _, _ => .finishFreeze
  | _, .frozen _ => .finishFreeze
  | .tombstoned true, .tombstoned true => .noop
  | .tombstoned _, _ => .tombstone
  | _, .tombstoned _ => .tombstone
  | .bare, _ => .defer
  | .untyped, _ => .defer
  | _, .bare => .defer
  | _, .untyped => .defer
  | .absent _, .absent _ => .noop
  | .live _ _ _, .absent _ => .copy .a
  | .absent _, .live _ _ _ => .copy .b
  | .live _ .priv _, .quarantinedMirror _ => .supersede .a
  | .quarantinedMirror _, .live _ .priv _ => .supersede .b
  | .quarantinedMirror true, .quarantinedMirror true => .noop
  | .quarantinedMirror _, _ => .settleMirrorQuarantine
  | _, .quarantinedMirror _ => .settleMirrorQuarantine
  | .live sa oa _, .live sb ob _ =>
    if sa = sb then sameBytes encoding a b oa ob
    else
      match oa, ob with
      | .priv, .priv =>
        match conflictWinner a b with
        | some winner => .quarantineLoser winner
        | none => .freeze
      | .priv, .mirror => .supersede .a
      | .mirror, .priv => .supersede .b
      | .mirror, .mirror => .freeze

end Verdicts
end Pypiron
