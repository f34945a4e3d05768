import Pypiron.Replicate.Publication

/-! A streamed copy into a key with no body, whatever sidecar and companions an
earlier writer left beside it. -/
namespace Pypiron.Replicate
open Program StoreM RankedMerge
variable {ι : Type} [DecidableEq ι] {site : Site ι} {s t : Fleet ι} {a b src dst : ι}
variable {pkg f : String} {sc : Sidecar} {bytes : Bytes}

/-! ### The companions -/

/-- A companion that is written ends with its source's bytes, or with leftover
bytes of the same digest. -/
theorem ends_putIfAbsentOrVerify {c : Companion} {changed : Bool}
    (collisionFree : ∀ left, s.read dst f (.companion c) = some left →
      site.encoding.sha256 left = site.encoding.sha256 bytes → left = bytes)
    (ended : Ends (apply site) (putIfAbsentOrVerify site dst pkg f c bytes) s (.ok changed) t) :
    t.read dst f (.companion c) = some bytes ∧
      ∀ k, k ≠ .companion c → t.read dst f k = s.read dst f k := by
  obtain ⟨created, m, create, rest⟩ := ends_bind_ok.mp ended
  rcases ends_putIfAbsent.mp create with ⟨rfl, -, rfl⟩ | ⟨rfl, taken, rfl⟩
  · rw [if_pos rfl, ends_bind_ok] at rest
    obtain ⟨stored, n, got, rest⟩ := rest
    obtain ⟨rfl, rfl⟩ := ends_get.mp got
    rw [ends_bind_ok] at rest
    obtain ⟨_, p, checked, finished⟩ := rest
    obtain ⟨-, rfl⟩ := ends_done.mp finished
    have same (k : Kind) : t.read dst f k = (s.write dst f (.companion c) (some bytes)).read dst f k :=
      nothing_read within_checkStoredSize checked.cut
    constructor
    · rw [same, read_write_self]
    · intro k other
      rw [same, read_write_kind other]
  · rw [if_neg (by simp), ends_bind_ok] at rest
    obtain ⟨stored, n, got, rest⟩ := rest
    obtain ⟨rfl, rfl⟩ := ends_get.mp got
    split at rest
    · exact absurd rest ends_bail
    · rename_i left found
      split at rest
      · rename_i agrees
        obtain ⟨-, rfl⟩ := ends_done.mp rest
        exact ⟨by rw [found, collisionFree left found agrees], fun _ _ => rfl⟩
      · rw [ends_bind_ok] at rest
        obtain ⟨_, p, repaired, rest⟩ := rest
        obtain rfl := ends_put.mp repaired
        rw [ends_bind_ok] at rest
        obtain ⟨after, q, got, rest⟩ := rest
        obtain ⟨rfl, rfl⟩ := ends_get.mp got
        rw [read_write_self] at rest
        dsimp only at rest
        rw [if_pos rfl] at rest
        obtain ⟨-, rfl⟩ := ends_done.mp rest
        exact ⟨read_write_self _, fun k other => read_write_kind other _⟩

def Companions.of (companions : Companions) : Companion → Option Bytes
  | .metadata => companions.metadata
  | .provenance => companions.provenance

theorem ends_putListed {c : Companion} {stored : Option Bytes} {before changed : Bool}
    (collisionFree : ∀ left bytes, s.read dst f (.companion c) = some left → stored = some bytes →
      site.encoding.sha256 left = site.encoding.sha256 bytes → left = bytes)
    (ended : Ends (apply site) (putCompanions.putListed site dst pkg f c stored before) s
      (.ok changed) t) :
    t.read dst f (.companion c) = stored.or (s.read dst f (.companion c)) ∧
      ∀ k, k ≠ .companion c → t.read dst f k = s.read dst f k := by
  cases stored with
  | none =>
      obtain ⟨-, rfl⟩ := ends_done.mp ended
      exact ⟨rfl, fun _ _ => rfl⟩
  | some bytes =>
      obtain ⟨written, m, writing, finished⟩ := ends_bind_ok.mp ended
      obtain ⟨-, rfl⟩ := ends_done.mp finished
      exact ends_putIfAbsentOrVerify (fun left found => collisionFree left bytes found rfl) writing

/-- Every companion the source has stands with the source's bytes, and no other is written. -/
theorem ends_putCompanions {companions : Companions} {before changed : Bool}
    (collisionFree : ∀ c left bytes, s.read dst f (.companion c) = some left →
      companions.of c = some bytes →
      site.encoding.sha256 left = site.encoding.sha256 bytes → left = bytes)
    (ended : Ends (apply site) (putCompanions site dst pkg f companions before) s (.ok changed) t)
    (c : Companion) :
    t.read dst f (.companion c) = (companions.of c).or (s.read dst f (.companion c)) := by
  obtain ⟨_, m, first, second⟩ := ends_bind_ok.mp ended
  obtain ⟨metadata, beside⟩ := ends_putListed (collisionFree .metadata) first
  have collisionFree (left bytes : Bytes) (found : m.read dst f (.companion .provenance) = some left)
      (stored : companions.provenance = some bytes) :
      site.encoding.sha256 left = site.encoding.sha256 bytes → left = bytes := by
    rw [beside _ (by simp)] at found
    exact collisionFree .provenance left bytes found stored
  obtain ⟨provenance, aside⟩ := ends_putListed collisionFree second
  cases c with
  | metadata => exact (aside _ (by simp)).trans metadata
  | provenance =>
      rw [beside _ (by simp)] at provenance
      exact provenance

theorem ends_readListedCompanion {c : Companion} {listed : Bool} {stored : Option Bytes}
    (flagged : listed = (s.read src f (.companion c)).isSome)
    (ended : Ends (apply site) (readListedCompanion src pkg f c listed) s (.ok stored) t) :
    stored = s.read src f (.companion c) ∧ t = s := by
  unfold readListedCompanion at ended
  split at ended
  · obtain ⟨found, m, got, rest⟩ := ends_bind_ok.mp ended
    obtain ⟨rfl, rfl⟩ := ends_get.mp got
    split at rest
    · exact absurd rest ends_bail
    · rename_i bytes found
      obtain ⟨same, rfl⟩ := ends_done.mp rest
      cases same
      exact ⟨found.symm, rfl⟩
  · rename_i unlisted
    obtain ⟨same, rfl⟩ := ends_done.mp ended
    cases same
    rw [flagged, Bool.not_eq_true, Option.isSome_eq_false_iff, Option.isNone_iff_eq_none] at unlisted
    exact ⟨unlisted.symm, rfl⟩

theorem ends_readSourceCompanions {record : Record} {companions : Companions}
    (metadata : record.hasMetadata = (s.read src f (.companion .metadata)).isSome)
    (provenance : record.hasProvenance = (s.read src f (.companion .provenance)).isSome)
    (ended : Ends (apply site) (readSourceCompanions src pkg f record) s (.ok companions) t) :
    (∀ c, companions.of c = s.read src f (.companion c)) ∧ t = s := by
  simp only [readSourceCompanions, ends_bind_ok] at ended
  obtain ⟨_, m, first, _, n, second, finished⟩ := ended
  obtain ⟨rfl, rfl⟩ := ends_readListedCompanion metadata first
  obtain ⟨rfl, rfl⟩ := ends_readListedCompanion provenance second
  obtain ⟨same, rfl⟩ := ends_done.mp finished
  cases same
  refine ⟨fun c => ?_, rfl⟩
  cases c with
  | metadata => rfl
  | provenance => rfl

/-! ### The copy -/

/-- The spool of an upload holds the body that its source bucket took from it. -/
def ArtifactSource.Holds (s : Fleet ι) (src : ι) (f : String) : ArtifactSource → Prop
  | .bucket => True
  | .spool bytes => s.read src f .body = some bytes

theorem ends_verifySourceArtifact_holds {record : Record} {source : ArtifactSource}
    (named : record.sidecar = some sc) (holds : source.Holds s src f)
    (ended : Ends (apply site) (verifySourceArtifact site src pkg f record source) s (.ok bytes) t) :
    t = s ∧ s.read src f .body = some bytes := by
  cases source with
  | bucket =>
      obtain ⟨rfl, found, -⟩ := ends_verifySourceArtifact named ended
      exact ⟨rfl, found⟩
  | spool spooled =>
      unfold verifySourceArtifact at ended
      rw [named] at ended
      obtain ⟨staged, m, staging, rest⟩ := ends_bind_ok.mp ended
      obtain ⟨same, rfl⟩ := ends_done.mp staging
      cases same
      dsimp only at rest
      split at rest
      · obtain ⟨same, rfl⟩ := ends_done.mp rest
        cases same
        exact ⟨rfl, holds⟩
      · exact absurd rest ends_bail

/-- No leftover companion shares its digest with a different one of the source. -/
def CollisionFree (site : Site ι) (s : Fleet ι) (src dst : ι) (f : String) : Prop :=
  ∀ c left bytes, s.read dst f (.companion c) = some left → s.read src f (.companion c) = some bytes →
    site.encoding.sha256 left = site.encoding.sha256 bytes → left = bytes

/-- What a copy makes of a destination: the source's body; the sidecar that stands
beside it, where no private leftover meets a mirror record; and the source's companions,
where the destination held none that the source lacks. -/
structure Copied (site : Site ι) (s t : Fleet ι) (src dst : ι) (f : String) (sc : Sidecar)
    (isMirror : Bool) : Prop where
  body : t.read dst f .body = s.read src f .body
  sidecar : (isMirror → ∀ left, s.read dst f .sidecar = some left →
      left.origin ≠ some Origin.priv.asStr) →
    t.read dst f .sidecar = some (sidecarBeside site.encoding sc isMirror (s.read dst f .sidecar))
  companions : ∀ c, s.read src f (.companion c) ≠ none ∨ s.read dst f (.companion c) = none →
    t.read dst f (.companion c) = s.read src f (.companion c)

theorem copyLive_copied {record : Record} {source : ArtifactSource} {changed : Bool}
    (streamed : site.allows dst src = false) (named : record.sidecar = some sc)
    (metadata : record.hasMetadata = (s.read src f (.companion .metadata)).isSome)
    (provenance : record.hasProvenance = (s.read src f (.companion .provenance)).isSome)
    (vacant : s.read dst f .body = none) (holds : source.Holds s src f)
    (collisionFree : CollisionFree site s src dst f)
    (ended : Ends (apply site) (copyLive site src dst pkg f record source) s (.ok changed) t) :
    Copied site s t src dst f sc (record.origin = some .mirror) := by
  unfold copyLive at ended
  rw [named] at ended
  obtain ⟨companions, m, reading, rest⟩ := ends_bind_ok.mp ended
  obtain ⟨listed, rfl⟩ := ends_readSourceCompanions metadata provenance reading
  dsimp only at rest
  rw [if_neg (by simp [streamed]), ends_bind_ok] at rest
  obtain ⟨bytes, n, verified, rest⟩ := rest
  obtain ⟨rfl, body⟩ := ends_verifySourceArtifact_holds named holds verified
  obtain ⟨p, q, _, _, landed, kept, installing, companying⟩ := copyByStream_legs vacant rest
  have beside (c : Companion) : q.read dst f (.companion c) = n.read dst f (.companion c) := by
    rw [installFor_read installing.cut (by simp), kept _ _ _ (by simp)]
  constructor
  · rw [putCompanions_read companying.cut (by simp), installFor_read installing.cut (by simp),
      landed, body]
  · intro _
    rw [putCompanions_read companying.cut (by simp), installFor_beside installing,
      kept _ _ _ (by simp)]
  · intro c either
    have stands : t.read dst f (.companion c) = (companions.of c).or (q.read dst f (.companion c)) := by
      apply ends_putCompanions _ companying c
      intro c left bytes leftover stored
      rw [beside] at leftover
      rw [listed] at stored
      exact collisionFree c left bytes leftover stored
    rw [stands, listed, beside]
    rcases either with found | vacant
    · obtain ⟨bytes, found⟩ := Option.ne_none_iff_exists'.mp found
      rw [found, Option.some_or]
    · rw [vacant, Option.or_none]

omit [DecidableEq ι] in
/-- A demotion fence is no part of the record that a copy reads or leaves. -/
theorem Copied.congr {s' t' : Fleet ι} {isMirror : Bool}
    (copied : Copied site s t src dst f sc isMirror)
    (before : ∀ j, ∀ k ∈ recordObjectKeys, s'.read j f k = s.read j f k)
    (after : ∀ k, t'.read dst f k = t.read dst f k) :
    Copied site s' t' src dst f sc isMirror := by
  have companion (j : ι) (c : Companion) : s'.read j f (.companion c) = s.read j f (.companion c) := by
    apply before
    cases c <;> simp [recordObjectKeys]
  constructor
  · rw [after, before src .body (by simp [recordObjectKeys]), copied.body]
  · intro mirror
    rw [before dst .sidecar (by simp [recordObjectKeys])] at mirror ⊢
    rw [after, copied.sidecar mirror]
  · intro c either
    rw [companion, companion] at either
    rw [after, companion, copied.companions c either]

/-- A copy verdict, streamed with no other writer, into a destination whose record
is absent whatever it left behind. -/
theorem execute_copied (site : Site ι) (a b : ι) (pkg f : String) (side : Side)
    (source : ArtifactSource) (s t : Fleet ι) {outcome : Convergence} {sha : String}
    {origin : Origin} {superseding debris : Bool}
    (streamed : site.allows (side.other.pick a b) (side.pick a b) = false)
    (live : classifyRecord (recordOf s (side.pick a b) f) = .live sha origin superseding)
    (absent : classifyRecord (recordOf s (side.other.pick a b) f) = .absent debris)
    (holds : source.Holds s (side.pick a b) f)
    (collisionFree : CollisionFree site s (side.pick a b) (side.other.pick a b) f)
    (ended : Ends (apply site) (execute site a b pkg f (recordOf s a f) (recordOf s b f) (.copy side)
      source) s (.ok outcome) t) :
    ∃ sc, s.read (side.pick a b) f .sidecar = some sc ∧
      Copied site s t (side.pick a b) (side.other.pick a b) f sc (origin = .mirror) := by
  obtain ⟨-, -, typed, sc, named, -⟩ := classifyRecord_live live
  obtain ⟨-, vacant, -⟩ := classifyRecord_absent absent
  refine ⟨sc, named, ?_⟩
  obtain ⟨_, m, clearing, rest⟩ := ends_bind_ok.mp (ends_execute ended)
  have first := (ends_clearSpentDemotionFence (fun _ => rfl) clearing).1
  rw [ends_bind_ok] at rest
  obtain ⟨_, n, clearing', rest⟩ := rest
  have same (j : ι) (k : Kind) (record : k ∈ recordObjectKeys) : n.read j f k = s.read j f k := by
    have other : k ≠ .fence .mirrorQuarantined := by
      rintro rfl
      simp [recordObjectKeys] at record
    have within : Within (touches fun _ _ k => k = .fence .mirrorQuarantined)
        (clearSpentDemotionFence b f (recordOf s b f)) := within_clearSpentDemotionFence rfl
    rw [touches_read within clearing'.cut other, first j f k fun here => other here.2.2]
  rw [ends_bind_ok] at rest
  obtain ⟨_, p, applied, finished⟩ := rest
  obtain ⟨-, rfl⟩ := ends_done.mp finished
  have copying : ∃ changed q, Ends (apply site) (copyLive site (side.pick a b) (side.other.pick a b)
      pkg f (recordOf s (side.pick a b) f) source) n (.ok changed) q ∧
      Ends (apply site) (markDirtyIf changed (side.other.pick a b)) q (.ok ()) t := by
    cases side with
    | a => exact ends_bind_ok.mp applied
    | b => exact ends_bind_ok.mp applied
  obtain ⟨changed, q, copying, marking⟩ := copying
  have mirror : (recordOf s (side.pick a b) f).origin = some .mirror ↔ origin = .mirror := by
    rw [typed, Option.some.injEq]
  have companion (j : ι) (c : Companion) : n.read j f (.companion c) = s.read j f (.companion c) := by
    apply same
    cases c <;> simp [recordObjectKeys]
  have copied : Copied site n q (side.pick a b) (side.other.pick a b) f sc (origin = .mirror) := by
    simp only [← mirror]
    apply copyLive_copied streamed named _ _ _ _ _ copying
    · rw [companion]
      rfl
    · rw [companion]
      rfl
    · rw [same _ _ (by simp [recordObjectKeys])]
      simpa using vacant
    · cases source with
      | bucket => trivial
      | spool bytes => exact (same _ _ (by simp [recordObjectKeys])).trans holds
    · intro c left bytes
      rw [companion, companion]
      exact collisionFree c left bytes
  apply copied.congr
  · intro j k record
    rw [same j k record]
  · intro k
    exact nothing_read within_markDirtyIf marking.cut

/-- A copy of `pkg-1.whl` from the first bucket to the second, every call served. -/
def sampleCopy (s : Fleet Bool) : Except String Convergence × Fleet Bool :=
  run (apply (streamingSite Bool)) (execute (streamingSite Bool) false true "pkg" "pkg-1.whl"
    (recordOf s false "pkg-1.whl") (recordOf s true "pkg-1.whl") (.copy .a) .bucket) s

/-- An upload with its metadata, beside a sidecar and a companion of other bytes. -/
def staleLeftovers : Fleet Bool := fun bucket =>
  if bucket then
    (emptyPackage.set "pkg-1.whl" .sidecar (some (sampleSidecar 121 none .priv))).set "pkg-1.whl"
      (.companion .metadata) (some [121])
  else
    (uploaded 120 .priv (sampleSidecar 120 none .priv)).set "pkg-1.whl" (.companion .metadata)
      (some [122])

theorem staleLeftovers_copied :
    (sampleCopy staleLeftovers).2.read true "pkg-1.whl" .sidecar =
        some (sampleSidecar 120 none .priv) ∧
      (sampleCopy staleLeftovers).2.read true "pkg-1.whl" (.companion .metadata) = some [122] := by
  have converged : (sampleCopy staleLeftovers).1 = .ok .converged := by decide +kernel
  have ended : Ends (apply (streamingSite Bool)) _ staleLeftovers (sampleCopy staleLeftovers).1
    (sampleCopy staleLeftovers).2 := ends_run _ _
  rw [converged] at ended
  have collisionFree : CollisionFree (streamingSite Bool) staleLeftovers false true "pkg-1.whl" := by
    intro c left bytes leftover stored agrees
    cases c with
    | metadata =>
        obtain rfl : [121] = left := Option.some.inj leftover
        obtain rfl : [122] = bytes := Option.some.inj stored
        exact absurd agrees (by decide)
    | provenance => simp [staleLeftovers, Fleet.read, Package.set, emptyPackage] at leftover
  have live : classifyRecord (recordOf staleLeftovers false "pkg-1.whl") =
    .live (sampleSha256 [120]) .priv false := by decide +kernel
  have absent : classifyRecord (recordOf staleLeftovers true "pkg-1.whl") = .absent true := by
    decide +kernel
  obtain ⟨sc, named, copied⟩ := execute_copied (streamingSite Bool) false true "pkg" "pkg-1.whl" .a
    .bucket staleLeftovers (sampleCopy staleLeftovers).2 rfl live absent trivial collisionFree ended
  obtain rfl : sampleSidecar 120 none .priv = sc := Option.some.inj named
  constructor
  · rw [show true = Side.a.other.pick false true from rfl, copied.sidecar (by simp)]
    decide +kernel
  · exact copied.companions .metadata (.inl (by decide +kernel))

/-- An upload without companions, beside the yanked sidecar of the same bytes and
the metadata of an older upload. -/
def yankedLeftovers : Fleet Bool := fun bucket =>
  if bucket then
    (emptyPackage.set "pkg-1.whl" .sidecar (some { sampleSidecar 120 none .priv with
      yanked := .flag true, yankEpoch := 1 })).set "pkg-1.whl" (.companion .metadata) (some [121])
  else uploaded 120 .priv (sampleSidecar 120 none .priv)

/-- The copy returns, and neither leftover is the source's. -/
theorem leftovers_outlive_copy :
    classifyRecord (recordOf yankedLeftovers false "pkg-1.whl") =
        .live (sampleSha256 [120]) .priv false ∧
      classifyRecord (recordOf yankedLeftovers true "pkg-1.whl") = .absent true ∧
      (sampleCopy yankedLeftovers).1 = .ok .converged ∧
      (sampleCopy yankedLeftovers).2.read true "pkg-1.whl" .sidecar ≠
        yankedLeftovers.read false "pkg-1.whl" .sidecar ∧
      yankedLeftovers.read false "pkg-1.whl" (.companion .metadata) = none ∧
      (sampleCopy yankedLeftovers).2.read true "pkg-1.whl" (.companion .metadata) = some [121] := by
  decide +kernel

end Pypiron.Replicate
