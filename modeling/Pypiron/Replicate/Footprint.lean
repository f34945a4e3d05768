import Pypiron.Replicate.Execute

/-! Footprints: which objects a program may create, replace or delete, for each
of the executors. -/
namespace Pypiron.Replicate
open Program StoreM
variable {ι : Type} {site : Site ι} {i src dst : ι} {pkg f g : String} {k : Kind}

/-- The objects a program may create, and those it may replace or delete. -/
structure Footprint (ι : Type) where
  creates : ι → String → Kind → Prop
  replaces : ι → String → Kind → Prop

def Footprint.permits (fp : Footprint ι) : StoreOp ι → Prop
  | .put i f k _ => fp.replaces i f k
  | .putIfMatch i f k _ _ => fp.replaces i f k
  | .delete i f k => fp.replaces i f k
  | .putIfAbsent i f k _ => fp.creates i f k
  | .serverSideCopy _ dst f _ => fp.replaces dst f .body
  | .claim _ _ | .list _ | .get _ _ _ | .mark _ _ | .reconcileStatus _ _ => True

/-- The program changes nothing outside the footprint. -/
def Within (fp : Footprint ι) {α : Type} (program : StoreM ι α) : Prop := Only fp.permits program

variable {fp : Footprint ι} {α β : Type} {program : StoreM ι α}

theorem Within.bind {rest : α → StoreM ι β} (first : Within fp program)
    (second : ∀ value, Within fp (rest value)) : Within fp (program >>= rest) :=
  Only.bind first second

theorem Within.attempt {rest : Except String α → StoreM ι β} (first : Within fp program)
    (second : ∀ result, Within fp (rest result)) : Within fp (program.attempt rest) :=
  Only.attempt first second

@[simp] theorem within_done {result : Except String α} : Within fp (done result : StoreM ι α) :=
  trivial

@[simp] theorem within_pure {value : α} : Within fp (pure value : StoreM ι α) := trivial

@[simp] theorem within_bail {error : String} : Within fp (bail error : StoreM ι α) := trivial

@[simp] theorem within_get : Within fp (get i f k) := ⟨trivial, fun _ => trivial⟩

@[simp] theorem within_headExists : Within fp (headExists i f k) :=
  within_get.bind fun _ => within_pure

@[simp] theorem within_markCommit : Within fp (markCommit i) := ⟨trivial, fun _ => trivial⟩

@[simp] theorem within_markDirty : Within fp (markDirty i) := within_markCommit

@[simp] theorem within_markIntent : Within fp (markIntent i) := ⟨trivial, fun _ => trivial⟩

theorem within_put {content : k.Content} (allowed : fp.replaces i f k) :
    Within fp (put i f k content) := ⟨allowed, fun _ => trivial⟩

theorem within_putIfAbsent {content : k.Content} (allowed : fp.creates i f k) :
    Within fp (putIfAbsent i f k content) := ⟨allowed, fun _ => trivial⟩

theorem within_putIfMatch {expected content : k.Content} (allowed : fp.replaces i f k) :
    Within fp (putIfMatch i f k expected content) := ⟨allowed, fun _ => trivial⟩

theorem within_delete (allowed : fp.replaces i f k) : Within fp (delete i f k) :=
  ⟨allowed, fun _ => trivial⟩

theorem within_onClaim {program : ClaimM α} : Within fp (onClaim i program) := by
  induction program with
  | done result => trivial
  | call op next ih => exact ⟨trivial, fun answer => ih answer⟩


theorem within_deleteKeys {kinds : List Kind} (allowed : ∀ k ∈ kinds, fp.replaces i f k) :
    Within fp (deleteKeys i f kinds) := by
  induction kinds with
  | nil => exact within_pure
  | cons k rest ih =>
      apply Within.bind
      · exact within_delete (allowed k List.mem_cons_self)
      · intro _
        exact ih fun k' member => allowed k' (List.mem_cons_of_mem k member)

@[simp] theorem within_requireReplicationUnfenced : Within fp (requireReplicationUnfenced site) := by
  unfold requireReplicationUnfenced
  split <;> trivial

@[simp] theorem within_checkStoredSize {key : String} {stored : Option Bytes} {expected : Nat} :
    Within fp (checkStoredSize key stored expected : StoreM ι Unit) := by
  unfold checkStoredSize
  repeat' split
  all_goals trivial

@[simp] theorem within_verifyStoredSize {expected : Nat} :
    Within fp (verifyStoredSize i pkg f expected) :=
  within_get.bind fun _ => within_checkStoredSize

theorem within_createArtifactVerified {bytes : Bytes} (allowed : fp.creates i f .body) :
    Within fp (createArtifactVerified i pkg f bytes) := by
  apply (within_putIfAbsent allowed).bind
  intro created
  split
  · exact within_verifyStoredSize.bind fun _ => within_pure
  · exact within_pure

theorem within_putIfAbsentOrVerify {c : Companion} {bytes : Bytes}
    (create : fp.creates i f (.companion c)) (replace : fp.replaces i f (.companion c)) :
    Within fp (putIfAbsentOrVerify site i pkg f c bytes) := by
  apply (within_putIfAbsent create).bind
  intro created
  split
  · exact within_get.bind fun _ => within_checkStoredSize.bind fun _ => within_pure
  · apply within_get.bind
    intro stored
    split
    · exact within_bail
    · split
      · exact within_pure
      · apply (within_put replace).bind
        intro _
        apply within_get.bind
        intro after
        split
        · exact within_bail
        · split
          · exact within_pure
          · exact within_bail

/-! ### The source -/

@[simp] theorem within_stage {expected : Nat} {source : ArtifactSource} :
    Within fp (stage src pkg f expected source) := by
  cases source with
  | spool bytes => exact within_pure
  | bucket =>
      apply within_get.bind
      intro stored
      split
      · exact within_bail
      · split
        · exact within_pure
        · exact within_bail

theorem within_dropStaleSidecar {got : String} (allowed : fp.replaces src f .sidecar) :
    Within fp (dropStaleSidecar src f got) := by
  apply within_get.bind
  intro stored
  split
  · exact within_pure
  · split
    · exact within_pure
    · exact (within_delete allowed).bind fun _ => within_markDirty

theorem within_verifySourceArtifact {record : Record} {source : ArtifactSource}
    (allowed : fp.replaces src f .sidecar) :
    Within fp (verifySourceArtifact site src pkg f record source) := by
  unfold verifySourceArtifact
  split
  · exact within_bail
  · apply within_stage.bind
    intro bytes
    dsimp only
    split
    · exact within_pure
    · split
      · exact within_bail
      · exact (within_dropStaleSidecar allowed).bind fun _ => within_bail

@[simp] theorem within_readListedCompanion {c : Companion} {listed : Bool} :
    Within fp (readListedCompanion src pkg f c listed) := by
  unfold readListedCompanion
  split
  · apply within_get.bind
    intro stored
    split
    · exact within_bail
    · exact within_pure
  · exact within_pure

@[simp] theorem within_readSourceCompanions {record : Record} :
    Within fp (readSourceCompanions src pkg f record) :=
  within_readListedCompanion.bind fun _ => within_readListedCompanion.bind fun _ => within_pure

/-! ### Preserving, freezing and deleting -/

theorem within_quarantineBytes {bytes : Bytes} (allowed : ∀ h, fp.creates i f (.quarantine h)) :
    Within fp (quarantineBytes site i pkg f bytes) := by
  apply (within_putIfAbsent (allowed _)).bind
  intro created
  split
  · exact within_pure
  · apply within_get.bind
    intro stored
    split
    · exact within_bail
    · split
      · exact within_pure
      · exact within_bail

theorem within_quarantine (allowed : ∀ h, fp.creates i f (.quarantine h)) :
    Within fp (quarantine site i pkg f) := by
  apply within_get.bind
  intro stored
  split
  · exact within_pure
  · exact (within_quarantineBytes allowed).bind fun _ => within_pure

theorem within_tombstoneWrite (allowed : fp.creates i f (.fence .tombstone)) :
    Within fp (tombstoneWrite i f) :=
  (within_putIfAbsent allowed).bind fun _ => within_pure

/-- May create any object of the filename, and drop what is not evidence. -/
structure Footprint.Drops (fp : Footprint ι) (i : ι) (f : String) : Prop where
  creates : ∀ k, fp.creates i f k
  replaces : ∀ k, (∀ h, k ≠ .quarantine h) → fp.replaces i f k

theorem within_dropRecordObjects (drops : fp.Drops i f) : Within fp (dropRecordObjects i f) := by
  apply within_deleteKeys
  intro k member
  apply drops.replaces
  rintro h rfl
  simp [recordObjectKeys] at member

theorem within_freezeSide (drops : fp.Drops i f) : Within fp (freezeSide site i pkg f) := by
  apply (within_putIfAbsent (drops.creates _)).bind
  intro _
  apply (within_quarantine fun h => drops.creates _).bind
  intro _
  apply (within_tombstoneWrite (drops.creates _)).bind
  intro _
  exact (within_dropRecordObjects drops).bind fun _ => within_pure

theorem within_freezeCopyRace (source : fp.Drops src f) (target : fp.Drops dst f) :
    Within fp (freezeCopyRace site src dst pkg f) := by
  apply within_markIntent.bind
  intro _
  apply Within.attempt
  · apply (within_freezeSide source).bind
    intro _
    exact (within_freezeSide target).bind fun _ => within_markDirty
  · exact fun _ => within_markCommit.attempt fun _ => within_done

@[simp] theorem within_anyExists {kinds : List Kind} : Within fp (anyExists i f kinds) := by
  induction kinds with
  | nil => exact within_pure
  | cons k rest ih => exact within_headExists.bind fun _ => ih.bind fun _ => within_pure

theorem within_tombstoneSide (drops : fp.Drops i f) : Within fp (tombstoneSide i f) := by
  apply within_headExists.bind
  intro already
  apply within_headExists.bind
  intro hadBody
  split
  · apply within_anyExists.bind
    intro debris
    split
    · apply Within.bind
      · apply within_deleteKeys
        intro k member
        apply drops.replaces
        rintro h rfl
        simp [tombstoneDebris] at member
      · exact fun _ => within_pure
    · exact within_pure
  · apply (within_tombstoneWrite (drops.creates _)).bind
    intro _
    exact (within_dropRecordObjects drops).bind fun _ => within_pure

/-! ### Demotions -/

@[simp] theorem within_ensurePrivate : Within fp (ensurePrivate i pkg) := within_onClaim

@[simp] theorem within_ensureMirror : Within fp (ensureMirror i pkg) := within_onClaim

@[simp] theorem within_demotionResolvedByPrivateTruth :
    Within fp (demotionResolvedByPrivateTruth i f) := by
  apply within_get.bind
  intro stored
  split
  · exact within_pure
  · split
    · exact within_headExists
    · exact within_pure

theorem within_clearSpentDemotionFence {record : Record}
    (allowed : fp.replaces i f (.fence .mirrorQuarantined)) :
    Within fp (clearSpentDemotionFence i f record) := by
  unfold clearSpentDemotionFence
  split
  · apply within_demotionResolvedByPrivateTruth.bind
    intro resolved
    split
    · apply within_deleteKeys
      intro k member
      rw [List.mem_singleton] at member
      exact member ▸ allowed
    · exact within_pure
  · exact within_pure

@[simp] theorem within_settleableBody {preserved : Option String} :
    Within fp (settleableBody site i f preserved) := by
  apply within_get.bind
  intro stored
  split
  · exact within_pure
  · split
    · exact within_pure
    · apply within_headExists.bind
      intro superseding
      split
      · exact within_pure
      · exact within_pure

theorem within_settleMirrorQuarantine (drops : fp.Drops i f) :
    Within fp (settleMirrorQuarantine site i pkg f) := by
  apply within_ensurePrivate.bind
  intro _
  apply within_demotionResolvedByPrivateTruth.bind
  intro resolved
  split
  · exact within_pure
  · apply (within_putIfAbsent (drops.creates _)).bind
    intro created
    apply (within_quarantine fun h => drops.creates _).bind
    intro preserved
    apply within_headExists.bind
    intro sidecarLeft
    apply within_settleableBody.bind
    intro settleable
    split
    · exact within_pure
    · apply Within.bind
      · apply within_deleteKeys
        intro k member
        apply drops.replaces
        rintro h rfl
        split at member <;> simp [recordObjectKeys] at member
      · exact fun _ => within_pure

/-! ### Sidecars -/

@[simp] theorem within_checkOrigin {sc : Sidecar} {key : String} :
    Within fp (checkOrigin sc key : StoreM ι Unit) := by
  unfold checkOrigin
  split
  · exact within_bail
  · exact within_pure

/-- May create and replace the object. -/
structure Footprint.Owns (fp : Footprint ι) (i : ι) (f : String) (k : Kind) : Prop where
  creates : fp.creates i f k
  replaces : fp.replaces i f k

theorem within_installLoop {key : String} {sc : Sidecar} {attempts : Nat}
    (owns : fp.Owns dst f .sidecar) : Within fp (installLoop site dst key f sc attempts) := by
  induction attempts with
  | zero => exact within_bail
  | succ attempts ih =>
      apply within_get.bind
      intro stored
      split
      · apply (within_putIfAbsent owns.creates).bind
        intro created
        split
        · exact within_pure
        · exact ih
      · split
        · exact within_pure
        · apply within_checkOrigin.bind
          intro _
          apply within_get.bind
          intro body
          split
          · apply (within_putIfMatch owns.replaces).bind
            intro replaced
            split
            · exact within_pure
            · exact ih
          · split
            · exact within_bail
            · exact within_pure

theorem within_installOrVerifySidecar {sc : Sidecar} (owns : fp.Owns dst f .sidecar) :
    Within fp (installOrVerifySidecar site dst pkg f sc) := by
  unfold installOrVerifySidecar
  dsimp only
  split
  · exact within_bail
  · exact within_installLoop owns

@[simp] theorem within_mirrorReplaces {sc current : Sidecar} :
    Within fp (mirrorReplaces site dst f sc current) := by
  unfold mirrorReplaces
  split
  · exact within_get.bind fun _ => within_pure
  · exact within_pure

theorem within_installMirrorLoop {key : String} {sc : Sidecar} {attempts : Nat}
    (owns : fp.Owns dst f .sidecar) : Within fp (installMirrorLoop site dst key f sc attempts) := by
  induction attempts with
  | zero => exact within_bail
  | succ attempts ih =>
      apply within_get.bind
      intro stored
      split
      · apply (within_putIfAbsent owns.creates).bind
        intro created
        split
        · exact within_pure
        · exact ih
      · split
        · exact within_pure
        · apply within_checkOrigin.bind
          intro _
          split
          · exact within_pure
          · apply within_mirrorReplaces.bind
            intro replaces
            split
            · apply (within_putIfMatch owns.replaces).bind
              intro replaced
              split
              · exact within_pure
              · exact ih
            · split
              · exact within_bail
              · exact within_pure

theorem within_installOrVerifyMirrorSidecar {sc : Sidecar} (owns : fp.Owns dst f .sidecar) :
    Within fp (installOrVerifyMirrorSidecar site dst pkg f sc) := by
  unfold installOrVerifyMirrorSidecar
  dsimp only
  split
  · exact within_bail
  · exact within_installMirrorLoop owns

@[simp] theorem within_sidecarStillNames {sha : String} :
    Within fp (sidecarStillNames dst f sha) := within_get.bind fun _ => within_pure

@[simp] theorem within_sidecarHoldsPrivate : Within fp (sidecarHoldsPrivate dst f) :=
  within_get.bind fun _ => within_pure

/-! ### Copies -/

theorem Footprint.Drops.owns (drops : fp.Drops i f) (k : Kind) (evident : ∀ h, k ≠ .quarantine h) :
    fp.Owns i f k :=
  ⟨drops.creates k, drops.replaces k evident⟩

theorem within_repairDebris {sc : Sidecar} {bytes : Bytes}
    (evidence : ∀ h, fp.creates dst f (.quarantine h)) (body : fp.replaces dst f .body) :
    Within fp (repairDebris site dst pkg f sc bytes) := by
  apply within_get.bind
  intro stored
  split
  · exact within_pure
  · split
    · exact within_pure
    · apply within_sidecarStillNames.bind
      intro names
      split
      · apply (within_quarantineBytes evidence).bind
        intro _
        apply (within_putIfMatch body).bind
        intro replaced
        split
        · exact within_verifyStoredSize.bind fun _ => within_pure
        · exact within_pure
      · exact within_pure

@[simp] theorem within_describedByOwnSidecar {sha : String} {published : Bool} :
    Within fp (describedByOwnSidecar dst f sha published) := by
  unfold describedByOwnSidecar
  split
  · exact within_pure
  · exact within_sidecarStillNames

theorem within_artifactLeg {sc : Sidecar} {bytes : Bytes} {published : Bool}
    (source : fp.Drops src f) (target : fp.Drops dst f) :
    Within fp (artifactLeg site src dst pkg f sc bytes published) := by
  apply (within_repairDebris (fun h => target.creates _)
    (target.replaces _ (by simp))).bind
  intro changed
  apply (within_createArtifactVerified (target.creates _)).bind
  intro created
  split
  · exact within_pure
  · apply within_get.bind
    intro stored
    split
    · exact within_bail
    · dsimp only
      split
      · exact within_pure
      · apply within_describedByOwnSidecar.bind
        intro described
        split
        · exact within_bail
        · exact (within_freezeCopyRace source target).bind fun _ => within_pure

theorem within_putCompanions {companions : Companions} {changed : Bool}
    (owns : ∀ c, fp.Owns dst f (.companion c)) :
    Within fp (putCompanions site dst pkg f companions changed) := by
  have listed (c : Companion) (bytes : Option Bytes) (changed : Bool) :
      Within fp (putCompanions.putListed site dst pkg f c bytes changed) := by
    unfold putCompanions.putListed
    split
    · exact within_pure
    · exact (within_putIfAbsentOrVerify (owns c).creates (owns c).replaces).bind
        fun _ => within_pure
  exact (listed _ _ _).bind fun _ => listed _ _ _

theorem within_installFor {sc : Sidecar} {isMirror : Bool} (owns : fp.Owns dst f .sidecar) :
    Within fp (installFor site dst pkg f sc isMirror) := by
  unfold installFor
  split
  · exact within_installOrVerifyMirrorSidecar owns
  · exact within_installOrVerifySidecar owns

theorem within_copyTruth {sc : Sidecar} {companions : Companions} {changed isMirror : Bool}
    {landed : Nat} (sidecar : fp.Owns dst f .sidecar) (owns : ∀ c, fp.Owns dst f (.companion c)) :
    Within fp (copyTruth site dst pkg f sc companions changed isMirror landed) := by
  apply within_get.bind
  intro stored
  split
  · exact within_bail
  · split
    · exact within_bail
    · exact (within_installFor sidecar).bind fun _ => within_putCompanions owns

theorem within_serverSideCopyArtifact {sc : Sidecar} (body : fp.replaces dst f .body) :
    Within fp (serverSideCopyArtifact src dst pkg f sc) := by
  have verb : Within fp (serverSideCopy src dst f sc.size) := ⟨body, fun _ => trivial⟩
  apply verb.bind
  intro outcome
  split
  · exact within_pure
  · apply within_verifyStoredSize.bind
    intro _
    split
    · exact within_bail
    · exact within_pure

@[simp] theorem within_claimForCopy {isMirror : Bool} :
    Within fp (claimForCopy site src dst pkg f isMirror) := by
  unfold claimForCopy
  split
  · apply within_ensureMirror.bind
    intro origin
    split
    · exact within_bail
    · exact within_pure
  · exact within_ensurePrivate

theorem within_copyByStream {sc : Sidecar} {companions : Companions} {bytes : Bytes}
    {isMirror : Bool} (source : fp.Drops src f) (target : fp.Drops dst f) :
    Within fp (copyByStream site src dst pkg f sc companions bytes isMirror) := by
  apply within_requireReplicationUnfenced.bind
  intro _
  apply within_claimForCopy.bind
  intro _
  apply (within_artifactLeg source target).bind
  intro leg
  split
  · exact within_pure
  · exact within_copyTruth (target.owns _ (by simp)) fun c => target.owns _ (by simp)

theorem within_installGate {sc : Sidecar} {isMirror : Bool} (owns : fp.Owns dst f .sidecar) :
    Within fp (installGate site src dst pkg f sc isMirror) := by
  apply (within_installFor owns).bind
  intro installed
  split
  · apply within_sidecarHoldsPrivate.bind
    intro holds
    split
    · exact within_bail
    · exact within_pure
  · exact within_pure

theorem within_copyByProvider {sc : Sidecar} {record : Record} {companions : Companions}
    {source : ArtifactSource} {isMirror : Bool} (origin : fp.Drops src f) (target : fp.Drops dst f) :
    Within fp (copyByProvider site src dst pkg f sc record companions source isMirror) := by
  apply within_requireReplicationUnfenced.bind
  intro _
  apply within_claimForCopy.bind
  intro _
  apply (within_installGate (target.owns _ (by simp))).bind
  intro installed
  apply (within_putCompanions fun c => target.owns _ (by simp)).bind
  intro changed
  apply (within_serverSideCopyArtifact (target.replaces _ (by simp))).attempt
  intro result
  split
  · exact within_pure
  · apply (within_verifySourceArtifact (origin.replaces _ (by simp))).bind
    intro bytes
    apply (within_artifactLeg origin target).bind
    intro leg
    split
    · exact within_pure
    · exact within_pure

theorem within_copyLive {record : Record} {source : ArtifactSource} (origin : fp.Drops src f)
    (target : fp.Drops dst f) : Within fp (copyLive site src dst pkg f record source) := by
  unfold copyLive
  split
  · exact within_bail
  · apply within_readSourceCompanions.bind
    intro companions
    dsimp only
    split
    · exact within_copyByProvider origin target
    · apply (within_verifySourceArtifact (origin.replaces _ (by simp))).bind
      intro bytes
      exact within_copyByStream origin target

/-! ### Supersedes -/

theorem within_replaceCompanion {c : Companion} {replace : Bool} {bytes : Option Bytes}
    (owns : fp.Owns i f (.companion c)) :
    Within fp (replaceCompanion site i pkg f c replace bytes) := by
  have loop (bytes : Bytes) (attempts : Nat) :
      Within fp (replaceCompanion.replaceLoop i pkg f c bytes attempts) := by
    induction attempts with
    | zero => exact within_bail
    | succ attempts ih =>
        apply within_get.bind
        intro stored
        split
        · apply (within_putIfAbsent owns.creates).bind
          intro created
          split
          · exact within_pure
          · exact ih
        · split
          · exact within_pure
          · apply (within_putIfMatch owns.replaces).bind
            intro replaced
            split
            · exact within_pure
            · exact ih
  cases bytes with
  | none =>
      rw [replaceCompanion]
      split
      · apply within_headExists.bind
        intro found
        split
        · apply Within.bind
          · apply within_deleteKeys
            intro k member
            rw [List.mem_singleton] at member
            exact member ▸ owns.replaces
          · exact fun _ => within_pure
        · exact within_pure
      · exact within_pure
  | some bytes =>
      rw [replaceCompanion]
      split
      · exact loop bytes _
      · exact within_putIfAbsentOrVerify owns.creates owns.replaces

@[simp] theorem within_replacesCompanions {sc : Sidecar} :
    Within fp (replacesCompanions dst pkg f sc) := by
  apply within_get.bind
  intro stored
  split
  · exact within_pure
  · split
    · exact within_pure
    · split
      · exact within_pure
      · split
        · exact within_pure
        · exact within_bail

theorem within_supersedeBody {sc : Sidecar} {bytes : Bytes}
    (evidence : ∀ h, fp.creates dst f (.quarantine h)) (body : fp.replaces dst f .body) :
    Within fp (supersedeBody site dst pkg f sc bytes) := by
  apply within_get.bind
  intro stored
  split
  · exact within_pure
  · split
    · exact within_pure
    · apply (within_quarantineBytes evidence).bind
      intro _
      apply (within_putIfMatch body).bind
      intro replaced
      split
      · exact within_verifyStoredSize.bind fun _ => within_pure
      · exact within_bail

theorem within_supersedeCreate {sc : Sidecar} {bytes : Bytes} (source : fp.Drops src f)
    (target : fp.Drops dst f) : Within fp (supersedeCreate site src dst pkg f sc bytes) := by
  apply (within_createArtifactVerified (target.creates _)).bind
  intro created
  split
  · exact within_pure
  · apply within_get.bind
    intro stored
    split
    · exact within_bail
    · split
      · exact within_pure
      · apply (within_freezeCopyRace source target).bind
        intro _
        apply Within.bind
        · apply within_deleteKeys
          intro k member
          rw [List.mem_singleton] at member
          exact member ▸ target.replaces _ (by simp)
        · exact fun _ => within_pure

theorem within_supersedeArtifact {sc : Sidecar} {bytes : Bytes} (source : fp.Drops src f)
    (target : fp.Drops dst f) : Within fp (supersedeArtifact site src dst pkg f sc bytes) := by
  apply (within_supersedeBody (fun h => target.creates _) (target.replaces _ (by simp))).bind
  intro present
  split
  · exact within_pure
  · exact within_supersedeCreate source target

theorem within_reassertPrecedence {bytes : Bytes} (drops : fp.Drops dst f) :
    Within fp (reassertPrecedence site dst pkg f bytes) := by
  apply within_headExists.bind
  intro frozen
  split
  · apply (within_quarantineBytes fun h => drops.creates _).bind
    intro _
    exact (within_freezeSide drops).bind fun _ => within_pure
  · apply within_headExists.bind
    intro tombstoned
    split
    · exact (within_tombstoneSide drops).bind fun _ => within_pure
    · apply within_deleteKeys
      intro k member
      rw [List.mem_singleton] at member
      exact member ▸ drops.replaces _ (by simp)

theorem within_publishSuperseding {sc : Sidecar} {companions : Companions} {bytes : Bytes}
    {replace : Bool} (source : fp.Drops src f) (target : fp.Drops dst f) :
    Within fp (publishSuperseding site src dst pkg f sc companions bytes replace) := by
  apply (within_put (target.replaces _ (by simp))).bind
  intro _
  apply (within_supersedeArtifact source target).bind
  intro present
  split
  · apply (within_installOrVerifySidecar (target.owns _ (by simp))).bind
    intro _
    apply Within.bind
    · apply within_deleteKeys
      intro k member
      rw [List.mem_singleton] at member
      exact member ▸ target.replaces _ (by simp)
    · intro _
      apply (within_replaceCompanion (target.owns _ (by simp))).bind
      intro _
      apply (within_replaceCompanion (target.owns _ (by simp))).bind
      intro _
      exact (within_reassertPrecedence target).bind fun _ => within_markDirty
  · exact within_pure

theorem within_supersedeRecord {record : Record} {source : ArtifactSource} (origin : fp.Drops src f)
    (target : fp.Drops dst f) : Within fp (supersedeRecord site src dst pkg f record source) := by
  apply within_requireReplicationUnfenced.bind
  intro _
  split
  · exact within_bail
  · split
    · exact within_bail
    · apply (within_verifySourceArtifact (origin.replaces _ (by simp))).bind
      intro bytes
      apply within_readSourceCompanions.bind
      intro companions
      apply within_ensurePrivate.bind
      intro _
      apply within_headExists.bind
      intro frozen
      split
      · apply (within_quarantineBytes fun h => target.creates _).bind
        intro _
        exact (within_freezeSide target).bind fun _ => within_markDirty
      · apply within_headExists.bind
        intro tombstoned
        split
        · apply (within_tombstoneSide target).bind
          intro changed
          split
          · exact within_markDirty
          · exact within_pure
        · apply within_replacesCompanions.bind
          intro replace
          exact within_publishSuperseding origin target

/-! ### The executor -/

variable {a b : ι} {ra rb : Record} {source : ArtifactSource}

theorem within_copyMissingCompanions (owns : ∀ c, fp.Owns dst f (.companion c)) :
    Within fp (copyMissingCompanions site src dst pkg f ra rb) := by
  have missing (c : Companion) (sourceHas destinationHas : Bool) :
      Within fp (copyMissingObject site src dst pkg f c sourceHas destinationHas) := by
    unfold copyMissingObject
    split
    · exact within_pure
    · apply within_get.bind
      intro stored
      split
      · exact within_bail
      · exact within_putIfAbsentOrVerify (owns c).creates (owns c).replaces
  exact (missing _ _ _).bind fun _ => (missing _ _ _).bind fun _ => within_pure

theorem within_repairSameShaCompanions (left : ∀ c, fp.Owns a f (.companion c))
    (right : ∀ c, fp.Owns b f (.companion c)) :
    Within fp (repairSameShaCompanions site a b pkg f ra rb) := by
  unfold repairSameShaCompanions
  split
  · split
    · split
      · exact (within_copyMissingCompanions right).bind fun _ => within_pure
      · exact (within_copyMissingCompanions left).bind fun _ => within_pure
      · apply (within_copyMissingCompanions right).bind
        intro _
        exact (within_copyMissingCompanions left).bind fun _ => within_pure
    · exact within_pure
  · exact within_pure

@[simp] theorem within_readPkgOrigin : Within fp (readPkgOrigin i) :=
  within_onClaim.bind fun _ => within_pure

@[simp] theorem within_sidecarOrigin {key : String} {sc : Sidecar} {fallback : Option Origin} :
    Within fp (sidecarOrigin key sc fallback : StoreM ι Origin) := by
  unfold sidecarOrigin
  repeat' split
  all_goals trivial

theorem within_adoptSidecarCas (left : fp.replaces a f .sidecar) (right : fp.replaces b f .sidecar) :
    Within fp (adoptSidecarCas site a b pkg f) := by
  unfold adoptSidecarCas
  generalize artifactKey pkg f ++ ".meta.json" = key
  induction originAttempts with
  | zero => exact within_bail
  | succ attempts ih =>
      apply within_get.bind
      intro _
      apply within_get.bind
      intro _
      apply within_readPkgOrigin.bind
      intro _
      apply within_readPkgOrigin.bind
      intro _
      split
      · split
        · exact within_bail
        · apply within_sidecarOrigin.bind
          intro _
          apply within_sidecarOrigin.bind
          intro _
          split
          · exact within_pure
          · apply (within_putIfMatch right).bind
            intro replaced
            split
            · exact within_pure
            · exact ih
          · apply (within_putIfMatch left).bind
            intro replaced
            split
            · exact within_pure
            · exact ih
      · exact within_bail

@[simp] theorem within_markDirtyIf {changed : Bool} : Within fp (markDirtyIf changed i) := by
  unfold markDirtyIf
  split
  · exact within_markDirty
  · exact within_pure

theorem within_applyVerdict {verdict : Verdict} (left : fp.Drops a f) (right : fp.Drops b f) :
    Within fp (applyVerdict site a b pkg f ra rb source verdict) := by
  have companions : Within fp (repairSameShaCompanions site a b pkg f ra rb) :=
    within_repairSameShaCompanions (fun c => left.owns _ (by simp)) fun c => right.owns _ (by simp)
  cases verdict with
  | noop =>
      apply companions.bind
      intro _
      exact within_markDirtyIf.bind fun _ => within_markDirtyIf
  | defer => exact within_pure
  | copy side =>
      cases side with
      | a => exact (within_copyLive left right).bind fun _ => within_markDirtyIf
      | b => exact (within_copyLive right left).bind fun _ => within_markDirtyIf
  | adoptSidecar side =>
      apply (within_adoptSidecarCas (left.replaces _ (by simp)) (right.replaces _ (by simp))).bind
      intro _
      apply companions.bind
      intro _
      exact within_markDirtyIf.bind fun _ => within_markDirtyIf
  | supersede side | quarantineLoser side =>
      cases side with
      | a => exact within_supersedeRecord left right
      | b => exact within_supersedeRecord right left
  | freeze | finishFreeze =>
      apply (within_freezeSide left).bind
      intro _
      apply (within_freezeSide right).bind
      intro _
      exact within_markDirty.bind fun _ => within_markDirty
  | propagateFreeze side =>
      cases side with
      | a => exact (within_freezeSide right).bind fun _ => within_markDirty
      | b => exact (within_freezeSide left).bind fun _ => within_markDirty
  | settleMirrorQuarantine =>
      apply (within_settleMirrorQuarantine left).bind
      intro _
      apply within_markDirtyIf.bind
      intro _
      exact (within_settleMirrorQuarantine right).bind fun _ => within_markDirtyIf
  | tombstone =>
      apply (within_tombstoneSide left).bind
      intro _
      apply within_markDirtyIf.bind
      intro _
      exact (within_tombstoneSide right).bind fun _ => within_markDirtyIf

theorem within_pairIntent {bracket : Bool} (within : Within fp program) :
    Within fp (pairIntent bracket i program) := by
  unfold pairIntent
  split
  · exact within_markCommit.attempt fun _ => within
  · exact within

theorem within_execute {verdict : Verdict} (left : fp.Drops a f) (right : fp.Drops b f) :
    Within fp (execute site a b pkg f ra rb verdict source) := by
  have intent (bracket : Bool) (i : ι) : Within fp (markIntentIf bracket i) := by
    unfold markIntentIf
    split
    · exact within_markIntent
    · exact within_pure
  apply within_requireReplicationUnfenced.bind
  intro _
  apply (intent _ _).bind
  intro _
  apply (intent _ _).attempt
  intro result
  split
  · exact within_pairIntent within_bail
  · apply Within.attempt
    · apply (within_clearSpentDemotionFence (left.replaces _ (by simp))).bind
      intro _
      apply (within_clearSpentDemotionFence (right.replaces _ (by simp))).bind
      intro _
      exact (within_applyVerdict left right).bind fun _ => within_pure
    · exact fun _ => within_pairIntent (within_pairIntent within_done)

end Pypiron.Replicate
