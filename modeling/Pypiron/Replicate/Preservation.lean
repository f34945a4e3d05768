import Pypiron.Replicate.Frame
import Pypiron.Replicate.Verdicts

/-! No byte loss outside deletes: wherever an executor is cut off, every body it
found is still under its canonical key or preserved on the same bucket. -/
namespace Pypiron.Replicate
open Program StoreM
variable {ι : Type} [DecidableEq ι] {site : Site ι} {s₀ s t : Fleet ι} {i src dst : ι}
variable {pkg f : String}

/-- Every body of the filename in `s₀` stands on its bucket in `s`. -/
def Preserved (site : Site ι) (f : String) (s₀ s : Fleet ι) : Prop :=
  ∀ i bytes, s₀.read i f .body = some bytes → s.read i f .body = some bytes ∨
    s.read i f (.quarantine (sha12 (site.encoding.sha256 bytes))) = some bytes

/-- The body under the canonical key, if any, also stands as evidence. -/
def Kept (site : Site ι) (i : ι) (f : String) (s : Fleet ι) : Prop :=
  ∀ bytes, s.read i f .body = some bytes →
    s.read i f (.quarantine (sha12 (site.encoding.sha256 bytes))) = some bytes

/-- Leaves bodies and evidence of the filename in place. -/
def harmless (f : String) : Footprint ι where
  creates _ _ _ := True
  replaces _ g k := ¬(g = f ∧ (k = .body ∨ ∃ h, k = .quarantine h))

omit [DecidableEq ι] in
theorem Preserved.refl : Preserved site f s s := fun _ _ => Or.inl

omit [DecidableEq ι] in
theorem Kept.vacant (vacant : s.read i f .body = none) : Kept site i f s := by
  intro bytes found
  rw [vacant] at found
  contradiction

theorem Preserved.within {α : Type} {program : StoreM ι α} (within : Within (harmless f) program)
    (preserved : Preserved site f s₀ s) :
    Throughout (apply site) (Preserved site f s₀) program s := by
  intro t run i bytes found
  rcases preserved i bytes found with body | evidence
  · exact Or.inl (within.stays run (by simp [harmless]) body)
  · exact Or.inr (within.stays run (by simp [harmless]) evidence)

theorem Preserved.write_body {content : Option Bytes} (kept : Kept site i f s)
    (preserved : Preserved site f s₀ s) : Preserved site f s₀ (s.write i f .body content) := by
  intro j bytes found
  by_cases same : j = i
  · subst same
    right
    rw [read_write_kind (by simp)]
    rcases preserved j bytes found with body | evidence
    · exact kept bytes body
    · exact evidence
  · rw [read_write_bucket same, read_write_bucket same]
    exact preserved j bytes found

theorem ends_quarantineBytes {bytes : Bytes} {sha : String}
    (ended : Ends (apply site) (quarantineBytes site i pkg f bytes) s (.ok sha) t) :
    sha = site.encoding.sha256 bytes ∧
      t.read i f (.quarantine (sha12 (site.encoding.sha256 bytes))) = some bytes := by
  simp only [quarantineBytes, ends_bind_ok, ends_putIfAbsent] at ended
  obtain ⟨created, u, ⟨rfl, vacant, rfl⟩ | ⟨rfl, taken, rfl⟩, rest⟩ := ended
  · obtain ⟨same, rfl⟩ := ends_done.mp rest
    cases same
    exact ⟨rfl, read_write_self _⟩
  · rw [if_neg (by simp), ends_bind_ok] at rest
    obtain ⟨stored, v, got, rest⟩ := rest
    obtain ⟨rfl, rfl⟩ := ends_get.mp got
    split at rest
    · exact absurd rest ends_bail
    · rename_i existing found
      split at rest
      · rename_i same
        rw [same] at found
        obtain ⟨same, rfl⟩ := ends_done.mp rest
        cases same
        exact ⟨rfl, found⟩
      · exact absurd rest ends_bail

theorem ends_quarantine {preserved : Option String}
    (ended : Ends (apply site) (quarantine site i pkg f) s (.ok preserved) t) :
    preserved = (s.read i f .body).map site.encoding.sha256 ∧ Kept site i f t := by
  simp only [quarantine, ends_bind_ok] at ended
  obtain ⟨stored, u, got, rest⟩ := ended
  obtain ⟨rfl, rfl⟩ := ends_get.mp got
  split at rest
  · rename_i vacant
    obtain ⟨same, rfl⟩ := ends_done.mp rest
    cases same
    exact ⟨by rw [vacant]; rfl, Kept.vacant vacant⟩
  · rename_i bytes found
    simp only [ends_bind_ok, pure_eq, ends_done, Except.ok.injEq] at rest
    obtain ⟨sha, v, quarantined, rfl, rfl⟩ := rest
    obtain ⟨rfl, evidence⟩ := ends_quarantineBytes quarantined
    constructor
    · rw [found]
      rfl
    · let fp : Footprint ι := ⟨fun _ _ k => ∃ h, k = .quarantine h, fun _ _ _ => False⟩
      have within : Within fp (quarantineBytes site i pkg f bytes) :=
        within_quarantineBytes fun h => ⟨h, rfl⟩
      have body : t.read i f .body = u.read i f .body :=
        within.read quarantined.cut (by simp [fp]) id
      intro standing present
      rw [body, found] at present
      cases present
      exact evidence

theorem Kept.within {α : Type} {program : StoreM ι α} {fp : Footprint ι} (kept : Kept site i f s)
    (within : Within fp program) (create : ¬ fp.creates i f .body)
    (replace : ∀ k, k = .body ∨ (∃ h, k = .quarantine h) → ¬ fp.replaces i f k)
    (run : Cut (apply site) program s t) : Kept site i f t := by
  intro bytes found
  rw [within.read run create (replace _ (Or.inl rfl))] at found
  exact within.stays run (replace _ (Or.inr ⟨_, rfl⟩)) (kept bytes found)

/-- Dropping objects beside standing evidence loses nothing. -/
theorem Preserved.deleteKeys {kinds : List Kind} (evident : ∀ h, Kind.quarantine h ∉ kinds)
    (kept : Kept site i f s) (preserved : Preserved site f s₀ s) :
    Throughout (apply site) (Preserved site f s₀) (deleteKeys i f kinds) s := by
  induction kinds generalizing s with
  | nil => exact Throughout.done preserved
  | cons k rest ih =>
      have next : Preserved site f s₀ (s.write i f k none) := by
        by_cases body : k = .body
        · subst body
          exact preserved.write_body kept
        · intro j bytes found
          rw [read_write_kind (Ne.symm body), read_write_kind]
          · exact preserved j bytes found
          · rintro rfl
            exact evident _ List.mem_cons_self
      have still : Kept site i f (s.write i f k none) := by
        intro bytes found
        have other : ∀ h, Kind.quarantine h ≠ k := by
          rintro h rfl
          exact evident h List.mem_cons_self
        rw [read_write_kind (other _)]
        by_cases body : k = .body
        · subst body
          simp at found
        · rw [read_write_kind (Ne.symm body)] at found
          exact kept bytes found
      apply Throughout.bind
      · exact Throughout.request preserved next
      · intro _ m deleted _
        obtain rfl := ends_delete.mp deleted
        exact ih (fun h member => evident h (List.mem_cons_of_mem k member)) still next

theorem quarantine_not_mem_recordObjectKeys (h : String) : Kind.quarantine h ∉ recordObjectKeys := by
  simp [recordObjectKeys]

theorem Preserved.freezeSide (preserved : Preserved site f s₀ s) :
    Throughout (apply site) (Preserved site f s₀) (freezeSide site i pkg f) s := by
  apply Throughout.bind
  · exact preserved.within (within_putIfAbsent trivial)
  · intro _ m _ preserved
    apply Throughout.bind
    · exact preserved.within (within_quarantine fun _ => trivial)
    · intro _ m quarantined preserved
      have kept := (ends_quarantine quarantined).2
      let fp : Footprint ι := ⟨fun _ _ k => k = .fence .tombstone, fun _ _ _ => False⟩
      have written : Within fp (tombstoneWrite i f) := within_tombstoneWrite rfl
      apply Throughout.bind
      · exact preserved.within (within_tombstoneWrite trivial)
      · intro _ m tombstoned preserved
        have kept := kept.within written (by simp [fp]) (fun _ _ => id) tombstoned.cut
        apply Throughout.bind
        · exact preserved.deleteKeys (by simp [recordObjectKeys]) kept
        · exact fun _ _ _ preserved => Throughout.done preserved

theorem Preserved.freezeCopyRace (preserved : Preserved site f s₀ s) :
    Throughout (apply site) (Preserved site f s₀) (freezeCopyRace site src dst pkg f) s := by
  apply Throughout.bind
  · exact preserved.within within_markIntent
  · intro _ m _ preserved
    apply Throughout.attempt
    · apply Throughout.bind preserved.freezeSide
      intro _ m _ preserved
      apply Throughout.bind preserved.freezeSide
      intro _ m _ preserved
      exact preserved.within within_markDirty
    · intro result m _ preserved
      exact preserved.within (within_markCommit.attempt fun _ => within_done)

theorem Preserved.settleMirrorQuarantine (preserved : Preserved site f s₀ s) :
    Throughout (apply site) (Preserved site f s₀) (settleMirrorQuarantine site i pkg f) s := by
  apply Throughout.bind (preserved.within within_ensurePrivate)
  intro _ m _ preserved
  apply Throughout.bind (preserved.within within_demotionResolvedByPrivateTruth)
  intro resolved m _ preserved
  split
  · exact Throughout.done preserved
  · apply Throughout.bind (preserved.within (within_putIfAbsent trivial))
    intro created m _ preserved
    apply Throughout.bind (preserved.within (within_quarantine fun _ => trivial))
    intro evidence m quarantined preserved
    let fp : Footprint ι := ⟨fun _ _ _ => False, fun _ _ _ => False⟩
    have kept := (ends_quarantine quarantined).2
    apply Throughout.bind (preserved.within within_headExists)
    intro sidecarLeft m headed preserved
    have within : Within fp (headExists i f .sidecar) := within_headExists
    have kept := kept.within within id (fun _ _ => id) headed.cut
    apply Throughout.bind (preserved.within within_settleableBody)
    intro settleable m settled preserved
    have within : Within fp (settleableBody site i f evidence) := within_settleableBody
    have kept := kept.within within id (fun _ _ => id) settled.cut
    split
    · exact Throughout.done preserved
    · apply Throughout.bind
      · apply preserved.deleteKeys _ kept
        intro h
        split
        · exact quarantine_not_mem_recordObjectKeys h
        · exact fun member => quarantine_not_mem_recordObjectKeys h (List.mem_of_mem_tail member)
      · exact fun _ _ _ preserved => Throughout.done preserved

/-- A conditional replacement of the very bytes just preserved. -/
theorem Preserved.replaceKept {current bytes : Bytes} {sha : String}
    (quarantined : Ends (apply site) (quarantineBytes site i pkg f current) s (.ok sha) t)
    (preserved : Preserved site f s₀ t) :
    Throughout (apply site) (Preserved site f s₀) (putIfMatch i f .body current bytes) t := by
  apply Throughout.request preserved
  simp only [apply]
  split
  · rename_i found
    apply preserved.write_body
    intro standing present
    cases found.symm.trans present
    exact (ends_quarantineBytes quarantined).2
  · exact preserved

theorem Preserved.repairDebris {sc : Sidecar} {bytes : Bytes} (preserved : Preserved site f s₀ s) :
    Throughout (apply site) (Preserved site f s₀) (repairDebris site dst pkg f sc bytes) s := by
  apply Throughout.bind (preserved.within within_get)
  intro stored m _ preserved
  split
  · exact Throughout.done preserved
  · split
    · exact Throughout.done preserved
    · apply Throughout.bind (preserved.within within_sidecarStillNames)
      intro names m _ preserved
      split
      · apply Throughout.bind (preserved.within (within_quarantineBytes fun _ => trivial))
        intro sha m quarantined preserved
        apply Throughout.bind (preserved.replaceKept quarantined)
        intro replaced m _ preserved
        split
        · exact preserved.within (within_verifyStoredSize.bind fun _ => within_pure)
        · exact Throughout.done preserved
      · exact Throughout.done preserved

theorem Preserved.artifactLeg {sc : Sidecar} {bytes : Bytes} {published : Bool}
    (preserved : Preserved site f s₀ s) : Throughout (apply site) (Preserved site f s₀)
      (artifactLeg site src dst pkg f sc bytes published) s := by
  apply Throughout.bind preserved.repairDebris
  intro changed m _ preserved
  apply Throughout.bind (preserved.within (within_createArtifactVerified trivial))
  intro created m _ preserved
  split
  · exact Throughout.done preserved
  · apply Throughout.bind (preserved.within within_get)
    intro raced m _ preserved
    split
    · exact Throughout.done preserved
    · dsimp only
      split
      · exact Throughout.done preserved
      · apply Throughout.bind (preserved.within within_describedByOwnSidecar)
        intro described m _ preserved
        split
        · exact Throughout.done preserved
        · apply Throughout.bind preserved.freezeCopyRace
          exact fun _ _ _ preserved => Throughout.done preserved

/-- The objects a copy publishes beside the body. -/
def besideBody : Footprint ι where
  creates _ _ k := k = .sidecar ∨ ∃ c, k = .companion c
  replaces _ _ k := k = .sidecar ∨ ∃ c, k = .companion c

omit [DecidableEq ι] in
theorem besideBody_sidecar : (besideBody : Footprint ι).Owns i f .sidecar :=
  ⟨Or.inl rfl, Or.inl rfl⟩

omit [DecidableEq ι] in
theorem besideBody_companion (c : Companion) : (besideBody : Footprint ι).Owns i f (.companion c) :=
  ⟨Or.inr ⟨c, rfl⟩, Or.inr ⟨c, rfl⟩⟩

omit [DecidableEq ι] in
theorem harmless_sidecar : (harmless f : Footprint ι).Owns i f .sidecar :=
  ⟨trivial, by simp [harmless]⟩

omit [DecidableEq ι] in
theorem harmless_companion (c : Companion) : (harmless f : Footprint ι).Owns i f (.companion c) :=
  ⟨trivial, by simp [harmless]⟩

theorem besideBody_body {α : Type} {program : StoreM ι α} (within : Within besideBody program)
    (run : Cut (apply site) program s t) : t.read i f .body = s.read i f .body :=
  within.read run (by simp [besideBody]) (by simp [besideBody])

theorem Preserved.serverSideCopyArtifact {sc : Sidecar} (vacant : s.read dst f .body = none)
    (preserved : Preserved site f s₀ s) :
    Throughout (apply site) (Preserved site f s₀) (serverSideCopyArtifact src dst pkg f sc) s := by
  apply Throughout.bind
  · apply Throughout.request preserved
    simp only [apply]
    split
    · exact preserved
    · exact preserved
    · exact preserved.write_body (Kept.vacant vacant)
  · intro outcome m _ preserved
    split
    · exact Throughout.done preserved
    · apply preserved.within
      apply within_verifyStoredSize.bind
      intro _
      split
      · exact within_bail
      · exact within_pure

theorem Preserved.copyByStream {sc : Sidecar} {companions : Companions} {bytes : Bytes}
    {isMirror : Bool} (preserved : Preserved site f s₀ s) :
    Throughout (apply site) (Preserved site f s₀)
      (copyByStream site src dst pkg f sc companions bytes isMirror) s := by
  apply Throughout.bind (preserved.within within_requireReplicationUnfenced)
  intro _ m _ preserved
  apply Throughout.bind (preserved.within within_claimForCopy)
  intro _ m _ preserved
  apply Throughout.bind preserved.artifactLeg
  intro leg m _ preserved
  split
  · exact Throughout.done preserved
  · exact preserved.within (within_copyTruth harmless_sidecar harmless_companion)

/-- Only the provider's copy verb overwrites blindly, and it finds the key empty. -/
theorem Preserved.copyByProvider {sc : Sidecar} {record : Record} {companions : Companions}
    {source : ArtifactSource} {isMirror : Bool} (vacant : s.read dst f .body = none)
    (preserved : Preserved site f s₀ s) : Throughout (apply site) (Preserved site f s₀)
      (copyByProvider site src dst pkg f sc record companions source isMirror) s := by
  apply Throughout.bind (preserved.within within_requireReplicationUnfenced)
  intro _ m unfenced preserved
  have unfencedWithin : Within besideBody (requireReplicationUnfenced site) :=
    within_requireReplicationUnfenced
  have vacant : m.read dst f .body = none := by rw [besideBody_body unfencedWithin unfenced.cut, vacant]
  apply Throughout.bind (preserved.within within_claimForCopy)
  intro _ m claimed preserved
  have claimWithin : Within besideBody (claimForCopy site src dst pkg f isMirror) :=
    within_claimForCopy
  have vacant : m.read dst f .body = none := by rw [besideBody_body claimWithin claimed.cut, vacant]
  apply Throughout.bind (preserved.within (within_installGate harmless_sidecar))
  intro installed m gated preserved
  have vacant : m.read dst f .body = none := by
    rw [besideBody_body (within_installGate besideBody_sidecar) gated.cut, vacant]
  apply Throughout.bind (preserved.within (within_putCompanions harmless_companion))
  intro changed m put preserved
  have vacant : m.read dst f .body = none := by
    rw [besideBody_body (within_putCompanions besideBody_companion) put.cut, vacant]
  apply Throughout.attempt (preserved.serverSideCopyArtifact vacant)
  intro result m _ preserved
  split
  · exact Throughout.done preserved
  · apply Throughout.bind (preserved.within (within_verifySourceArtifact harmless_sidecar.replaces))
    intro bytes m _ preserved
    apply Throughout.bind preserved.artifactLeg
    intro leg m _ preserved
    split
    · exact Throughout.done preserved
    · exact Throughout.done preserved

theorem Preserved.copyLive {record : Record} {source : ArtifactSource}
    (vacant : s.read dst f .body = none) (preserved : Preserved site f s₀ s) :
    Throughout (apply site) (Preserved site f s₀) (copyLive site src dst pkg f record source) s := by
  unfold Replicate.copyLive
  split
  · exact Throughout.done preserved
  · apply Throughout.bind (preserved.within within_readSourceCompanions)
    intro companions m read preserved
    have readWithin : Within besideBody (readSourceCompanions src pkg f record) :=
      within_readSourceCompanions
    have vacant : m.read dst f .body = none := by rw [besideBody_body readWithin read.cut, vacant]
    dsimp only
    split
    · exact preserved.copyByProvider vacant
    · apply Throughout.bind (preserved.within (within_verifySourceArtifact harmless_sidecar.replaces))
      intro bytes m _ preserved
      exact preserved.copyByStream

/-! ### Supersedes -/

theorem Preserved.supersedeBody {sc : Sidecar} {bytes : Bytes} (preserved : Preserved site f s₀ s) :
    Throughout (apply site) (Preserved site f s₀) (supersedeBody site dst pkg f sc bytes) s := by
  apply Throughout.bind (preserved.within within_get)
  intro stored m _ preserved
  split
  · exact Throughout.done preserved
  · split
    · exact Throughout.done preserved
    · apply Throughout.bind (preserved.within (within_quarantineBytes fun _ => trivial))
      intro sha m quarantined preserved
      apply Throughout.bind (preserved.replaceKept quarantined)
      intro replaced m _ preserved
      split
      · exact preserved.within (within_verifyStoredSize.bind fun _ => within_pure)
      · exact Throughout.done preserved

theorem Preserved.supersedeArtifact {sc : Sidecar} {bytes : Bytes}
    (preserved : Preserved site f s₀ s) :
    Throughout (apply site) (Preserved site f s₀) (supersedeArtifact site src dst pkg f sc bytes) s := by
  apply Throughout.bind preserved.supersedeBody
  intro present m _ preserved
  split
  · exact Throughout.done preserved
  · apply Throughout.bind (preserved.within (within_createArtifactVerified trivial))
    intro created m _ preserved
    split
    · exact Throughout.done preserved
    · apply Throughout.bind (preserved.within within_get)
      intro raced m _ preserved
      split
      · exact Throughout.done preserved
      · split
        · exact Throughout.done preserved
        · apply Throughout.bind preserved.freezeCopyRace
          intro _ m _ preserved
          apply preserved.within
          apply Within.bind
          · apply within_deleteKeys
            simp [harmless]
          · exact fun _ => within_pure

/-- The artifact leg of a supersede that goes on: it wrote the body and perhaps
evidence, nothing else. -/
def artifactOnly (dst : ι) (f : String) : Footprint ι where
  creates j g k := j = dst ∧ g = f ∧ (k = .body ∨ ∃ h, k = .quarantine h)
  replaces j g k := j = dst ∧ g = f ∧ k = .body

theorem ends_supersedeArtifact_read {sc : Sidecar} {bytes : Bytes} {j : ι} {g : String} {k : Kind}
    (ended : Ends (apply site) (supersedeArtifact site src dst pkg f sc bytes) s (.ok true) t)
    (other : ¬(j = dst ∧ g = f ∧ (k = .body ∨ ∃ h, k = .quarantine h))) :
    t.read j g k = s.read j g k := by
  have untouched {α : Type} {program : StoreM ι α} {s t : Fleet ι}
      (within : Within (artifactOnly dst f) program) (run : Cut (apply site) program s t) :
      t.read j g k = s.read j g k :=
    within.read run other fun ⟨bucket, file, kind⟩ => other ⟨bucket, file, Or.inl kind⟩
  simp only [supersedeArtifact, ends_bind_ok] at ended
  obtain ⟨present, m, body, rest⟩ := ended
  have first : m.read j g k = s.read j g k :=
    untouched (within_supersedeBody (fun h => ⟨rfl, rfl, Or.inr ⟨h, rfl⟩⟩) ⟨rfl, rfl, rfl⟩) body.cut
  rw [← first]
  split at rest
  · obtain ⟨-, rfl⟩ := ends_done.mp rest
    rfl
  · simp only [supersedeCreate, ends_bind_ok] at rest
    obtain ⟨created, u, create, rest⟩ := rest
    have second : u.read j g k = m.read j g k :=
      untouched (within_createArtifactVerified ⟨rfl, rfl, Or.inl rfl⟩) create.cut
    rw [← second]
    split at rest
    · obtain ⟨-, rfl⟩ := ends_done.mp rest
      rfl
    · rw [ends_bind_ok] at rest
      obtain ⟨raced, v, got, rest⟩ := rest
      obtain ⟨rfl, rfl⟩ := ends_get.mp got
      split at rest
      · exact absurd rest ends_bail
      · split at rest
        · obtain ⟨-, rfl⟩ := ends_done.mp rest
          rfl
        · simp only [ends_bind_ok, pure_eq, ends_done] at rest
          obtain ⟨_, _, _, _, _, _, different, -⟩ := rest
          simp at different

theorem Preserved.reassertPrecedence {bytes : Bytes} (alive : s.read dst f (.fence .tombstone) = none)
    (preserved : Preserved site f s₀ s) :
    Throughout (apply site) (Preserved site f s₀) (reassertPrecedence site dst pkg f bytes) s := by
  apply Throughout.bind (preserved.within within_headExists)
  intro frozen m headed preserved
  obtain ⟨rfl, rfl⟩ := ends_headExists.mp headed
  split
  · apply Throughout.bind (preserved.within (within_quarantineBytes fun _ => trivial))
    intro _ m _ preserved
    apply Throughout.bind preserved.freezeSide
    exact fun _ _ _ preserved => Throughout.done preserved
  · apply Throughout.bind (preserved.within within_headExists)
    intro tombstoned m headed preserved
    obtain ⟨rfl, rfl⟩ := ends_headExists.mp headed
    rw [alive]
    apply preserved.within
    apply within_deleteKeys
    simp [harmless]

/-- What a supersede writes once its body is in place. -/
def afterBody : Footprint ι where
  creates _ _ k := k = .sidecar ∨ k = .superseding ∨ ∃ c, k = .companion c
  replaces _ _ k := k = .sidecar ∨ k = .superseding ∨ ∃ c, k = .companion c

theorem Preserved.publishSuperseding {sc : Sidecar} {companions : Companions} {bytes : Bytes}
    {replace : Bool} (alive : s.read dst f (.fence .tombstone) = none)
    (preserved : Preserved site f s₀ s) : Throughout (apply site) (Preserved site f s₀)
      (publishSuperseding site src dst pkg f sc companions bytes replace) s := by
  have fence {α : Type} {program : StoreM ι α} {s t : Fleet ι}
      (within : Within afterBody program) (run : Cut (apply site) program s t) :
      t.read dst f (.fence .tombstone) = s.read dst f (.fence .tombstone) :=
    within.read run (by simp [afterBody]) (by simp [afterBody])
  apply Throughout.bind (preserved.within (within_put (by simp [harmless])))
  intro _ m declared preserved
  have alive : m.read dst f (.fence .tombstone) = none := by
    rw [fence (within_put (Or.inr (Or.inl rfl))) declared.cut, alive]
  apply Throughout.bind preserved.supersedeArtifact
  intro present m artifact preserved
  split
  · rename_i done
    subst done
    have alive : m.read dst f (.fence .tombstone) = none := by
      rw [ends_supersedeArtifact_read artifact (by simp), alive]
    apply Throughout.bind (preserved.within (within_installOrVerifySidecar harmless_sidecar))
    intro _ m installed preserved
    have alive : m.read dst f (.fence .tombstone) = none := by
      rw [fence (within_installOrVerifySidecar ⟨Or.inl rfl, Or.inl rfl⟩) installed.cut, alive]
    have marker : Within afterBody (StoreM.deleteKeys dst f [.superseding]) :=
      within_deleteKeys (by simp [afterBody])
    apply Throughout.bind (preserved.within (within_deleteKeys (by simp [harmless])))
    intro _ m dropped preserved
    have alive : m.read dst f (.fence .tombstone) = none := by rw [fence marker dropped.cut, alive]
    have companion (c : Companion) : (afterBody : Footprint ι).Owns dst f (.companion c) :=
      ⟨Or.inr (Or.inr ⟨c, rfl⟩), Or.inr (Or.inr ⟨c, rfl⟩)⟩
    apply Throughout.bind (preserved.within (within_replaceCompanion (harmless_companion _)))
    intro _ m metadata preserved
    have alive : m.read dst f (.fence .tombstone) = none := by
      rw [fence (within_replaceCompanion (companion _)) metadata.cut, alive]
    apply Throughout.bind (preserved.within (within_replaceCompanion (harmless_companion _)))
    intro _ m provenance preserved
    have alive : m.read dst f (.fence .tombstone) = none := by
      rw [fence (within_replaceCompanion (companion _)) provenance.cut, alive]
    apply Throughout.bind (preserved.reassertPrecedence alive)
    exact fun _ _ _ preserved => preserved.within within_markDirty
  · exact Throughout.done preserved

theorem Preserved.supersedeRecord {record : Record} {source : ArtifactSource}
    (alive : s.read dst f (.fence .tombstone) = none) (preserved : Preserved site f s₀ s) :
    Throughout (apply site) (Preserved site f s₀)
      (supersedeRecord site src dst pkg f record source) s := by
  have fence {α : Type} {program : StoreM ι α} {s t : Fleet ι}
      (within : Within afterBody program) (run : Cut (apply site) program s t) :
      t.read dst f (.fence .tombstone) = s.read dst f (.fence .tombstone) :=
    within.read run (by simp [afterBody]) (by simp [afterBody])
  apply Throughout.bind (preserved.within within_requireReplicationUnfenced)
  intro _ m unfenced preserved
  have alive : m.read dst f (.fence .tombstone) = none := by
    rw [fence within_requireReplicationUnfenced unfenced.cut, alive]
  split
  · exact Throughout.done preserved
  · split
    · exact Throughout.done preserved
    · apply Throughout.bind (preserved.within (within_verifySourceArtifact harmless_sidecar.replaces))
      intro bytes m verified preserved
      have alive : m.read dst f (.fence .tombstone) = none := by
        rw [fence (within_verifySourceArtifact (Or.inl rfl)) verified.cut, alive]
      apply Throughout.bind (preserved.within within_readSourceCompanions)
      intro companions m read preserved
      have alive : m.read dst f (.fence .tombstone) = none := by
        rw [fence within_readSourceCompanions read.cut, alive]
      apply Throughout.bind (preserved.within within_ensurePrivate)
      intro _ m claimed preserved
      have alive : m.read dst f (.fence .tombstone) = none := by
        rw [fence within_ensurePrivate claimed.cut, alive]
      apply Throughout.bind (preserved.within within_headExists)
      intro frozen m headed preserved
      obtain ⟨rfl, rfl⟩ := ends_headExists.mp headed
      split
      · apply Throughout.bind (preserved.within (within_quarantineBytes fun _ => trivial))
        intro _ m _ preserved
        apply Throughout.bind preserved.freezeSide
        exact fun _ _ _ preserved => preserved.within within_markDirty
      · apply Throughout.bind (preserved.within within_headExists)
        intro tombstoned m headed preserved
        obtain ⟨rfl, rfl⟩ := ends_headExists.mp headed
        rw [alive]
        apply Throughout.bind (preserved.within within_replacesCompanions)
        intro replace m replaces preserved
        have alive : m.read dst f (.fence .tombstone) = none := by
          rw [fence within_replacesCompanions replaces.cut, alive]
        exact preserved.publishSuperseding alive

/-! ### Verdicts -/

/-- The two fences that bar a filename for good, with the body and the evidence. -/
def lasting : Footprint ι where
  creates _ _ _ := False
  replaces _ _ k := k = .fence .mirrorQuarantined

theorem Preserved.applyVerdict {a b : ι} {ra rb : Record} {verdict : Verdict}
    {source : ArtifactSource} (spared : verdict ≠ .tombstone)
    (vacant : ∀ side, verdict = .copy side → s.read (side.other.pick a b) f .body = none)
    (alive : ∀ side, verdict = .supersede side ∨ verdict = .quarantineLoser side →
      s.read (side.other.pick a b) f (.fence .tombstone) = none)
    (preserved : Preserved site f s₀ s) : Throughout (apply site) (Preserved site f s₀)
      (applyVerdict site a b pkg f ra rb source verdict) s := by
  have companions : Within (harmless f) (repairSameShaCompanions site a b pkg f ra rb) :=
    within_repairSameShaCompanions harmless_companion harmless_companion
  cases verdict with
  | noop =>
      apply preserved.within
      apply companions.bind
      intro _
      exact within_markDirtyIf.bind fun _ => within_markDirtyIf
  | defer => exact Throughout.done preserved
  | copy side =>
      have vacant := vacant side rfl
      cases side with
      | a =>
          apply Throughout.bind (preserved.copyLive vacant)
          exact fun _ _ _ preserved => preserved.within within_markDirtyIf
      | b =>
          apply Throughout.bind (preserved.copyLive vacant)
          exact fun _ _ _ preserved => preserved.within within_markDirtyIf
  | adoptSidecar side =>
      apply preserved.within
      apply (within_adoptSidecarCas harmless_sidecar.replaces harmless_sidecar.replaces).bind
      intro _
      apply companions.bind
      intro _
      exact within_markDirtyIf.bind fun _ => within_markDirtyIf
  | supersede side =>
      have alive := alive side (Or.inl rfl)
      cases side with
      | a => exact preserved.supersedeRecord alive
      | b => exact preserved.supersedeRecord alive
  | quarantineLoser side =>
      have alive := alive side (Or.inr rfl)
      cases side with
      | a => exact preserved.supersedeRecord alive
      | b => exact preserved.supersedeRecord alive
  | freeze | finishFreeze =>
      apply Throughout.bind preserved.freezeSide
      intro _ m _ preserved
      apply Throughout.bind preserved.freezeSide
      intro _ m _ preserved
      exact preserved.within (within_markDirty.bind fun _ => within_markDirty)
  | propagateFreeze side =>
      apply Throughout.bind preserved.freezeSide
      exact fun _ _ _ preserved => preserved.within within_markDirty
  | settleMirrorQuarantine =>
      apply Throughout.bind preserved.settleMirrorQuarantine
      intro _ m _ preserved
      apply Throughout.bind (preserved.within within_markDirtyIf)
      intro _ m _ preserved
      apply Throughout.bind preserved.settleMirrorQuarantine
      exact fun _ _ _ preserved => preserved.within within_markDirtyIf
  | tombstone => exact absurd rfl spared

omit [DecidableEq ι] in
theorem recordOf_unfenced (unfenced : (recordOf s i f).Unfenced) :
    s.read i f (.fence .tombstone) = none := by
  simpa [recordOf, Record.fromListing, Suffix.kind] using unfenced.2

omit [DecidableEq ι] in
theorem recordOf_vacant (vacant : (recordOf s i f).hasArtifact = false) :
    s.read i f .body = none := by
  simpa [recordOf, Record.fromListing, Suffix.kind] using vacant

omit [DecidableEq ι] in
theorem decided_vacant {a b : ι} {side : Side}
    (copies : decide site.encoding (recordOf s a f) (recordOf s b f) = .copy side) :
    s.read (side.other.pick a b) f .body = none := by
  obtain ⟨-, debris, absent⟩ := decide_copy copies
  cases side with
  | a => exact recordOf_vacant (classifyRecord_absent absent).2.1
  | b => exact recordOf_vacant (classifyRecord_absent absent).2.1

omit [DecidableEq ι] in
theorem decided_alive {a b : ι} {side : Side}
    (replaces : decide site.encoding (recordOf s a f) (recordOf s b f) = .supersede side ∨
      decide site.encoding (recordOf s a f) (recordOf s b f) = .quarantineLoser side) :
    s.read (side.other.pick a b) f (.fence .tombstone) = none := by
  have unfenced : (side.other.pick (recordOf s a f) (recordOf s b f)).Unfenced := by
    rcases replaces with supersedes | ordered
    · obtain ⟨_, _, -, ⟨_, quarantined⟩ | ⟨_, _, live, -⟩⟩ := decide_supersede supersedes
      · exact (classifyRecord_quarantinedMirror quarantined).1
      · exact (classifyRecord_live live).1
    · obtain ⟨_, _, _, _, -, live, -⟩ := decide_quarantineLoser ordered
      exact (classifyRecord_live live).1
  cases side with
  | a => exact recordOf_unfenced unfenced
  | b => exact recordOf_unfenced unfenced

theorem Preserved.verdictBody {a b : ι} {source : ArtifactSource} {verdict : Verdict}
    (decided : verdict = decide site.encoding (recordOf s a f) (recordOf s b f))
    (spared : verdict ≠ .tombstone) (preserved : Preserved site f s₀ s) :
    Throughout (apply site) (Preserved site f s₀)
      (verdictBody site a b pkg f (recordOf s a f) (recordOf s b f) verdict source) s := by
  have cleared (i : ι) (record : Record) :
      Within (harmless f) (clearSpentDemotionFence i f record) :=
    within_clearSpentDemotionFence (by simp [harmless])
  have lasts {i j : ι} {record : Record} {s t : Fleet ι} {k : Kind}
      (run : Cut (apply site) (clearSpentDemotionFence i f record) s t)
      (other : k ≠ .fence .mirrorQuarantined) : t.read j f k = s.read j f k := by
    have within : Within lasting (clearSpentDemotionFence i f record) :=
      within_clearSpentDemotionFence rfl
    exact within.read run id (by simpa [lasting] using other)
  apply Throughout.bind (preserved.within (cleared a _))
  intro _ m first preserved
  apply Throughout.bind (preserved.within (cleared b _))
  intro _ u second preserved
  apply Throughout.bind
  · apply preserved.applyVerdict spared
    · intro side copies
      rw [lasts second.cut (by simp), lasts first.cut (by simp)]
      exact decided_vacant (decided ▸ copies)
    · intro side replaces
      rw [lasts second.cut (by simp), lasts first.cut (by simp)]
      exact decided_alive (decided ▸ replaces)
  · exact fun _ _ _ preserved => Throughout.done preserved

/-- Wherever the executor of a verdict other than a tombstone is cut off, every
body the filename had stands on its own bucket, under its canonical key or as a
quarantine object with exactly those bytes. -/
theorem execute_preserves_bodies (site : Site ι) (a b : ι) (pkg f : String)
    (source : ArtifactSource) (s t : Fleet ι)
    (spared : decide site.encoding (recordOf s a f) (recordOf s b f) ≠ .tombstone)
    (cut : Cut (apply site) (execute site a b pkg f (recordOf s a f) (recordOf s b f)
      (decide site.encoding (recordOf s a f) (recordOf s b f)) source) s t) :
    ∀ i bytes, s.read i f .body = some bytes → t.read i f .body = some bytes ∨
      ∃ h, t.read i f (.quarantine h) = some bytes := by
  intro i bytes found
  have throughout := Preserved.refl.verdictBody rfl spared t (cut_execute cut)
  rcases throughout i bytes found with body | evidence
  · exact Or.inl body
  · exact Or.inr ⟨_, evidence⟩

/-! ### Two uploads of one name -/

/-- The digests of the one-byte bodies `x`, `y` and `z`. -/
def sampleSha256 (bytes : Bytes) : String :=
  if bytes = [120] then "2d711642b726b04401627ca9fbac32f5c8530fb1903cc4db02258717921a4881"
  else if bytes = [121] then "a1fce4363854ff888cff4b8e7875d600c2682390412a8cf79b37d0b11148b0fa"
  else if bytes = [122] then "594e519ae499312b29433b7dd8a97ff068defcba9755b6d5d00e84c524d67b06"
  else ""

def streamingSite (ι : Type) : Site ι where
  encoding := ⟨sampleSha256, fun sc => sc.json.toUTF8.toList⟩
  mutationsFenced := false
  allows _ _ := false
  copyVerb _ _ _ := .notCopyable
  bucketName _ := "local"

def emptyPackage : Package := ⟨none, [], fun _ _ => none, 0, fun _ _ => 0, fun _ _ _ => rfl⟩

def sampleSidecar (byte : UInt8) (epochMs : Option Nat) (origin : Origin) : Sidecar :=
  ⟨sampleSha256 [byte], 1, "1.0", "2026-01-01T00:00:00Z", epochMs, none, .flag false,
    some origin.asStr, 0, 0, false, none⟩

/-- A bucket that holds one record of `pkg-1.whl` under a claim of its origin. -/
def uploaded (byte : UInt8) (origin : OriginState) (sc : Sidecar) : Package :=
  { ((emptyPackage.set "pkg-1.whl" .body (some [byte])).set "pkg-1.whl" .sidecar (some sc)) with
    claim := some ⟨origin, 0⟩ }

/-- Two buckets that took different bytes for one name, with no order between them. -/
def conflictingUploads : Fleet Bool := fun bucket =>
  if bucket then uploaded 121 .priv (sampleSidecar 121 none .priv)
  else uploaded 120 .priv (sampleSidecar 120 none .priv)

def frozenUploads : Fleet Bool :=
  let site := streamingSite Bool
  let ra := recordOf conflictingUploads false "pkg-1.whl"
  let rb := recordOf conflictingUploads true "pkg-1.whl"
  (run (apply site) (execute site false true "pkg" "pkg-1.whl" ra rb
    (decide site.encoding ra rb) .bucket) conflictingUploads).2

/-- Freezing a conflict drops both bodies and keeps both as evidence. -/
theorem conflictingUploads_preserved :
    frozenUploads.read true "pkg-1.whl" .body = none ∧
      ∃ h, frozenUploads.read true "pkg-1.whl" (.quarantine h) = some [121] := by
  have dropped : frozenUploads.read true "pkg-1.whl" .body = none := by decide +kernel
  constructor
  · exact dropped
  · have stands := execute_preserves_bodies (streamingSite Bool) false true "pkg" "pkg-1.whl" .bucket
      conflictingUploads frozenUploads (by decide +kernel) (ends_run _ _).cut true [121]
      (by decide +kernel)
    rw [dropped] at stands
    simpa using stands

end Pypiron.Replicate
