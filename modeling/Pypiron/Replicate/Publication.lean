import Pypiron.Replicate.Outcomes

/-! What a destination holds after a copy, a supersede or an adopted sidecar that
returns, with no other writer. -/
namespace Pypiron.Replicate
open Program StoreM RankedMerge
variable {ι : Type} [DecidableEq ι] {site : Site ι} {s t : Fleet ι} {i j src dst a b : ι}
variable {pkg f g : String} {k : Kind} {sc : Sidecar} {bytes : Bytes}

/-! ### The verified source -/

theorem ends_verifySourceArtifact {record : Record} (named : record.sidecar = some sc)
    (ended : Ends (apply site) (verifySourceArtifact site src pkg f record .bucket) s (.ok bytes) t) :
    t = s ∧ s.read src f .body = some bytes ∧ site.encoding.sha256 bytes = sc.sha256 := by
  unfold verifySourceArtifact at ended
  rw [named] at ended
  obtain ⟨staged, m, staging, rest⟩ := ends_bind_ok.mp ended
  obtain ⟨stored, n, got, checking⟩ := ends_bind_ok.mp staging
  obtain ⟨rfl, rfl⟩ := ends_get.mp got
  split at checking
  · exact absurd checking ends_bail
  · rename_i body found
    split at checking
    · obtain ⟨same, rfl⟩ := ends_done.mp checking
      cases same
      dsimp only at rest
      split at rest
      · rename_i verified
        obtain ⟨same, rfl⟩ := ends_done.mp rest
        cases same
        exact ⟨rfl, found, verified⟩
      · obtain ⟨_, _, _, failed⟩ := ends_bind_ok.mp rest
        exact absurd failed ends_bail
    · exact absurd checking ends_bail

/-! ### Sidecars -/

/-- The sidecar that stands beside the bytes a copy landed. A leftover that names
the same bytes stays unless the merge ranks the source's above it, and a private
leftover never yields to a mirror record; any other leftover is stale. -/
def sidecarBeside (encoding : Encoding) (sc : Sidecar) (isMirror : Bool) :
    Option Sidecar → Sidecar
  | none => sc
  | some left =>
    if isMirror ∧ left.origin = some Origin.priv.asStr then left
    else if left.sha256 = sc.sha256 ∧
        sidecarMerge encoding sc (some (if isMirror then .mirror else .priv)) left
          (parsedOrigin left) ≠ .a then left
    else sc

theorem sidecarBeside_self {encoding : Encoding} {isMirror : Bool} :
    sidecarBeside encoding sc isMirror (some sc) = sc := by
  simp only [sidecarBeside]
  split_ifs <;> rfl

/-- An install that returns has replaced the leftover, or was outranked by one that
names the same bytes. -/
theorem installOrVerifySidecar_beside {installed : Bool}
    (ended : Ends (apply site) (installOrVerifySidecar site dst pkg f sc) s (.ok installed) t) :
    t.read dst f .sidecar =
      some (sidecarBeside site.encoding sc false (s.read dst f .sidecar)) := by
  unfold installOrVerifySidecar at ended
  split at ended
  · exact absurd ended ends_bail
  obtain ⟨stored, m, got, rest⟩ := ends_bind_ok.mp ended
  obtain ⟨rfl, rfl⟩ := ends_get.mp got
  split at rest
  · rename_i vacant
    obtain ⟨created, n, create, finished⟩ := ends_bind_ok.mp rest
    rcases ends_putIfAbsent.mp create with ⟨rfl, -, rfl⟩ | ⟨-, taken, -⟩
    · obtain ⟨-, rfl⟩ := ends_done.mp finished
      rw [vacant, read_write_self, sidecarBeside]
    · simp [vacant] at taken
  · rename_i left found
    rw [found]
    split at rest
    · rename_i same
      obtain ⟨-, rfl⟩ := ends_done.mp rest
      rw [found, same, sidecarBeside_self]
    · obtain ⟨_, n, checked, rest⟩ := ends_bind_ok.mp rest
      have same (k : Kind) : n.read dst f k = m.read dst f k :=
        nothing_read within_checkOrigin checked.cut
      obtain ⟨body, p, got, rest⟩ := ends_bind_ok.mp rest
      obtain ⟨rfl, rfl⟩ := ends_get.mp got
      split at rest
      · rename_i replaces
        obtain ⟨replaced, q, swap, finished⟩ := ends_bind_ok.mp rest
        rcases ends_putIfMatch.mp swap with ⟨rfl, -, rfl⟩ | ⟨-, moved, -⟩
        · obtain ⟨-, rfl⟩ := ends_done.mp finished
          rw [read_write_self, sidecarBeside, if_neg (by simp), if_neg]
          rintro ⟨agrees, stands⟩
          simp only [privateReplaces, agrees, ne_eq, not_true_eq_false, if_false,
            decide_eq_true_eq] at replaces
          exact stands replaces
        · exact absurd ((same .sidecar).trans found) moved
      · rename_i stands
        split at rest
        · exact absurd rest ends_bail
        · rename_i agrees
          rw [ne_eq, not_not] at agrees
          obtain ⟨-, rfl⟩ := ends_done.mp rest
          simp only [privateReplaces, agrees, ne_eq, not_true_eq_false, if_false,
            decide_eq_true_eq] at stands
          rw [same .sidecar, found, sidecarBeside, if_neg (by simp), if_pos ⟨agrees, stands⟩]

/-- Between two mirror sidecars of the same bytes the merge decides. -/
theorem ends_mirrorReplaces {left : Sidecar} {replaces : Bool}
    (ended : Ends (apply site) (mirrorReplaces site dst f sc left) s (.ok replaces) t) :
    t = s ∧ (left.sha256 = sc.sha256 → (replaces = true ↔
      sidecarMerge site.encoding sc (some .mirror) left (parsedOrigin left) = .a)) := by
  unfold mirrorReplaces at ended
  split at ended
  · rename_i differs
    obtain ⟨body, m, got, finished⟩ := ends_bind_ok.mp ended
    obtain ⟨-, rfl⟩ := ends_get.mp got
    obtain ⟨-, rfl⟩ := ends_done.mp finished
    exact ⟨rfl, fun same => absurd same differs⟩
  · obtain ⟨same, rfl⟩ := ends_done.mp ended
    cases same
    exact ⟨rfl, fun _ => decide_eq_true_iff⟩

theorem installOrVerifyMirrorSidecar_beside {installed : Bool}
    (ended : Ends (apply site) (installOrVerifyMirrorSidecar site dst pkg f sc) s (.ok installed) t) :
    t.read dst f .sidecar =
      some (sidecarBeside site.encoding sc true (s.read dst f .sidecar)) := by
  unfold installOrVerifyMirrorSidecar at ended
  split at ended
  · exact absurd ended ends_bail
  obtain ⟨stored, m, got, rest⟩ := ends_bind_ok.mp ended
  obtain ⟨rfl, rfl⟩ := ends_get.mp got
  split at rest
  · rename_i vacant
    obtain ⟨created, n, create, finished⟩ := ends_bind_ok.mp rest
    rcases ends_putIfAbsent.mp create with ⟨rfl, -, rfl⟩ | ⟨-, taken, -⟩
    · obtain ⟨-, rfl⟩ := ends_done.mp finished
      rw [vacant, read_write_self, sidecarBeside]
    · simp [vacant] at taken
  · rename_i left found
    rw [found]
    split at rest
    · rename_i same
      obtain ⟨-, rfl⟩ := ends_done.mp rest
      rw [found, same, sidecarBeside_self]
    · obtain ⟨_, n, checked, rest⟩ := ends_bind_ok.mp rest
      have same (k : Kind) : n.read dst f k = m.read dst f k :=
        nothing_read within_checkOrigin checked.cut
      split at rest
      · rename_i typed
        obtain ⟨-, rfl⟩ := ends_done.mp rest
        rw [same .sidecar, found, sidecarBeside, if_pos ⟨rfl, typed⟩]
      · rename_i typed
        rw [ends_bind_ok] at rest
        obtain ⟨replaces, p, deciding, rest⟩ := rest
        obtain ⟨rfl, decided⟩ := ends_mirrorReplaces deciding
        split at rest
        · rename_i yields
          obtain ⟨replaced, q, swap, finished⟩ := ends_bind_ok.mp rest
          rcases ends_putIfMatch.mp swap with ⟨rfl, -, rfl⟩ | ⟨-, moved, -⟩
          · obtain ⟨-, rfl⟩ := ends_done.mp finished
            rw [read_write_self, sidecarBeside, if_neg fun ⟨_, found⟩ => typed found, if_neg]
            rintro ⟨agrees, stands⟩
            exact stands ((decided agrees).mp yields)
          · exact absurd ((same .sidecar).trans found) moved
        · rename_i yields
          split at rest
          · exact absurd rest ends_bail
          · rename_i agrees
            rw [ne_eq, not_not] at agrees
            obtain ⟨-, rfl⟩ := ends_done.mp rest
            rw [same .sidecar, found, sidecarBeside, if_neg fun ⟨_, found⟩ => typed found,
              if_pos ⟨agrees, fun first => yields ((decided agrees).mpr first)⟩]

theorem installFor_beside {isMirror installed : Bool}
    (ended : Ends (apply site) (installFor site dst pkg f sc isMirror) s (.ok installed) t) :
    t.read dst f .sidecar =
      some (sidecarBeside site.encoding sc isMirror (s.read dst f .sidecar)) := by
  cases isMirror with
  | true => exact installOrVerifyMirrorSidecar_beside ended
  | false => exact installOrVerifySidecar_beside ended

/-! ### Copies -/

theorem ends_verifyStoredSize {expected : Nat} {u : Unit}
    (ended : Ends (apply site) (verifyStoredSize i pkg f expected) s (.ok u) t) : t = s := by
  obtain ⟨stored, m, got, rest⟩ := ends_bind_ok.mp ended
  obtain ⟨rfl, rfl⟩ := ends_get.mp got
  unfold checkStoredSize at rest
  split at rest
  · exact absurd rest ends_bail
  · split at rest
    · exact (ends_done.mp rest).2
    · exact absurd rest ends_bail

theorem ends_createArtifactVerified {created : Bool}
    (ended : Ends (apply site) (createArtifactVerified i pkg f bytes) s (.ok created) t) :
    (created = true ∧ s.read i f .body = none ∧ t = s.write i f .body (some bytes)) ∨
      (created = false ∧ (s.read i f .body).isSome ∧ t = s) := by
  obtain ⟨created', m, create, rest⟩ := ends_bind_ok.mp ended
  rcases ends_putIfAbsent.mp create with ⟨rfl, vacant, rfl⟩ | ⟨rfl, taken, rfl⟩
  · obtain ⟨_, n, verified, finished⟩ := ends_bind_ok.mp rest
    obtain rfl := ends_verifyStoredSize verified
    obtain ⟨same, rfl⟩ := ends_done.mp finished
    cases same
    exact Or.inl ⟨rfl, vacant, rfl⟩
  · obtain ⟨same, rfl⟩ := ends_done.mp rest
    cases same
    exact Or.inr ⟨rfl, taken, rfl⟩

/-- Every body under the key is the one the sidecar names. -/
def NamesBody (site : Site ι) (s : Fleet ι) (i : ι) (f : String) (sc : Sidecar) : Prop :=
  ∀ body, s.read i f .body = some body → site.encoding.sha256 body = sc.sha256

theorem ends_repairDebris {changed : Bool} (named : NamesBody site s dst f sc)
    (ended : Ends (apply site) (repairDebris site dst pkg f sc bytes) s (.ok changed) t) : t = s := by
  obtain ⟨stored, m, got, rest⟩ := ends_bind_ok.mp ended
  obtain ⟨rfl, rfl⟩ := ends_get.mp got
  split at rest
  · exact (ends_done.mp rest).2
  · rename_i current found
    rw [if_pos (named current found)] at rest
    exact (ends_done.mp rest).2

/-- With no other body in the way the leg lands, and freezes nothing. -/
theorem ends_artifactLeg {published : Bool} {leg : ArtifactLeg} (named : NamesBody site s dst f sc)
    (ended : Ends (apply site) (artifactLeg site src dst pkg f sc bytes published) s (.ok leg) t) :
    (∃ changed, leg = .landed changed) ∧
      t.read dst f .body = some ((s.read dst f .body).getD bytes) ∧
      ∀ j g k, ¬(j = dst ∧ g = f ∧ k = .body) → t.read j g k = s.read j g k := by
  obtain ⟨changed, m, repaired, rest⟩ := ends_bind_ok.mp ended
  obtain rfl := ends_repairDebris named repaired
  rw [ends_bind_ok] at rest
  obtain ⟨created, n, create, rest⟩ := rest
  rcases ends_createArtifactVerified create with ⟨rfl, vacant, rfl⟩ | ⟨rfl, taken, rfl⟩
  · obtain ⟨same, rfl⟩ := ends_done.mp rest
    cases same
    refine ⟨⟨_, rfl⟩, ?_, fun j g k other => read_write_of_ne other⟩
    rw [read_write_self, vacant, Option.getD_none]
  · rw [if_neg (by simp), ends_bind_ok] at rest
    obtain ⟨raced, p, got, rest⟩ := rest
    obtain ⟨rfl, rfl⟩ := ends_get.mp got
    split at rest
    · rename_i vacant
      simp [vacant] at taken
    · rename_i body found
      dsimp only at rest
      rw [if_pos (named body found)] at rest
      obtain ⟨same, rfl⟩ := ends_done.mp rest
      cases same
      exact ⟨⟨_, rfl⟩, by rw [found, Option.getD_some], fun _ _ _ _ => rfl⟩

/-- Writes of any kind, to the objects that a predicate names. -/
def touches (region : ι → String → Kind → Prop) : Footprint ι := ⟨region, region⟩

theorem touches_read {α : Type} {program : StoreM ι α} {region : ι → String → Kind → Prop}
    (within : Within (touches region) program) (cut : Cut (apply site) program s t)
    (other : ¬ region j g k) : t.read j g k = s.read j g k :=
  within.read cut other other

theorem installFor_read {isMirror : Bool}
    (cut : Cut (apply site) (installFor site dst pkg f sc isMirror) s t)
    (other : ¬(j = dst ∧ g = f ∧ k = .sidecar)) : t.read j g k = s.read j g k := by
  let region (j : ι) (g : String) (k : Kind) : Prop := j = dst ∧ g = f ∧ k = .sidecar
  have owns : (touches region).Owns dst f .sidecar := ⟨⟨rfl, rfl, rfl⟩, ⟨rfl, rfl, rfl⟩⟩
  exact touches_read (within_installFor owns) cut other

theorem putCompanions_read {companions : Companions} {changed : Bool}
    (cut : Cut (apply site) (putCompanions site dst pkg f companions changed) s t)
    (other : ¬(j = dst ∧ g = f ∧ ∃ c, k = .companion c)) : t.read j g k = s.read j g k := by
  let region (j : ι) (g : String) (k : Kind) : Prop := j = dst ∧ g = f ∧ ∃ c, k = .companion c
  have owns (c : Companion) : (touches region).Owns dst f (.companion c) :=
    ⟨⟨rfl, rfl, c, rfl⟩, ⟨rfl, rfl, c, rfl⟩⟩
  exact touches_read (within_putCompanions owns) cut other

/-- One record published on a destination, everything else as it was. -/
structure Published (s t : Fleet ι) (dst : ι) (f : String) (body : Option Bytes) (sc : Sidecar) :
    Prop where
  body : t.read dst f .body = body
  sidecar : t.read dst f .sidecar = some sc
  others : ∀ j g k, ¬(j = dst ∧ g = f ∧ (k = .body ∨ k = .sidecar ∨ ∃ c, k = .companion c)) →
    t.read j g k = s.read j g k

/-- A streamed copy into a key with no body: the bytes land, then the sidecar is
installed beside them, then the companions. -/
theorem copyByStream_legs {companions : Companions} {isMirror changed : Bool}
    (vacant : s.read dst f .body = none)
    (ended : Ends (apply site) (copyByStream site src dst pkg f sc companions bytes isMirror) s
      (.ok changed) t) :
    ∃ p q installed before, p.read dst f .body = some bytes ∧
      (∀ j g k, ¬(j = dst ∧ g = f ∧ k = .body) → p.read j g k = s.read j g k) ∧
      Ends (apply site) (installFor site dst pkg f sc isMirror) p (.ok installed) q ∧
      Ends (apply site) (putCompanions site dst pkg f companions before) q (.ok changed) t := by
  obtain ⟨_, m, unfenced, rest⟩ := ends_bind_ok.mp ended
  obtain rfl := ends_requireReplicationUnfenced unfenced
  rw [ends_bind_ok] at rest
  obtain ⟨_, n, claimed, rest⟩ := rest
  have reserved (j : ι) (g : String) (k : Kind) : n.read j g k = m.read j g k :=
    nothing_read within_claimForCopy claimed.cut
  rw [ends_bind_ok] at rest
  obtain ⟨leg, p, landing, rest⟩ := rest
  have named : NamesBody site n dst f sc := by
    intro body found
    rw [reserved, vacant] at found
    contradiction
  obtain ⟨⟨landed, rfl⟩, body, kept⟩ := ends_artifactLeg named landing
  rw [reserved, vacant, Option.getD_none] at body
  unfold copyTruth at rest
  simp only [ends_bind_ok] at rest
  obtain ⟨stored, q, got, rest⟩ := rest
  obtain ⟨rfl, rfl⟩ := ends_get.mp got
  split at rest
  · exact absurd rest ends_bail
  split at rest
  · exact absurd rest ends_bail
  rw [ends_bind_ok] at rest
  obtain ⟨installed, r, installing, companying⟩ := rest
  refine ⟨q, r, installed, _, body, fun j g k other => ?_, installing, companying⟩
  rw [kept j g k other, reserved]

theorem ends_copyByStream {companions : Companions} {isMirror changed : Bool}
    (vacant : s.read dst f .body = none)
    (yields : sidecarBeside site.encoding sc isMirror (s.read dst f .sidecar) = sc)
    (ended : Ends (apply site) (copyByStream site src dst pkg f sc companions bytes isMirror) s
      (.ok changed) t) : Published s t dst f (some bytes) sc := by
  obtain ⟨p, q, _, _, body, kept, installing, companying⟩ := copyByStream_legs vacant ended
  have installed : q.read dst f .sidecar = some sc := by
    rw [installFor_beside installing, kept _ _ _ (by simp), yields]
  constructor
  · rw [putCompanions_read companying.cut (by simp), installFor_read installing.cut (by simp), body]
  · rw [putCompanions_read companying.cut (by simp), installed]
  · intro j g k other
    rw [putCompanions_read companying.cut fun ⟨bucket, file, kind⟩ =>
        other ⟨bucket, file, Or.inr (Or.inr kind)⟩,
      installFor_read installing.cut fun ⟨bucket, file, kind⟩ =>
        other ⟨bucket, file, Or.inr (Or.inl kind)⟩,
      kept j g k fun ⟨bucket, file, kind⟩ => other ⟨bucket, file, Or.inl kind⟩]

theorem cut_serverSideCopyArtifact
    (cut : Cut (apply site) (serverSideCopyArtifact src dst pkg f sc) s t) :
    (t.read dst f .body = s.read dst f .body ∨ t.read dst f .body = s.read src f .body) ∧
      ∀ j g k, ¬(j = dst ∧ g = f ∧ k = .body) → t.read j g k = s.read j g k := by
  have copied (u : Fleet ι) (called : Cut (apply site) (serverSideCopy src dst f sc.size) s u) :
      (u.read dst f .body = s.read dst f .body ∨ u.read dst f .body = s.read src f .body) ∧
        ∀ j g k, ¬(j = dst ∧ g = f ∧ k = .body) → u.read j g k = s.read j g k := by
    rcases cut_request.mp called with rfl | rfl
    · exact ⟨Or.inl rfl, fun _ _ _ _ => rfl⟩
    · simp only [apply]
      split
      · exact ⟨Or.inl rfl, fun _ _ _ _ => rfl⟩
      · exact ⟨Or.inl rfl, fun _ _ _ _ => rfl⟩
      · rename_i found _
        exact ⟨Or.inr (by rw [read_write_self, found]), fun j g k other => read_write_of_ne other⟩
  rcases cut_bind.mp cut with called | ⟨outcome, u, called, rest⟩
  · exact copied t called
  · have checked (j : ι) (g : String) (k : Kind) : t.read j g k = u.read j g k := by
      apply nothing_read _ rest
      split
      · exact within_pure
      · apply within_verifyStoredSize.bind
        intro _
        split
        · exact within_bail
        · exact within_pure
    simpa only [checked] using copied u called.cut

theorem ends_serverSideCopyArtifact
    (ended : Ends (apply site) (serverSideCopyArtifact src dst pkg f sc) s (.ok true) t) :
    t.read dst f .body = s.read src f .body := by
  obtain ⟨outcome, u, called, rest⟩ := ends_bind_ok.mp ended
  split at rest
  · simp at rest
  · rw [ends_bind_ok] at rest
    obtain ⟨_, v, verified, rest⟩ := rest
    obtain rfl := ends_verifyStoredSize verified
    split at rest
    · exact absurd rest ends_bail
    · obtain ⟨-, rfl⟩ := ends_done.mp rest
      rw [serverSideCopy, ends_request_ok, apply] at called
      split at called
      · simp at called
      · simp at called
      · rename_i found _
        rw [Prod.mk.injEq] at called
        rw [← called.2, read_write_self, found]

theorem ends_installGate {isMirror installed : Bool}
    (yields : sidecarBeside site.encoding sc isMirror (s.read dst f .sidecar) = sc)
    (ended : Ends (apply site) (installGate site src dst pkg f sc isMirror) s (.ok installed) t) :
    t.read dst f .sidecar = some sc ∧
      ∀ j g k, ¬(j = dst ∧ g = f ∧ k = .sidecar) → t.read j g k = s.read j g k := by
  obtain ⟨_, m, installing, rest⟩ := ends_bind_ok.mp ended
  have gated (j : ι) (g : String) (k : Kind) : t.read j g k = m.read j g k := by
    apply nothing_read _ rest.cut
    split
    · apply within_sidecarHoldsPrivate.bind
      intro _
      split
      · exact within_bail
      · exact within_pure
    · exact within_pure
  simp only [gated]
  exact ⟨(installFor_beside installing).trans (congrArg some yields),
    fun j g k => installFor_read installing.cut⟩

theorem ends_copyByProvider {record : Record} {companions : Companions} {isMirror changed : Bool}
    (apart : src ≠ dst) (named : record.sidecar = some sc) (vacant : s.read dst f .body = none)
    (yields : sidecarBeside site.encoding sc isMirror (s.read dst f .sidecar) = sc)
    (ended : Ends (apply site) (copyByProvider site src dst pkg f sc record companions .bucket
      isMirror) s (.ok changed) t) : Published s t dst f (s.read src f .body) sc := by
  obtain ⟨_, m, unfenced, rest⟩ := ends_bind_ok.mp ended
  obtain rfl := ends_requireReplicationUnfenced unfenced
  rw [ends_bind_ok] at rest
  obtain ⟨_, n, claimed, rest⟩ := rest
  have reserved (j : ι) (g : String) (k : Kind) : n.read j g k = m.read j g k :=
    nothing_read within_claimForCopy claimed.cut
  rw [ends_bind_ok] at rest
  obtain ⟨_, p, gated, rest⟩ := rest
  simp only [← reserved] at yields vacant
  obtain ⟨installed, beside⟩ := ends_installGate yields gated
  rw [ends_bind_ok] at rest
  obtain ⟨_, q, companying, rest⟩ := rest
  obtain ⟨copied, r, copying, rest⟩ := ends_attempt.mp rest
  obtain ⟨body, kept⟩ := cut_serverSideCopyArtifact copying.cut
  have early (j : ι) (g : String) (k : Kind) (other : ¬(j = dst ∧ g = f ∧ k = .sidecar))
      (beyond : ¬(j = dst ∧ g = f ∧ ∃ c, k = .companion c)) : q.read j g k = m.read j g k := by
    rw [putCompanions_read companying.cut beyond, beside j g k other, reserved]
  have source : q.read src f .body = m.read src f .body := early _ _ _ (by simp) (by simp)
  have target : q.read dst f .body = none := by
    rw [early _ _ _ (by simp) (by simp), ← reserved, vacant]
  have sidecar : r.read dst f .sidecar = some sc := by
    rw [kept _ _ _ (by simp), putCompanions_read companying.cut (by simp), installed]
  have others (j : ι) (g : String) (k : Kind)
      (other : ¬(j = dst ∧ g = f ∧ (k = .body ∨ k = .sidecar ∨ ∃ c, k = .companion c))) :
      r.read j g k = m.read j g k := by
    rw [kept j g k fun ⟨bucket, file, kind⟩ => other ⟨bucket, file, Or.inl kind⟩,
      early j g k (fun ⟨bucket, file, kind⟩ => other ⟨bucket, file, Or.inr (Or.inl kind)⟩)
        fun ⟨bucket, file, kind⟩ => other ⟨bucket, file, Or.inr (Or.inr kind)⟩]
  split at rest
  · obtain ⟨-, rfl⟩ := ends_done.mp rest
    exact ⟨(ends_serverSideCopyArtifact copying).trans source, sidecar, others⟩
  · rw [ends_bind_ok] at rest
    obtain ⟨bytes, v, verified, rest⟩ := rest
    obtain ⟨rfl, held, attested⟩ := ends_verifySourceArtifact named verified
    have origin : m.read src f .body = some bytes := by
      rw [← source, ← kept _ _ _ (by simp [apart]), held]
    rw [ends_bind_ok] at rest
    obtain ⟨leg, w, landing, rest⟩ := rest
    have landed : NamesBody site v dst f sc := by
      intro body' found
      rcases body with same | same
      · rw [same, target] at found
        contradiction
      · rw [same, source, origin] at found
        cases found
        exact attested
    obtain ⟨⟨_, rfl⟩, body', kept'⟩ := ends_artifactLeg landed landing
    obtain ⟨-, rfl⟩ := ends_done.mp rest
    constructor
    · rw [body', origin]
      rcases body with same | same
      · rw [same, target, Option.getD_none]
      · rw [same, source, origin, Option.getD_some]
    · rw [kept' _ _ _ (by simp), sidecar]
    · intro j g k other
      rw [kept' j g k fun ⟨bucket, file, kind⟩ => other ⟨bucket, file, Or.inl kind⟩,
        others j g k other]

/-- A copy into a key with no body publishes the source's record there. -/
theorem ends_copyLive {record : Record} {changed : Bool} (apart : src ≠ dst)
    (named : record.sidecar = some sc) (vacant : s.read dst f .body = none)
    (yields : sidecarBeside site.encoding sc (record.origin = some .mirror) (s.read dst f .sidecar) = sc)
    (ended : Ends (apply site) (copyLive site src dst pkg f record .bucket) s (.ok changed) t) :
    Published s t dst f (s.read src f .body) sc := by
  unfold copyLive at ended
  rw [named] at ended
  obtain ⟨companions, m, reading, rest⟩ := ends_bind_ok.mp ended
  have same (j : ι) (g : String) (k : Kind) : m.read j g k = s.read j g k :=
    nothing_read within_readSourceCompanions reading.cut
  simp only [← same] at vacant yields ⊢
  have published : Published m t dst f (m.read src f .body) sc := by
    dsimp only at rest
    split at rest
    · exact ends_copyByProvider apart named vacant yields rest
    · rw [ends_bind_ok] at rest
      obtain ⟨bytes, n, verified, rest⟩ := rest
      obtain ⟨rfl, held, -⟩ := ends_verifySourceArtifact named verified
      rw [held]
      exact ends_copyByStream vacant yields rest
  exact ⟨published.body, published.sidecar, fun j g k other => (published.others j g k other).trans (same j g k)⟩

/-! ### Supersedes -/

omit [DecidableEq ι] in
/-- Beside a private record only private truth about the same bytes stays. -/
theorem sidecarBeside_outranked {encoding : Encoding} {leftover : Option Sidecar}
    (outranks : ∀ left, leftover = some left → left = sc ∨
      (left.sha256 = sc.sha256 → left.origin ≠ some Origin.priv.asStr)) :
    sidecarBeside encoding sc false leftover = sc := by
  cases leftover with
  | none => rfl
  | some left =>
      simp only [sidecarBeside, Bool.false_eq_true, false_and, if_false]
      split
      · rename_i stays
        obtain rfl | other := outranks left rfl
        · rfl
        · have typed : parsedOrigin left ≠ some .priv := by
            intro parsed
            obtain ⟨raw, found, parsed⟩ := Option.bind_eq_some_iff.mp parsed
            rw [Origin.parse_eq_some parsed] at found
            exact other stays.1 found
          exact absurd (sidecarMerge_private typed) stays.2
      · rfl

theorem ends_supersedeArtifact {present : Bool}
    (verified : site.encoding.sha256 bytes = sc.sha256)
    (ended : Ends (apply site) (supersedeArtifact site src dst pkg f sc bytes) s (.ok present) t) :
    present = true ∧ ∃ body, t.read dst f .body = some body ∧
      site.encoding.sha256 body = sc.sha256 := by
  obtain ⟨replaced, m, replacing, rest⟩ := ends_bind_ok.mp ended
  unfold supersedeBody at replacing
  simp only [ends_bind_ok] at replacing
  obtain ⟨stored, n, got, replacing⟩ := replacing
  obtain ⟨rfl, rfl⟩ := ends_get.mp got
  split at replacing
  · rename_i vacant
    obtain ⟨same, rfl⟩ := ends_done.mp replacing
    cases same
    obtain ⟨created, p, create, rest⟩ := ends_bind_ok.mp rest
    rcases ends_createArtifactVerified create with ⟨rfl, -, rfl⟩ | ⟨-, taken, -⟩
    · obtain ⟨same, rfl⟩ := ends_done.mp rest
      cases same
      exact ⟨rfl, bytes, read_write_self _, verified⟩
    · simp [vacant] at taken
  · rename_i current found
    split at replacing
    · rename_i named
      obtain ⟨same, rfl⟩ := ends_done.mp replacing
      cases same
      obtain ⟨same, rfl⟩ := ends_done.mp rest
      cases same
      exact ⟨rfl, current, found, named⟩
    · simp only [ends_bind_ok] at replacing
      obtain ⟨_, p, -, replacing⟩ := replacing
      obtain ⟨swapped, q, swap, replacing⟩ := replacing
      rcases ends_putIfMatch.mp swap with ⟨rfl, -, rfl⟩ | ⟨rfl, -, rfl⟩
      · rw [if_pos rfl] at replacing
        obtain ⟨_, r, sized, finished⟩ := ends_bind_ok.mp replacing
        obtain rfl := ends_verifyStoredSize sized
        obtain ⟨same, rfl⟩ := ends_done.mp finished
        cases same
        obtain ⟨same, rfl⟩ := ends_done.mp rest
        cases same
        exact ⟨rfl, bytes, read_write_self _, verified⟩
      · rw [if_neg (by simp)] at replacing
        exact absurd replacing ends_bail

/-- Private truth published over a losing record, everything else as it was. -/
structure Superseded (site : Site ι) (s t : Fleet ι) (dst : ι) (f : String) (sc : Sidecar) :
    Prop where
  body : ∃ body, t.read dst f .body = some body ∧ site.encoding.sha256 body = sc.sha256
  sidecar : t.read dst f .sidecar = some sc
  mirrorQuarantined : t.read dst f (.fence .mirrorQuarantined) = none
  superseding : t.read dst f .superseding = none
  fences : ∀ fence, fence ≠ .mirrorQuarantined →
    t.read dst f (.fence fence) = s.read dst f (.fence fence)
  others : ∀ j g k, ¬(j = dst ∧ g = f) → t.read j g k = s.read j g k

theorem replaceCompanion_read {c : Companion} {replace : Bool} {stored : Option Bytes}
    (cut : Cut (apply site) (replaceCompanion site dst pkg f c replace stored) s t)
    (other : ¬(j = dst ∧ g = f ∧ k = .companion c)) : t.read j g k = s.read j g k := by
  let region (j : ι) (g : String) (k : Kind) : Prop := j = dst ∧ g = f ∧ k = .companion c
  have owns : (touches region).Owns dst f (.companion c) := ⟨⟨rfl, rfl, rfl⟩, ⟨rfl, rfl, rfl⟩⟩
  exact touches_read (within_replaceCompanion owns) cut other

theorem deleteKeys_read {kinds : List Kind} (cut : Cut (apply site) (deleteKeys dst f kinds) s t)
    (other : ¬(j = dst ∧ g = f ∧ k ∈ kinds)) : t.read j g k = s.read j g k := by
  let region (j : ι) (g : String) (k : Kind) : Prop := j = dst ∧ g = f ∧ k ∈ kinds
  have within : Within (touches region) (deleteKeys dst f kinds) :=
    within_deleteKeys fun k member => ⟨rfl, rfl, member⟩
  exact touches_read within cut other

theorem ends_reassertPrecedence {u : Unit}
    (unfenced : ∀ fence, fence ≠ .mirrorQuarantined → s.read dst f (.fence fence) = none)
    (ended : Ends (apply site) (reassertPrecedence site dst pkg f bytes) s (.ok u) t) :
    t.read dst f (.fence .mirrorQuarantined) = none ∧
      ∀ {j g k}, ¬(j = dst ∧ g = f ∧ k = .fence .mirrorQuarantined) →
        t.read j g k = s.read j g k := by
  obtain ⟨frozen, m, headed, rest⟩ := ends_bind_ok.mp ended
  obtain ⟨rfl, rfl⟩ := ends_headExists.mp headed
  rw [unfenced .frozen (by simp), if_neg (by simp), ends_bind_ok] at rest
  obtain ⟨tombstoned, n, headed, rest⟩ := rest
  obtain ⟨rfl, rfl⟩ := ends_headExists.mp headed
  rw [unfenced .tombstone (by simp), if_neg (by simp)] at rest
  constructor
  · exact (ends_deleteKeys rest).1 _ (by simp)
  · intro j g k other
    exact deleteKeys_read rest.cut (by simpa using other)

theorem ends_publishSuperseding {companions : Companions} {replace : Bool} {u : Unit}
    (unfenced : ∀ fence, fence ≠ .mirrorQuarantined → s.read dst f (.fence fence) = none)
    (verified : site.encoding.sha256 bytes = sc.sha256)
    (outranks : ∀ current, s.read dst f .sidecar = some current → current = sc ∨
      (current.sha256 = sc.sha256 → current.origin ≠ some Origin.priv.asStr))
    (ended : Ends (apply site) (publishSuperseding site src dst pkg f sc companions bytes replace) s
      (.ok u) t) : Superseded site s t dst f sc := by
  obtain ⟨_, m, declared, rest⟩ := ends_bind_ok.mp ended
  obtain rfl := ends_put.mp declared
  rw [ends_bind_ok] at rest
  obtain ⟨present, n, landing, rest⟩ := rest
  obtain ⟨rfl, body, landed, named⟩ := ends_supersedeArtifact verified landing
  rw [if_pos rfl] at rest
  simp only [ends_bind_ok] at rest
  obtain ⟨_, p, installing, _, q, dropped, _, r, metadata, _, v, provenance, rest⟩ := rest
  obtain ⟨_, w, reasserting, marked⟩ := rest
  obtain rfl := ends_markCommit.mp marked
  have early (j : ι) (g : String) (k : Kind)
      (other : ¬(j = dst ∧ g = f ∧ (k = .body ∨ ∃ h, k = .quarantine h)))
      (unmarked : ¬(j = dst ∧ g = f ∧ k = .superseding)) : n.read j g k = s.read j g k := by
    rw [ends_supersedeArtifact_read landing other, read_write_of_ne unmarked]
  have beside {j : ι} {g : String} {k : Kind} (other : ¬(j = dst ∧ g = f ∧ k = .sidecar)) :
      p.read j g k = n.read j g k := by
    have cut : Cut (apply site) (installFor site dst pkg f sc false) n p := installing.cut
    exact installFor_read cut other
  have installed : p.read dst f .sidecar = some sc := by
    rw [installOrVerifySidecar_beside installing, early _ _ _ (by simp) (by simp),
      sidecarBeside_outranked outranks]
  have late {j : ι} {g : String} {k : Kind} (unmarked : ¬(j = dst ∧ g = f ∧ k = .superseding))
      (other : ¬(j = dst ∧ g = f ∧ ∃ c, k = .companion c)) : v.read j g k = p.read j g k := by
    have companion (c : Companion) : ¬(j = dst ∧ g = f ∧ k = .companion c) := by
      rintro ⟨bucket, file, kind⟩
      exact other ⟨bucket, file, c, kind⟩
    rw [replaceCompanion_read provenance.cut (companion _),
      replaceCompanion_read metadata.cut (companion _), deleteKeys_read dropped.cut (by simpa using unmarked)]
  have fences (fence : Fence) : v.read dst f (.fence fence) = s.read dst f (.fence fence) := by
    rw [late (by simp) (by simp), beside (by simp), early _ _ _ (by simp) (by simp)]
  obtain ⟨cleared, kept⟩ := ends_reassertPrecedence
    (fun fence other => (fences fence).trans (unfenced fence other)) reasserting
  constructor
  · exact ⟨body, by rw [kept (by simp), late (by simp) (by simp), beside (by simp), landed], named⟩
  · rw [kept (by simp), late (by simp) (by simp), installed]
  · exact cleared
  · rw [kept (by simp), replaceCompanion_read provenance.cut (by simp),
      replaceCompanion_read metadata.cut (by simp), (ends_deleteKeys dropped).1 _ (by simp)]
  · intro fence other
    rw [kept (by simpa using other), fences]
  · intro j g k other
    have elsewhere (P : Prop) : ¬(j = dst ∧ g = f ∧ P) := by
      rintro ⟨bucket, file, -⟩
      exact other ⟨bucket, file⟩
    rw [kept (elsewhere _), late (elsewhere _) (elsewhere _), beside (elsewhere _),
      early _ _ _ (elsewhere _) (elsewhere _)]

/-- A supersede over an unfenced destination publishes its source's record. -/
theorem ends_supersedeRecord {record : Record} {u : Unit} (named : record.sidecar = some sc)
    (unfenced : ∀ fence, fence ≠ .mirrorQuarantined → s.read dst f (.fence fence) = none)
    (outranks : ∀ current, s.read dst f .sidecar = some current → current = sc ∨
      (current.sha256 = sc.sha256 → current.origin ≠ some Origin.priv.asStr))
    (ended : Ends (apply site) (supersedeRecord site src dst pkg f record .bucket) s (.ok u) t) :
    Superseded site s t dst f sc ∧
      ∃ bytes, s.read src f .body = some bytes ∧ site.encoding.sha256 bytes = sc.sha256 := by
  obtain ⟨_, m, admitted, rest⟩ := ends_bind_ok.mp ended
  obtain rfl := ends_requireReplicationUnfenced admitted
  rw [named] at rest
  dsimp only at rest
  split at rest
  · exact absurd rest ends_bail
  rw [ends_bind_ok] at rest
  obtain ⟨bytes, n, verified, rest⟩ := rest
  obtain ⟨rfl, held, attested⟩ := ends_verifySourceArtifact named verified
  simp only [ends_bind_ok] at rest
  obtain ⟨companions, p, reading, _, q, claimed, rest⟩ := rest
  have same (j : ι) (g : String) (k : Kind) : q.read j g k = n.read j g k := by
    have first : p.read j g k = n.read j g k := nothing_read within_readSourceCompanions reading.cut
    have second : q.read j g k = p.read j g k := nothing_read within_ensurePrivate claimed.cut
    rw [second, first]
  simp only [← same] at unfenced outranks
  obtain ⟨frozen, r, headed, rest⟩ := rest
  obtain ⟨rfl, rfl⟩ := ends_headExists.mp headed
  rw [unfenced .frozen (by simp), if_neg (by simp), ends_bind_ok] at rest
  obtain ⟨tombstoned, v, headed, rest⟩ := rest
  obtain ⟨rfl, rfl⟩ := ends_headExists.mp headed
  rw [unfenced .tombstone (by simp), if_neg (by simp), ends_bind_ok] at rest
  obtain ⟨replace, w, replacing, rest⟩ := rest
  have again (j : ι) (g : String) (k : Kind) : w.read j g k = v.read j g k :=
    nothing_read within_replacesCompanions replacing.cut
  simp only [← again] at unfenced outranks
  have published := ends_publishSuperseding unfenced attested outranks rest
  refine ⟨⟨published.body, published.sidecar, published.mirrorQuarantined, published.superseding,
    fun fence other => ?_, fun j g k other => ?_⟩, bytes, held, attested⟩
  · rw [published.fences fence other, again, same]
  · rw [published.others j g k other, again, same]

/-! ### Adopted sidecars -/

theorem adoptSidecarCas_read {changed : Bool × Bool}
    (ended : Ends (apply site) (adoptSidecarCas site a b pkg f) s (.ok changed) t)
    (other : ¬((j = a ∨ j = b) ∧ g = f ∧ k = .sidecar)) : t.read j g k = s.read j g k := by
  let region (j : ι) (g : String) (k : Kind) : Prop := (j = a ∨ j = b) ∧ g = f ∧ k = .sidecar
  have within : Within (touches region) (adoptSidecarCas site a b pkg f) :=
    within_adoptSidecarCas ⟨Or.inl rfl, rfl, rfl⟩ ⟨Or.inr rfl, rfl, rfl⟩
  exact touches_read within ended.cut other

theorem ends_sidecarOrigin {key : String} {fallback : Option Origin} {origin typed : Origin}
    (parsed : parsedOrigin sc = some typed)
    (ended : Ends (apply site) (sidecarOrigin key sc fallback) s (.ok origin) t) :
    origin = typed ∧ t = s := by
  obtain ⟨raw, found, parses⟩ := Option.bind_eq_some_iff.mp parsed
  unfold sidecarOrigin at ended
  rw [found] at ended
  dsimp only at ended
  rw [parses] at ended
  obtain ⟨same, rfl⟩ := ends_done.mp ended
  cases same
  exact ⟨rfl, rfl⟩

/-- Both sides end with the sidecar the merge ranks higher. -/
theorem ends_adoptSidecarCas {left right : Sidecar} {oa ob : Origin} {changed : Bool × Bool}
    (apart : a ≠ b) (foundA : s.read a f .sidecar = some left)
    (foundB : s.read b f .sidecar = some right) (typedA : parsedOrigin left = some oa)
    (typedB : parsedOrigin right = some ob)
    (ended : Ends (apply site) (adoptSidecarCas site a b pkg f) s (.ok changed) t) :
    match sidecarMerge site.encoding left (some oa) right (some ob) with
    | .a => t.read a f .sidecar = some left ∧ t.read b f .sidecar = some left
    | .b => t.read a f .sidecar = some right ∧ t.read b f .sidecar = some right
    | .equal => t.read a f .sidecar = some left ∧ t.read b f .sidecar = some right := by
  obtain ⟨_, m, got, rest⟩ := ends_bind_ok.mp ended
  obtain ⟨rfl, rfl⟩ := ends_get.mp got
  rw [ends_bind_ok] at rest
  obtain ⟨_, n, got, rest⟩ := rest
  obtain ⟨rfl, rfl⟩ := ends_get.mp got
  rw [ends_bind_ok] at rest
  obtain ⟨_, p, claimed, rest⟩ := rest
  obtain ⟨rfl, rfl⟩ := ends_readPkgOrigin.mp claimed
  rw [ends_bind_ok] at rest
  obtain ⟨_, q, claimed, rest⟩ := rest
  obtain ⟨rfl, rfl⟩ := ends_readPkgOrigin.mp claimed
  rw [foundA, foundB] at rest
  dsimp only at rest
  split at rest
  · exact absurd rest ends_bail
  rw [ends_bind_ok] at rest
  obtain ⟨_, r, typing, rest⟩ := rest
  obtain ⟨rfl, rfl⟩ := ends_sidecarOrigin typedA typing
  rw [ends_bind_ok] at rest
  obtain ⟨_, u, typing, rest⟩ := rest
  obtain ⟨rfl, rfl⟩ := ends_sidecarOrigin typedB typing
  split at rest
  · rename_i merged
    obtain ⟨-, rfl⟩ := ends_done.mp rest
    rw [merged]
    exact ⟨foundA, foundB⟩
  · rename_i merged
    rw [merged]
    obtain ⟨swapped, v, swap, finished⟩ := ends_bind_ok.mp rest
    rcases ends_putIfMatch.mp swap with ⟨rfl, -, rfl⟩ | ⟨-, moved, -⟩
    · obtain ⟨-, rfl⟩ := ends_done.mp finished
      exact ⟨by rw [read_write_bucket apart, foundA], read_write_self _⟩
    · exact absurd foundB moved
  · rename_i merged
    rw [merged]
    obtain ⟨swapped, v, swap, finished⟩ := ends_bind_ok.mp rest
    rcases ends_putIfMatch.mp swap with ⟨rfl, -, rfl⟩ | ⟨-, moved, -⟩
    · obtain ⟨-, rfl⟩ := ends_done.mp finished
      exact ⟨read_write_self _, by rw [read_write_bucket apart.symm, foundB]⟩
    · exact absurd foundA moved

theorem repairSameShaCompanions_read {ra rb : Record} {dirty : Bool × Bool}
    (ended : Ends (apply site) (repairSameShaCompanions site a b pkg f ra rb) s (.ok dirty) t)
    (other : ∀ c, k ≠ .companion c) : t.read j g k = s.read j g k := by
  let region (_ : ι) (_ : String) (k : Kind) : Prop := ∃ c, k = .companion c
  have owns (i : ι) (c : Companion) : (touches region).Owns i f (.companion c) :=
    ⟨⟨c, rfl⟩, ⟨c, rfl⟩⟩
  exact touches_read (within_repairSameShaCompanions (owns a) (owns b)) ended.cut
    (by simpa [region] using other)

end Pypiron.Replicate
