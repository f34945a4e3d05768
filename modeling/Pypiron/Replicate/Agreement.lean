import Pypiron.Replicate.Convergence
import Pypiron.Replicate.Verdicts

/-! Converged means agreed: what a pass that reports convergence has made of the
two sides. -/
namespace Pypiron.Replicate
open Program StoreM RankedMerge
variable {ι : Type} [DecidableEq ι] {site : Site ι} {s t m n : Fleet ι} {i j a b : ι}
variable {pkg f g : String} {k : Kind} {sc : Sidecar} {source : ArtifactSource}

/-- What a filename's objects on one bucket read as. -/
def stateOf (s : Fleet ι) (i : ι) (f : String) : RecordState := classifyRecord (recordOf s i f)

/-- The sidecar, if there is one, carries a typed origin. -/
def Typed (s : Fleet ι) (i : ι) (f : String) : Prop :=
  ∀ sc, s.read i f .sidecar = some sc → (parsedOrigin sc).isSome

/-- Two sides that a merge leaves alone and that hold the same record. -/
structure Agreed (site : Site ι) (s : Fleet ι) (a b : ι) (f : String) : Prop where
  decides : decide site.encoding (recordOf s a f) (recordOf s b f) = .noop
  body : (s.read a f .body).map site.encoding.sha256 = (s.read b f .body).map site.encoding.sha256
  sidecar : (s.read a f .sidecar).map site.encoding.toVec =
    (s.read b f .sidecar).map site.encoding.toVec
  fences : ∀ fence, s.read a f (.fence fence) = s.read b f (.fence fence)

/-! ### Readings -/

section Readings
omit [DecidableEq ι]

theorem recordOf_origin {origin : Origin} (found : s.read i f .sidecar = some sc)
    (typed : parsedOrigin sc = some origin) : (recordOf s i f).origin = some origin := by
  unfold parsedOrigin at typed
  simp [Record.origin, found, typed]

theorem stateOf_congr (typed : Typed s i f) (same : ∀ k, t.read i f k = s.read i f k) :
    stateOf t i f = stateOf s i f := by
  have record : recordOf t i f = { recordOf s i f with pkgOrigin := (recordOf t i f).pkgOrigin } := by
    simp [recordOf, Record.fromListing, same]
  unfold stateOf
  rw [record, classifyRecord_pkgOrigin]
  exact typed

/-- A live record behind no fence. -/
structure Shown (s : Fleet ι) (i : ι) (f : String) (sc : Sidecar) : Prop where
  body : (s.read i f .body).isSome
  sidecar : s.read i f .sidecar = some sc
  fences : ∀ fence, s.read i f (.fence fence) = none

theorem Shown.congr (shown : Shown s i f sc)
    (same : ∀ k, (∀ c, k ≠ .companion c) → t.read i f k = s.read i f k) : Shown t i f sc := by
  constructor
  · rw [same _ (by simp)]
    exact shown.body
  · rw [same _ (by simp), shown.sidecar]
  · intro fence
    rw [same _ (by simp), shown.fences]

theorem Shown.stateOf {origin : Origin} (shown : Shown s i f sc)
    (typed : parsedOrigin sc = some origin) :
    ∃ superseding, stateOf s i f = .live sc.sha256 origin superseding := by
  refine ⟨(recordOf s i f).superseding, ?_⟩
  unfold Replicate.stateOf classifyRecord
  rw [recordOf_origin shown.sidecar typed]
  simp [shown.fences, shown.body, shown.sidecar]

/-- How a fate reads. -/
def Fate.state : Fate → RecordState
  | demoted => .quarantinedMirror true
  | tombstoned => .tombstoned true
  | frozen => .frozen true

theorem Fenced.stateOf {fate : Fate} (fenced : Fenced s i f fate) : stateOf s i f = fate.state := by
  have records := fenced.records
  simp only [recordObjectKeys, List.forall_mem_cons] at records
  unfold Replicate.stateOf classifyRecord
  cases fate <;> simp [fenced.fences, Fate.fences, Fate.state, records]

/-- Nothing of the record is left. -/
def Bereft (s : Fleet ι) (i : ι) (f : String) : Prop := ∀ k ∈ recordObjectKeys, s.read i f k = none

theorem bereft_iff : Bereft s i f ↔ (recordOf s i f).leftovers = false := by
  simp [Bereft, recordObjectKeys, and_assoc]

theorem fence_stands {fence : Fence} (present : (s.read i f (.fence fence)).isSome = true) :
    s.read i f (.fence fence) = some () := by
  obtain ⟨⟨⟩, found⟩ := Option.isSome_iff_exists.mp present
  exact found

theorem fence_down {fence : Fence} (absent : (s.read i f (.fence fence)).isSome = false) :
    s.read i f (.fence fence) = none := by
  simpa using absent

theorem stateOf_fate {fate : Fate} (settled : stateOf s i f = fate.state) : Fenced s i f fate := by
  cases fate with
  | demoted =>
      obtain ⟨⟨frozen, tombstone⟩, demoted, -, clean⟩ := classifyRecord_quarantinedMirror settled
      simp only [Bool.true_eq, Bool.not_eq_true'] at clean
      refine ⟨fun fence => ?_, bereft_iff.mpr clean⟩
      cases fence with
      | tombstone => exact fence_down tombstone
      | frozen => exact fence_down frozen
      | mirrorQuarantined => exact fence_stands demoted
  | tombstoned =>
      obtain ⟨frozen, tombstone, clean⟩ := classifyRecord_tombstoned settled
      simp only [Bool.true_eq, Bool.and_eq_true, Bool.not_eq_true'] at clean
      refine ⟨fun fence => ?_, bereft_iff.mpr clean.1⟩
      cases fence with
      | tombstone => exact fence_stands tombstone
      | frozen => exact fence_down frozen
      | mirrorQuarantined => exact fence_down clean.2
  | frozen =>
      obtain ⟨frozen, clean⟩ := classifyRecord_frozen settled
      simp only [Bool.true_eq, Bool.and_eq_true, Bool.not_eq_true'] at clean
      refine ⟨fun fence => ?_, bereft_iff.mpr clean.1.2⟩
      cases fence with
      | tombstone => exact fence_stands clean.1.1
      | frozen => exact fence_stands frozen
      | mirrorQuarantined => exact fence_down clean.2

end Readings

/-! ### Agreement -/

section Agreement
omit [DecidableEq ι]

theorem decide_fate {fate : Fate} (left : stateOf s a f = fate.state)
    (right : stateOf s b f = fate.state) :
    decide site.encoding (recordOf s a f) (recordOf s b f) = .noop := by
  unfold stateOf at left right
  unfold decide
  rw [left, right]
  cases fate <;> rfl

theorem decide_absent {da db : Bool} (left : stateOf s a f = .absent da)
    (right : stateOf s b f = .absent db) :
    decide site.encoding (recordOf s a f) (recordOf s b f) = .noop := by
  unfold stateOf at left right
  unfold decide
  rw [left, right]

theorem agreed_fenced {fate : Fate} (left : Fenced s a f fate) (right : Fenced s b f fate) :
    Agreed site s a b f := by
  have records (k : Kind) (record : k ∈ recordObjectKeys) : s.read a f k = s.read b f k := by
    rw [left.records k record, right.records k record]
  constructor
  · exact decide_fate left.stateOf right.stateOf
  · rw [records _ (by simp [recordObjectKeys])]
  · rw [records _ (by simp [recordObjectKeys])]
  · intro fence
    rw [left.fences, right.fences]

/-- Two live sides agree when neither their digests nor their sidecars differ. -/
theorem agreed_shown {sca scb : Sidecar} {oa ob : Origin} (left : Shown s a f sca)
    (right : Shown s b f scb) (typedA : parsedOrigin sca = some oa)
    (typedB : parsedOrigin scb = some ob) (digest : sca.sha256 = scb.sha256)
    (merged : sidecarMerge site.encoding sca (some oa) scb (some ob) = .equal)
    (body : (s.read a f .body).map site.encoding.sha256 =
      (s.read b f .body).map site.encoding.sha256) : Agreed site s a b f := by
  have live : SameLive (recordOf s a f) (recordOf s b f) sca scb oa ob :=
    ⟨left.stateOf typedA, right.stateOf typedB, left.sidecar, right.sidecar, digest⟩
  constructor
  · rw [live.decide]
    simp [sameBytes, left.sidecar, right.sidecar, merged]
  · exact body
  · rw [left.sidecar, right.sidecar, Option.map_some, Option.map_some,
      (rankedMerge_eq_equal.mp merged).2]
  · intro fence
    rw [left.fences, right.fences]

end Agreement

/-! ### Verdicts applied -/

/-- Both spent fences are gone, and nothing else. -/
structure Cleared (m n : Fleet ι) (a b : ι) (f : String) : Prop where
  others : ∀ j g k, k ≠ .fence .mirrorQuarantined → n.read j g k = m.read j g k
  fence : ∀ i, i = a ∨ i = b → n.read i f (.fence .mirrorQuarantined) =
    if isLivePrivate (stateOf m i f) then none else m.read i f (.fence .mirrorQuarantined)

theorem ends_verdictBody {verdict : Verdict} {outcome : Convergence} (apart : a ≠ b)
    (ended : Ends (apply site) (verdictBody site a b pkg f (recordOf m a f) (recordOf m b f) verdict
      source) m (.ok outcome) t) :
    outcome = (if verdict = .defer then .deferred else .converged) ∧
      ∃ n u, Cleared m n a b f ∧ Ends (apply site) (applyVerdict site a b pkg f (recordOf m a f)
        (recordOf m b f) source verdict) n (.ok u) t := by
  simp only [verdictBody, ends_bind_ok] at ended
  obtain ⟨_, p, clearA, _, n, clearB, u, q, applied, finished⟩ := ended
  obtain ⟨same, rfl⟩ := ends_done.mp finished
  cases same
  obtain ⟨othersA, fenceA⟩ := ends_clearSpentDemotionFence (fun _ => rfl) clearA
  have untouched (k : Kind) : p.read b f k = m.read b f k := othersA b f k (by simp [apart.symm])
  obtain ⟨othersB, fenceB⟩ := ends_clearSpentDemotionFence untouched clearB
  refine ⟨rfl, n, u, ⟨fun j g k other => ?_, ?_⟩, applied⟩
  · rw [othersB j g k (by simp [other]), othersA j g k (by simp [other])]
  · rintro i (rfl | rfl)
    · rw [othersB _ _ _ (by simp [apart]), fenceA]
      rfl
    · rw [fenceB, untouched]
      rfl

omit [DecidableEq ι] in
/-- A live record is behind no fence once the spent ones are gone. -/
theorem Cleared.shown {sha : String} {origin : Origin} {superseding : Bool}
    (cleared : Cleared m n a b f) (side : i = a ∨ i = b)
    (live : stateOf m i f = .live sha origin superseding) :
    ∃ sc, Shown n i f sc ∧ m.read i f .sidecar = some sc ∧ sc.sha256 = sha := by
  obtain ⟨⟨frozen, tombstone⟩, artifact, -, sc, sidecar, digest⟩ := classifyRecord_live live
  refine ⟨sc, ⟨?_, ?_, fun fence => ?_⟩, sidecar, digest⟩
  · rw [cleared.others _ _ _ (by simp)]
    exact artifact
  · rw [cleared.others _ _ _ (by simp)]
    exact sidecar
  · cases fence with
    | tombstone =>
        rw [cleared.others _ _ _ (by simp)]
        exact fence_down tombstone
    | frozen =>
        rw [cleared.others _ _ _ (by simp)]
        exact fence_down frozen
    | mirrorQuarantined =>
        rw [cleared.fence i side, live]
        cases origin with
        | priv => rfl
        | mirror =>
            apply fence_down
            by_contra fenced
            rw [Bool.not_eq_false] at fenced
            exact absurd (classifyRecord_live_fenced live fenced).2 (by simp)

/-! What each verdict makes of the two sides, spent fences cleared. -/

theorem freezeSide_read (cut : Cut (apply site) (freezeSide site i pkg f) s t)
    (other : ¬(j = i ∧ g = f)) : t.read j g k = s.read j g k := by
  let region (j : ι) (g : String) (_ : Kind) : Prop := j = i ∧ g = f
  have drops : (touches region).Drops i f := ⟨fun _ => ⟨rfl, rfl⟩, fun _ _ => ⟨rfl, rfl⟩⟩
  exact touches_read (within_freezeSide drops) cut other

theorem tombstoneSide_read (cut : Cut (apply site) (tombstoneSide i f) s t)
    (other : ¬(j = i ∧ g = f)) : t.read j g k = s.read j g k := by
  let region (j : ι) (g : String) (_ : Kind) : Prop := j = i ∧ g = f
  have drops : (touches region).Drops i f := ⟨fun _ => ⟨rfl, rfl⟩, fun _ _ => ⟨rfl, rfl⟩⟩
  exact touches_read (within_tombstoneSide drops) cut other

theorem markDirtyIf_read {changed : Bool} {u : Unit}
    (ended : Ends (apply site) (markDirtyIf changed i) s (.ok u) t) :
    t.read j g k = s.read j g k :=
  nothing_read within_markDirtyIf ended.cut

omit [DecidableEq ι] in
theorem Fenced.congr {fate : Fate} (fenced : Fenced s i f fate)
    (same : ∀ k, (∀ h, k ≠ .quarantine h) → t.read i f k = s.read i f k) : Fenced t i f fate := by
  constructor
  · intro fence
    rw [same _ (by simp), fenced.fences]
  · intro k record
    rw [same k (by rintro h rfl; simp [recordObjectKeys] at record), fenced.records k record]

theorem ends_freeze {verdict : Verdict} {ra rb : Record} {u : Unit} (apart : a ≠ b)
    (freezes : verdict = .freeze ∨ verdict = .finishFreeze)
    (ended : Ends (apply site) (applyVerdict site a b pkg f ra rb source verdict) s (.ok u) t) :
    Fenced t a f .frozen ∧ Fenced t b f .frozen := by
  have steps : ∃ x y, (∃ o, Ends (apply site) (freezeSide site a pkg f) s (.ok o) x) ∧
      (∃ o, Ends (apply site) (freezeSide site b pkg f) x (.ok o) y) ∧ t = y := by
    rcases freezes with rfl | rfl
    all_goals
      simp only [applyVerdict, ends_bind_ok] at ended
      obtain ⟨_, x, first, _, y, second, _, z, marked, closing⟩ := ended
      obtain rfl := ends_markCommit.mp marked
      obtain rfl := ends_markCommit.mp closing
      exact ⟨x, _, ⟨_, first⟩, ⟨_, second⟩, rfl⟩
  obtain ⟨x, y, ⟨_, first⟩, ⟨_, second⟩, rfl⟩ := steps
  refine ⟨(ends_freezeSide first).congr fun k _ => ?_, ends_freezeSide second⟩
  exact freezeSide_read second.cut (by simp [apart])

theorem ends_propagateFreeze {side : Side} {ra rb : Record} {u : Unit} (apart : a ≠ b)
    (holder : Fenced s (side.pick a b) f .frozen)
    (ended : Ends (apply site) (applyVerdict site a b pkg f ra rb source (.propagateFreeze side)) s
      (.ok u) t) : Fenced t a f .frozen ∧ Fenced t b f .frozen := by
  cases side with
  | a =>
      simp only [applyVerdict, ends_bind_ok] at ended
      obtain ⟨_, x, froze, marked⟩ := ended
      obtain rfl := ends_markCommit.mp marked
      exact ⟨holder.congr fun k _ => freezeSide_read froze.cut (by simp [Side.pick, apart]),
        ends_freezeSide froze⟩
  | b =>
      simp only [applyVerdict, ends_bind_ok] at ended
      obtain ⟨_, x, froze, marked⟩ := ended
      obtain rfl := ends_markCommit.mp marked
      exact ⟨ends_freezeSide froze,
        holder.congr fun k _ => freezeSide_read froze.cut (by simp [Side.pick, apart.symm])⟩

theorem ends_tombstone {ra rb : Record} {u : Unit} (apart : a ≠ b)
    (left : s.read a f (.fence .frozen) = none) (right : s.read b f (.fence .frozen) = none)
    (ended : Ends (apply site) (applyVerdict site a b pkg f ra rb source .tombstone) s (.ok u) t) :
    Fenced t a f .tombstoned ∧ Fenced t b f .tombstoned := by
  simp only [applyVerdict, ends_bind_ok] at ended
  obtain ⟨_, x, first, _, y, marked, _, z, second, closing⟩ := ended
  have between (j : ι) (k : Kind) : y.read j f k = x.read j f k := markDirtyIf_read marked
  have after (j : ι) (k : Kind) : t.read j f k = z.read j f k := markDirtyIf_read closing
  have unfrozen : y.read b f (.fence .frozen) = none := by
    rw [between, tombstoneSide_read first.cut (by simp [apart.symm]), right]
  constructor
  · apply (ends_tombstoneSide left first).congr
    intro k _
    rw [after, tombstoneSide_read second.cut (by simp [apart]), between]
  · exact (ends_tombstoneSide unfrozen second).congr fun k _ => after b k

/-- A settle of the filename would go through: nothing private stands in its way,
and no supersede is declared over its body. -/
structure Settleable (s : Fleet ι) (i : ι) (f : String) : Prop where
  frozen : s.read i f (.fence .frozen) = none
  tombstone : s.read i f (.fence .tombstone) = none
  mirror : ¬ PrivateTruth s i f
  undeclared : (s.read i f .body).isSome → s.read i f .superseding = none

omit [DecidableEq ι] in
theorem Settleable.congr (settleable : Settleable s i f)
    (same : ∀ k, k ≠ .fence .mirrorQuarantined → t.read i f k = s.read i f k) : Settleable t i f := by
  obtain ⟨frozen, tombstone, mirror, undeclared⟩ := settleable
  have body := same .body (by simp)
  have sidecar := same .sidecar (by simp)
  constructor
  · rw [same _ (by simp), frozen]
  · rw [same _ (by simp), tombstone]
  · simpa only [PrivateTruth, body, sidecar] using mirror
  · rw [body, same _ (by simp)]
    exact undeclared

omit [DecidableEq ι] in
theorem Settled.fenced (settled : Settled s t i f) (settleable : Settleable s i f) :
    Fenced t i f .demoted := by
  cases settled with
  | resolved truth => exact absurd truth settleable.mirror
  | abandoned _ body declared => simp [settleable.undeclared body] at declared
  | moved _ fenced dropped same =>
      refine ⟨fun fence => ?_, dropped⟩
      cases fence with
      | tombstone =>
          rw [same _ (by simp [recordObjectKeys]) (by simp) (by simp)]
          exact settleable.tombstone
      | frozen =>
          rw [same _ (by simp [recordObjectKeys]) (by simp) (by simp)]
          exact settleable.frozen
      | mirrorQuarantined => exact fenced

theorem ends_settle {ra rb : Record} {u : Unit} (apart : a ≠ b)
    (ended : Ends (apply site) (applyVerdict site a b pkg f ra rb source .settleMirrorQuarantine) s
      (.ok u) t) : Settled s t a f ∧ Settled s t b f := by
  simp only [applyVerdict, ends_bind_ok] at ended
  obtain ⟨_, x, first, _, y, marked, _, z, second, closing⟩ := ended
  have between (j : ι) (k : Kind) : y.read j f k = x.read j f k := markDirtyIf_read marked
  have after (j : ι) (k : Kind) : t.read j f k = z.read j f k := markDirtyIf_read closing
  constructor
  · apply (ends_settleMirrorQuarantine first).congr fun _ => rfl
    intro k
    rw [after, settleMirrorQuarantine_read second.cut (by simp [apart]), between]
  · apply (ends_settleMirrorQuarantine second).congr _ (after b)
    intro k
    rw [between, settleMirrorQuarantine_read first.cut (by simp [apart.symm])]

theorem ends_copy {side : Side} {ra rb : Record} {u : Unit} (apart : a ≠ b)
    (named : (side.pick ra rb).sidecar = some sc)
    (vacant : s.read (side.other.pick a b) f .body = none)
    (yields : sidecarBeside site.encoding sc ((side.pick ra rb).origin = some .mirror)
      (s.read (side.other.pick a b) f .sidecar) = sc)
    (ended : Ends (apply site) (applyVerdict site a b pkg f ra rb .bucket (.copy side)) s (.ok u) t) :
    Published s t (side.other.pick a b) f (s.read (side.pick a b) f .body) sc := by
  have copied : ∃ changed x, Ends (apply site) (copyLive site (side.pick a b) (side.other.pick a b)
      pkg f (side.pick ra rb) .bucket) s (.ok changed) x ∧ ∀ j g k, t.read j g k = x.read j g k := by
    cases side with
    | a =>
        obtain ⟨changed, x, copying, marked⟩ := ends_bind_ok.mp ended
        exact ⟨changed, x, copying, fun _ _ _ => markDirtyIf_read marked⟩
    | b =>
        obtain ⟨changed, x, copying, marked⟩ := ends_bind_ok.mp ended
        exact ⟨changed, x, copying, fun _ _ _ => markDirtyIf_read marked⟩
  obtain ⟨_, x, copying, after⟩ := copied
  have distinct : side.pick a b ≠ side.other.pick a b := by
    cases side with
    | a => exact apart
    | b => exact apart.symm
  have published := ends_copyLive distinct named vacant yields copying
  exact ⟨(after _ _ _).trans published.body, (after _ _ _).trans published.sidecar,
    fun j g k other => (after j g k).trans (published.others j g k other)⟩

theorem ends_supersede {verdict : Verdict} {side : Side} {ra rb : Record} {u : Unit}
    (supersedes : verdict = .supersede side ∨ verdict = .quarantineLoser side)
    (named : (side.pick ra rb).sidecar = some sc)
    (unfenced : ∀ fence, fence ≠ .mirrorQuarantined →
      s.read (side.other.pick a b) f (.fence fence) = none)
    (outranks : ∀ current, s.read (side.other.pick a b) f .sidecar = some current → current = sc ∨
      (current.sha256 = sc.sha256 → current.origin ≠ some Origin.priv.asStr))
    (ended : Ends (apply site) (applyVerdict site a b pkg f ra rb .bucket verdict) s (.ok u) t) :
    Superseded site s t (side.other.pick a b) f sc ∧ ∃ bytes,
      s.read (side.pick a b) f .body = some bytes ∧ site.encoding.sha256 bytes = sc.sha256 := by
  have superseded : Ends (apply site) (supersedeRecord site (side.pick a b) (side.other.pick a b)
      pkg f (side.pick ra rb) .bucket) s (.ok u) t := by
    rcases supersedes with rfl | rfl
    · cases side with
      | a => exact ended
      | b => exact ended
    · cases side with
      | a => exact ended
      | b => exact ended
  exact ends_supersedeRecord named unfenced outranks superseded

theorem ends_adopt {side : Side} {ra rb : Record} {left right : Sidecar} {oa ob : Origin} {u : Unit}
    (apart : a ≠ b) (foundA : s.read a f .sidecar = some left)
    (foundB : s.read b f .sidecar = some right) (typedA : parsedOrigin left = some oa)
    (typedB : parsedOrigin right = some ob)
    (merged : sidecarMerge site.encoding left (some oa) right (some ob) = side.pick .a .b)
    (ended : Ends (apply site) (applyVerdict site a b pkg f ra rb source (.adoptSidecar side)) s
      (.ok u) t) :
    t.read a f .sidecar = some (side.pick left right) ∧
      t.read b f .sidecar = some (side.pick left right) ∧
      ∀ j g k, k ≠ .sidecar → (∀ c, k ≠ .companion c) → t.read j g k = s.read j g k := by
  simp only [applyVerdict, ends_bind_ok] at ended
  obtain ⟨_, x, adopted, _, y, repaired, _, z, marked, closing⟩ := ended
  have after {j : ι} {g : String} {k : Kind} (other : ∀ c, k ≠ .companion c) :
      t.read j g k = x.read j g k := by
    rw [markDirtyIf_read closing, markDirtyIf_read marked, repairSameShaCompanions_read repaired other]
  have both := ends_adoptSidecarCas apart foundA foundB typedA typedB adopted
  rw [merged] at both
  rw [after (by simp), after (by simp)]
  refine ⟨?_, ?_, fun j g k sidecar companion => ?_⟩
  · cases side with
    | a => exact both.1
    | b => exact both.1
  · cases side with
    | a => exact both.2
    | b => exact both.2
  · rw [after companion, adoptSidecarCas_read adopted (by simp [sidecar])]

theorem ends_noop {ra rb : Record} {u : Unit}
    (ended : Ends (apply site) (applyVerdict site a b pkg f ra rb source .noop) s (.ok u) t) :
    (∀ j g k, (∀ c, k ≠ .companion c) → t.read j g k = s.read j g k) ∧
      ((∀ sha origin superseding, classifyRecord ra ≠ .live sha origin superseding) ∨
        (∀ sha origin superseding, classifyRecord rb ≠ .live sha origin superseding) →
        ∀ j g k, t.read j g k = s.read j g k) := by
  simp only [applyVerdict, ends_bind_ok] at ended
  obtain ⟨_, x, repaired, _, y, marked, closing⟩ := ended
  have after (j : ι) (g : String) (k : Kind) : t.read j g k = x.read j g k := by
    rw [markDirtyIf_read closing, markDirtyIf_read marked]
  constructor
  · intro j g k other
    rw [after, repairSameShaCompanions_read repaired other]
  · intro dead j g k
    rw [after]
    unfold repairSameShaCompanions at repaired
    split at repaired
    · rename_i left right
      rcases dead with dead | dead
      · exact absurd left (dead _ _ _)
      · exact absurd right (dead _ _ _)
    · obtain ⟨-, rfl⟩ := ends_done.mp repaired
      rfl

/-! ### A pass that reports convergence -/

/-- A sidecar with no body gives way to that of a live record, and is behind no fence. -/
def Overwrites (site : Site ι) (s : Fleet ι) (src dst : ι) (f : String) : Prop :=
  ∀ sha origin superseding debris sc, stateOf s src f = .live sha origin superseding →
    stateOf s dst f = .absent debris → s.read src f .sidecar = some sc →
    sidecarBeside site.encoding sc (origin = .mirror) (s.read dst f .sidecar) = sc ∧
      s.read dst f (.fence .mirrorQuarantined) = none

/-- What two sides may have left that hold no body: one beside a live record gives way to
it, and two have left the same. -/
structure Leftovers (site : Site ι) (s : Fleet ι) (a b : ι) (f : String) : Prop where
  forth : Overwrites site s a b f
  back : Overwrites site s b a f
  matched : ∀ da db, stateOf s a f = .absent da → stateOf s b f = .absent db →
    (s.read a f .sidecar).map site.encoding.toVec = (s.read b f .sidecar).map site.encoding.toVec ∧
      s.read a f (.fence .mirrorQuarantined) = s.read b f (.fence .mirrorQuarantined)

/-- Two live records under one digest have bodies of one digest. -/
def Described (site : Site ι) (s : Fleet ι) (a b : ι) (f : String) : Prop :=
  ∀ sha oa ob xa xb, stateOf s a f = .live sha oa xa → stateOf s b f = .live sha ob xb →
    (s.read a f .body).map site.encoding.sha256 = (s.read b f .body).map site.encoding.sha256

section Records
omit [DecidableEq ι]

theorem Cleared.unchanged (cleared : Cleared m n a b f) (side : i = a ∨ i = b)
    (dead : isLivePrivate (stateOf m i f) = false) (k : Kind) : n.read i f k = m.read i f k := by
  by_cases fence : k = .fence .mirrorQuarantined
  · subst fence
    rw [cleared.fence i side, dead]
    rfl
  · exact cleared.others i f k fence

/-- An absent record has no body, and at most a demotion fence. -/
theorem absent_open {debris : Bool} (absent : stateOf s i f = .absent debris) :
    s.read i f .body = none ∧ ∀ fence, fence ≠ .mirrorQuarantined → s.read i f (.fence fence) = none := by
  obtain ⟨⟨frozen, tombstone⟩, artifact, -⟩ := classifyRecord_absent absent
  refine ⟨by simpa using artifact, fun fence other => ?_⟩
  cases fence with
  | tombstone => exact fence_down tombstone
  | frozen => exact fence_down frozen
  | mirrorQuarantined => exact absurd rfl other

/-- With no sidecar it is behind no fence. -/
theorem absent_unfenced {debris : Bool} (absent : stateOf s i f = .absent debris)
    (vacant : s.read i f .sidecar = none) (fence : Fence) : s.read i f (.fence fence) = none := by
  by_cases demotion : fence = .mirrorQuarantined
  · rw [demotion]
    apply fence_down
    by_contra fenced
    rw [Bool.not_eq_false] at fenced
    simpa [vacant] using (classifyRecord_absent absent).2.2 fenced
  · exact (absent_open absent).2 fence demotion

theorem parsedOrigin_of_live {sha : String} {origin : Origin} {superseding : Bool}
    (typed : Typed s i f) (live : stateOf s i f = .live sha origin superseding)
    (found : s.read i f .sidecar = some sc) : parsedOrigin sc = some origin := by
  obtain ⟨parsed, parses⟩ := Option.isSome_iff_exists.mp (typed sc found)
  obtain ⟨-, -, same, -⟩ := classifyRecord_live live
  rw [recordOf_origin found parses] at same
  rw [parses, same]

/-- A demotable reading has no private truth behind it. -/
theorem demotable_mirror (typed : Typed s i f) (demotable : Demotable (stateOf s i f)) :
    s.read i f (.fence .frozen) = none ∧ s.read i f (.fence .tombstone) = none ∧
      ¬ PrivateTruth s i f := by
  rcases reading : stateOf s i f with _ | _ | settled | ⟨sha, origin, superseding⟩ | _ | _ | debris
  all_goals simp only [reading, Demotable] at demotable
  · obtain ⟨⟨frozen, tombstone⟩, -, mirror, -⟩ := classifyRecord_quarantinedMirror reading
    refine ⟨fence_down frozen, fence_down tombstone, ?_⟩
    rintro ⟨⟨sc, found, priv⟩, -⟩
    exact mirror (by simp [found, priv])
  · cases origin with
    | priv => exact demotable.elim
    | mirror =>
        obtain ⟨⟨frozen, tombstone⟩, -⟩ := classifyRecord_live reading
        refine ⟨fence_down frozen, fence_down tombstone, ?_⟩
        rintro ⟨⟨sc, found, priv⟩, -⟩
        have mirror := parsedOrigin_of_live typed reading found
        rw [parsedOrigin, priv, Option.bind_some, Origin.parse_asStr] at mirror
        simp at mirror
  · obtain ⟨⟨frozen, tombstone⟩, artifact, -⟩ := classifyRecord_absent reading
    refine ⟨fence_down frozen, fence_down tombstone, ?_⟩
    rintro ⟨-, body⟩
    simp [recordOf_hasArtifact, body] at artifact

end Records

/-- What a merge needs of the two sides it reads. -/
structure Mergeable (site : Site ι) (s : Fleet ι) (a b : ι) (f : String) : Prop where
  typed : ∀ i, i = a ∨ i = b → Typed s i f
  leftovers : Leftovers site s a b f
  described : Described site s a b f
  undeclared : decide site.encoding (recordOf s a f) (recordOf s b f) = .settleMirrorQuarantine →
    ∀ i, i = a ∨ i = b → (s.read i f .body).isSome → s.read i f .superseding = none

theorem agreed_noop {u : Unit} (mergeable : Mergeable site m a b f) (cleared : Cleared m n a b f)
    (decided : decide site.encoding (recordOf m a f) (recordOf m b f) = .noop)
    (ended : Ends (apply site) (applyVerdict site a b pkg f (recordOf m a f) (recordOf m b f) source
      .noop) n (.ok u) t) : Agreed site t a b f := by
  obtain ⟨kept, idle⟩ := ends_noop ended
  have fenced (fate : Fate) (left : stateOf m a f = fate.state) (right : stateOf m b f = fate.state) :
      Agreed site t a b f := by
    have dead : isLivePrivate fate.state = false := by cases fate <;> rfl
    have untouched (i : ι) (side : i = a ∨ i = b) (state : stateOf m i f = fate.state) :
        Fenced t i f fate := by
      apply (stateOf_fate state).congr
      intro k _
      rw [idle _ i f k, cleared.unchanged side (state ▸ dead)]
      left
      intro sha origin superseding live
      rw [show classifyRecord (recordOf m a f) = fate.state from left] at live
      cases fate <;> contradiction
    exact agreed_fenced (untouched a (Or.inl rfl) left) (untouched b (Or.inr rfl) right)
  rcases decide_noop decided with ⟨left, right⟩ | ⟨left, right⟩ | ⟨da, db, left, right⟩ |
    ⟨left, right⟩ | ⟨sca, scb, oa, ob, live, merged⟩
  · exact fenced .frozen left right
  · exact fenced .tombstoned left right
  · have same (i : ι) (side : i = a ∨ i = b) (debris : Bool)
        (absent : stateOf m i f = .absent debris) (k : Kind) : t.read i f k = m.read i f k := by
      rw [idle (Or.inl (by simp [show classifyRecord (recordOf m a f) = .absent da from left])),
        cleared.unchanged side (by rw [absent]; rfl)]
    have sameA := same a (Or.inl rfl) da left
    have sameB := same b (Or.inr rfl) db right
    obtain ⟨sidecars, demotions⟩ := mergeable.leftovers.matched da db left right
    obtain ⟨bodyA, fencesA⟩ := absent_open left
    obtain ⟨bodyB, fencesB⟩ := absent_open right
    constructor
    · exact decide_absent ((stateOf_congr (mergeable.typed a (Or.inl rfl)) sameA).trans left)
        ((stateOf_congr (mergeable.typed b (Or.inr rfl)) sameB).trans right)
    · rw [sameA, sameB, bodyA, bodyB]
    · rw [sameA, sameB, sidecars]
    · intro fence
      rw [sameA, sameB]
      by_cases demotion : fence = .mirrorQuarantined
      · rw [demotion, demotions]
      · rw [fencesA fence demotion, fencesB fence demotion]
  · exact fenced .demoted left right
  · obtain ⟨_, left⟩ := live.left
    obtain ⟨_, right⟩ := live.right
    obtain ⟨_, shownA, foundA, -⟩ := cleared.shown (Or.inl rfl) left
    obtain ⟨_, shownB, foundB, -⟩ := cleared.shown (Or.inr rfl) right
    cases live.sidecarA.symm.trans foundA
    cases live.sidecarB.symm.trans foundB
    have same (i : ι) (k : Kind) (other : ∀ c, k ≠ .companion c) : t.read i f k = n.read i f k :=
      kept i f k other
    apply agreed_shown (shownA.congr (same a)) (shownB.congr (same b))
      (parsedOrigin_of_live (mergeable.typed a (Or.inl rfl)) left foundA)
      (parsedOrigin_of_live (mergeable.typed b (Or.inr rfl)) right foundB) live.digest merged
    rw [same a _ (by simp), same b _ (by simp), cleared.others _ _ _ (by simp),
      cleared.others _ _ _ (by simp)]
    exact mergeable.described _ _ _ _ _ left (live.digest ▸ right)

section Sides
omit [DecidableEq ι]

theorem pick_side (side : Side) : side.pick a b = a ∨ side.pick a b = b := by
  cases side with
  | a => exact Or.inl rfl
  | b => exact Or.inr rfl

theorem pick_ne (apart : a ≠ b) (side : Side) : side.pick a b ≠ side.other.pick a b := by
  cases side with
  | a => exact apart
  | b => exact apart.symm

theorem pick_recordOf (side : Side) :
    side.pick (recordOf s a f) (recordOf s b f) = recordOf s (side.pick a b) f := by
  cases side with
  | a => rfl
  | b => rfl

theorem Leftovers.overwrites (leftovers : Leftovers site s a b f) (side : Side) :
    Overwrites site s (side.pick a b) (side.other.pick a b) f := by
  cases side with
  | a => exact leftovers.forth
  | b => exact leftovers.back

theorem forall_sides {P : ι → Prop} (side : Side) (picked : P (side.pick a b))
    (other : P (side.other.pick a b)) : P a ∧ P b := by
  cases side with
  | a => exact ⟨picked, other⟩
  | b => exact ⟨other, picked⟩

theorem agreed_one {origin : Origin} (left : Shown s a f sc) (right : Shown s b f sc)
    (typed : parsedOrigin sc = some origin)
    (body : (s.read a f .body).map site.encoding.sha256 =
      (s.read b f .body).map site.encoding.sha256) : Agreed site s a b f :=
  agreed_shown left right typed typed rfl (rankedMerge_eq_equal.mpr ⟨rfl, rfl⟩) body

end Sides

/-- A body whose digest is the sidecar's. -/
def Holds (site : Site ι) (s : Fleet ι) (i : ι) (f : String) (sha : String) : Prop :=
  (s.read i f .body).map site.encoding.sha256 = some sha

/-- A copy leaves the source's live record on both sides. -/
theorem shown_copy {side : Side} {u : Unit} (apart : a ≠ b)
    (overwrites : Overwrites site m (side.pick a b) (side.other.pick a b) f)
    (cleared : Cleared m n a b f)
    (decided : decide site.encoding (recordOf m a f) (recordOf m b f) = .copy side)
    (ended : Ends (apply site) (applyVerdict site a b pkg f (recordOf m a f) (recordOf m b f) .bucket
      (.copy side)) n (.ok u) t) :
    ∃ sc, m.read (side.pick a b) f .sidecar = some sc ∧ (Shown t a f sc ∧ Shown t b f sc) ∧
      t.read a f .body = m.read (side.pick a b) f .body ∧
      t.read b f .body = m.read (side.pick a b) f .body := by
  obtain ⟨⟨sha, origin, superseding, live⟩, debris, absent⟩ := decide_copy decided
  rw [pick_recordOf] at live absent
  obtain ⟨sc, shown, found, -⟩ := cleared.shown (pick_side side) live
  obtain ⟨yields, demotion⟩ := overwrites _ _ _ _ sc live absent found
  obtain ⟨body, fences⟩ := absent_open absent
  have untouched (k : Kind) : n.read (side.other.pick a b) f k = m.read (side.other.pick a b) f k :=
    cleared.unchanged (pick_side _) (by rw [show stateOf m _ f = _ from absent]; rfl) k
  have typed : (recordOf m (side.pick a b) f).origin = some .mirror ↔ origin = .mirror := by
    rw [(classifyRecord_live live).2.2.1, Option.some.injEq]
  have published := ends_copy apart (by rw [pick_recordOf]; exact found)
    ((untouched _).trans body) (by simpa only [pick_recordOf, typed, untouched] using yields) ended
  have source (k : Kind) : t.read (side.pick a b) f k = n.read (side.pick a b) f k :=
    published.others _ _ _ fun same => pick_ne apart side same.1
  have sourceBody : n.read (side.pick a b) f .body = m.read (side.pick a b) f .body :=
    cleared.others _ _ _ (by simp)
  have target : Shown t (side.other.pick a b) f sc := by
    refine ⟨?_, published.sidecar, fun fence => ?_⟩
    · rw [published.body]
      exact shown.body
    · rw [published.others _ _ _ (by simp), untouched]
      by_cases demoted : fence = .mirrorQuarantined
      · rw [demoted, demotion]
      · exact fences fence demoted
  have both : Shown t a f sc ∧ Shown t b f sc :=
    forall_sides (P := fun i => Shown t i f sc) side (shown.congr fun k _ => source k) target
  have bodies : t.read a f .body = m.read (side.pick a b) f .body ∧
      t.read b f .body = m.read (side.pick a b) f .body :=
    forall_sides (P := fun i => t.read i f .body = m.read (side.pick a b) f .body) side
      ((source _).trans sourceBody) (published.body.trans sourceBody)
  exact ⟨sc, found, both, bodies⟩

/-- A supersede leaves the winner's live record on both sides. -/
theorem shown_supersede {verdict : Verdict} {side : Side} {u : Unit} (apart : a ≠ b)
    (cleared : Cleared m n a b f)
    (supersedes : verdict = .supersede side ∨ verdict = .quarantineLoser side)
    (decided : decide site.encoding (recordOf m a f) (recordOf m b f) = verdict)
    (ended : Ends (apply site) (applyVerdict site a b pkg f (recordOf m a f) (recordOf m b f) .bucket
      verdict) n (.ok u) t) :
    ∃ sc, m.read (side.pick a b) f .sidecar = some sc ∧ (Shown t a f sc ∧ Shown t b f sc) ∧
      Holds site t a f sc.sha256 ∧ Holds site t b f sc.sha256 := by
  have contest : ∃ sha xa, stateOf m (side.pick a b) f = .live sha .priv xa ∧
      ((∃ settled, stateOf m (side.other.pick a b) f = .quarantinedMirror settled) ∨
        ∃ sha' o xb, stateOf m (side.other.pick a b) f = .live sha' o xb ∧ sha ≠ sha') := by
    rcases supersedes with rfl | rfl
    · obtain ⟨sha, xa, live, loser⟩ := decide_supersede decided
      rw [pick_recordOf] at live loser
      refine ⟨sha, xa, live, loser.imp_right ?_⟩
      rintro ⟨sha', xb, live', apart⟩
      exact ⟨sha', .mirror, xb, live', apart⟩
    · obtain ⟨sha, sha', xa, xb, live, live', apart, -⟩ := decide_quarantineLoser decided
      rw [pick_recordOf] at live live'
      exact ⟨sha, xa, live, Or.inr ⟨sha', .priv, xb, live', apart⟩⟩
  obtain ⟨sha, xa, live, loser⟩ := contest
  obtain ⟨sc, shown, found, named⟩ := cleared.shown (pick_side side) live
  have unfenced (fence : Fence) (other : fence ≠ .mirrorQuarantined) :
      n.read (side.other.pick a b) f (.fence fence) = none := by
    rw [cleared.others _ _ _ (by simpa using other)]
    have open' : (recordOf m (side.other.pick a b) f).Unfenced := by
      rcases loser with ⟨settled, quarantined⟩ | ⟨_, _, _, live', -⟩
      · exact (classifyRecord_quarantinedMirror quarantined).1
      · exact (classifyRecord_live live').1
    cases fence with
    | tombstone => exact fence_down open'.2
    | frozen => exact fence_down open'.1
    | mirrorQuarantined => exact absurd rfl other
  have outranks (current : Sidecar)
      (stored : n.read (side.other.pick a b) f .sidecar = some current) :
      current = sc ∨ (current.sha256 = sc.sha256 → current.origin ≠ some Origin.priv.asStr) := by
    right
    intro same
    rw [cleared.others _ _ _ (by simp)] at stored
    rcases loser with ⟨settled, quarantined⟩ | ⟨_, _, _, live', different⟩
    · obtain ⟨-, -, mirror, -⟩ := classifyRecord_quarantinedMirror quarantined
      intro priv
      exact mirror (by simp [stored, priv])
    · obtain ⟨-, -, -, current', stored', rfl⟩ := classifyRecord_live live'
      cases stored.symm.trans stored'
      exact absurd (named ▸ same.symm) different
  obtain ⟨superseded, bytes, held, attested⟩ := ends_supersede supersedes
    (by rw [pick_recordOf]; exact found) unfenced outranks ended
  have source (k : Kind) : t.read (side.pick a b) f k = n.read (side.pick a b) f k :=
    superseded.others _ _ _ fun same => pick_ne apart side same.1
  have target : Shown t (side.other.pick a b) f sc := by
    obtain ⟨body, stored, -⟩ := superseded.body
    refine ⟨by simp [stored], superseded.sidecar, fun fence => ?_⟩
    by_cases demotion : fence = .mirrorQuarantined
    · rw [demotion]
      exact superseded.mirrorQuarantined
    · rw [superseded.fences fence demotion, unfenced fence demotion]
  have both : Shown t a f sc ∧ Shown t b f sc :=
    forall_sides (P := fun i => Shown t i f sc) side (shown.congr fun k _ => source k) target
  have bodies : Holds site t a f sc.sha256 ∧ Holds site t b f sc.sha256 := by
    apply forall_sides (P := fun i => Holds site t i f sc.sha256) side
    · rw [Holds, source, held, Option.map_some, attested]
    · obtain ⟨body, stored, digest⟩ := superseded.body
      rw [Holds, stored, Option.map_some, digest]
  exact ⟨sc, found, both, bodies⟩

/-- An adopted sidecar stands on both sides, over the bodies they had. -/
theorem shown_adopt {side : Side} {u : Unit} (apart : a ≠ b)
    (typed : ∀ i, i = a ∨ i = b → Typed m i f) (described : Described site m a b f)
    (cleared : Cleared m n a b f)
    (decided : decide site.encoding (recordOf m a f) (recordOf m b f) = .adoptSidecar side)
    (ended : Ends (apply site) (applyVerdict site a b pkg f (recordOf m a f) (recordOf m b f) source
      (.adoptSidecar side)) n (.ok u) t) :
    ∃ sc, m.read (side.pick a b) f .sidecar = some sc ∧ (Shown t a f sc ∧ Shown t b f sc) ∧
      (∀ i, t.read i f .body = m.read i f .body) ∧
      (m.read a f .body).map site.encoding.sha256 = (m.read b f .body).map site.encoding.sha256 := by
  obtain ⟨sca, scb, oa, ob, live, merged⟩ := decide_adoptSidecar decided
  obtain ⟨_, left⟩ := live.left
  obtain ⟨_, right⟩ := live.right
  obtain ⟨_, shownA, foundA, -⟩ := cleared.shown (Or.inl rfl) left
  obtain ⟨_, shownB, foundB, -⟩ := cleared.shown (Or.inr rfl) right
  cases live.sidecarA.symm.trans foundA
  cases live.sidecarB.symm.trans foundB
  obtain ⟨adoptedA, adoptedB, others⟩ := ends_adopt apart shownA.sidecar shownB.sidecar
    (parsedOrigin_of_live (typed a (Or.inl rfl)) left foundA)
    (parsedOrigin_of_live (typed b (Or.inr rfl)) right foundB) merged ended
  have same (i : ι) : t.read i f .body = n.read i f .body := others i f _ (by simp) (by simp)
  have bodies (i : ι) : t.read i f .body = m.read i f .body :=
    (same i).trans (cleared.others _ _ _ (by simp))
  have fences (i : ι) (fence : Fence) : t.read i f (.fence fence) = n.read i f (.fence fence) :=
    others i f _ (by simp) (by simp)
  refine ⟨side.pick sca scb, ?_, ⟨⟨?_, adoptedA, ?_⟩, ?_, adoptedB, ?_⟩, bodies, ?_⟩
  · cases side with
    | a => exact foundA
    | b => exact foundB
  · rw [same]
    exact shownA.body
  · exact fun fence => (fences a fence).trans (shownA.fences fence)
  · rw [same]
    exact shownB.body
  · exact fun fence => (fences b fence).trans (shownB.fences fence)
  · exact described _ _ _ _ _ left (live.digest ▸ right)

/-- A merge that reports convergence has made the two sides agree. -/
theorem execute_agrees (apart : a ≠ b) (mergeable : Mergeable site m a b f)
    (ended : Ends (apply site) (execute site a b pkg f (recordOf m a f) (recordOf m b f)
      (decide site.encoding (recordOf m a f) (recordOf m b f)) .bucket) m (.ok .converged) t) :
    Agreed site t a b f := by
  obtain ⟨outcome, n, u, cleared, applied⟩ := ends_verdictBody apart (ends_execute ended)
  have typed {sc : Sidecar} {i : ι} (side : i = a ∨ i = b) (found : m.read i f .sidecar = some sc) :
      ∃ origin, parsedOrigin sc = some origin :=
    Option.isSome_iff_exists.mp (mergeable.typed i side sc found)
  rcases decided : decide site.encoding (recordOf m a f) (recordOf m b f) with _ | _ | side | side |
    side | side | _ | _ | side | _ | _
  all_goals rw [decided] at applied outcome
  · exact agreed_noop mergeable cleared decided applied
  · simp at outcome
  · obtain ⟨sc, found, ⟨left, right⟩, bodyA, bodyB⟩ :=
      shown_copy apart (mergeable.leftovers.overwrites side) cleared decided applied
    obtain ⟨origin, parsed⟩ := typed (pick_side side) found
    exact agreed_one left right parsed (by rw [bodyA, bodyB])
  · obtain ⟨sc, found, ⟨left, right⟩, bodies, digest⟩ :=
      shown_adopt apart mergeable.typed mergeable.described cleared decided applied
    obtain ⟨origin, parsed⟩ := typed (pick_side side) found
    exact agreed_one left right parsed (by rw [bodies, bodies, digest])
  · obtain ⟨sc, found, ⟨left, right⟩, bodyA, bodyB⟩ :=
      shown_supersede apart cleared (Or.inl rfl) decided applied
    obtain ⟨origin, parsed⟩ := typed (pick_side side) found
    exact agreed_one left right parsed (bodyA.trans bodyB.symm)
  · obtain ⟨sc, found, ⟨left, right⟩, bodyA, bodyB⟩ :=
      shown_supersede apart cleared (Or.inr rfl) decided applied
    obtain ⟨origin, parsed⟩ := typed (pick_side side) found
    exact agreed_one left right parsed (bodyA.trans bodyB.symm)
  · obtain ⟨left, right⟩ := ends_freeze apart (Or.inl rfl) applied
    exact agreed_fenced left right
  · obtain ⟨frozenA, frozenB, -⟩ := decide_tombstone decided
    obtain ⟨left, right⟩ := ends_tombstone apart
      ((cleared.others _ _ _ (by simp)).trans (fence_down frozenA))
      ((cleared.others _ _ _ (by simp)).trans (fence_down frozenB)) applied
    exact agreed_fenced left right
  · have frozen : stateOf m (side.pick a b) f = Fate.frozen.state := by
      rw [stateOf, ← pick_recordOf]
      exact decide_propagateFreeze decided
    have holder : Fenced n (side.pick a b) f .frozen := by
      apply (stateOf_fate frozen).congr
      exact fun k _ => cleared.unchanged (pick_side side) (by rw [frozen]; rfl) k
    obtain ⟨left, right⟩ := ends_propagateFreeze apart holder applied
    exact agreed_fenced left right
  · obtain ⟨left, right⟩ := ends_freeze apart (Or.inr rfl) applied
    exact agreed_fenced left right
  · obtain ⟨demotableA, demotableB, -⟩ := decide_settleMirrorQuarantine decided
    have settleable (i : ι) (side : i = a ∨ i = b) (demotable : Demotable (stateOf m i f)) :
        Settleable n i f := by
      obtain ⟨frozen, tombstone, mirror⟩ := demotable_mirror (mergeable.typed i side) demotable
      have before : Settleable m i f :=
        ⟨frozen, tombstone, mirror, mergeable.undeclared decided i side⟩
      exact before.congr fun k other => cleared.others i f k other
    obtain ⟨left, right⟩ := ends_settle apart applied
    exact agreed_fenced (left.fenced (settleable a (Or.inl rfl) demotableA))
      (right.fenced (settleable b (Or.inr rfl) demotableB))

/-! ### The pass -/

/-- A demotion is due on the pair, and would have to move a body over which a
supersede is declared. -/
structure Stalled (s : Fleet ι) (a b : ι) (f : String) : Prop where
  due : claimJoin (claimOf s a) (claimOf s b) = some .priv ∨
    ∃ i, (i = a ∨ i = b) ∧ (s.read i f (.fence .mirrorQuarantined)).isSome
  unfenced : ∀ i, i = a ∨ i = b → s.read i f (.fence .frozen) = none ∧
    s.read i f (.fence .tombstone) = none
  mirror : ∀ i, i = a ∨ i = b → isLivePrivate (stateOf s i f) = false
  declared : ∃ i, (i = a ∨ i = b) ∧ (s.read i f .body).isSome ∧ (s.read i f .superseding).isSome

section Sweeps
omit [DecidableEq ι]

/-- A swept filename is untouched, or stands behind a demotion fence with its
other fences, and a record that is gone or is the mirror record it was. -/
theorem Swept.cases (swept : Swept s m i f) :
    (∀ k, m.read i f k = s.read i f k) ∨
      ((m.read i f (.fence .mirrorQuarantined) = some () ∧
        (∃ sc, s.read i f .sidecar = some sc ∧ sc.origin = some Origin.mirror.asStr) ∧
        (∀ k, k ∉ recordObjectKeys → k ≠ .fence .mirrorQuarantined → (∀ h, k ≠ .quarantine h) →
          m.read i f k = s.read i f k)) ∧
        ((m.read i f .body = none ∧ m.read i f .sidecar = none) ∨
          (s.read i f .body).isSome ∧ m.read i f .body = s.read i f .body ∧
            m.read i f .sidecar = s.read i f .sidecar)) := by
  cases swept with
  | kept same => exact Or.inl same
  | demoted sc found mirror settled =>
      right
      cases settled with
      | resolved truth =>
          obtain ⟨⟨sc', found', priv⟩, -⟩ := truth
          cases found.symm.trans found'
          simp [mirror, Origin.asStr] at priv
      | abandoned _ body _ fenced same =>
          refine ⟨⟨fenced, ⟨sc, found, mirror⟩, fun k _ => same k⟩, Or.inr ⟨body, ?_, ?_⟩⟩
          · exact same _ (by simp) (by simp)
          · exact same _ (by simp) (by simp)
      | moved _ fenced dropped same =>
          exact ⟨⟨fenced, ⟨sc, found, mirror⟩, same⟩, Or.inl
            ⟨dropped _ (by simp [recordObjectKeys]), dropped _ (by simp [recordObjectKeys])⟩⟩

theorem Swept.fences (swept : Swept s m i f) (fence : Fence) (other : fence ≠ .mirrorQuarantined) :
    m.read i f (.fence fence) = s.read i f (.fence fence) := by
  rcases swept.cases with same | ⟨⟨-, -, same⟩, -⟩
  · exact same _
  · exact same _ (by simp [recordObjectKeys]) (by simpa using other) (by simp)

theorem Swept.sidecar (swept : Swept s m i f) (found : m.read i f .sidecar = some sc) :
    s.read i f .sidecar = some sc := by
  rcases swept.cases with same | ⟨-, ⟨-, gone⟩ | ⟨-, -, same⟩⟩
  · rw [← same, found]
  · rw [gone] at found
    contradiction
  · rw [← same, found]

theorem Swept.typed (swept : Swept s m i f) (typed : Typed s i f) : Typed m i f :=
  fun sc found => typed sc (swept.sidecar found)

/-- Behind the new fence nothing is live, and only a missing sidecar is absent. -/
theorem Swept.live (swept : Swept s m i f) {sha : String} {origin : Origin} {superseding : Bool}
    (live : stateOf m i f = .live sha origin superseding) : ∀ k, m.read i f k = s.read i f k := by
  rcases swept.cases with same | ⟨⟨fenced, ⟨sc, found, mirror⟩, -⟩, -⟩
  · exact same
  · exfalso
    have spent := (classifyRecord_live_fenced live (by simp [fenced])).1
    obtain ⟨-, -, -, sc', found', -⟩ := classifyRecord_live live
    cases (swept.sidecar found').symm.trans found
    rw [found', Option.bind_some, mirror] at spent
    simp [Origin.asStr] at spent

/-- Nothing absent has been swept. -/
theorem Swept.absent (swept : Swept s m i f) {debris : Bool} (absent : stateOf m i f = .absent debris) :
    ∀ k, m.read i f k = s.read i f k := by
  obtain ⟨-, artifact, spent⟩ := classifyRecord_absent absent
  rcases swept.cases with same | ⟨⟨fenced, -⟩, ⟨-, gone⟩ | ⟨body, same, -⟩⟩
  · exact same
  · simpa [gone] using spent (by simp [fenced])
  · simp [same, body] at artifact

theorem Overwrites.swept {src dst : ι} (overwrites : Overwrites site s src dst f) (left : Swept s m src f)
    (right : Swept s m dst f) (typed : ∀ i, i = src ∨ i = dst → Typed s i f) :
    Overwrites site m src dst f := by
  intro sha origin superseding debris sc live absent found
  have sameL := left.live live
  have sameR := right.absent absent
  rw [sameL] at found
  rw [sameR, sameR]
  exact overwrites sha origin superseding debris sc
    ((stateOf_congr (typed src (Or.inl rfl)) sameL).symm.trans live)
    ((stateOf_congr (typed dst (Or.inr rfl)) sameR).symm.trans absent) found

theorem Leftovers.swept (leftovers : Leftovers site s a b f) (left : Swept s m a f)
    (right : Swept s m b f) (typed : ∀ i, i = a ∨ i = b → Typed s i f) : Leftovers site m a b f := by
  refine ⟨leftovers.forth.swept left right typed,
    leftovers.back.swept right left fun i side => typed i side.symm, fun da db absentA absentB => ?_⟩
  have sameA := left.absent absentA
  have sameB := right.absent absentB
  simp only [sameA, sameB]
  exact leftovers.matched da db ((stateOf_congr (typed a (Or.inl rfl)) sameA).symm.trans absentA)
    ((stateOf_congr (typed b (Or.inr rfl)) sameB).symm.trans absentB)

/-- Live private truth is not swept. -/
theorem Swept.livePrivate (swept : Swept s m i f) (typed : Typed s i f)
    (live : isLivePrivate (stateOf s i f) = true) : stateOf m i f = stateOf s i f := by
  rcases swept.cases with same | ⟨⟨-, ⟨sc, found, mirror⟩, -⟩, -⟩
  · exact stateOf_congr typed same
  · exfalso
    unfold isLivePrivate at live
    split at live
    · rename_i reading
      have priv := parsedOrigin_of_live typed reading found
      rw [parsedOrigin, mirror, Option.bind_some, Origin.parse_asStr] at priv
      simp at priv
    · contradiction

theorem Reconciled.swept (reconciled : Reconciled s m a b) (side : i = a ∨ i = b) : Swept s m i f := by
  rcases side with rfl | rfl
  · exact reconciled.left f
  · exact reconciled.right f

/-- Joining the claims keeps what the merge needs. -/
theorem Reconciled.mergeable (reconciled : Reconciled s m a b)
    (typed : ∀ i, i = a ∨ i = b → Typed s i f) (leftovers : Leftovers site s a b f)
    (described : Described site s a b f) (flows : ¬ Stalled s a b f) : Mergeable site m a b f := by
  have swept (i : ι) (side : i = a ∨ i = b) : Swept s m i f := reconciled.swept side
  have typedAfter (i : ι) (side : i = a ∨ i = b) : Typed m i f := (swept i side).typed (typed i side)
  refine ⟨typedAfter, leftovers.swept (reconciled.left f) (reconciled.right f) typed, ?_, ?_⟩
  · intro sha oa ob xa xb left right
    have sameA := (reconciled.left f).live left
    have sameB := (reconciled.right f).live right
    rw [sameA, sameB]
    exact described sha oa ob xa xb
      ((stateOf_congr (typed a (Or.inl rfl)) sameA).symm.trans left)
      ((stateOf_congr (typed b (Or.inr rfl)) sameB).symm.trans right)
  · intro settles i side body
    by_contra declared
    apply flows
    obtain ⟨demotableA, demotableB, demoted⟩ := decide_settleMirrorQuarantine settles
    have demotable (j : ι) (side : j = a ∨ j = b) : Demotable (stateOf m j f) := by
      rcases side with rfl | rfl
      · exact demotableA
      · exact demotableB
    constructor
    · by_cases joined : claimJoin (claimOf s a) (claimOf s b) = some .priv
      · exact Or.inl joined
      · right
        rcases demoted with ⟨_, quarantined⟩ | ⟨_, quarantined⟩
        · refine ⟨a, Or.inl rfl, ?_⟩
          rw [← reconciled.mirror joined]
          exact (classifyRecord_quarantinedMirror quarantined).2.1
        · refine ⟨b, Or.inr rfl, ?_⟩
          rw [← reconciled.mirror joined]
          exact (classifyRecord_quarantinedMirror quarantined).2.1
    · intro j side
      obtain ⟨frozen, tombstone, -⟩ := demotable_mirror (typedAfter j side) (demotable j side)
      rw [(swept j side).fences _ (by simp)] at frozen
      rw [(swept j side).fences _ (by simp)] at tombstone
      exact ⟨frozen, tombstone⟩
    · intro j side
      by_contra live
      rw [Bool.not_eq_false] at live
      have private' := demotable j side
      rw [(swept j side).livePrivate (typed j side) live] at private'
      unfold isLivePrivate at live
      split at live
      · rename_i reading
        rw [reading] at private'
        exact private'
      · contradiction
    · refine ⟨i, side, ?_⟩
      have superseding : m.read i f .superseding = s.read i f .superseding := by
        rcases (swept i side).cases with same | ⟨⟨-, -, same⟩, -⟩
        · exact same _
        · exact same _ (by simp [recordObjectKeys]) (by simp) (by simp)
      rw [← superseding]
      refine ⟨?_, Option.isSome_iff_ne_none.mpr declared⟩
      rcases (swept i side).cases with same | ⟨-, ⟨gone, -⟩ | ⟨stood, -⟩⟩
      · rw [← same]
        exact body
      · simp [gone] at body
      · exact stood

end Sweeps

/-- One pass over `pkg-1.whl`, every call served. -/
def samplePass (s : Fleet Bool) : Except String Convergence × Fleet Bool :=
  run (apply (streamingSite Bool))
    (convergePass (streamingSite Bool) false true "pkg" "pkg-1.whl" .bucket) s

/-- An upload, beside the sidecar of an older one whose body is gone. -/
def strayUpload : Fleet Bool := fun bucket =>
  if bucket then emptyPackage.set "pkg-1.whl" .sidecar (some (sampleSidecar 121 none .priv))
  else uploaded 120 .priv (sampleSidecar 120 none .priv)

/-- Two body-less sidecars that name different bytes. -/
def strandedSidecars : Fleet Bool := fun bucket =>
  emptyPackage.set "pkg-1.whl" .sidecar
    (some (sampleSidecar (if bucket then 121 else 120) none .priv))

/-- One body-less sidecar on both sides, behind a demotion fence on one of them. -/
def strandedFence : Fleet Bool := fun bucket =>
  let stray := emptyPackage.set "pkg-1.whl" .sidecar (some (sampleSidecar 120 none .priv))
  if bucket then stray.set "pkg-1.whl" (.fence .mirrorQuarantined) (some ()) else stray

/-- An upload, beside the yanked sidecar of the same bytes. -/
def yankedStray : Fleet Bool := fun bucket =>
  if bucket then
    emptyPackage.set "pkg-1.whl" .sidecar
      (some { sampleSidecar 120 none .priv with yanked := .flag true, yankEpoch := 1 })
  else uploaded 120 .priv (sampleSidecar 120 none .priv)

/-- An upload, beside a body-less sidecar behind a demotion fence. -/
def fencedStray : Fleet Bool := fun bucket =>
  if bucket then
    (emptyPackage.set "pkg-1.whl" .sidecar (some (sampleSidecar 121 none .priv))).set "pkg-1.whl"
      (.fence .mirrorQuarantined) (some ())
  else uploaded 120 .priv (sampleSidecar 120 none .priv)

/-- A mirror record, beside a body-less private sidecar. -/
def privateStray : Fleet Bool := fun bucket =>
  if bucket then emptyPackage.set "pkg-1.whl" .sidecar (some (sampleSidecar 121 none .priv))
  else uploaded 120 .mirror (sampleSidecar 120 none .mirror)

/-- Two live records with one sidecar, one of them over other bytes. -/
def mislabelledBody : Fleet Bool := fun bucket =>
  uploaded (if bucket then 121 else 120) .priv (sampleSidecar 120 none .priv)

/-- A demoted mirror body under a declared supersede, beside an empty bucket. -/
def stalledDemotion : Fleet Bool := fun bucket =>
  if bucket then emptyPackage
  else
    ((uploaded 120 .mirror (sampleSidecar 120 none .mirror)).set "pkg-1.whl"
      (.fence .mirrorQuarantined) (some ())).set "pkg-1.whl" .superseding
        (some (sampleSidecar 121 none .priv))

/-- The pass reports convergence, and the two sides differ in this object. -/
def ConvergedApart (s : Fleet Bool) (k : Kind) : Prop :=
  (samplePass s).1 = .ok .converged ∧
    (samplePass s).2.read false "pkg-1.whl" k ≠ (samplePass s).2.read true "pkg-1.whl" k

instance (s : Fleet Bool) (k : Kind) : Decidable (ConvergedApart s k) :=
  inferInstanceAs (Decidable (_ ∧ _))

end Pypiron.Replicate
