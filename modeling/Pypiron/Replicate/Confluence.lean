import Pypiron.Replicate.Agreement
import Pypiron.Replicate.View

/-! The executor refines the merge order: a merge raises both sides to what the
order says, so schedules of merges agree wherever the order is resolved. -/
namespace Pypiron.Replicate
open Program StoreM RankedMerge ClashMerge
variable {ι : Type} [DecidableEq ι] {site : Site ι} {s t m n : Fleet ι} {i j a b : ι}
variable {pkg f g : String} {k : Kind} {sc : Sidecar} {receipts : Receipts}

def viewOf (s : Fleet ι) (i : ι) (f : String) : View := (recordOf s i f).view

/-- A record the merge can take at its word: typed, and named by its sidecar. -/
structure Healthy (site : Site ι) (s : Fleet ι) (i : ι) (f : String) : Prop where
  typed : Typed s i f
  named : ∀ sha origin superseding, stateOf s i f = .live sha origin superseding →
    Holds site s i f sha

section Views
omit [DecidableEq ι]

def Fate.view : Fate → View
  | demoted => .demoted
  | tombstoned => .tombstoned
  | frozen => .frozen

theorem viewOf_frozen {settled : Bool} (state : stateOf s i f = .frozen settled) :
    viewOf s i f = .frozen := by
  unfold stateOf at state
  unfold viewOf Record.view
  rw [state]

theorem viewOf_tombstoned {settled : Bool} (state : stateOf s i f = .tombstoned settled) :
    viewOf s i f = .tombstoned := by
  unfold stateOf at state
  unfold viewOf Record.view
  rw [state]

theorem viewOf_quarantinedMirror {settled : Bool} (state : stateOf s i f = .quarantinedMirror settled) :
    viewOf s i f = .demoted := by
  unfold stateOf at state
  unfold viewOf Record.view
  rw [state]

theorem viewOf_absent {debris : Bool} (state : stateOf s i f = .absent debris) :
    viewOf s i f = .absent := by
  unfold stateOf at state
  unfold viewOf Record.view
  rw [state]

theorem viewOf_fate {fate : Fate} (state : stateOf s i f = fate.state) : viewOf s i f = fate.view := by
  cases fate with
  | demoted => exact viewOf_quarantinedMirror state
  | tombstoned => exact viewOf_tombstoned state
  | frozen => exact viewOf_frozen state

theorem viewOf_live {sha : String} {origin : Origin} {superseding : Bool}
    (live : stateOf s i f = .live sha origin superseding) (found : s.read i f .sidecar = some sc) :
    viewOf s i f = .live origin sc :=
  Record.view_live live found

/-- A private or mirror view is a live record with that sidecar. -/
theorem live_of_viewOf (origin : Origin) (view : viewOf s i f = .live origin sc) :
    (∃ sha superseding, stateOf s i f = .live sha origin superseding) ∧
      s.read i f .sidecar = some sc := by
  unfold viewOf Record.view at view
  split at view <;> cases origin <;> simp_all [View.live, stateOf]

theorem viewOf_congr (typed : Typed s i f) (same : ∀ k, t.read i f k = s.read i f k) :
    viewOf t i f = viewOf s i f := by
  have state := stateOf_congr typed same
  unfold stateOf at state
  unfold viewOf Record.view
  rw [state, recordOf_sidecar, recordOf_sidecar, same]

theorem Healthy.congr (healthy : Healthy site s i f)
    (same : ∀ k, t.read i f k = s.read i f k) : Healthy site t i f := by
  have state := stateOf_congr healthy.typed same
  constructor
  · intro sc found
    exact healthy.typed sc ((same _).symm.trans found)
  · intro sha origin superseding live
    rw [Holds, same]
    exact healthy.named sha origin superseding (state.symm.trans live)

theorem Shown.healthy {origin : Origin} (shown : Shown s i f sc) (typed : parsedOrigin sc = some origin)
    (held : Holds site s i f sc.sha256) : Healthy site s i f ∧ viewOf s i f = .live origin sc := by
  obtain ⟨superseding, live⟩ := shown.stateOf typed
  refine ⟨⟨?_, ?_⟩, viewOf_live live shown.sidecar⟩
  · intro sc' found
    cases shown.sidecar.symm.trans found
    simp [typed]
  · intro sha origin' superseding' live'
    cases live.symm.trans live'
    exact held

theorem Fenced.view {fate : Fate} (fenced : Fenced s i f fate) : viewOf s i f = fate.view :=
  viewOf_fate fenced.stateOf

theorem overwrites_vacant (vacant : s.read j f .sidecar = none) : Overwrites site s i j f := by
  intro sha origin superseding debris sc _ absent _
  rw [vacant]
  exact ⟨rfl, absent_unfenced absent vacant _⟩

/-- With no sidecar there is nothing for the merge to take on trust. -/
theorem vacant_healthy (vacant : s.read i f .sidecar = none) : Healthy site s i f := by
  constructor
  · intro sc found
    simp [vacant] at found
  · intro sha origin superseding live
    obtain ⟨-, -, -, sc, found, -⟩ := classifyRecord_live live
    simp [vacant] at found

theorem Fenced.healthy {fate : Fate} (fenced : Fenced s i f fate) : Healthy site s i f :=
  vacant_healthy (fenced.records _ (by simp [recordObjectKeys]))

/-- A settle ends in a demotion, whether it moved the body or left it to a
declared supersede. -/
theorem Settled.healthy (settled : Settled s t i f) (typed : Typed s i f)
    (frozen : s.read i f (.fence .frozen) = none) (tombstone : s.read i f (.fence .tombstone) = none)
    (mirror : ¬ PrivateTruth s i f) : Healthy site t i f ∧ viewOf t i f = .demoted := by
  cases settled with
  | resolved truth => exact absurd truth mirror
  | abandoned _ body _ fenced same =>
      have sidecar : t.read i f .sidecar = s.read i f .sidecar := same _ (by simp) (by simp)
      have untrue : (t.read i f .sidecar).bind (·.origin) ≠ some Origin.priv.asStr := by
        rw [sidecar]
        intro priv
        obtain ⟨sc, found, origin⟩ := Option.bind_eq_some_iff.mp priv
        exact mirror ⟨⟨sc, found, origin⟩, body⟩
      have state : stateOf t i f = .quarantinedMirror (!(recordOf t i f).leftovers) := by
        unfold stateOf classifyRecord
        simp [same (.fence .frozen) (by simp) (by simp), same (.fence .tombstone) (by simp) (by simp),
          frozen, tombstone, fenced, untrue]
      refine ⟨⟨?_, ?_⟩, viewOf_quarantinedMirror state⟩
      · exact fun sc found => typed sc (sidecar.symm.trans found)
      · intro sha origin superseding live
        simp [state] at live
  | moved _ fenced dropped same =>
      have demoted : Fenced t i f .demoted := by
        refine ⟨fun fence => ?_, dropped⟩
        cases fence with
        | tombstone => exact (same _ (by simp [recordObjectKeys]) (by simp) (by simp)).trans tombstone
        | frozen => exact (same _ (by simp [recordObjectKeys]) (by simp) (by simp)).trans frozen
        | mirrorQuarantined => exact fenced
      exact ⟨demoted.healthy, demoted.view⟩

end Views

/-! ### One merge -/

theorem execute_read {ra rb : Record} {verdict : Verdict} {source : ArtifactSource}
    (cut : Cut (apply site) (execute site a b pkg f ra rb verdict source) s t)
    (other : ¬((j = a ∨ j = b) ∧ g = f)) : t.read j g k = s.read j g k := by
  let region (j : ι) (g : String) (_ : Kind) : Prop := (j = a ∨ j = b) ∧ g = f
  have left : (touches region).Drops a f := ⟨fun _ => ⟨Or.inl rfl, rfl⟩, fun _ _ => ⟨Or.inl rfl, rfl⟩⟩
  have right : (touches region).Drops b f := ⟨fun _ => ⟨Or.inr rfl, rfl⟩, fun _ _ => ⟨Or.inr rfl, rfl⟩⟩
  exact touches_read (within_execute left right) cut other

omit [DecidableEq ι] in
/-- A verdict that changes no record of its own leaves both as they were, less
the fences that live private truth has spent. -/
theorem Cleared.healthy (cleared : Cleared m n a b f) (side : i = a ∨ i = b)
    (healthy : Healthy site m i f)
    (same : ∀ k, (∀ c, k ≠ .companion c) → t.read i f k = n.read i f k)
    (idle : (∀ sha origin superseding, stateOf m i f ≠ .live sha origin superseding) →
      ∀ k, t.read i f k = n.read i f k) :
    (Healthy site t i f ∧ viewOf t i f = viewOf m i f) ∧
      (viewOf t i f = .absent → ∀ k, t.read i f k = m.read i f k) := by
  by_cases live : ∃ sha origin superseding, stateOf m i f = .live sha origin superseding
  · obtain ⟨sha, origin, superseding, live⟩ := live
    obtain ⟨sc, shown, found, rfl⟩ := cleared.shown side live
    have view := viewOf_live live found
    have held : Holds site t i f sc.sha256 := by
      rw [Holds, same _ (by simp), cleared.others _ _ _ (by simp)]
      exact healthy.named _ _ _ live
    obtain ⟨after, viewAfter⟩ :=
      (shown.congr same).healthy (parsedOrigin_of_live healthy.typed live found) held
    refine ⟨⟨after, viewAfter.trans view.symm⟩, fun absent => ?_⟩
    exact absurd (viewAfter.symm.trans absent) (View.live_ne_absent origin sc)
  · push Not at live
    have untouched (k : Kind) : t.read i f k = m.read i f k := by
      rw [idle live, cleared.unchanged side]
      unfold isLivePrivate
      split
      · rename_i reading
        exact absurd reading (live _ _ _)
      · rfl
    exact ⟨⟨healthy.congr untouched, viewOf_congr healthy.typed untouched⟩, fun _ => untouched⟩

/-- A merge of two views, in the order of one encoding and one record of receipts. -/
abbrev Raises (site : Site ι) (receipts : Receipts) (v w u : View) : Prop :=
  Raised (α := Ranked site.encoding receipts) Ranked.Clash Ranked.frozen v w u

/-- What a merge that knows the receipts needs of the two sides it reads. -/
structure Meets (site : Site ι) (receipts : Receipts) (s : Fleet ι) (a b : ι) (f : String) : Prop where
  healthy : ∀ i, i = a ∨ i = b → Healthy site s i f
  overwrites : ∀ side : Side, Overwrites site s (side.pick a b) (side.other.pick a b) f
  receipted : ∀ x y, viewOf s a f = .priv x → viewOf s b f = .priv y → x.sha256 ≠ y.sha256 →
    x.uploadEpochMs = receipts x.sha256 ∧ y.uploadEpochMs = receipts y.sha256

/-- What one merge makes of its two sides. -/
structure Met (site : Site ι) (receipts : Receipts) (s t : Fleet ι) (a b : ι) (f : String) : Prop where
  healthy : ∀ i, i = a ∨ i = b → Healthy site t i f
  idle : ∀ i, i = a ∨ i = b → viewOf t i f = .absent → ∀ k, t.read i f k = s.read i f k
  views : (viewOf t a f = viewOf s a f ∧ viewOf t b f = viewOf s b f) ∨
    ∃ v, viewOf t a f = v ∧ viewOf t b f = v ∧
      Raises site receipts (viewOf s a f) (viewOf s b f) v

section Meetings
omit [DecidableEq ι]

/-- Both sides stand at one view that is not absent. -/
theorem Met.of_both {v : View} (left : Healthy site t a f ∧ viewOf t a f = v)
    (right : Healthy site t b f ∧ viewOf t b f = v) (present : v ≠ .absent)
    (raises : Raises site receipts (viewOf s a f) (viewOf s b f) v) : Met site receipts s t a b f := by
  refine ⟨?_, ?_, Or.inr ⟨v, left.2, right.2, raises⟩⟩
  · rintro i (rfl | rfl)
    · exact left.1
    · exact right.1
  · rintro i (rfl | rfl) absent
    · exact absurd (left.2.symm.trans absent) present
    · exact absurd (right.2.symm.trans absent) present

/-- Neither side changes its view. -/
theorem Met.of_kept
    (left : (Healthy site t a f ∧ viewOf t a f = viewOf s a f) ∧
      (viewOf t a f = .absent → ∀ k, t.read a f k = s.read a f k))
    (right : (Healthy site t b f ∧ viewOf t b f = viewOf s b f) ∧
      (viewOf t b f = .absent → ∀ k, t.read b f k = s.read b f k)) : Met site receipts s t a b f := by
  refine ⟨?_, ?_, Or.inl ⟨left.1.2, right.1.2⟩⟩
  · rintro i (rfl | rfl)
    · exact left.1.1
    · exact right.1.1
  · rintro i (rfl | rfl)
    · exact left.2
    · exact right.2

theorem Met.of_fenced {fate : Fate} (left : Fenced t a f fate) (right : Fenced t b f fate)
    (raises : Raises site receipts (viewOf s a f) (viewOf s b f) fate.view) :
    Met site receipts s t a b f :=
  Met.of_both ⟨left.healthy, left.view⟩ ⟨right.healthy, right.view⟩ (by cases fate <;> simp [Fate.view])
    raises

theorem Met.of_shown {origin : Origin} (left : Shown t a f sc) (right : Shown t b f sc)
    (typed : parsedOrigin sc = some origin) (heldA : Holds site t a f sc.sha256)
    (heldB : Holds site t b f sc.sha256)
    (raises : Raises site receipts (viewOf s a f) (viewOf s b f) (.live origin sc)) :
    Met site receipts s t a b f :=
  Met.of_both (left.healthy typed heldA) (right.healthy typed heldB) (View.live_ne_absent origin sc)
    raises

/-- One side already bounds the other. -/
theorem raises_picked {side : Side} {v w : View}
    (below : View.Le site.encoding receipts (side.other.pick v w) (side.pick v w)) :
    Raises site receipts v w (side.pick v w) := by
  cases side with
  | a => exact .left below
  | b => exact .right below

end Meetings

omit [DecidableEq ι] in
theorem demotable_le (demotable : Demotable (stateOf s i f)) :
    View.Le site.encoding receipts (viewOf s i f) .demoted := by
  rcases reading : stateOf s i f with _ | _ | settled | ⟨sha, origin, superseding⟩ | _ | _ | debris
  all_goals simp only [reading, Demotable] at demotable
  · rw [viewOf_quarantinedMirror reading]
    trivial
  · cases origin with
    | priv => exact demotable.elim
    | mirror =>
        obtain ⟨-, -, -, sc, found, -⟩ := classifyRecord_live reading
        rw [viewOf_live reading found]
        trivial
  · rw [viewOf_absent reading]
    trivial

theorem settle_met {source : ArtifactSource} {ra rb : Record} {u : Unit} (apart : a ≠ b)
    (meets : Meets site receipts m a b f) (cleared : Cleared m n a b f)
    (decided : decide site.encoding (recordOf m a f) (recordOf m b f) = .settleMirrorQuarantine)
    (applied : Ends (apply site) (applyVerdict site a b pkg f ra rb source .settleMirrorQuarantine) n
      (.ok u) t) : Met site receipts m t a b f := by
  obtain ⟨demotableA, demotableB, demoted⟩ := decide_settleMirrorQuarantine decided
  obtain ⟨settledA, settledB⟩ := ends_settle apart applied
  have settles (i : ι) (side : i = a ∨ i = b) (demotable : Demotable (stateOf m i f))
      (settled : Settled n t i f) : Healthy site t i f ∧ viewOf t i f = .demoted := by
    have healthy := meets.healthy i side
    have same (k : Kind) (other : k ≠ .fence .mirrorQuarantined) : n.read i f k = m.read i f k :=
      cleared.others i f k other
    obtain ⟨frozen, tombstone, mirror⟩ := demotable_mirror healthy.typed demotable
    apply settled.healthy
    · intro sc found
      exact healthy.typed sc ((same _ (by simp)).symm.trans found)
    · exact (same _ (by simp)).trans frozen
    · exact (same _ (by simp)).trans tombstone
    · simpa only [PrivateTruth, same .sidecar (by simp), same .body (by simp)] using mirror
  apply Met.of_both (settles a (Or.inl rfl) demotableA settledA)
    (settles b (Or.inr rfl) demotableB settledB) (by simp)
  rcases demoted with ⟨settled, quarantined⟩ | ⟨settled, quarantined⟩
  · rw [viewOf_quarantinedMirror quarantined]
    exact .left (demotable_le demotableB)
  · rw [viewOf_quarantinedMirror quarantined]
    exact .right (demotable_le demotableA)

section Winners
omit [DecidableEq ι]

theorem pick_viewOf (side : Side) : side.pick (viewOf s a f) (viewOf s b f) = viewOf s (side.pick a b) f := by
  cases side with
  | a => rfl
  | b => rfl

/-- The winner's live record stands on both sides. -/
theorem Met.of_winner (side : Side) {origin : Origin} {sha : String} {superseding : Bool}
    (healthy : Healthy site m (side.pick a b) f)
    (live : stateOf m (side.pick a b) f = .live sha origin superseding)
    (found : m.read (side.pick a b) f .sidecar = some sc)
    (below : View.Le site.encoding receipts (viewOf m (side.other.pick a b) f) (.live origin sc))
    (left : Shown t a f sc) (right : Shown t b f sc)
    (held : Holds site t a f sc.sha256 ∧ Holds site t b f sc.sha256) :
    Met site receipts m t a b f := by
  have view : viewOf m (side.pick a b) f = .live origin sc := viewOf_live live found
  apply Met.of_shown left right (parsedOrigin_of_live healthy.typed live found) held.1 held.2
  rw [← view, ← pick_viewOf]
  apply raises_picked
  rw [pick_viewOf, pick_viewOf, view]
  exact below

theorem frozen_of_viewOf (view : viewOf s i f = .frozen) : (recordOf s i f).frozen = true := by
  unfold viewOf Record.view at view
  split at view
  · rename_i frozen
    exact (classifyRecord_frozen frozen).1
  all_goals contradiction

theorem raises_frozen (frozen : viewOf s a f = .frozen ∨ viewOf s b f = .frozen) :
    Raises site receipts (viewOf s a f) (viewOf s b f) .frozen := by
  rcases frozen with frozen | frozen
  · rw [frozen]
    exact .left (Ranked.le_frozen _)
  · rw [frozen]
    exact .right (Ranked.le_frozen _)

theorem le_tombstoned (thawed : (recordOf s i f).frozen = false) :
    View.Le site.encoding receipts (viewOf s i f) .tombstoned := by
  intro frozen
  rw [frozen_of_viewOf frozen] at thawed
  contradiction

/-- A winner by receipt was received first. -/
theorem Meets.older {side : Side} {sha sha' : String} {x x' : Bool} {sc' : Sidecar}
    (meets : Meets site receipts s a b f) (live : stateOf s (side.pick a b) f = .live sha .priv x)
    (live' : stateOf s (side.other.pick a b) f = .live sha' .priv x')
    (found : s.read (side.pick a b) f .sidecar = some sc)
    (found' : s.read (side.other.pick a b) f .sidecar = some sc') (apart : sc.sha256 ≠ sc'.sha256)
    (ordered : conflictWinner (recordOf s a f) (recordOf s b f) = some side) :
    receipts.Older sc sc' := by
  cases side with
  | a =>
      obtain ⟨receipt, receipt'⟩ :=
        meets.receipted sc sc' (viewOf_live live found) (viewOf_live live' found') apart
      have older := conflictWinner_older (recordOf s a f) (recordOf s b f) found found' receipt receipt'
      rw [ordered] at older
      exact older
  | b =>
      obtain ⟨receipt', receipt⟩ :=
        meets.receipted sc' sc (viewOf_live live' found') (viewOf_live live found) apart.symm
      have older := conflictWinner_older (recordOf s a f) (recordOf s b f) found' found receipt' receipt
      rw [ordered] at older
      exact older

theorem Meets.described (meets : Meets site receipts s a b f) : Described site s a b f := by
  intro sha oa ob xa xb left right
  exact ((meets.healthy a (Or.inl rfl)).named _ _ _ left).trans
    ((meets.healthy b (Or.inr rfl)).named _ _ _ right).symm

theorem Meets.clash (meets : Meets site receipts s a b f)
    (freezes : decide site.encoding (recordOf s a f) (recordOf s b f) = .freeze) :
    View.Clash receipts (viewOf s a f) (viewOf s b f) := by
  obtain ⟨sa, sb, origin, xa, xb, left, right, apart, unordered⟩ := decide_freeze freezes
  obtain ⟨-, -, -, sca, foundA, rfl⟩ := classifyRecord_live left
  obtain ⟨-, -, -, scb, foundB, rfl⟩ := classifyRecord_live right
  have viewA : viewOf s a f = .live origin sca := viewOf_live left foundA
  have viewB : viewOf s b f = .live origin scb := viewOf_live right foundB
  rw [viewA, viewB]
  cases origin with
  | priv =>
      obtain ⟨receiptA, receiptB⟩ := meets.receipted sca scb viewA viewB apart
      have older := conflictWinner_older _ _ foundA foundB receiptA receiptB
      rw [unordered rfl] at older
      exact ⟨apart, older⟩
  | mirror => exact apart

end Winners

theorem adopt_met {side : Side} {source : ArtifactSource} {u : Unit} (apart : a ≠ b)
    (meets : Meets site receipts m a b f) (cleared : Cleared m n a b f)
    (decided : decide site.encoding (recordOf m a f) (recordOf m b f) = .adoptSidecar side)
    (applied : Ends (apply site) (applyVerdict site a b pkg f (recordOf m a f) (recordOf m b f) source
      (.adoptSidecar side)) n (.ok u) t) : Met site receipts m t a b f := by
  obtain ⟨sca, scb, oa, ob, live, merged⟩ := decide_adoptSidecar decided
  obtain ⟨xa, left⟩ := live.left
  obtain ⟨xb, right⟩ := live.right
  have healthyA := meets.healthy a (Or.inl rfl)
  have healthyB := meets.healthy b (Or.inr rfl)
  obtain ⟨sc, found, ⟨shownA, shownB⟩, bodies, -⟩ :=
    shown_adopt apart (fun i side => (meets.healthy i side).typed) meets.described cleared decided applied
  have heldA : Holds site t a f sca.sha256 := by
    rw [Holds, bodies]
    exact healthyA.named _ _ _ left
  have heldB : Holds site t b f scb.sha256 := by
    rw [Holds, bodies]
    exact healthyB.named _ _ _ right
  have below := sidecarMerge_le receipts merged live.digest
  have viewA : viewOf m a f = .live oa sca := viewOf_live left live.sidecarA
  have viewB : viewOf m b f = .live ob scb := viewOf_live right live.sidecarB
  cases side with
  | a =>
      cases live.sidecarA.symm.trans found
      apply Met.of_winner .a healthyA left found _ shownA shownB
        ⟨heldA, by rw [live.digest]; exact heldB⟩
      rw [show viewOf m (Side.a.other.pick a b) f = _ from viewB]
      exact below
  | b =>
      cases live.sidecarB.symm.trans found
      apply Met.of_winner .b healthyB right found _ shownA shownB
        ⟨by rw [← live.digest]; exact heldA, heldB⟩
      rw [show viewOf m (Side.b.other.pick a b) f = _ from viewA]
      exact below

/-- A merge that returns raises both sides to the greater view, or to a freeze
when they clash; a deferral leaves both views. -/
theorem execute_meets {outcome : Convergence} (apart : a ≠ b) (meets : Meets site receipts m a b f)
    (ended : Ends (apply site) (execute site a b pkg f (recordOf m a f) (recordOf m b f)
      (decide site.encoding (recordOf m a f) (recordOf m b f)) .bucket) m (.ok outcome) t) :
    Met site receipts m t a b f := by
  obtain ⟨-, n, u, cleared, applied⟩ := ends_verdictBody apart (ends_execute ended)
  have healthy := meets.healthy
  rcases decided : decide site.encoding (recordOf m a f) (recordOf m b f) with _ | _ | side | side |
    side | side | _ | _ | side | _ | _
  all_goals rw [decided] at applied
  · obtain ⟨same, idle⟩ := ends_noop applied
    apply Met.of_kept
    · exact cleared.healthy (Or.inl rfl) (healthy a (Or.inl rfl)) (fun k => same a f k)
        fun dead k => idle (Or.inl dead) a f k
    · exact cleared.healthy (Or.inr rfl) (healthy b (Or.inr rfl)) (fun k => same b f k)
        fun dead k => idle (Or.inr dead) b f k
  · obtain ⟨-, rfl⟩ := ends_done.mp applied
    apply Met.of_kept
    · exact cleared.healthy (Or.inl rfl) (healthy a (Or.inl rfl)) (fun _ _ => rfl) fun _ _ => rfl
    · exact cleared.healthy (Or.inr rfl) (healthy b (Or.inr rfl)) (fun _ _ => rfl) fun _ _ => rfl
  · obtain ⟨⟨sha, origin, superseding, live⟩, debris, absent⟩ := decide_copy decided
    rw [pick_recordOf] at live absent
    obtain ⟨sc, found, ⟨left, right⟩, bodyA, bodyB⟩ :=
      shown_copy apart (meets.overwrites side) cleared decided applied
    obtain ⟨-, -, -, sc', found', rfl⟩ := classifyRecord_live live
    cases found.symm.trans found'
    have held : Holds site m (side.pick a b) f sc.sha256 :=
      (healthy _ (pick_side side)).named _ _ _ live
    apply Met.of_winner side (healthy _ (pick_side side)) live found _ left right
      ⟨by rw [Holds, bodyA]; exact held, by rw [Holds, bodyB]; exact held⟩
    rw [viewOf_absent absent]
    cases origin <;> trivial
  · exact adopt_met apart meets cleared decided applied
  · obtain ⟨sha, superseding, live, loser⟩ := decide_supersede decided
    rw [pick_recordOf] at live loser
    obtain ⟨sc, found, ⟨left, right⟩, held⟩ :=
      shown_supersede apart cleared (Or.inl rfl) decided applied
    apply Met.of_winner side (healthy _ (pick_side side)) live found _ left right held
    rcases loser with ⟨settled, demoted⟩ | ⟨sha', superseding', live', -⟩
    · rw [viewOf_quarantinedMirror demoted]
      trivial
    · obtain ⟨-, -, -, sc', found', -⟩ := classifyRecord_live live'
      rw [viewOf_live live' found']
      trivial
  · obtain ⟨sha, sha', superseding, superseding', live, live', different, ordered⟩ :=
      decide_quarantineLoser decided
    rw [pick_recordOf] at live live'
    obtain ⟨sc, found, ⟨left, right⟩, held⟩ :=
      shown_supersede apart cleared (Or.inr rfl) decided applied
    obtain ⟨-, -, -, sc₁, found₁, rfl⟩ := classifyRecord_live live
    cases found.symm.trans found₁
    obtain ⟨-, -, -, sc', found', rfl⟩ := classifyRecord_live live'
    apply Met.of_winner side (healthy _ (pick_side side)) live found _ left right held
    rw [viewOf_live live' found']
    exact Or.inl (meets.older live live' found found' different ordered)
  · obtain ⟨left, right⟩ := ends_freeze apart (Or.inl rfl) applied
    exact Met.of_fenced left right (.clashed (meets.clash decided))
  · obtain ⟨frozenA, frozenB, tombstoned⟩ := decide_tombstone decided
    obtain ⟨left, right⟩ := ends_tombstone apart
      ((cleared.others _ _ _ (by simp)).trans (fence_down frozenA))
      ((cleared.others _ _ _ (by simp)).trans (fence_down frozenB)) applied
    apply Met.of_fenced left right
    rcases tombstoned with ⟨settled, tombstoned⟩ | ⟨settled, tombstoned⟩
    · rw [viewOf_tombstoned tombstoned]
      exact .left (le_tombstoned frozenB)
    · rw [viewOf_tombstoned tombstoned]
      exact .right (le_tombstoned frozenA)
  · have frozen : stateOf m (side.pick a b) f = Fate.frozen.state := by
      rw [stateOf, ← pick_recordOf]
      exact decide_propagateFreeze decided
    have holder : Fenced n (side.pick a b) f .frozen := by
      apply (stateOf_fate frozen).congr
      exact fun k _ => cleared.unchanged (pick_side side) (by rw [frozen]; rfl) k
    obtain ⟨left, right⟩ := ends_propagateFreeze apart holder applied
    apply Met.of_fenced left right (raises_frozen _)
    cases side with
    | a => exact Or.inl (viewOf_fate frozen)
    | b => exact Or.inr (viewOf_fate frozen)
  · obtain ⟨left, right⟩ := ends_freeze apart (Or.inr rfl) applied
    apply Met.of_fenced left right (raises_frozen _)
    obtain ⟨_, frozen⟩ | ⟨_, frozen⟩ := decide_finishFreeze decided
    · exact .inl (viewOf_frozen frozen)
    · exact .inr (viewOf_frozen frozen)
  · exact settle_met apart meets cleared decided applied

/-! ### Schedules -/

/-- Read both records, decide, apply. -/
def mergePair (site : Site ι) (a b : ι) (pkg f : String) : StoreM ι Convergence := do
  let ra ← readRecord a pkg f
  let rb ← readRecord b pkg f
  execute site a b pkg f ra rb (decide site.encoding ra rb) .bucket

/-- One merge of some pair, that returns. -/
def Merges (site : Site ι) (pkg f : String) (s t : Fleet ι) : Prop :=
  ∃ a b outcome, a ≠ b ∧ Ends (apply site) (mergePair site a b pkg f) s (.ok outcome) t

abbrev Schedule (site : Site ι) (pkg f : String) : Fleet ι → Fleet ι → Prop :=
  Relation.ReflTransGen (Merges site pkg f)

/-- No pair has anything left to merge. -/
def Rests (site : Site ι) (s : Fleet ι) (f : String) : Prop :=
  ∀ a b, a ≠ b → decide site.encoding (recordOf s a f) (recordOf s b f) = .noop

/-- The views of a fleet, in the order that one encoding and one record of
receipts give them. -/
def views (site : Site ι) (receipts : Receipts) (f : String) (s : Fleet ι) :
    ι → Ranked site.encoding receipts := fun i => viewOf s i f

omit [DecidableEq ι] in
/-- A live view that a run ends with was there at the start. -/
theorem live_of_run {later : ι → Ranked site.encoding receipts} (origin : Origin)
    (run : Run Ranked.Clash Ranked.frozen (views site receipts f s) later)
    (view : later i = View.live origin sc) : ∃ k, viewOf s k f = .live origin sc := by
  rcases run.derived Ranked.le_frozen Ranked.clash_strict i with ⟨k, found⟩ | ⟨found, -⟩
  · exact ⟨k, found.symm.trans view⟩
  · have live : View.frozen = View.live origin sc := found.symm.trans view
    cases origin <;> contradiction

/-- What holds in the fleet that the schedules start from: records the merges can
take at their word, leftovers that give way to every live record, and one receipt
for a digest that another private upload contests. -/
structure Start (site : Site ι) (receipts : Receipts) (s : Fleet ι) (f : String) : Prop where
  healthy : ∀ i, Healthy site s i f
  overwrites : ∀ i j, Overwrites site s i j f
  receipted : ∀ i j x y, viewOf s i f = .priv x → viewOf s j f = .priv y → x.sha256 ≠ y.sha256 →
    x.uploadEpochMs = receipts x.sha256

/-- What a schedule has made of the fleet it started from. -/
structure Merged (site : Site ι) (receipts : Receipts) (s t : Fleet ι) (f : String) : Prop where
  healthy : ∀ i, Healthy site t i f
  idle : ∀ i, viewOf t i f = .absent → ∀ k, t.read i f k = s.read i f k
  run : Run Ranked.Clash Ranked.frozen (views site receipts f s) (views site receipts f t)

section Starts
omit [DecidableEq ι]

/-- A live record was there at the start. -/
theorem Merged.live (merged : Merged site receipts s m f) (origin : Origin)
    (view : viewOf m i f = .live origin sc) : ∃ k, viewOf s k f = .live origin sc :=
  live_of_run origin merged.run view

theorem Merged.overwrites (merged : Merged site receipts s m f) (start : Start site receipts s f)
    (i j : ι) : Overwrites site m i j f := by
  intro sha origin superseding debris sc live absent found
  obtain ⟨k, view⟩ := merged.live origin (viewOf_live live found)
  obtain ⟨⟨_, _, begun⟩, there⟩ := live_of_viewOf origin view
  have same := merged.idle j (viewOf_absent absent)
  rw [same, same]
  exact start.overwrites k j _ _ _ debris sc begun
    ((stateOf_congr (start.healthy j).typed same).symm.trans absent) there

theorem Merged.meets (merged : Merged site receipts s m f) (start : Start site receipts s f)
    (a b : ι) : Meets site receipts m a b f := by
  refine ⟨fun i _ => merged.healthy i, fun side => merged.overwrites start _ _, ?_⟩
  intro x y viewX viewY apart
  obtain ⟨k, beganX⟩ := merged.live .priv viewX
  obtain ⟨l, beganY⟩ := merged.live .priv viewY
  exact ⟨start.receipted k l x y beganX beganY apart, start.receipted l k y x beganY beganX apart.symm⟩

end Starts

theorem Merged.step (merged : Merged site receipts s m f) (start : Start site receipts s f)
    (merges : Merges site pkg f m t) : Merged site receipts s t f := by
  obtain ⟨a, b, outcome, apart, ended⟩ := merges
  simp only [mergePair, ends_bind_ok] at ended
  obtain ⟨_, x, readA, _, y, readB, ended⟩ := ended
  obtain ⟨rfl, unreadA⟩ := ends_readRecord readA
  subst x
  obtain ⟨rfl, unreadB⟩ := ends_readRecord readB
  subst y
  have met := execute_meets apart (merged.meets start a b) ended
  have others (i : ι) (other : ¬(i = a ∨ i = b)) (k : Kind) : t.read i f k = m.read i f k :=
    execute_read ended.cut (by simp [other])
  have kept (i : ι) (other : ¬(i = a ∨ i = b)) : viewOf t i f = viewOf m i f :=
    viewOf_congr (merged.healthy i).typed (others i other)
  constructor
  · intro i
    by_cases side : i = a ∨ i = b
    · exact met.healthy i side
    · exact (merged.healthy i).congr (others i side)
  · intro i absent k
    by_cases side : i = a ∨ i = b
    · have same := met.idle i side absent
      rw [same, merged.idle i ((viewOf_congr (merged.healthy i).typed same).symm.trans absent)]
    · rw [others i side, merged.idle i ((kept i side).symm.trans absent)]
  · apply merged.run.tail
    rcases met.views with ⟨sameA, sameB⟩ | ⟨v, viewA, viewB, raises⟩
    · apply Step.declined
      funext i
      by_cases side : i = a ∨ i = b
      · rcases side with rfl | rfl
        · exact sameA
        · exact sameB
      · exact kept i side
    · have rest (i : ι) (notA : i ≠ a) (notB : i ≠ b) :
          views site receipts f t i = views site receipts f m i := kept i (by simp [notA, notB])
      apply Step.merged a b _ _ rest
      · rw [show views site receipts f t a = v from viewA]
        exact raises
      · rw [show views site receipts f t b = v from viewB]
        exact raises

/-- A schedule of merges is a run of the order. -/
theorem schedule_merged (start : Start site receipts s f) (schedule : Schedule site pkg f s t) :
    Merged site receipts s t f := by
  induction schedule with
  | refl => exact ⟨start.healthy, fun _ _ _ => rfl, .refl⟩
  | tail _ merges ih => exact ih.step start merges

section Rest
omit [DecidableEq ι]

theorem rest_le (rests : decide site.encoding (recordOf s a f) (recordOf s b f) = .noop) :
    View.Le site.encoding receipts (viewOf s a f) (viewOf s b f) := by
  rcases decide_noop rests with ⟨left, right⟩ | ⟨left, right⟩ | ⟨_, _, left, right⟩ | ⟨left, right⟩ |
    ⟨sca, scb, oa, ob, live, merged⟩
  · rw [viewOf_frozen left, viewOf_frozen right]
    trivial
  · rw [viewOf_tombstoned left, viewOf_tombstoned right]
    exact View.le_refl _
  · rw [viewOf_absent left, viewOf_absent right]
    trivial
  · rw [viewOf_quarantinedMirror left, viewOf_quarantinedMirror right]
    trivial
  · obtain ⟨_, left⟩ := live.left
    obtain ⟨_, right⟩ := live.right
    rw [viewOf_live left live.sidecarA, viewOf_live right live.sidecarB]
    exact (sidecarMerge_equal merged live.digest).1

/-- The objects of a record that has come to rest. One that is absent is as the
schedule found it. -/
def Shape (site : Site ι) (s : Fleet ι) (i : ι) (f : String) : View → Prop
  | .frozen => Fenced s i f .frozen
  | .tombstoned => Fenced s i f .tombstoned
  | .demoted => Fenced s i f .demoted
  | .absent => True
  | .mirror sc => Holds site s i f sc.sha256 ∧ s.read i f .sidecar = some sc ∧
      ∀ fence, s.read i f (.fence fence) = none
  | .priv sc => Holds site s i f sc.sha256 ∧ s.read i f .sidecar = some sc ∧
      ∀ fence, fence ≠ .mirrorQuarantined → s.read i f (.fence fence) = none
  | .deferred => False

theorem live_shape {sha : String} {origin : Origin} {superseding : Bool}
    (healthy : Healthy site s i f) (live : stateOf s i f = .live sha origin superseding) :
    Shape site s i f (viewOf s i f) := by
  obtain ⟨⟨frozen, tombstone⟩, -, -, sc, found, rfl⟩ := classifyRecord_live live
  have held := healthy.named _ _ _ live
  have unfenced (fence : Fence) (other : fence ≠ .mirrorQuarantined) :
      s.read i f (.fence fence) = none := by
    cases fence with
    | tombstone => exact fence_down tombstone
    | frozen => exact fence_down frozen
    | mirrorQuarantined => exact absurd rfl other
  rw [viewOf_live live found]
  cases origin with
  | priv => exact ⟨held, found, unfenced⟩
  | mirror =>
      refine ⟨held, found, fun fence => ?_⟩
      by_cases demotion : fence = .mirrorQuarantined
      · subst demotion
        apply fence_down
        by_contra fenced
        rw [Bool.not_eq_false] at fenced
        exact absurd (classifyRecord_live_fenced live fenced).2 (by simp)
      · exact unfenced fence demotion

theorem rest_shape (healthy : Healthy site s a f)
    (rests : decide site.encoding (recordOf s a f) (recordOf s b f) = .noop) :
    Shape site s a f (viewOf s a f) := by
  rcases decide_noop rests with ⟨left, -⟩ | ⟨left, -⟩ | ⟨_, _, left, -⟩ | ⟨left, -⟩ |
    ⟨sca, scb, oa, ob, live, -⟩
  · rw [viewOf_frozen left]
    exact stateOf_fate left
  · rw [viewOf_tombstoned left]
    exact stateOf_fate left
  · rw [viewOf_absent left]
    trivial
  · rw [viewOf_quarantinedMirror left]
    exact stateOf_fate left
  · obtain ⟨_, left⟩ := live.left
    exact live_shape healthy left

/-- The same canonical record: view, body digest, sidecar and fences. The
demotion fence of a live private record is spent, and does not count. -/
structure SameRecord (site : Site ι) (s t : Fleet ι) (i : ι) (f : String) : Prop where
  view : viewOf s i f = viewOf t i f
  body : (s.read i f .body).map site.encoding.sha256 = (t.read i f .body).map site.encoding.sha256
  sidecar : s.read i f .sidecar = t.read i f .sidecar
  fences : ∀ fence, (fence = .mirrorQuarantined → ∀ sc, viewOf s i f ≠ .priv sc) →
    s.read i f (.fence fence) = t.read i f (.fence fence)

theorem Fenced.same {fate : Fate} (left : Fenced s i f fate) (right : Fenced t i f fate) :
    SameRecord site s t i f := by
  have records (k : Kind) (record : k ∈ recordObjectKeys) : s.read i f k = t.read i f k := by
    rw [left.records k record, right.records k record]
  constructor
  · rw [left.view, right.view]
  · rw [records _ (by simp [recordObjectKeys])]
  · exact records _ (by simp [recordObjectKeys])
  · intro fence _
    rw [left.fences, right.fences]

theorem same_of_untouched (typed : Typed m i f) (left : ∀ k, s.read i f k = m.read i f k)
    (right : ∀ k, t.read i f k = m.read i f k) : SameRecord site s t i f := by
  have same (k : Kind) : s.read i f k = t.read i f k := (left k).trans (right k).symm
  exact ⟨(viewOf_congr typed left).trans (viewOf_congr typed right).symm, by rw [same], same _,
    fun _ _ => same _⟩

theorem same_of_shape {v : View} (left : viewOf s i f = v) (right : viewOf t i f = v)
    (present : v ≠ .absent) (shape : Shape site s i f v) (shape' : Shape site t i f v) :
    SameRecord site s t i f := by
  cases v with
  | frozen => exact Fenced.same shape shape'
  | tombstoned => exact Fenced.same shape shape'
  | demoted => exact Fenced.same shape shape'
  | deferred => exact shape.elim
  | absent => exact absurd rfl present
  | mirror sc =>
      obtain ⟨body, sidecar, fences⟩ := shape
      obtain ⟨body', sidecar', fences'⟩ := shape'
      exact ⟨left.trans right.symm, body.trans body'.symm, sidecar.trans sidecar'.symm,
        fun fence _ => (fences fence).trans (fences' fence).symm⟩
  | priv sc =>
      obtain ⟨body, sidecar, fences⟩ := shape
      obtain ⟨body', sidecar', fences'⟩ := shape'
      refine ⟨left.trans right.symm, body.trans body'.symm, sidecar.trans sidecar'.symm, ?_⟩
      intro fence unspent
      have other : fence ≠ .mirrorQuarantined := fun demotion => unspent demotion sc left
      exact (fences fence other).trans (fences' fence other).symm

end Rest

/-- Different sidecars of the filename have encodings of different digests. -/
def Separated (site : Site ι) (s : Fleet ι) (f : String) : Prop :=
  ∀ i j sc sc', s.read i f .sidecar = some sc → s.read j f .sidecar = some sc' →
    site.encoding.sha256 (site.encoding.toVec sc) = site.encoding.sha256 (site.encoding.toVec sc') →
    sc = sc'

omit [DecidableEq ι] in
theorem views_eq {later later' : ι → Ranked site.encoding receipts} (separated : Separated site s f)
    (run : Run Ranked.Clash Ranked.frozen (views site receipts f s) later)
    (run' : Run Ranked.Clash Ranked.frozen (views site receipts f s) later')
    (below : later i ≤ later' i) (above : later' i ≤ later i) : later i = later' i := by
  rcases View.le_antisymm below above with same | ⟨x, y, viewX, viewY, rank⟩ | ⟨x, y, viewX, viewY, rank⟩
  · exact same
  · obtain ⟨k, found⟩ := live_of_run .priv run viewX
    obtain ⟨l, found'⟩ := live_of_run .priv run' viewY
    rw [viewX, viewY, separated k l x y (live_of_viewOf .priv found).2 (live_of_viewOf .priv found').2
      (rank_eq.mp rank).2]
  · obtain ⟨k, found⟩ := live_of_run .mirror run viewX
    obtain ⟨l, found'⟩ := live_of_run .mirror run' viewY
    rw [viewX, viewY, separated k l x y (live_of_viewOf .mirror found).2
      (live_of_viewOf .mirror found').2 (rank_eq.mp rank).2]

/-- One merge over `pkg-1.whl`, every call served. -/
def sampleMerge (a b : Fin 3) (s : Fleet (Fin 3)) : Except String Convergence × Fleet (Fin 3) :=
  run (apply (streamingSite (Fin 3))) (mergePair (streamingSite (Fin 3)) a b "pkg" "pkg-1.whl") s

theorem sampleMerge_merges {a b : Fin 3} {s : Fleet (Fin 3)} (outcome : Convergence) (apart : a ≠ b)
    (returned : (sampleMerge a b s).1 = .ok outcome) :
    Merges (streamingSite (Fin 3)) "pkg" "pkg-1.whl" s (sampleMerge a b s).2 := by
  have ended : Ends (apply (streamingSite (Fin 3))) _ s (sampleMerge a b s).1 (sampleMerge a b s).2 :=
    ends_run _ _
  rw [returned] at ended
  exact ⟨a, b, outcome, apart, ended⟩

/-- A private upload, a bucket that never had the file, and a delete. -/
def deletedUpload : Fleet (Fin 3) := fun bucket =>
  if bucket = 0 then uploaded 120 .priv (sampleSidecar 120 (some 1000) .priv)
  else if bucket = 1 then emptyPackage
  else emptyPackage.set "pkg-1.whl" (.fence .tombstone) (some ())

/-- The file is copied on before the delete arrives. -/
def copiedThenDeleted : Fleet (Fin 3) :=
  (sampleMerge 1 2 (sampleMerge 0 2 (sampleMerge 0 1 deletedUpload).2).2).2

/-- The delete arrives everywhere first. -/
def deletedFirst : Fleet (Fin 3) := (sampleMerge 0 2 (sampleMerge 2 1 deletedUpload).2).2

/-- Two schedules that both come to rest, with other bytes on a bucket. -/
def RestApart (s t t' : Fleet (Fin 3)) (i : Fin 3) : Prop :=
  (Schedule (streamingSite (Fin 3)) "pkg" "pkg-1.whl" s t ∧
      Rests (streamingSite (Fin 3)) t "pkg-1.whl") ∧
    (Schedule (streamingSite (Fin 3)) "pkg" "pkg-1.whl" s t' ∧
      Rests (streamingSite (Fin 3)) t' "pkg-1.whl") ∧
    t.read i "pkg-1.whl" .body ≠ t'.read i "pkg-1.whl" .body

/-- The bytes of one upload taken again, twenty seconds later and then yanked, and other
bytes taken between the two. -/
def reuploaded : Fleet (Fin 3) := fun bucket =>
  if bucket = 0 then uploaded 120 .priv (sampleSidecar 120 (some 0) .priv)
  else if bucket = 1 then
    uploaded 120 .priv
      { sampleSidecar 120 (some 20000) .priv with yanked := .flag true, yankEpoch := 1 }
  else uploaded 121 .priv (sampleSidecar 121 (some 10000) .priv)

/-- The first upload meets the other bytes, and wins by its receipt. -/
def receiptFirst : Fleet (Fin 3) :=
  (sampleMerge 1 2 (sampleMerge 0 1 (sampleMerge 0 2 reuploaded).2).2).2

/-- It meets the yanked one, takes over its sidecar, and loses by that receipt. -/
def yankFirst : Fleet (Fin 3) :=
  (sampleMerge 2 1 (sampleMerge 2 0 (sampleMerge 0 1 reuploaded).2).2).2

/-- Three private uploads: the first two too close to order, the third older
than both. -/
def skewedUploads : Fleet (Fin 3) := fun bucket =>
  if bucket = 0 then uploaded 120 .priv (sampleSidecar 120 (some 5000) .priv)
  else if bucket = 1 then uploaded 121 .priv (sampleSidecar 121 (some 6500) .priv)
  else uploaded 122 .priv (sampleSidecar 122 (some 1000) .priv)

/-- The oldest upload wins over each of the others in turn. -/
def oldestFirst : Fleet (Fin 3) := (sampleMerge 2 1 (sampleMerge 2 0 skewedUploads).2).2

/-- The two that cannot be ordered meet first. -/
def conflictFirst : Fleet (Fin 3) := (sampleMerge 0 2 (sampleMerge 0 1 skewedUploads).2).2

end Pypiron.Replicate
