import Pypiron.Replicate.Preservation

/-! What a bucket's objects are after each executor that returns. -/
namespace Pypiron.Replicate
open Program StoreM
variable {ι : Type} [DecidableEq ι] {site : Site ι} {s t : Fleet ι} {i j src dst : ι}
variable {pkg f g : String} {k : Kind}

theorem ends_deleteKeys {kinds : List Kind} {u : Unit}
    (ended : Ends (apply site) (deleteKeys i f kinds) s (.ok u) t) :
    (∀ k ∈ kinds, t.read i f k = none) ∧ ∀ k, k ∉ kinds → t.read i f k = s.read i f k := by
  induction kinds generalizing s with
  | nil =>
      obtain ⟨-, rfl⟩ := ends_done.mp ended
      simp
  | cons k rest ih =>
      obtain ⟨_, m, deleted, onward⟩ := ends_bind_ok.mp ended
      obtain rfl := ends_delete.mp deleted
      obtain ⟨gone, kept⟩ := ih onward
      constructor
      · intro k' member
        by_cases later : k' ∈ rest
        · exact gone k' later
        · obtain rfl : k' = k := by simpa [later] using member
          rw [kept k' later, read_write_self]
      · intro k' other
        rw [List.mem_cons, not_or] at other
        rw [kept k' other.2, read_write_kind other.1]

theorem ends_putFence {fence : Fence} {created : Bool}
    (ended : Ends (apply site) (putIfAbsent i f (.fence fence) ()) s (.ok created) t) :
    t.read i f (.fence fence) = some () ∧ ∀ k, k ≠ .fence fence → t.read j f k = s.read j f k := by
  rcases ends_putIfAbsent.mp ended with ⟨-, -, rfl⟩ | ⟨-, taken, rfl⟩
  · exact ⟨read_write_self _, fun k other => read_write_kind other _⟩
  · rw [Option.isSome_iff_exists] at taken
    obtain ⟨⟨⟩, found⟩ := taken
    exact ⟨found, fun _ _ => rfl⟩

/-- Evidence is all that preserving a body changes. -/
def evidenceOnly : Footprint ι where
  creates _ _ k := ∃ h, k = .quarantine h
  replaces _ _ _ := False

theorem evidenceOnly_read {α : Type} {program : StoreM ι α} (within : Within evidenceOnly program)
    (ended : Cut (apply site) program s t) (evident : ∀ h, k ≠ .quarantine h) :
    t.read j g k = s.read j g k :=
  within.read ended (by simpa [evidenceOnly] using evident) id

/-- The ends of a record that leave only fences. -/
inductive Fate where
  | demoted
  | tombstoned
  | frozen
  deriving DecidableEq, Repr

def Fate.fences : Fate → Fence → Bool
  | demoted, .mirrorQuarantined => true
  | tombstoned, .tombstone => true
  | frozen, .tombstone => true
  | frozen, .frozen => true
  | _, _ => false

/-- No record is left, and the fences are exactly those of its fate. -/
structure Fenced (s : Fleet ι) (i : ι) (f : String) (fate : Fate) : Prop where
  fences : ∀ fence, s.read i f (.fence fence) = if fate.fences fence then some () else none
  records : ∀ k ∈ recordObjectKeys, s.read i f k = none

theorem ends_freezeSide {created : Bool}
    (ended : Ends (apply site) (freezeSide site i pkg f) s (.ok created) t) :
    Fenced t i f .frozen := by
  simp only [freezeSide, ends_bind_ok, tombstoneWrite] at ended
  obtain ⟨_, m, froze, _, n, quarantined, _, p, ⟨_, q, fenced, noted⟩, _, r, dropped, finished⟩ :=
    ended
  obtain ⟨-, rfl⟩ := ends_done.mp noted
  obtain ⟨-, rfl⟩ := ends_done.mp finished
  have evidence (k : Kind) (evident : ∀ h, k ≠ .quarantine h) : n.read i f k = m.read i f k :=
    evidenceOnly_read (within_quarantine fun h => ⟨h, rfl⟩) quarantined.cut evident
  obtain ⟨gone, kept⟩ := ends_deleteKeys dropped
  have frozenStands := (ends_putFence (j := i) froze).1
  obtain ⟨tombstoneStands, others⟩ := ends_putFence (j := i) fenced
  constructor
  · intro fence
    cases fence with
    | tombstone => exact (kept _ (by simp [recordObjectKeys])).trans tombstoneStands
    | frozen =>
        rw [kept _ (by simp [recordObjectKeys]), others _ (by simp), evidence _ (by simp)]
        exact frozenStands
    | mirrorQuarantined => exact gone _ (by simp)
  · exact fun k member => gone k (List.mem_append_left _ member)

theorem ends_anyExists {kinds : List Kind} {found : Bool}
    (ended : Ends (apply site) (anyExists i f kinds) s (.ok found) t) :
    t = s ∧ (found = false → ∀ k ∈ kinds, s.read i f k = none) := by
  induction kinds generalizing found with
  | nil =>
      obtain ⟨-, rfl⟩ := ends_done.mp ended
      simp
  | cons k rest ih =>
      simp only [anyExists, ends_bind_ok, ends_headExists] at ended
      obtain ⟨here, m, ⟨rfl, rfl⟩, there, n, searched, finished⟩ := ended
      obtain ⟨same, rfl⟩ := ends_done.mp finished
      cases same
      obtain ⟨rfl, empty⟩ := ih searched
      refine ⟨rfl, fun neither => ?_⟩
      simp only [Bool.or_eq_false_iff, Option.isSome_eq_false_iff, Option.isNone_iff_eq_none]
        at neither
      intro k' member
      rcases List.mem_cons.mp member with rfl | member
      · exact neither.1
      · exact empty neither.2 k' member

theorem ends_tombstoneSide {changed : Bool} (unfrozen : s.read i f (.fence .frozen) = none)
    (ended : Ends (apply site) (tombstoneSide i f) s (.ok changed) t) :
    Fenced t i f .tombstoned := by
  simp only [tombstoneSide, ends_bind_ok, ends_headExists] at ended
  obtain ⟨already, m, ⟨rfl, rfl⟩, hadBody, n, ⟨rfl, rfl⟩, ended⟩ := ended
  split at ended
  · rename_i leftover
    simp only [Bool.and_eq_true, Bool.not_eq_true', Option.isSome_eq_false_iff,
      Option.isNone_iff_eq_none, Option.isSome_iff_exists] at leftover
    obtain ⟨⟨⟨⟩, tombstone⟩, vacant⟩ := leftover
    rw [ends_bind_ok] at ended
    obtain ⟨debris, m, searched, ended⟩ := ended
    obtain ⟨rfl, empty⟩ := ends_anyExists searched
    split at ended
    · simp only [ends_bind_ok] at ended
      obtain ⟨_, p, dropped, finished⟩ := ended
      obtain ⟨-, rfl⟩ := ends_done.mp finished
      obtain ⟨gone, kept⟩ := ends_deleteKeys dropped
      constructor
      · intro fence
        cases fence with
        | tombstone => exact (kept _ (by simp [tombstoneDebris])).trans tombstone
        | frozen => exact (kept _ (by simp [tombstoneDebris])).trans unfrozen
        | mirrorQuarantined => exact gone _ (by simp [tombstoneDebris])
      · intro k member
        by_cases body : k = .body
        · rw [body, kept _ (by simp [tombstoneDebris]), vacant]
        · apply gone
          simp only [recordObjectKeys, List.mem_cons, body, false_or] at member
          simp only [tombstoneDebris, List.mem_cons]
          tauto
    · rename_i clean
      obtain ⟨-, rfl⟩ := ends_done.mp ended
      have empty := empty (by simpa using clean)
      constructor
      · intro fence
        cases fence with
        | tombstone => exact tombstone
        | frozen => exact unfrozen
        | mirrorQuarantined => exact empty _ (by simp [tombstoneDebris])
      · intro k member
        by_cases body : k = .body
        · rw [body, vacant]
        · apply empty
          simp only [recordObjectKeys, List.mem_cons, body, false_or] at member
          simp only [tombstoneDebris, List.mem_cons]
          tauto
  · simp only [ends_bind_ok, tombstoneWrite] at ended
    obtain ⟨_, p, ⟨_, q, fenced, noted⟩, _, r, dropped, finished⟩ := ended
    obtain ⟨-, rfl⟩ := ends_done.mp noted
    obtain ⟨-, rfl⟩ := ends_done.mp finished
    obtain ⟨gone, kept⟩ := ends_deleteKeys dropped
    obtain ⟨tombstoneStands, others⟩ := ends_putFence (j := i) fenced
    constructor
    · intro fence
      cases fence with
      | tombstone => exact (kept _ (by simp [recordObjectKeys])).trans tombstoneStands
      | frozen =>
          rw [kept _ (by simp [recordObjectKeys]), others _ (by simp)]
          exact unfrozen
      | mirrorQuarantined => exact gone _ (by simp)
    · exact fun k member => gone k (List.mem_append_left _ member)

/-! ### Demotions -/

/-- Nothing at all: claims are not objects of a filename. -/
def nothing : Footprint ι := ⟨fun _ _ _ => False, fun _ _ _ => False⟩

theorem nothing_read {α : Type} {program : StoreM ι α} (within : Within nothing program)
    (cut : Cut (apply site) program s t) : t.read j g k = s.read j g k :=
  within.read cut id id

/-- A private sidecar over a body. -/
def PrivateTruth (s : Fleet ι) (i : ι) (f : String) : Prop :=
  (∃ sc, s.read i f .sidecar = some sc ∧ sc.origin = some Origin.priv.asStr) ∧
    (s.read i f .body).isSome

theorem ends_demotionResolvedByPrivateTruth {resolved : Bool}
    (ended : Ends (apply site) (demotionResolvedByPrivateTruth i f) s (.ok resolved) t) :
    t = s ∧ (resolved = true ↔ PrivateTruth s i f) := by
  obtain ⟨stored, m, got, rest⟩ := ends_bind_ok.mp ended
  obtain ⟨rfl, rfl⟩ := ends_get.mp got
  split at rest
  · rename_i missing
    obtain ⟨same, rfl⟩ := ends_done.mp rest
    cases same
    simp [PrivateTruth, missing]
  · rename_i sc found
    split at rest
    · rename_i typed
      obtain ⟨rfl, rfl⟩ := ends_headExists.mp rest
      simp [PrivateTruth, found, typed]
    · rename_i typed
      obtain ⟨same, rfl⟩ := ends_done.mp rest
      cases same
      simp [PrivateTruth, found, typed]

/-- The three ends of a settle: private truth stands, a supersede is declared
over the body, or the record is gone behind its fence. -/
inductive Settled (s t : Fleet ι) (i : ι) (f : String) : Prop where
  | resolved : PrivateTruth s i f → (∀ k, t.read i f k = s.read i f k) → Settled s t i f
  | abandoned : ¬ PrivateTruth s i f → (s.read i f .body).isSome →
      (s.read i f .superseding).isSome → t.read i f (.fence .mirrorQuarantined) = some () →
      (∀ k, k ≠ .fence .mirrorQuarantined → (∀ h, k ≠ .quarantine h) →
        t.read i f k = s.read i f k) → Settled s t i f
  | moved : ¬ PrivateTruth s i f → t.read i f (.fence .mirrorQuarantined) = some () →
      (∀ k ∈ recordObjectKeys, t.read i f k = none) →
      (∀ k, k ∉ recordObjectKeys → k ≠ .fence .mirrorQuarantined → (∀ h, k ≠ .quarantine h) →
        t.read i f k = s.read i f k) → Settled s t i f

omit [DecidableEq ι] in
theorem Settled.congr {s' t' : Fleet ι} (settled : Settled s t i f)
    (before : ∀ k, s'.read i f k = s.read i f k) (after : ∀ k, t'.read i f k = t.read i f k) :
    Settled s' t' i f := by
  cases settled with
  | resolved truth same =>
      apply Settled.resolved
      · simpa only [PrivateTruth, before] using truth
      · simpa only [before, after] using same
  | abandoned mirror body declared fenced same =>
      apply Settled.abandoned
      · simpa only [PrivateTruth, before] using mirror
      · simpa only [before] using body
      · simpa only [before] using declared
      · simpa only [after] using fenced
      · simpa only [before, after] using same
  | moved mirror fenced dropped same =>
      apply Settled.moved
      · simpa only [PrivateTruth, before] using mirror
      · simpa only [after] using fenced
      · simpa only [after] using dropped
      · simpa only [before, after] using same

theorem ends_settleableBody {preserved : Option String} {settleable : Option Bool}
    (evidence : preserved = (s.read i f .body).map site.encoding.sha256)
    (ended : Ends (apply site) (settleableBody site i f preserved) s (.ok settleable) t) :
    t = s ∧ match settleable with
      | none => (s.read i f .body).isSome ∧ (s.read i f .superseding).isSome
      | some ours => ours = (s.read i f .body).isSome := by
  obtain ⟨stored, m, got, rest⟩ := ends_bind_ok.mp ended
  obtain ⟨rfl, rfl⟩ := ends_get.mp got
  split at rest
  · rename_i vacant
    obtain ⟨same, rfl⟩ := ends_done.mp rest
    cases same
    simp [vacant]
  · rename_i standing found
    rw [found] at evidence
    rw [if_neg (by simp [evidence])] at rest
    rw [ends_bind_ok] at rest
    obtain ⟨superseding, n, headed, rest⟩ := rest
    obtain ⟨rfl, rfl⟩ := ends_headExists.mp headed
    split at rest
    · rename_i declared
      obtain ⟨same, rfl⟩ := ends_done.mp rest
      cases same
      exact ⟨rfl, by simp [found], declared⟩
    · obtain ⟨same, rfl⟩ := ends_done.mp rest
      cases same
      simp [found]

theorem ends_settleMirrorQuarantine {changed : Bool}
    (ended : Ends (apply site) (settleMirrorQuarantine site i pkg f) s (.ok changed) t) :
    Settled s t i f := by
  obtain ⟨_, m, claimed, rest⟩ := ends_bind_ok.mp ended
  have same (k : Kind) : m.read i f k = s.read i f k :=
    nothing_read within_ensurePrivate claimed.cut
  have truth : PrivateTruth m i f ↔ PrivateTruth s i f := by simp only [PrivateTruth, same]
  rw [ends_bind_ok] at rest
  obtain ⟨resolved, n, resolving, rest⟩ := rest
  obtain ⟨rfl, resolves⟩ := ends_demotionResolvedByPrivateTruth resolving
  rw [truth] at resolves
  split at rest
  · rename_i private'
    obtain ⟨-, rfl⟩ := ends_done.mp rest
    exact .resolved (resolves.mp private') same
  rename_i mirror
  have mirror : ¬ PrivateTruth s i f := fun standing => mirror (resolves.mpr standing)
  rw [ends_bind_ok] at rest
  obtain ⟨created, p, fenced, rest⟩ := rest
  obtain ⟨stands, others⟩ := ends_putFence (j := i) fenced
  rw [ends_bind_ok] at rest
  obtain ⟨preserved, q, quarantined, rest⟩ := rest
  have evidence (k : Kind) (evident : ∀ h, k ≠ .quarantine h) : q.read i f k = p.read i f k :=
    evidenceOnly_read (within_quarantine fun h => ⟨h, rfl⟩) quarantined.cut evident
  have named := (ends_quarantine quarantined).1
  rw [ends_bind_ok] at rest
  obtain ⟨left, r, headed, rest⟩ := rest
  obtain ⟨-, rfl⟩ := ends_headExists.mp headed
  rw [ends_bind_ok] at rest
  obtain ⟨settleable, v, settling, rest⟩ := rest
  rw [← evidence .body (by simp)] at named
  obtain ⟨rfl, owned⟩ := ends_settleableBody named settling
  have untouched (k : Kind) (other : k ≠ .fence .mirrorQuarantined) (evident : ∀ h, k ≠ .quarantine h) :
      v.read i f k = s.read i f k := by
    rw [evidence k evident, others k other, same]
  split at rest
  · obtain ⟨-, rfl⟩ := ends_done.mp rest
    simp only [untouched .body (by simp) (by simp), untouched .superseding (by simp) (by simp)] at owned
    exact .abandoned mirror owned.1 owned.2 (by rw [evidence _ (by simp), stands]) untouched
  · rename_i ours
    simp only at owned
    obtain ⟨_, w, dropped, finished⟩ := ends_bind_ok.mp rest
    obtain ⟨-, rfl⟩ := ends_done.mp finished
    obtain ⟨gone, kept⟩ := ends_deleteKeys dropped
    have within (k : Kind) (member : k ∈ if ours then recordObjectKeys else recordObjectKeys.tail) :
        k ∈ recordObjectKeys := by
      split at member
      · exact member
      · exact List.mem_of_mem_tail member
    apply Settled.moved mirror
    · rw [kept _ (fun member => by simpa [recordObjectKeys] using within _ member),
        evidence _ (by simp), stands]
    · intro k member
      by_cases listed : k ∈ if ours then recordObjectKeys else recordObjectKeys.tail
      · exact gone k listed
      · rw [kept k listed]
        cases ours with
        | true => exact absurd member listed
        | false =>
            obtain rfl : k = .body := by
              simp only [recordObjectKeys, List.mem_cons] at member
              simp only [recordObjectKeys, List.tail_cons, Bool.false_eq_true, if_false,
                List.mem_cons] at listed
              tauto
            simpa using owned.symm
    · intro k record other evident
      rw [kept k fun member => record (within k member), untouched k other evident]

omit [DecidableEq ι] in
/-- A live private record behind a demotion fence is private by its own sidecar. -/
theorem livePrivate_truth (live : isLivePrivate (classifyRecord (recordOf s i f)) = true)
    (fenced : (recordOf s i f).mirrorQuarantined = true) : PrivateTruth s i f := by
  unfold isLivePrivate at live
  split at live
  · rename_i sha superseding found
    obtain ⟨-, artifact, -, sc, sidecar, -⟩ := classifyRecord_live found
    have typed := (classifyRecord_live_fenced found fenced).1
    rw [sidecar] at typed
    exact ⟨⟨sc, sidecar, typed⟩, artifact⟩
  · contradiction

/-- Only a demotion fence goes, and only one that live private truth has spent. -/
theorem ends_clearSpentDemotionFence {s₀ : Fleet ι} {u : Unit}
    (same : ∀ k, s.read i f k = s₀.read i f k)
    (ended : Ends (apply site) (clearSpentDemotionFence i f (recordOf s₀ i f)) s (.ok u) t) :
    (∀ j g k, ¬(j = i ∧ g = f ∧ k = .fence .mirrorQuarantined) → t.read j g k = s.read j g k) ∧
      t.read i f (.fence .mirrorQuarantined) =
        if isLivePrivate (classifyRecord (recordOf s₀ i f)) then none
        else s.read i f (.fence .mirrorQuarantined) := by
  let fp : Footprint ι :=
    ⟨fun _ _ _ => False, fun j g k => j = i ∧ g = f ∧ k = .fence .mirrorQuarantined⟩
  have within : Within fp (clearSpentDemotionFence i f (recordOf s₀ i f)) :=
    within_clearSpentDemotionFence ⟨rfl, rfl, rfl⟩
  constructor
  · exact fun j g k other => within.read ended.cut id other
  unfold clearSpentDemotionFence at ended
  split
  · rename_i live
    rw [live, Bool.and_true] at ended
    split at ended
    · rename_i fenced
      have truth : PrivateTruth s i f := by
        simpa only [PrivateTruth, same] using livePrivate_truth live fenced
      rw [ends_bind_ok] at ended
      obtain ⟨resolved, m, resolving, ended⟩ := ended
      obtain ⟨rfl, resolves⟩ := ends_demotionResolvedByPrivateTruth resolving
      rw [if_pos (resolves.mpr truth)] at ended
      exact (ends_deleteKeys ended).1 _ (by simp)
    · rename_i fenceless
      obtain ⟨-, rfl⟩ := ends_done.mp ended
      rw [same]
      simpa using fenceless
  · rename_i dead
    rw [Bool.not_eq_true] at dead
    rw [dead, Bool.and_false, if_neg (by simp)] at ended
    obtain ⟨-, rfl⟩ := ends_done.mp ended
    rfl

end Pypiron.Replicate
