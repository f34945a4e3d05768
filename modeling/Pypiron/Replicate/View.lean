import Pypiron.ClashMerge
import Pypiron.Replicate.Verdicts

/-! The merge algebra as an order: what a record is worth against another, in
which a verdict takes the greater side or, over two that clash, a freeze. -/
namespace Pypiron
open RankedMerge

/-- What a record is worth to the merge. Bodies that no sidecar describes or no
origin types are set aside until their own bucket repairs them. -/
inductive View where
  | deferred
  | absent
  | mirror (sc : Sidecar)
  | demoted
  | priv (sc : Sidecar)
  | tombstoned
  | frozen
  deriving DecidableEq, Repr

def Record.view (r : Record) : View :=
  match classifyRecord r, r.sidecar with
  | .frozen _, _ => .frozen
  | .tombstoned _, _ => .tombstoned
  | .quarantinedMirror _, _ => .demoted
  | .live _ .priv _, some sc => .priv sc
  | .live _ .mirror _, some sc => .mirror sc
  | .absent _, _ => .absent
  | _, _ => .deferred

/-- Where the merge ranks a sidecar among those of one body. -/
def sidecarRank (encoding : Encoding) (origin : Origin) (sc : Sidecar) :
    (Nat ×ₗ Nat ×ₗ Bool ×ₗ Nat) ×ₗ Stringᵒᵈ :=
  rank encoding.sha256 (sidecarKey sc (some origin)) (encoding.toVec sc)

/-- The receive time that the private uploads of a body carry. -/
abbrev Receipts := String → Option Nat

/-- The winner was received first, by more than clocks may be apart. -/
def Receipts.Older (receipts : Receipts) (winner loser : Sidecar) : Prop :=
  ∃ early late, receipts winner.sha256 = some early ∧ receipts loser.sha256 = some late ∧
    early + conflictSkewMs < late

namespace View
variable (encoding : Encoding) (receipts : Receipts)

/-- Everything below a fence yields to it; a body yields to another by its
origin, then by its receipt, and to itself by its sidecar. -/
@[grind] def Le : View → View → Prop
  | _, frozen => True
  | v, tombstoned => v ≠ frozen
  | priv x, priv y => receipts.Older y x ∨
      x.sha256 = y.sha256 ∧ sidecarRank encoding .priv x ≤ sidecarRank encoding .priv y
  | demoted, priv _ | mirror _, priv _ | absent, priv _ => True
  | demoted, demoted | mirror _, demoted | absent, demoted => True
  | mirror x, mirror y =>
      x.sha256 = y.sha256 ∧ sidecarRank encoding .mirror x ≤ sidecarRank encoding .mirror y
  | absent, mirror _ | absent, absent => True
  | deferred, deferred => True
  | _, _ => False

/-- Two bodies that the merge cannot order. -/
def Clash : View → View → Prop
  | priv x, priv y => x.sha256 ≠ y.sha256 ∧ ¬ receipts.Older x y ∧ ¬ receipts.Older y x
  | mirror x, mirror y => x.sha256 ≠ y.sha256
  | _, _ => False

end View

/-- Views in the order that one encoding and one record of receipts give them. -/
def Ranked (_ : Encoding) (_ : Receipts) : Type := View

section Order
variable {encoding : Encoding} {receipts : Receipts} {x y z : Sidecar}

theorem Receipts.Older.trans (first : receipts.Older y x) (second : receipts.Older z y) :
    receipts.Older z x := by
  obtain ⟨middle, late, foundY, foundX, after⟩ := first
  obtain ⟨early, middle', foundZ, foundY', before⟩ := second
  cases foundY.symm.trans foundY'
  exact ⟨early, late, foundZ, foundX, by omega⟩

theorem Receipts.Older.irrefl : ¬ receipts.Older x x := by
  rintro ⟨early, late, found, found', after⟩
  cases found.symm.trans found'
  omega

theorem Receipts.Older.congr {x' y' : Sidecar} (older : receipts.Older y x)
    (winner : y.sha256 = y'.sha256) (loser : x.sha256 = x'.sha256) : receipts.Older y' x' := by
  unfold Receipts.Older at *
  rwa [← winner, ← loser]

theorem View.le_refl (v : View) : View.Le encoding receipts v v := by
  cases v <;> simp [View.Le]

theorem View.le_priv_trans (first : View.Le encoding receipts (.priv x) (.priv y))
    (second : View.Le encoding receipts (.priv y) (.priv z)) :
    View.Le encoding receipts (.priv x) (.priv z) := by
  simp only [View.Le] at first second ⊢
  rcases first with older | ⟨same, lower⟩
  · rcases second with older' | ⟨same', -⟩
    · exact Or.inl (older.trans older')
    · exact Or.inl (older.congr same' rfl)
  · rcases second with older' | ⟨same', lower'⟩
    · exact Or.inl (older'.congr rfl same.symm)
    · exact Or.inr ⟨same.trans same', lower.trans lower'⟩

theorem View.le_mirror_trans (first : View.Le encoding receipts (.mirror x) (.mirror y))
    (second : View.Le encoding receipts (.mirror y) (.mirror z)) :
    View.Le encoding receipts (.mirror x) (.mirror z) := by
  simp only [View.Le] at first second ⊢
  exact ⟨first.1.trans second.1, first.2.trans second.2⟩

theorem View.le_trans {u v w : View} (first : View.Le encoding receipts u v)
    (second : View.Le encoding receipts v w) : View.Le encoding receipts u w := by
  cases v with
  | deferred => cases u <;> simp [View.Le] at first; exact second
  | absent => cases u <;> simp [View.Le] at first; exact second
  | mirror y =>
      cases u with
      | mirror x =>
          cases w with
          | mirror z => exact View.le_mirror_trans first second
          | _ => simp_all [View.Le]
      | absent => cases w <;> simp_all [View.Le]
      | _ => simp [View.Le] at first
  | demoted => cases u <;> simp only [View.Le] at first <;> cases w <;> simp_all [View.Le]
  | priv y =>
      cases u with
      | priv x =>
          cases w with
          | priv z => exact View.le_priv_trans first second
          | _ => simp_all [View.Le]
      | _ => cases w <;> simp_all [View.Le]
  | tombstoned => cases w <;> simp_all [View.Le]
  | frozen => cases w <;> simp_all [View.Le]

instance : Preorder (Ranked encoding receipts) where
  le := View.Le encoding receipts
  le_refl := View.le_refl
  le_trans _ _ _ := View.le_trans

theorem View.le_antisymm {v w : View} (below : View.Le encoding receipts v w)
    (above : View.Le encoding receipts w v) :
    v = w ∨ (∃ x y, v = .priv x ∧ w = .priv y ∧
      sidecarRank encoding .priv x = sidecarRank encoding .priv y) ∨
      ∃ x y, v = .mirror x ∧ w = .mirror y ∧
        sidecarRank encoding .mirror x = sidecarRank encoding .mirror y := by
  cases v with
  | priv x =>
      cases w with
      | priv y =>
          right
          left
          rcases below with older | ⟨same, lower⟩
          · rcases above with older' | ⟨same', -⟩
            · exact absurd (older.trans older') Receipts.Older.irrefl
            · exact absurd (older.congr same' rfl) Receipts.Older.irrefl
          · rcases above with older' | ⟨-, lower'⟩
            · exact absurd (older'.congr same rfl) Receipts.Older.irrefl
            · exact ⟨x, y, rfl, rfl, lower.antisymm lower'⟩
      | _ => simp_all [View.Le]
  | mirror x =>
      cases w with
      | mirror y => exact Or.inr (Or.inr ⟨x, y, rfl, rfl, below.2.antisymm above.2⟩)
      | _ => simp_all [View.Le]
  | _ => cases w <;> simp_all [View.Le]

def Ranked.frozen : Ranked encoding receipts := View.frozen

def Ranked.Clash (v w : Ranked encoding receipts) : Prop := View.Clash receipts v w

theorem Ranked.le_frozen (v : Ranked encoding receipts) : v ≤ Ranked.frozen := by
  cases v <;> trivial

theorem View.clash_strict {v w : View} (clash : View.Clash receipts v w) :
    ¬ View.Le encoding receipts v w ∧ ¬ View.Le encoding receipts w v := by
  unfold View.Clash at clash
  split at clash
  · obtain ⟨apart, notLeft, notRight⟩ := clash
    simp only [View.Le, not_or, not_and]
    exact ⟨⟨notRight, fun same => absurd same apart⟩, notLeft, fun same => absurd same.symm apart⟩
  · simp only [View.Le, not_and]
    exact ⟨fun same => absurd same clash, fun same => absurd same.symm clash⟩
  · exact clash.elim

theorem Ranked.clash_strict (v w : Ranked encoding receipts) (clash : Ranked.Clash v w) :
    ¬ v ≤ w ∧ ¬ w ≤ v :=
  View.clash_strict clash

end Order

/-! ### What a verdict knows of the views -/

section Verdicts
variable {encoding : Encoding} {receipts : Receipts} {r ra rb : Record} {sc sca scb : Sidecar}
variable {oa ob : Origin} {side : Side}

/-- A live record is worth its origin and its sidecar. -/
def View.live : Origin → Sidecar → View
  | .priv, sc => .priv sc
  | .mirror, sc => .mirror sc

theorem View.live_ne_absent (origin : Origin) (sc : Sidecar) : View.live origin sc ≠ .absent := by
  cases origin <;> simp [View.live]

theorem View.clash_live {v w : View} (clash : View.Clash receipts v w) :
    ∃ origin x y, v = .live origin x ∧ w = .live origin y ∧ x.sha256 ≠ y.sha256 := by
  unfold View.Clash at clash
  split at clash
  · exact ⟨.priv, _, _, rfl, rfl, clash.1⟩
  · exact ⟨.mirror, _, _, rfl, rfl, clash⟩
  · exact clash.elim

theorem Record.view_live {sha : String} {origin : Origin} {superseding : Bool}
    (live : classifyRecord r = .live sha origin superseding) (found : r.sidecar = some sc) :
    r.view = .live origin sc := by
  unfold Record.view
  rw [live, found]
  cases origin <;> rfl

theorem conflictWinner_older (ra rb : Record) (foundA : ra.sidecar = some sca) (foundB : rb.sidecar = some scb)
    (receiptA : sca.uploadEpochMs = receipts sca.sha256)
    (receiptB : scb.uploadEpochMs = receipts scb.sha256) :
    match conflictWinner ra rb with
    | some side => receipts.Older (side.pick sca scb) (side.other.pick sca scb)
    | none => ¬ receipts.Older sca scb ∧ ¬ receipts.Older scb sca := by
  unfold conflictWinner
  rw [foundA, foundB]
  simp only [Option.bind_eq_bind, Option.bind_some, receiptA, receiptB]
  cases timeA : receipts sca.sha256 with
  | none => simp [Receipts.Older, timeA]
  | some ta =>
      cases timeB : receipts scb.sha256 with
      | none => simp [Receipts.Older, timeB]
      | some tb =>
          simp only [Option.bind_some]
          split
          · rename_i side decided
            split at decided
            · contradiction
            · rename_i apart
              unfold absDiff at apart
              cases decided
              split
              · exact ⟨ta, tb, timeA, timeB, by omega⟩
              · exact ⟨tb, ta, timeB, timeA, by omega⟩
          · rename_i undecided
            split at undecided
            · rename_i close
              unfold absDiff at close
              simp only [Receipts.Older, timeA, timeB, Option.some.injEq]
              constructor
              · rintro ⟨early, late, rfl, rfl, after⟩
                omega
              · rintro ⟨early, late, rfl, rfl, after⟩
                omega
            · contradiction

theorem sidecarMerge_le (receipts : Receipts)
    (merged : sidecarMerge encoding sca (some oa) scb (some ob) = side.pick .a .b)
    (digest : sca.sha256 = scb.sha256) :
    View.Le encoding receipts (side.other.pick (.live oa sca) (.live ob scb))
      (side.pick (.live oa sca) (.live ob scb)) := by
  cases side with
  | a =>
      have wins : sidecarMerge encoding sca (some oa) scb (some ob) = .a := merged
      cases oa with
      | priv =>
          cases ob with
          | priv => exact Or.inr ⟨digest.symm, rank_le_of_eq_a wins⟩
          | mirror => trivial
      | mirror =>
          cases ob with
          | priv =>
              rw [sidecarMerge_to_private (by simp)] at wins
              contradiction
          | mirror => exact ⟨digest.symm, rank_le_of_eq_a wins⟩
  | b =>
      have wins : sidecarMerge encoding sca (some oa) scb (some ob) = .b := merged
      cases oa with
      | priv =>
          cases ob with
          | priv => exact Or.inr ⟨digest, (rankedMerge_eq_b.mp wins).le⟩
          | mirror =>
              rw [sidecarMerge_private (by simp)] at wins
              contradiction
      | mirror =>
          cases ob with
          | priv => trivial
          | mirror => exact ⟨digest, (rankedMerge_eq_b.mp wins).le⟩

theorem sidecarMerge_equal (merged : sidecarMerge encoding sca (some oa) scb (some ob) = .equal)
    (digest : sca.sha256 = scb.sha256) :
    View.Le encoding receipts (.live oa sca) (.live ob scb) ∧
      View.Le encoding receipts (.live ob scb) (.live oa sca) := by
  obtain ⟨key, bytes⟩ := rankedMerge_eq_equal.mp merged
  have origin : oa = ob := by
    by_contra different
    cases oa with
    | priv =>
        rw [sidecarMerge_private (by simpa [eq_comm] using different)] at merged
        contradiction
    | mirror =>
        cases ob with
        | priv =>
            rw [sidecarMerge_to_private (by simp)] at merged
            contradiction
        | mirror => exact different rfl
  subst origin
  have same : sidecarRank encoding oa sca = sidecarRank encoding oa scb := by
    rw [sidecarRank, sidecarRank, key, bytes]
  cases oa with
  | priv => exact ⟨Or.inr ⟨digest, same.le⟩, Or.inr ⟨digest.symm, same.ge⟩⟩
  | mirror => exact ⟨⟨digest, same.le⟩, digest.symm, same.ge⟩

end Verdicts
end Pypiron
