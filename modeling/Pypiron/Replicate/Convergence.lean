import Mathlib.Data.List.Dedup
import Pypiron.Replicate.Claims
import Pypiron.Replicate.Publication

/-! One converge pass of a filename between two buckets. -/
namespace Pypiron.Replicate
open Program StoreM RankedMerge
variable {ι : Type} [DecidableEq ι] {site : Site ι} {s t m : Fleet ι} {i j a b : ι}
variable {pkg f g : String} {k : Kind} {sc : Sidecar}

/-! ### Claims that join -/

theorem settleMirrorQuarantine_read
    (cut : Cut (apply site) (settleMirrorQuarantine site i pkg f) s t) (other : ¬(j = i ∧ g = f)) :
    t.read j g k = s.read j g k := by
  let region (j : ι) (g : String) (_ : Kind) : Prop := j = i ∧ g = f
  have drops : (touches region).Drops i f := ⟨fun _ => ⟨rfl, rfl⟩, fun _ _ => ⟨rfl, rfl⟩⟩
  exact touches_read (within_settleMirrorQuarantine drops) cut other

/-- What a raised claim does to a filename: a live mirror record is settled,
everything else is left. -/
inductive Swept (s t : Fleet ι) (i : ι) (f : String) : Prop where
  | kept : (∀ k, t.read i f k = s.read i f k) → Swept s t i f
  | demoted (sc : Sidecar) : s.read i f .sidecar = some sc → sc.origin = some Origin.mirror.asStr →
      Settled s t i f → Swept s t i f

omit [DecidableEq ι] in
theorem Swept.congr {s' t' : Fleet ι} (swept : Swept s t i f)
    (before : ∀ k, s'.read i f k = s.read i f k) (after : ∀ k, t'.read i f k = t.read i f k) :
    Swept s' t' i f := by
  cases swept with
  | kept same => exact .kept (by simpa only [before, after] using same)
  | demoted sc found mirror settled =>
      exact .demoted sc ((before _).trans found) mirror (settled.congr before after)

theorem ends_quarantineOne {settled : Nat}
    (ended : Ends (apply site) (quarantineListed.quarantineOne site i pkg f) s (.ok settled) t) :
    Swept s t i f ∧ ∀ j g, ¬(j = i ∧ g = f) → ∀ k, t.read j g k = s.read j g k := by
  obtain ⟨stored, u, got, rest⟩ := ends_bind_ok.mp ended
  obtain ⟨rfl, rfl⟩ := ends_get.mp got
  split at rest
  · obtain ⟨-, rfl⟩ := ends_done.mp rest
    exact ⟨.kept fun _ => rfl, fun _ _ _ _ => rfl⟩
  · rename_i sc found
    split at rest
    · rename_i mirror
      rw [ends_bind_ok] at rest
      obtain ⟨changed, v, settling, rest⟩ := rest
      have finished : t = v := by
        split at rest
        · exact (ends_done.mp rest).2
        · exact (ends_done.mp rest).2
      subst finished
      exact ⟨.demoted sc found mirror (ends_settleMirrorQuarantine settling),
        fun _ _ other _ => settleMirrorQuarantine_read settling.cut other⟩
    · split at rest
      · obtain ⟨-, rfl⟩ := ends_done.mp rest
        exact ⟨.kept fun _ => rfl, fun _ _ _ _ => rfl⟩
      · exact absurd rest ends_bail

theorem ends_quarantineListed {names : List String} {settled : Nat} (once : names.Nodup)
    (ended : Ends (apply site) (quarantineListed site i pkg names) s (.ok settled) t) :
    (∀ f, Swept s t i f) ∧ ∀ j f, ¬(j = i ∧ f ∈ names) → ∀ k, t.read j f k = s.read j f k := by
  induction names generalizing s settled with
  | nil =>
      obtain ⟨-, rfl⟩ := ends_done.mp ended
      exact ⟨fun _ => .kept fun _ => rfl, fun _ _ _ _ => rfl⟩
  | cons head rest ih =>
      obtain ⟨fresh, once⟩ := List.nodup_cons.mp once
      simp only [quarantineListed, ends_bind_ok] at ended
      obtain ⟨_, m, first, _, n, later, finished⟩ := ended
      obtain ⟨-, rfl⟩ := ends_done.mp finished
      obtain ⟨swept, others⟩ := ends_quarantineOne first
      obtain ⟨onward, beyond⟩ := ih once later
      constructor
      · intro f
        by_cases here : f = head
        · subst here
          exact swept.congr (fun _ => rfl) (beyond i f (by simp [fresh]))
        · exact (onward f).congr (fun k => (others i f (by simp [here]) k).symm) fun _ => rfl
      · intro j f other k
        rw [List.mem_cons, not_and, not_or] at other
        have later : ¬(j = i ∧ f ∈ rest) := fun here => (other here.1).2 here.2
        have apart : ¬(j = i ∧ f = head) := fun here => (other here.1).1 here.2
        rw [beyond j f later, others j f apart]

theorem ends_quarantineMirrorArtifacts {settled : Nat}
    (ended : Ends (apply site) (quarantineMirrorArtifacts site i pkg) s (.ok settled) t) :
    (∀ f, Swept s t i f) ∧ ∀ j f, j ≠ i → ∀ k, t.read j f k = s.read j f k := by
  obtain ⟨observed, u, claimed, rest⟩ := ends_bind_ok.mp ended
  have same (j : ι) (f : String) (k : Kind) : u.read j f k = s.read j f k :=
    nothing_read within_onClaim claimed.cut
  split at rest
  · obtain ⟨-, rfl⟩ := ends_done.mp rest
    exact ⟨fun f => .kept (same i f), fun j f _ => same j f⟩
  split at rest
  · rw [ends_bind_ok] at rest
    obtain ⟨names, v, listed, rest⟩ := rest
    rw [StoreM.list, ends_request_ok, apply, Prod.mk.injEq, Except.ok.injEq] at listed
    obtain ⟨rfl, rfl⟩ := listed
    have once : ((u i).listing.names.filter ((u i).listing.has · .body)).Nodup :=
      ((List.perm_insertionSort _ _).nodup_iff.mpr (List.nodup_dedup _)).filter _
    obtain ⟨swept, others⟩ := ends_quarantineListed once rest
    constructor
    · exact fun f => (swept f).congr (fun k => (same i f k).symm) fun _ => rfl
    · intro j f other k
      rw [others j f (by simp [other]), same]
  · obtain ⟨-, rfl⟩ := ends_done.mp rest
    exact ⟨fun f => .kept (same i f), fun j f _ => same j f⟩

theorem ends_raiseToPrivate {origin : Option Origin} {scanned : Bool}
    (ended : Ends (apply site) (raiseToPrivate site i pkg origin) s (.ok scanned) t) :
    (∀ f, Swept s t i f) ∧ ∀ j f, j ≠ i → ∀ k, t.read j f k = s.read j f k := by
  unfold raiseToPrivate at ended
  split at ended
  · obtain ⟨-, rfl⟩ := ends_done.mp ended
    exact ⟨fun _ => .kept fun _ => rfl, fun _ _ _ _ => rfl⟩
  rw [ends_bind_ok] at ended
  obtain ⟨_, u, claimed, rest⟩ := ended
  have same (j : ι) (f : String) (k : Kind) : u.read j f k = s.read j f k :=
    nothing_read within_ensurePrivate claimed.cut
  split at rest
  · simp only [ends_bind_ok] at rest
    obtain ⟨_, v, sweeping, _, w, marked, finished⟩ := rest
    obtain ⟨-, rfl⟩ := ends_done.mp finished
    have after (j : ι) (f : String) (k : Kind) : t.read j f k = v.read j f k :=
      nothing_read within_markDirtyIf marked.cut
    obtain ⟨swept, others⟩ := ends_quarantineMirrorArtifacts sweeping
    constructor
    · exact fun f => (swept f).congr (fun k => (same i f k).symm) (after i f)
    · intro j f other k
      rw [after, others j f other, same]
  · obtain ⟨-, rfl⟩ := ends_done.mp rest
    exact ⟨fun f => .kept (same i f), fun j f _ => same j f⟩

/-- A lone mirror claim is matched; any other pair is left to the join. -/
def matched (other mine : Option Origin) : Option Origin :=
  if other = some .mirror ∧ mine = none then some .mirror else mine

theorem claimJoin_matched (left right : Option Origin) :
    claimJoin (matched right left) (matched left right) = claimJoin left right := by
  rcases left with _ | left <;> rcases right with _ | right <;> (try cases left) <;>
    (try cases right) <;> rfl

theorem ends_reserveMirror {other mine reserved : Option Origin} (read : mine = claimOf s i)
    (ended : Ends (apply site) (reserveMirror i pkg other mine) s (.ok reserved) t) :
    reserved = matched other mine ∧ (∀ j, claimOf t j = if j = i then reserved else claimOf s j) ∧
      ∀ j f k, t.read j f k = s.read j f k := by
  unfold reserveMirror at ended
  unfold matched
  split at ended
  · rename_i lone
    rw [ends_bind_ok] at ended
    obtain ⟨origin, u, claiming, finished⟩ := ended
    obtain ⟨same, rfl⟩ := ends_done.mp finished
    cases same
    obtain ⟨joined, claims⟩ := ends_ensureMirror claiming
    rw [← read, lone.2] at joined
    cases joined
    rw [if_pos lone]
    exact ⟨rfl, claims, fun _ _ _ => nothing_read within_ensureMirror claiming.cut⟩
  · rename_i paired
    obtain ⟨same, rfl⟩ := ends_done.mp ended
    cases same
    rw [if_neg paired]
    refine ⟨rfl, fun j => ?_, fun _ _ _ => rfl⟩
    split
    · rename_i here
      rw [here, read]
    · rfl

/-- What the objects of both sides are once their claims have joined. -/
structure Reconciled (s t : Fleet ι) (a b : ι) : Prop where
  left : ∀ f, Swept s t a f
  right : ∀ f, Swept s t b f
  others : ∀ j f, j ≠ a → j ≠ b → ∀ k, t.read j f k = s.read j f k
  mirror : claimJoin (claimOf s a) (claimOf s b) ≠ some .priv → ∀ j f k, t.read j f k = s.read j f k

theorem ends_reconcileSplitOrigin {reconciled : SplitOriginReconciled} (apart : a ≠ b)
    (ended : Ends (apply site) (reconcileSplitOrigin site a b pkg (claimOf s a) (claimOf s b)) s
      (.ok reconciled) t) : Reconciled s t a b := by
  simp only [reconcileSplitOrigin, ends_bind_ok] at ended
  obtain ⟨bOrigin, u, reserveB, aOrigin, v, reserveA, rest⟩ := ended
  obtain ⟨rfl, claims, first⟩ := ends_reserveMirror rfl reserveB
  have unread : claimOf s a = claimOf u a := by rw [claims, if_neg apart]
  obtain ⟨rfl, -, second⟩ := ends_reserveMirror unread reserveA
  rw [claimJoin_matched] at rest
  have same (j : ι) (f : String) (k : Kind) : v.read j f k = s.read j f k := by
    rw [second, first]
  split at rest
  · rename_i joined
    simp only [ends_bind_ok] at rest
    obtain ⟨_, w, raiseA, _, x, raiseB, finished⟩ := rest
    obtain ⟨-, rfl⟩ := ends_done.mp finished
    obtain ⟨sweptA, othersA⟩ := ends_raiseToPrivate raiseA
    obtain ⟨sweptB, othersB⟩ := ends_raiseToPrivate raiseB
    constructor
    · exact fun f => (sweptA f).congr (fun k => (same a f k).symm) (othersB a f apart)
    · intro f
      apply (sweptB f).congr _ fun _ => rfl
      intro k
      rw [othersA b f apart.symm, same]
    · intro j f notA notB k
      rw [othersB j f notB, othersA j f notA, same]
    · exact fun unjoined => absurd joined unjoined
  · obtain ⟨-, rfl⟩ := ends_done.mp rest
    exact ⟨fun f => .kept (same a f), fun f => .kept (same b f), fun j f _ _ => same j f,
      fun _ => same⟩

end Pypiron.Replicate
