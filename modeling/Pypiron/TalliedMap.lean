import Pypiron.KeyedMap

/-! A map that counts the weight of its values beside it. Every subtraction
from the count is checked; an exact count never fails one. -/
namespace Pypiron

/-- Subtraction of unsigned machine integers, undefined where it would wrap. -/
def checkedSub (a b : ℕ) : Option ℕ := if b ≤ a then some (a - b) else none

theorem checkedSub_le {a b c : ℕ} (fits : checkedSub a b = some c) : c ≤ a := by
  unfold checkedSub at fits
  split at fits
  · cases fits
    exact Nat.sub_le a b
  · cases fits

theorem checkedSub_eq {a b : ℕ} (fits : b ≤ a) : checkedSub a b = some (a - b) := if_pos fits

structure TalliedMap (K V : Type) where
  map : KeyedMap K V
  bodyBytes : ℕ

namespace TalliedMap
open KeyedMap
variable {K V : Type}

def empty : TalliedMap K V := ⟨∅, 0⟩

/-- The count is the weight of what is there. -/
def Exact (weight : V → ℕ) (m : TalliedMap K V) : Prop := m.bodyBytes = total weight m.map

theorem Exact.empty (weight : V → ℕ) : (TalliedMap.empty : TalliedMap K V).Exact weight := rfl

/-- Keep the values that pass the test, and take the weight of the others off. -/
def retain (weight : V → ℕ) (keep : K → V → Bool) (m : TalliedMap K V) :
    Option (TalliedMap K V) :=
  (checkedSub m.bodyBytes (total weight (KeyedMap.retain (fun k v => !keep k v) m.map))).map
    (⟨KeyedMap.retain keep m.map, ·⟩)

/-- Above the ceiling, keep the live values; where those alone exceed it, keep none. -/
def enforceCap (weight : V → ℕ) (maxBytes : ℕ) (live : V → Bool) (m : TalliedMap K V) :
    Option (TalliedMap K V) :=
  if m.bodyBytes ≤ maxBytes then some m
  else (m.retain weight fun _ => live).map fun kept =>
    if kept.bodyBytes > maxBytes then TalliedMap.empty else kept

theorem Exact.retain {weight : V → ℕ} {m : TalliedMap K V} (exact : m.Exact weight)
    (keep : K → V → Bool) :
    ∃ kept, m.retain weight keep = some kept ∧ kept.Exact weight ∧
      kept.bodyBytes ≤ m.bodyBytes ∧ kept.map = KeyedMap.retain keep m.map := by
  have parts := total_retain weight keep m.map
  unfold Exact at exact
  rw [TalliedMap.retain, checkedSub_eq (by omega)]
  refine ⟨_, rfl, ?_, Nat.sub_le _ _, rfl⟩
  simp only [Exact]
  omega

variable [DecidableEq K]

def insert (weight : V → ℕ) (k : K) (v : V) (m : TalliedMap K V) : Option (TalliedMap K V) :=
  match m.map.lookup k with
  | some old => (checkedSub (m.bodyBytes + weight v) (weight old)).map (⟨m.map.insert k v, ·⟩)
  | none => some ⟨m.map.insert k v, m.bodyBytes + weight v⟩

def remove (weight : V → ℕ) (k : K) (m : TalliedMap K V) : Option (TalliedMap K V) :=
  match m.map.lookup k with
  | some old => (checkedSub m.bodyBytes (weight old)).map (⟨m.map.erase k, ·⟩)
  | none => some m

theorem Exact.insert {weight : V → ℕ} {m : TalliedMap K V} (exact : m.Exact weight) (k : K)
    (v : V) :
    ∃ next, m.insert weight k v = some next ∧ next.Exact weight ∧ next.map = m.map.insert k v := by
  have erased := total_erase weight k m.map
  have inserted := total_insert weight k v m.map
  unfold Exact at exact
  unfold TalliedMap.insert
  cases found : m.map.lookup k with
  | none =>
      simp only [found, Option.map_none, Option.getD_none] at erased
      refine ⟨_, rfl, ?_, rfl⟩
      simp only [Exact]
      omega
  | some old =>
      simp only [found, Option.map_some, Option.getD_some] at erased
      dsimp only
      rw [checkedSub_eq (by omega)]
      refine ⟨_, rfl, ?_, rfl⟩
      simp only [Exact]
      omega

theorem Exact.remove {weight : V → ℕ} {m : TalliedMap K V} (exact : m.Exact weight) (k : K) :
    ∃ next, m.remove weight k = some next ∧ next.Exact weight ∧ next.bodyBytes ≤ m.bodyBytes ∧
      ∀ k', next.map.lookup k' = if k' = k then none else m.map.lookup k' := by
  have erased := total_erase weight k m.map
  unfold Exact at exact
  unfold TalliedMap.remove
  cases found : m.map.lookup k with
  | none =>
      refine ⟨_, rfl, exact, Nat.le_refl _, fun k' => ?_⟩
      split
      next same => rw [same, found]
      next => rfl
  | some old =>
      simp only [found, Option.map_some, Option.getD_some] at erased
      dsimp only
      rw [checkedSub_eq (by omega)]
      refine ⟨_, rfl, ?_, Nat.sub_le _ _, fun k' => lookup_erase_eq k k' m.map⟩
      simp only [Exact]
      omega

theorem bodyBytes_insert_le {weight : V → ℕ} {m next : TalliedMap K V} {k : K} {v : V}
    (inserted : m.insert weight k v = some next) : next.bodyBytes ≤ m.bodyBytes + weight v := by
  unfold TalliedMap.insert at inserted
  split at inserted
  · obtain ⟨count, fits, rfl⟩ := Option.map_eq_some_iff.mp inserted
    exact checkedSub_le fits
  · cases inserted
    exact le_rfl

theorem lookup_of_insert {weight : V → ℕ} {m next : TalliedMap K V} {k k' : K} {v v' : V}
    (inserted : m.insert weight k v = some next) (found : next.map.lookup k' = some v') :
    (k' = k ∧ v' = v) ∨ m.map.lookup k' = some v' := by
  have entered : next.map = m.map.insert k v := by
    unfold TalliedMap.insert at inserted
    split at inserted
    · obtain ⟨count, _, rfl⟩ := Option.map_eq_some_iff.mp inserted
      rfl
    · cases inserted
      rfl
  rw [entered, lookup_insert_eq] at found
  split at found
  next same => exact .inl ⟨same, (Option.some.inj found).symm⟩
  next => exact .inr found

theorem lookup_of_remove {weight : V → ℕ} {m next : TalliedMap K V} {k k' : K} {v : V}
    (removed : m.remove weight k = some next) (found : next.map.lookup k' = some v) :
    m.map.lookup k' = some v := by
  unfold TalliedMap.remove at removed
  split at removed
  · obtain ⟨count, _, rfl⟩ := Option.map_eq_some_iff.mp removed
    rw [lookup_erase_eq] at found
    split at found
    next => cases found
    next => exact found
  · cases removed
    exact found

theorem Exact.enforceCap {weight : V → ℕ} {m : TalliedMap K V} (exact : m.Exact weight)
    (maxBytes : ℕ) (live : V → Bool) :
    ∃ next, m.enforceCap weight maxBytes live = some next ∧ next.Exact weight ∧
      next.bodyBytes ≤ maxBytes ∧
      ∀ k v, next.map.lookup k = some v → m.map.lookup k = some v := by
  unfold TalliedMap.enforceCap
  split
  next fits => exact ⟨m, rfl, exact, fits, fun _ _ found => found⟩
  next large =>
    obtain ⟨kept, retained, keptExact, _, keptMap⟩ := exact.retain fun _ => live
    rw [retained]
    by_cases still : kept.bodyBytes > maxBytes
    · refine ⟨_, rfl, ?_, ?_, ?_⟩ <;> simp only [if_pos still]
      · exact Exact.empty weight
      · exact Nat.zero_le _
      · intro k v found
        exact absurd found (by simp [TalliedMap.empty])
    · refine ⟨_, rfl, ?_, ?_, ?_⟩ <;> simp only [if_neg still]
      · exact keptExact
      · omega
      · intro k v found
        rw [keptMap, lookup_retain] at found
        exact (Option.filter_eq_some_iff.mp found).1

end TalliedMap

end Pypiron
