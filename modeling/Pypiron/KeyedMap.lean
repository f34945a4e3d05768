import Mathlib.Algebra.Group.Nat.Defs
import Mathlib.Algebra.GroupWithZero.Nat
import Mathlib.Data.List.AList
import Mathlib.Tactic.Common

/-! Finite maps as association lists without repeated keys: their size, the
removal of all the entries that fail a test, and sums of weights over the values. -/
namespace Pypiron

abbrev KeyedMap (K V : Type) := AList fun _ : K => V

namespace KeyedMap
variable {K V : Type}

def len (m : KeyedMap K V) : ℕ := m.entries.length

def retain (keep : K → V → Bool) (m : KeyedMap K V) : KeyedMap K V :=
  ⟨m.entries.filter fun e => keep e.1 e.2, m.nodupKeys.sublist List.filter_sublist⟩

def total (weight : V → ℕ) (m : KeyedMap K V) : ℕ := (m.entries.map fun e => weight e.2).sum

theorem len_retain_le (keep : K → V → Bool) (m : KeyedMap K V) : len (retain keep m) ≤ len m :=
  List.length_filter_le _ _

/-- What is kept and what is dropped weigh what there was. -/
theorem total_retain (weight : V → ℕ) (keep : K → V → Bool) (m : KeyedMap K V) :
    total weight (retain keep m) + total weight (retain (fun k v => !keep k v) m) =
      total weight m := by
  dsimp only [total, retain]
  induction m.entries with
  | nil => rfl
  | cons entry rest ih =>
      by_cases kept : keep entry.1 entry.2 <;> simp [kept] at ih ⊢ <;> omega

variable [DecidableEq K]

theorem lookup_retain (keep : K → V → Bool) (k : K) (m : KeyedMap K V) :
    (retain keep m).lookup k = (m.lookup k).filter (keep k) := by
  ext v
  rw [← Option.mem_def, AList.mem_lookup_iff, Option.filter_eq_some_iff, ← Option.mem_def,
    AList.mem_lookup_iff]
  exact List.mem_filter

theorem mem_of_lookup {k : K} {v : V} {m : KeyedMap K V} (found : m.lookup k = some v) : k ∈ m := by
  rw [← AList.lookup_isSome, found]
  rfl

theorem lookup_of_mem {k : K} {m : KeyedMap K V} (member : k ∈ m) : ∃ v, m.lookup k = some v :=
  Option.isSome_iff_exists.mp (AList.lookup_isSome.mpr member)

theorem lookup_insert_eq (k k' : K) (v : V) (m : KeyedMap K V) :
    (m.insert k v).lookup k' = if k' = k then some v else m.lookup k' := by
  split
  next same => rw [same, AList.lookup_insert]
  next other => rw [AList.lookup_insert_ne other]

theorem lookup_erase_eq (k k' : K) (m : KeyedMap K V) :
    (m.erase k).lookup k' = if k' = k then none else m.lookup k' := by
  split
  next same => rw [same, AList.lookup_erase]
  next other => rw [AList.lookup_erase_ne other]

theorem total_erase (weight : V → ℕ) (k : K) (m : KeyedMap K V) :
    total weight (m.erase k) + ((m.lookup k).map weight).getD 0 = total weight m := by
  by_cases member : k ∈ m
  · obtain ⟨v, before, after, absent, entries, erased⟩ := List.exists_of_kerase (AList.mem_keys.mp member)
    have found : m.lookup k = some v := by
      rw [← Option.mem_def, AList.mem_lookup_iff, entries]
      simp
    rw [found]
    change ((m.entries.kerase k).map fun e => weight e.2).sum + weight v =
      (m.entries.map fun e => weight e.2).sum
    rw [erased, entries]
    simp only [List.map_append, List.sum_append, List.map_cons, List.sum_cons]
    omega
  · rw [AList.lookup_eq_none.mpr member]
    change ((m.entries.kerase k).map fun e => weight e.2).sum + 0 = total weight m
    rw [List.kerase_of_notMem_keys member]
    rfl

theorem weight_le_total (weight : V → ℕ) {k : K} {v : V} {m : KeyedMap K V}
    (found : m.lookup k = some v) : weight v ≤ total weight m := by
  have parts := total_erase weight k m
  simp only [found, Option.map_some, Option.getD_some] at parts
  omega

theorem total_eq_zero {weight : V → ℕ} {m : KeyedMap K V}
    (weightless : ∀ k v, m.lookup k = some v → weight v = 0) : total weight m = 0 := by
  refine List.sum_eq_zero_iff_forall_eq_nat.mpr fun w member => ?_
  obtain ⟨entry, there, rfl⟩ := List.mem_map.mp member
  exact weightless entry.1 entry.2 (Option.mem_def.mp (AList.mem_lookup_iff.mpr there))

theorem total_of_only (weight : V → ℕ) {k : K} {v : V} {m : KeyedMap K V}
    (found : m.lookup k = some v)
    (others : ∀ k' v', k' ≠ k → m.lookup k' = some v' → weight v' = 0) :
    total weight m = weight v := by
  have parts := total_erase weight k m
  have rest : total weight (m.erase k) = 0 := by
    refine total_eq_zero fun k' v' there => ?_
    rw [lookup_erase_eq] at there
    split at there
    next => cases there
    next apart => exact others k' v' apart there
  simp only [found, Option.map_some, Option.getD_some] at parts
  omega

/-- Two different keys weigh at least what their values do. -/
theorem weights_le_total (weight : V → ℕ) {k k' : K} {v v' : V} {m : KeyedMap K V}
    (apart : k' ≠ k) (found : m.lookup k = some v) (found' : m.lookup k' = some v') :
    weight v + weight v' ≤ total weight m := by
  have parts := total_erase weight k m
  have still : (m.erase k).lookup k' = some v' := by rw [lookup_erase_eq, if_neg apart, found']
  have rest := weight_le_total weight still
  simp only [found, Option.map_some, Option.getD_some] at parts
  omega

theorem total_insert (weight : V → ℕ) (k : K) (v : V) (m : KeyedMap K V) :
    total weight (m.insert k v) = weight v + total weight (m.erase k) := rfl

theorem len_insert_le (k : K) (v : V) (m : KeyedMap K V) : len (m.insert k v) ≤ len m + 1 :=
  Nat.succ_le_succ (List.kerase_sublist k m.entries).length_le

theorem len_insert_of_mem {k : K} (v : V) {m : KeyedMap K V} (member : k ∈ m) :
    len (m.insert k v) = len m := by
  obtain ⟨_, before, after, _, entries, erased⟩ := List.exists_of_kerase (AList.mem_keys.mp member)
  change (m.entries.kerase k).length + 1 = m.entries.length
  rw [erased, entries]
  simp only [List.length_append, List.length_cons]
  omega

theorem len_erase_le (k : K) (m : KeyedMap K V) : len (m.erase k) ≤ len m :=
  (List.kerase_sublist k m.entries).length_le

/-! ### Inserting a list -/

section
variable {α : Type*} (key : α → K) (value : α → V)

def insertAll (items : List α) (m : KeyedMap K V) : KeyedMap K V :=
  items.foldl (fun m item => m.insert (key item) (value item)) m

theorem lookup_insertAll_of_notMem {items : List α} {m : KeyedMap K V} {k : K}
    (absent : ∀ item ∈ items, key item ≠ k) : (insertAll key value items m).lookup k = m.lookup k := by
  unfold insertAll
  induction items generalizing m with
  | nil => rfl
  | cons item items hypothesis =>
      rw [List.foldl_cons, hypothesis fun item member => absent item (List.mem_cons_of_mem _ member),
        lookup_insert_eq, if_neg fun same => absent item List.mem_cons_self same.symm]

theorem lookup_insertAll_of_mem {items : List α} {m : KeyedMap K V} {item : α} (member : item ∈ items)
    (distinct : (items.map key).Nodup) :
    (insertAll key value items m).lookup (key item) = some (value item) := by
  induction items generalizing m with
  | nil => cases member
  | cons first items hypothesis =>
      rw [List.map_cons, List.nodup_cons] at distinct
      cases member with
      | head =>
          have absent : ∀ other ∈ items, key other ≠ key item := fun other later same =>
            distinct.1 (List.mem_map.mpr ⟨other, later, same⟩)
          have kept := lookup_insertAll_of_notMem key value
            (m := m.insert (key item) (value item)) absent
          exact kept.trans (AList.lookup_insert _)
      | tail _ later => exact hypothesis later distinct.2

end

end KeyedMap

end Pypiron
