import Pypiron.Deps.Least
import Pypiron.SyncRounds

/-! What a visit and a round leave in the memos. -/
namespace Pypiron.SyncRounds
open KeyedMap Deps

variable {V S : Type} {pep : Pep440 V S} {isPrivate : String → Bool} {roots : List (PackageSpec S)}
  {complete stored : KeyedMap String DepsMemo} {name version : String} {want : Want}

/-! ### One project -/

/-- All of a memo is what a selection has. -/
def Within (memo selected : DepsMemo) : Prop :=
  ∀ version texts, memo.lookup version = some texts → selected.lookup version = some texts

theorem records_within {memo selected : DepsMemo} {releases : List (String × List String)}
    (within : Within memo selected)
    (listed : ∀ release ∈ releases, selected.lookup release.1 = some release.2) :
    Within (releases.foldl record memo) selected := by
  induction releases generalizing memo with
  | nil => exact within
  | cons release rest hypothesis =>
      apply hypothesis
      · intro version texts found
        unfold record at found
        rw [lookup_insert_eq] at found
        split at found
        next here =>
          rw [here, ← Option.some.inj found]
          exact listed release List.mem_cons_self
        next => exact within version texts found
      · exact fun release member => listed release (List.mem_cons_of_mem _ member)

theorem mem_records {memo : DepsMemo} {releases : List (String × List String)}
    (known : version ∈ memo ∨ ∃ release ∈ releases, release.1 = version) :
    version ∈ releases.foldl record memo := by
  induction releases generalizing memo with
  | nil =>
      cases known with
      | inl member => exact member
      | inr listed =>
          obtain ⟨release, member, -⟩ := listed
          cases member
  | cons release rest hypothesis =>
      apply hypothesis
      cases known with
      | inl member => exact .inl ((AList.mem_insert _).mpr (.inr member))
      | inr listed =>
          obtain ⟨release', member, same⟩ := listed
          cases member with
          | head => exact .inl ((AList.mem_insert _).mpr (.inl same.symm))
          | tail _ later => exact .inr ⟨release', later, same⟩

/-- A memo that holds no other account of a selected release becomes the selection. -/
theorem lookup_syncOnePackage {prev : DepsMemo}
    (agrees : ∀ version texts texts', prev.lookup version = some texts →
      (select pep complete name want).lookup version = some texts' → texts = texts')
    (version : String) : (syncOnePackage pep complete prev name want).lookup version =
      (select pep complete name want).lookup version := by
  unfold syncOnePackage
  dsimp only
  generalize select pep complete name want = selected at agrees ⊢
  have within : Within ((unread (keepOnly prev selected) selected).foldl record (keepOnly prev selected))
      selected := by
    apply records_within
    · intro version texts found
      unfold keepOnly at found
      rw [lookup_retain] at found
      obtain ⟨kept, listed⟩ := Option.filter_eq_some_iff.mp found
      have member : version ∈ selected := AList.mem_keys.mpr (List.contains_iff_mem.mp listed)
      obtain ⟨texts', there⟩ := lookup_of_mem member
      rw [there, agrees version texts texts' kept there]
    · intro release member
      obtain ⟨entry, listed, rfl⟩ := List.mem_map.mp member
      exact AList.mem_lookup_iff.mpr (List.mem_filter.mp listed).1
  cases there : selected.lookup version with
  | none =>
      cases found : ((unread (keepOnly prev selected) selected).foldl record
          (keepOnly prev selected)).lookup version with
      | none => rfl
      | some texts => cases there.symm.trans (within version texts found)
  | some texts =>
      have member : version ∈ (unread (keepOnly prev selected) selected).foldl record
          (keepOnly prev selected) := by
        apply mem_records
        by_cases known : version ∈ keepOnly prev selected
        · exact .inl known
        · refine .inr ⟨(version, texts), ?_, rfl⟩
          refine List.mem_map.mpr ⟨⟨version, texts⟩, List.mem_filter.mpr ⟨?_, ?_⟩, rfl⟩
          · exact AList.mem_lookup_iff.mp there
          · simpa using fun member => known (AList.mem_keys.mpr member)
      obtain ⟨texts', found⟩ := lookup_of_mem member
      have same := within version texts' found
      rw [there] at same
      rw [found, same]

theorem lookup_select {texts : List String} :
    (select pep complete name want).lookup version = some texts ↔
      (∃ memo, complete.lookup name = some memo ∧ memo.lookup version = some texts) ∧
        takes pep want version := by
  unfold select
  rw [lookup_retain, Option.filter_eq_some_iff, decide_eq_true_eq]
  cases known : complete.lookup name with
  | none =>
      simp only [Option.getD_none, reduceCtorEq, false_and, exists_false, iff_false, not_and]
      intro none
      cases none
  | some memo => simp

end Pypiron.SyncRounds
