import Pypiron.Throttle.Budget

/-! Who holds a slot: the references of a slot are the attempts that were
admitted on its credential and have not finished. -/
namespace Pypiron.Throttle
open KeyedMap
variable {cooldownMs nowMs : ℕ} {table before : ThrottleTable} {ip : IpAddr} {guess : Option UInt64}
variable {key k : ThrottleKey} {w : FailWindow} {fp other : UInt64} {i : Fin loginFailLimit}

namespace FailWindow

theorem holders_idle (idle : w.inFlight = 0) : w.holders fp = 0 := by
  rw [← slotOf_eq_none_iff]
  cases found : w.slotOf fp with
  | none => rfl
  | some i => exact absurd idle (inFlight_pos found).ne'

theorem not_live (dead : w.live nowMs = false) : w.inFlight = 0 := by
  simp only [live, Bool.or_eq_false_iff, decide_eq_false_iff_not, Nat.not_lt, Nat.le_zero] at dead
  exact dead.2

theorem holders_decay : (w.decay cooldownMs nowMs).holders fp = w.holders fp := weigh_decay _

theorem holders_charge : (w.charge cooldownMs nowMs).holders fp = w.holders fp := weigh_charge _

end FailWindow

namespace ThrottleTable

/-- How many attempts hold the slot of a credential under a network. -/
def holders (table : ThrottleTable) (k : ThrottleKey) (fp : UInt64) : ℕ :=
  ((table.map.lookup k).map (·.holders fp)).getD 0

theorem holders_some (found : table.map.lookup k = some w) : table.holders k fp = w.holders fp := by
  rw [holders, found]
  rfl

theorem holders_none (untracked : table.map.lookup k = none) : table.holders k fp = 0 := by
  rw [holders, untracked]
  rfl

theorem holders_set : (table.set key w).holders k fp =
    if k = key then w.holders fp else table.holders k fp := by
  unfold holders
  rw [lookup_set]
  split <;> rfl

theorem holders_set_same (found : ∀ fp, w.holders fp = table.holders key fp) :
    (table.set key w).holders k fp = table.holders k fp := by
  rw [holders_set]
  split
  next same => rw [same, found]
  next => rfl

theorem holders_remove (idle : ∀ fp, table.holders key fp = 0) :
    (table.remove key).holders k fp = table.holders k fp := by
  by_cases mine : k = key
  · rw [mine, idle, holders_none]
    rw [lookup_remove, if_pos rfl]
  · unfold holders
    rw [lookup_remove, if_neg mine]

theorem holders_sweep : (table.sweep cooldownMs nowMs).holders k fp = table.holders k fp := by
  unfold sweep
  split
  · unfold holders
    dsimp only
    rw [lookup_retain]
    cases held : table.map.lookup k with
    | none => rfl
    | some w =>
        rw [Option.filter_some]
        split
        next => rfl
        next shed =>
          simp only [sweepKeeps, Bool.or_eq_true, not_or, Bool.not_eq_true] at shed
          exact (FailWindow.holders_idle (FailWindow.not_live shed.1)).symm
  · rfl

end ThrottleTable

/-! ### Admissions -/

/-- An admitted guess holds its slot once more, and nothing else changes hands. -/
def Takes (before after : ThrottleTable) (guess : Option UInt64) : Admission → Prop
  | .ok key => ∀ k fp, after.holders k fp = before.holders k fp +
      if (⟨key, guess⟩ : LoginAttempt) = ⟨k, some fp⟩ then 1 else 0
  | .error _ => ∀ k fp, after.holders k fp = before.holders k fp

theorem takes_nothing {after : ThrottleTable} (answer : Admission)
    (same : ∀ k fp, after.holders k fp = before.holders k fp) : Takes before after none answer := by
  cases answer with
  | error => exact same
  | ok key => exact fun k fp => by rw [same, if_neg nofun, Nat.add_zero]

theorem takes_slot (same : ∀ k fp, table.holders k fp = before.holders k fp)
    (taken : ∀ other, w.holders other = before.holders key other + if fp = other then 1 else 0) :
    Takes before (table.set key w) (some fp) (.ok key) := by
  intro k other
  rw [ThrottleTable.holders_set]
  by_cases mine : k = key
  · rw [mine, if_pos rfl, taken]
    simp
  · rw [if_neg mine, same, if_neg fun both => mine (congrArg LoginAttempt.key both).symm,
      Nat.add_zero]

theorem admitUntracked_takes (untracked : table.countedUnder ip = none) :
    Takes table (admitUntracked cooldownMs table (throttleKeys ip) guess nowMs).2 guess
      (admitUntracked cooldownMs table (throttleKeys ip) guess nowMs).1 := by
  unfold admitUntracked
  dsimp only
  split
  · exact fun k fp => ThrottleTable.holders_sweep
  next key found =>
    split
    next fp =>
      obtain ⟨⟨tier, rfl⟩, _⟩ := tierFor_some found
      refine takes_slot (fun k fp => ThrottleTable.holders_sweep) fun other => ?_
      rw [FailWindow.holders_reserve rfl, FailWindow.holders_idle FailWindow.empty_inFlight,
        ThrottleTable.holders_none (countedUnder_none untracked tier)]
    next => exact takes_nothing _ fun k fp => ThrottleTable.holders_sweep

theorem admitBudgeted_takes {decayed : Bool} (found : ∀ fp, w.holders fp = table.holders key fp) :
    Takes table (admitBudgeted table key w decayed guess nowMs).2 guess
      (admitBudgeted table key w decayed guess nowMs).1 := by
  unfold admitBudgeted
  split
  · exact fun k fp => ThrottleTable.holders_set_same found
  next room =>
    split
    next fp =>
      split
      next i free =>
        refine takes_slot (fun k fp => rfl) fun other => ?_
        rw [FailWindow.holders_reserve (FailWindow.freeSlot_some free), found]
      next none =>
        -- a budget with room has a free slot
        have := FailWindow.freeSlot_none none
        omega
    next =>
      split
      next idle =>
        rw [Bool.and_eq_true, Bool.not_eq_true'] at idle
        refine takes_nothing _ fun k fp => ThrottleTable.holders_remove fun fp => ?_
        rw [← found, FailWindow.holders_idle (FailWindow.not_live idle.2)]
      next => exact takes_nothing _ fun k fp => ThrottleTable.holders_set_same found

theorem admitTracked_takes (found : table.map.lookup key = some w) :
    Takes table (admitTracked cooldownMs table key w guess nowMs).2 guess
      (admitTracked cooldownMs table key w guess nowMs).1 := by
  unfold admitTracked
  have holds (fp : UInt64) : (w.decay cooldownMs nowMs).holders fp = table.holders key fp := by
    rw [FailWindow.holders_decay, ThrottleTable.holders_some found]
  split
  · exact fun k fp => rfl
  · dsimp only
    split
    next i shared =>
      obtain ⟨fp, rfl, slot⟩ := Option.bind_eq_some_iff.mp shared
      refine takes_slot (fun k fp => rfl) fun other => ?_
      rw [FailWindow.holders_share slot, holds]
    next => exact admitBudgeted_takes holds

theorem countedUnder_tracked (found : table.countedUnder ip = some key) : key ∈ table.map := by
  have := List.find?_some found
  exact of_decide_eq_true this

theorem admitAt_takes (positive : 0 < cooldownMs) :
    Takes table (admitAt cooldownMs table ip guess nowMs).2 guess
      (admitAt cooldownMs table ip guess nowMs).1 := by
  unfold admitAt
  rw [if_neg positive.ne']
  split
  next untracked => exact admitUntracked_takes untracked
  next key tracked =>
    split
    next untracked =>
      exact absurd (countedUnder_tracked tracked) (AList.lookup_eq_none.mp untracked)
    next w found => exact admitTracked_takes found

/-! ### Releases -/

theorem releaseAt_gives {failed : Bool} (held : 0 < table.holders key fp) (k : ThrottleKey)
    (other : UInt64) : (releaseAt cooldownMs table key fp failed nowMs).holders k other +
      (if (⟨k, some other⟩ : LoginAttempt) = ⟨key, some fp⟩ then 1 else 0) = table.holders k other := by
  unfold releaseAt
  split
  next untracked =>
    rw [ThrottleTable.holders_none untracked] at held
    exact absurd held (Nat.lt_irrefl 0)
  next w found =>
    rw [ThrottleTable.holders_some found] at held
    split
    next absent => exact absurd (FailWindow.slotOf_eq_none_iff.mp absent) held.ne'
    next i slot =>
      have given (v : FailWindow) (same : ∀ fp, v.holders fp = (w.letGo i failed).holders fp) :
          (table.set key v).holders k other +
            (if (⟨k, some other⟩ : LoginAttempt) = ⟨key, some fp⟩ then 1 else 0) =
          table.holders k other := by
        rw [ThrottleTable.holders_set]
        by_cases mine : k = key
        · have := FailWindow.holders_letGo failed other slot
          rw [mine, if_pos rfl, same, ThrottleTable.holders_some found, ← this]
          simp [eq_comm]
        · rw [if_neg mine, if_neg fun both => mine (congrArg LoginAttempt.key both), Nat.add_zero]
      dsimp only
      split
      · exact given _ fun fp => rfl
      · exact given _ fun fp => FailWindow.holders_charge

/-! ### Whole runs -/

section Run
variable {calls : ℕ → LoginCall} {n : ℕ}

/-- The references of a slot are the unfinished attempts on its credential. -/
theorem logins_holders (positive : 0 < cooldownMs) (n : ℕ) : ∀ k fp,
    (logins cooldownMs calls n).table.holders k fp =
      (logins cooldownMs calls n).attempts.count ⟨k, some fp⟩ := by
  induction n with
  | zero => exact fun k fp => rfl
  | succ n ih =>
      intro k fp
      rw [logins]
      generalize logins cooldownMs calls n = s at ih ⊢
      cases calls n with
      | attempt ip guess nowMs =>
          have takes : Takes s.table (admitAt cooldownMs s.table ip guess nowMs).2 guess
            (admitAt cooldownMs s.table ip guess nowMs).1 := admitAt_takes positive
          simp only [Logins.step]
          split
          next key table same =>
            rw [same] at takes
            dsimp only
            rw [takes k fp, ih, List.count_cons]
            simp
          next error table same =>
            rw [same] at takes
            dsimp only
            rw [takes k fp, ih]
      | finish attempt failed nowMs =>
          simp only [Logins.step]
          split
          next member =>
            split
            next wrong same =>
              obtain ⟨key, guess⟩ := attempt
              dsimp only at same ⊢
              subst same
              have held : 0 < s.table.holders key wrong := by
                rw [ih]
                exact List.count_pos_iff.mpr member
              have gives : (releaseAt cooldownMs s.table key wrong failed nowMs).holders k fp +
                (if (⟨k, some fp⟩ : LoginAttempt) = ⟨key, some wrong⟩ then 1 else 0) =
                s.table.holders k fp := releaseAt_gives held k fp
              rw [ih] at gives
              rw [List.count_erase, ← gives]
              by_cases mine : (⟨k, some fp⟩ : LoginAttempt) = ⟨key, some wrong⟩
              · simp [mine]
              · simp [mine, Ne.symm mine]
            next right =>
              dsimp only
              rw [ih, List.count_erase_of_ne]
              rintro rfl
              cases right
          next => exact ih k fp

/-- A slot counts no more references than there are unfinished attempts. -/
theorem logins_refs_le (positive : 0 < cooldownMs) (n : ℕ)
    (found : (logins cooldownMs calls n).table.map.lookup k = some w) (i : Fin loginFailLimit) :
    (w.pending i).refs ≤ (logins cooldownMs calls n).attempts.length := by
  have own : (w.pending i).refs ≤ w.holders (w.pending i).fp := by
    have slot := Finset.single_le_sum (fun j _ => Nat.zero_le _) (Finset.mem_univ i)
      (f := fun j => if (w.pending j).fp = (w.pending i).fp then (w.pending j).refs else 0)
    rwa [if_pos rfl] at slot
  rw [← ThrottleTable.holders_some found, logins_holders positive] at own
  exact own.trans List.count_le_length

/-- The slot of a wrong attempt stays until the attempt finishes. -/
theorem logins_slot_stays (positive : 0 < cooldownMs) {attempt : LoginAttempt}
    (member : attempt ∈ (logins cooldownMs calls n).attempts) (wrong : attempt.guess = some fp) :
    ∃ w, (logins cooldownMs calls n).table.map.lookup attempt.key = some w ∧
      (w.slotOf fp).isSome := by
  have held : 0 < (logins cooldownMs calls n).table.holders attempt.key fp := by
    rw [logins_holders positive, ← wrong]
    exact List.count_pos_iff.mpr member
  unfold ThrottleTable.holders at held
  cases found : (logins cooldownMs calls n).table.map.lookup attempt.key with
  | none =>
      rw [found] at held
      exact absurd held (Nat.lt_irrefl 0)
  | some w =>
      rw [found] at held
      exact ⟨w, rfl, FailWindow.slotOf_isSome_iff.mpr held⟩

end Run

end Pypiron.Throttle
