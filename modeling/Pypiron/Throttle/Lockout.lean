import Pypiron.Throttle.Slots
import Mathlib.Data.Finset.Interval
import Mathlib.Order.Interval.Finset.Nat

/-! Lockouts over whole runs. A tracked network keeps the addresses that are
counted under it, so a lockout lasts and the failures of one address are all
charged to one window. -/
namespace Pypiron.Throttle
open KeyedMap

/-! ### Networks are nested -/

theorem keyV4_nested {a b : BitVec 32} {i j m : Fin 3}
    (same : keyV4 a (prefixesV4 i) = keyV4 b (prefixesV4 j)) (le : i ≤ m) :
    i = j ∧ keyV4 a (prefixesV4 m) = keyV4 b (prefixesV4 m) := by
  have lengths : i = j := (by decide : ∀ i j, prefixesV4 i = prefixesV4 j → i = j) i j (congrArg Prod.snd same)
  subst lengths
  have inside : BitVec.allOnes 32 <<< (32 - prefixesV4 m) =
      (BitVec.allOnes 32 <<< (32 - prefixesV4 i)) &&& (BitVec.allOnes 32 <<< (32 - prefixesV4 m)) :=
    (by decide : ∀ i m : Fin 3, i ≤ m → BitVec.allOnes 32 <<< (32 - prefixesV4 m) =
      (BitVec.allOnes 32 <<< (32 - prefixesV4 i)) &&& (BitVec.allOnes 32 <<< (32 - prefixesV4 m))) i m le
  have masked := IpAddr.v4.inj (congrArg Prod.fst same)
  refine ⟨rfl, ?_⟩
  unfold keyV4
  rw [inside, ← BitVec.and_assoc, masked, BitVec.and_assoc]

theorem keyV6_nested {a b : BitVec 128} {i j m : Fin 3}
    (same : keyV6 a (prefixesV6 i) = keyV6 b (prefixesV6 j)) (le : i ≤ m) :
    i = j ∧ keyV6 a (prefixesV6 m) = keyV6 b (prefixesV6 m) := by
  have lengths : i = j := (by decide : ∀ i j, prefixesV6 i = prefixesV6 j → i = j) i j (congrArg Prod.snd same)
  subst lengths
  have inside : BitVec.allOnes 128 <<< (128 - prefixesV6 m) =
      (BitVec.allOnes 128 <<< (128 - prefixesV6 i)) &&& (BitVec.allOnes 128 <<< (128 - prefixesV6 m)) :=
    (by decide : ∀ i m : Fin 3, i ≤ m → BitVec.allOnes 128 <<< (128 - prefixesV6 m) =
      (BitVec.allOnes 128 <<< (128 - prefixesV6 i)) &&& (BitVec.allOnes 128 <<< (128 - prefixesV6 m))) i m le
  have masked := IpAddr.v6.inj (congrArg Prod.fst same)
  refine ⟨rfl, ?_⟩
  unfold keyV6
  rw [inside, ← BitVec.and_assoc, masked, BitVec.and_assoc]

/-- An address has its networks all of one family. -/
theorem throttleKeys_family (ip : IpAddr) :
    (∃ bits, throttleKeys ip = fun tier => keyV4 bits (prefixesV4 tier)) ∨
    ∃ bits, throttleKeys ip = fun tier => keyV6 bits (prefixesV6 tier) := by
  cases ip with
  | v4 bits => exact .inl ⟨bits, rfl⟩
  | v6 bits =>
      cases mapped : toIpv4Mapped bits with
      | some inner => exact .inl ⟨inner, by simp only [throttleKeys, mapped]⟩
      | none => exact .inr ⟨bits, by simp only [throttleKeys, mapped]⟩

/-- Two addresses of one network share every coarser one. -/
theorem throttleKeys_nested {a b : IpAddr} {i j m : Fin 3}
    (same : throttleKeys a i = throttleKeys b j) (le : i ≤ m) :
    i = j ∧ throttleKeys a m = throttleKeys b m := by
  obtain ⟨x, hx⟩ | ⟨x, hx⟩ := throttleKeys_family a <;> obtain ⟨y, hy⟩ | ⟨y, hy⟩ := throttleKeys_family b
  · rw [hx, hy] at same ⊢
    exact keyV4_nested same le
  · rw [hx, hy] at same
    cases congrArg Prod.fst same
  · rw [hx, hy] at same
    cases congrArg Prod.fst same
  · rw [hx, hy] at same ⊢
    exact keyV6_nested same le

/-! ### The network that counts an address -/

section Counted
variable {cooldownMs nowMs : ℕ} {table : ThrottleTable} {ip : IpAddr} {guess : Option UInt64}
variable {key k : ThrottleKey} {w : FailWindow}

/-- The address is counted under the network of this tier. -/
structure CountedAt (table : ThrottleTable) (ip : IpAddr) (tier : Fin 3) : Prop where
  tracked : throttleKeys ip tier ∈ table.map
  finest : ∀ finer < tier, throttleKeys ip finer ∉ table.map

theorem CountedAt.countedUnder {tier : Fin 3} (counted : CountedAt table ip tier) :
    table.countedUnder ip = some (throttleKeys ip tier) := by
  unfold ThrottleTable.countedUnder
  have tracked := counted.tracked
  match tier with
  | 0 => simp [tracked]
  | 1 => simp [tracked, counted.finest 0 (by decide)]
  | 2 => simp [tracked, counted.finest 0 (by decide), counted.finest 1 (by decide)]

theorem countedUnder_some (found : table.countedUnder ip = some key) :
    ∃ tier, key = throttleKeys ip tier ∧ CountedAt table ip tier := by
  unfold ThrottleTable.countedUnder at found
  by_cases first : throttleKeys ip 0 ∈ table.map
  · rw [List.find?_cons_of_pos (by simp [first])] at found
    exact ⟨0, (Option.some.inj found).symm, first, fun finer below => absurd below (Nat.not_lt_zero _)⟩
  rw [List.find?_cons_of_neg (by simp [first])] at found
  by_cases second : throttleKeys ip 1 ∈ table.map
  · rw [List.find?_cons_of_pos (by simp [second])] at found
    refine ⟨1, (Option.some.inj found).symm, second, fun finer below => ?_⟩
    match finer with
    | 0 => exact first
  rw [List.find?_cons_of_neg (by simp [second])] at found
  by_cases third : throttleKeys ip 2 ∈ table.map
  · rw [List.find?_cons_of_pos (by simp [third])] at found
    refine ⟨2, (Option.some.inj found).symm, third, fun finer below => ?_⟩
    match finer with
    | 0 => exact first
    | 1 => exact second
  rw [List.find?_cons_of_neg (by simp [third])] at found
  cases found

/-- An admitted address is charged to the network that counts it. -/
theorem admitAt_counted (counted : table.countedUnder ip = some k)
    (positive : 0 < cooldownMs) (answered : (admitAt cooldownMs table ip guess nowMs).1 = .ok key) :
    key = k := by
  unfold admitAt at answered
  rw [if_neg positive.ne', counted] at answered
  dsimp only at answered
  split at answered
  · exact (Except.ok.inj answered).symm
  next w _ =>
    unfold admitTracked at answered
    split at answered
    · cases answered
    · dsimp only at answered
      split at answered
      · exact (Except.ok.inj answered).symm
      · unfold admitBudgeted at answered
        split at answered
        · cases answered
        · split at answered
          · split at answered <;> exact (Except.ok.inj answered).symm
          · split at answered <;> exact (Except.ok.inj answered).symm

/-- An admission under a tracked network touches no other. -/
theorem admitTracked_other (other : k ≠ key) :
    (admitTracked cooldownMs table key w guess nowMs).2.map.lookup k = table.map.lookup k := by
  have set (v : FailWindow) : (table.set key v).map.lookup k = table.map.lookup k := by
    rw [lookup_set, if_neg other]
  unfold admitTracked
  split
  · rfl
  · dsimp only
    split
    · exact set _
    · unfold admitBudgeted
      split
      · exact set _
      · split
        · split <;> exact set _
        · split
          · rw [lookup_remove, if_neg other]
          · exact set _

/-- A network is opened by an address that no tracked network counts. -/
theorem admitAt_opened (untracked : table.map.lookup k = none)
    (opened : (admitAt cooldownMs table ip guess nowMs).2.map.lookup k = some w) :
    (∀ tier, throttleKeys ip tier ∉ table.map) ∧ ∃ tier, k = throttleKeys ip tier := by
  unfold admitAt at opened
  split at opened
  · cases untracked.symm.trans opened
  split at opened
  next uncounted =>
    refine ⟨fun tier => AList.lookup_eq_none.mp (countedUnder_none uncounted tier), ?_⟩
    unfold admitUntracked at opened
    dsimp only at opened
    split at opened
    · cases (sweep_untracked untracked).symm.trans opened
    next key found =>
      split at opened
      · rw [lookup_set] at opened
        split at opened
        next same =>
          obtain ⟨⟨tier, rfl⟩, _⟩ := tierFor_some found
          exact ⟨tier, same⟩
        next => cases (sweep_untracked untracked).symm.trans opened
      · cases (sweep_untracked untracked).symm.trans opened
  next key counted =>
    split at opened
    · cases untracked.symm.trans opened
    next v found =>
      have other : k ≠ key := by
        rintro rfl
        cases untracked.symm.trans found
      cases untracked.symm.trans ((admitTracked_other other).symm.trans opened)

theorem releaseAt_untracked {fp : UInt64} {failed : Bool} (untracked : table.map.lookup k = none) :
    (releaseAt cooldownMs table key fp failed nowMs).map.lookup k = none := by
  unfold releaseAt
  split
  · exact untracked
  next w found =>
    have set (v : FailWindow) : (table.set key v).map.lookup k = none := by
      rw [lookup_set, if_neg, untracked]
      rintro rfl
      cases untracked.symm.trans found
    split
    · exact untracked
    · dsimp only
      split <;> exact set _

theorem len_set_tracked (tracked : key ∈ table.map) :
    (table.set key w).map.len = table.map.len := len_insert_of_mem w tracked

theorem len_sweep_le : (table.sweep cooldownMs nowMs).map.len ≤ table.map.len := by
  unfold ThrottleTable.sweep
  split
  · exact len_retain_le _ _
  · exact le_rfl

theorem admitAt_len (fits : table.map.len ≤ loginThrottleCap) :
    (admitAt cooldownMs table ip guess nowMs).2.map.len ≤ loginThrottleCap := by
  unfold admitAt
  split
  · exact fits
  split
  · unfold admitUntracked
    dsimp only
    have swept : (table.sweep cooldownMs nowMs).map.len ≤ loginThrottleCap := len_sweep_le.trans fits
    split
    · exact swept
    next key found =>
      split
      · exact (len_insert_le _ _ _).trans (tierFor_some found).2
      · exact swept
  next key counted =>
    have tracked := countedUnder_tracked counted
    have set (v : FailWindow) : (table.set key v).map.len ≤ loginThrottleCap :=
      (len_set_tracked tracked).trans_le fits
    split
    · exact fits
    · unfold admitTracked
      split
      · exact fits
      · dsimp only
        split
        · exact set _
        · unfold admitBudgeted
          split
          · exact set _
          · split
            · split <;> exact set _
            · split
              · exact (len_erase_le _ _).trans fits
              · exact set _

theorem releaseAt_len {fp : UInt64} {failed : Bool} (fits : table.map.len ≤ loginThrottleCap) :
    (releaseAt cooldownMs table key fp failed nowMs).map.len ≤ loginThrottleCap := by
  unfold releaseAt
  split
  · exact fits
  next w found =>
    have set (v : FailWindow) : (table.set key v).map.len ≤ loginThrottleCap :=
      (len_set_tracked (mem_of_lookup found)).trans_le fits
    split
    · exact fits
    · dsimp only
      split <;> exact set _

end Counted

/-! ### Whole runs -/

section Run
variable {cooldownMs : ℕ} {calls : ℕ → LoginCall} {n m : ℕ} {k key : ThrottleKey} {ip : IpAddr}
variable {w : FailWindow}

theorem logins_len (n : ℕ) : (logins cooldownMs calls n).table.map.len ≤ loginThrottleCap := by
  induction n with
  | zero => exact Nat.zero_le _
  | succ n ih =>
      rw [logins]
      generalize logins cooldownMs calls n = s at ih ⊢
      cases calls n with
      | attempt ip guess nowMs =>
          have fits : (admitAt cooldownMs s.table ip guess nowMs).2.map.len ≤ loginThrottleCap :=
            admitAt_len ih
          simp only [Logins.step]
          split
          next same => rwa [same] at fits
          next same => rwa [same] at fits
      | finish attempt failed nowMs =>
          simp only [Logins.step]
          split
          · split
            · exact releaseAt_len ih
            · exact ih
          · exact ih

/-- While a network is tracked no finer one is opened beside it. -/
theorem logins_finest {tier : Fin 3} (counted : CountedAt (logins cooldownMs calls n).table ip tier)
    (stays : throttleKeys ip tier ∈ (logins cooldownMs calls (n + 1)).table.map) :
    CountedAt (logins cooldownMs calls (n + 1)).table ip tier := by
  refine ⟨stays, fun finer below opened => ?_⟩
  have absent := AList.lookup_eq_none.mpr (counted.finest finer below)
  have tracked := counted.tracked
  obtain ⟨w, opened⟩ := lookup_of_mem opened
  rw [logins] at opened
  generalize logins cooldownMs calls n = s at absent tracked opened
  cases called : calls n with
  | attempt other guess nowMs =>
      rw [called] at opened
      have found : (admitAt cooldownMs s.table other guess nowMs).2.map.lookup (throttleKeys ip finer) =
          some w := by
        simp only [Logins.step] at opened
        split at opened
        next same => rw [same]; exact opened
        next same => rw [same]; exact opened
      obtain ⟨uncounted, tier', same⟩ := admitAt_opened absent found
      obtain ⟨rfl, coarser⟩ := throttleKeys_nested same below.le
      exact uncounted tier (coarser ▸ tracked)
  | finish attempt failed nowMs =>
      rw [called] at opened
      simp only [Logins.step] at opened
      split at opened
      · split at opened
        · cases (releaseAt_untracked absent).symm.trans opened
        · cases absent.symm.trans opened
      · cases absent.symm.trans opened

/-- A locked window is left as it is. -/
theorem FailWindow.Move.locked {nowMs : ℕ} {full : Bool} {after : Option FailWindow}
    (move : FailWindow.Move cooldownMs nowMs full (some w) after) (sound : w.Sound nowMs)
    (blocked : nowMs < w.blockedUntilMs) : after = some w := by
  cases move with
  | same => rfl
  | dropped _ dead =>
      simp only [FailWindow.live, Bool.or_eq_false_iff, decide_eq_false_iff_not] at dead
      exact absurd blocked dead.1
  | looked _ unlocked => exact absurd blocked (Nat.not_lt.mpr unlocked)
  | shared _ _ _ unlocked => exact absurd blocked (Nat.not_lt.mpr unlocked)
  | reserved _ _ _ unlocked => exact absurd blocked (Nat.not_lt.mpr unlocked)
  | released _ _ _ _ found => exact absurd blocked (Nat.not_lt.mpr (sound.unlocked found))
  | failed _ _ _ _ found => exact absurd blocked (Nat.not_lt.mpr (sound.unlocked found))

/-- A lockout stands, and counts the same addresses, until it expires. -/
theorem logins_locked (clock : Monotone fun n => (calls n).nowMs) {tier : Fin 3}
    (counted : CountedAt (logins cooldownMs calls n).table ip tier)
    (found : (logins cooldownMs calls n).table.map.lookup (throttleKeys ip tier) = some w)
    (le : n ≤ m) (blocked : (calls m).nowMs < w.blockedUntilMs) :
    CountedAt (logins cooldownMs calls m).table ip tier ∧
      (logins cooldownMs calls m).table.map.lookup (throttleKeys ip tier) = some w := by
  induction m, le using Nat.le_induction with
  | base => exact ⟨counted, found⟩
  | succ m le ih =>
      have earlier := (clock (Nat.le_succ m)).trans_lt blocked
      obtain ⟨counted, found⟩ := ih earlier
      have move : FailWindow.Move cooldownMs (calls m).nowMs (logins cooldownMs calls m).table.full
          ((logins cooldownMs calls m).table.map.lookup (throttleKeys ip tier))
          ((logins cooldownMs calls (m + 1)).table.map.lookup (throttleKeys ip tier)) := logins_move
      rw [found] at move
      have stands := move.locked (logins_sound clock m _ _ found) earlier
      exact ⟨logins_finest counted (mem_of_lookup stands), stands⟩

/-- Whoever is counted under a locked network is refused. -/
theorem admitAt_locked {nowMs : ℕ} {table : ThrottleTable} {guess : Option UInt64}
    (positive : 0 < cooldownMs) (counted : table.countedUnder ip = some k)
    (found : table.map.lookup k = some w) (blocked : nowMs < w.blockedUntilMs) :
    (admitAt cooldownMs table ip guess nowMs).1 =
      .error (divCeil (w.blockedUntilMs - nowMs) 1000) := by
  unfold admitAt
  rw [if_neg positive.ne', counted]
  dsimp only
  rw [found]
  unfold admitTracked
  dsimp only
  rw [if_pos blocked]

/-! ### Failures -/

/-- The slot that a call turns into one failed login: its last holder lets go,
and one of them was answered 401. -/
def Logins.charges (s : Logins) : LoginCall → Option (ThrottleKey × UInt64)
  | .attempt _ _ _ => none
  | .finish attempt failed _ =>
    if attempt ∈ s.attempts then do
      let fp ← attempt.guess
      let w ← s.table.map.lookup attempt.key
      let i ← w.slotOf fp
      if (w.pending i).refs = 1 ∧ ((w.pending i).failed || failed) then some (attempt.key, fp) else none
    else none

/-- A charge is one failure more in its window. -/
theorem logins_charges {fp : UInt64}
    (charged : (logins cooldownMs calls n).charges (calls n) = some (k, fp)) :
    ∃ w i failed, (logins cooldownMs calls n).table.map.lookup k = some w ∧ w.slotOf fp = some i ∧
      (w.pending i).refs = 1 ∧ (logins cooldownMs calls (n + 1)).table.map.lookup k =
        some ((w.letGo i failed).charge cooldownMs (calls n).nowMs) := by
  rw [logins]
  generalize logins cooldownMs calls n = s at charged ⊢
  cases called : calls n with
  | attempt ip guess nowMs =>
      rw [called] at charged
      cases charged
  | finish attempt failed nowMs =>
      rw [called] at charged
      obtain ⟨key, guess⟩ := attempt
      simp only [Logins.charges] at charged
      split at charged
      next member =>
        simp only [Option.bind_eq_bind, Option.bind_eq_some_iff, Option.ite_none_right_eq_some,
          Option.some.injEq, Prod.mk.injEq] at charged
        obtain ⟨wrong, rfl, w, found, i, slot, ⟨last, bad⟩, rfl, rfl⟩ := charged
        refine ⟨w, i, failed, found, slot, last, ?_⟩
        simp only [Logins.step, if_pos member, releaseAt, found, slot, LoginCall.nowMs]
        rw [if_neg, lookup_set, if_pos rfl]
        simp only [last, FailWindow.letGo, FailWindow.pending_setPending, bad]
        decide
      next => cases charged

end Run

end Pypiron.Throttle
