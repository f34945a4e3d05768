import Pypiron.Throttle
import Mathlib.Algebra.BigOperators.Fin
import Mathlib.Algebra.Order.BigOperators.Group.Finset

/-! The budget of a network: the failures counted and the slots in flight never
exceed the limit, and a slot stays for as long as an attempt holds it. -/
namespace Pypiron.Throttle
open KeyedMap

namespace FailWindow
variable {w : FailWindow} {i : Fin loginFailLimit} {fp other : UInt64} {failed : Bool}
variable {cooldownMs nowMs : ℕ}

/-! ### Slots -/

/-- A sum over the slots. -/
def weigh (w : FailWindow) (weight : Pending → ℕ) : ℕ := ∑ i, weight (w.pending i)

/-- How many attempts hold the slot of a credential. -/
def holders (w : FailWindow) (fp : UInt64) : ℕ := w.weigh fun p => if p.fp = fp then p.refs else 0

theorem inFlight_eq_weigh (w : FailWindow) : w.inFlight = w.weigh fun p => if 0 < p.refs then 1 else 0 :=
  Finset.card_filter _ _

@[simp] theorem pending_setPending (w : FailWindow) (i : Fin loginFailLimit) (p : Pending) :
    (w.setPending i p).pending i = p := Function.update_self _ _ _

theorem pending_setPending_of_ne {j : Fin loginFailLimit} (other : j ≠ i) (p : Pending) :
    (w.setPending i p).pending j = w.pending j := Function.update_of_ne other _ _

theorem weigh_setPending (w : FailWindow) (i : Fin loginFailLimit) (p : Pending) (weight : Pending → ℕ) :
    (w.setPending i p).weigh weight + weight (w.pending i) = w.weigh weight + weight p := by
  have parts (v : FailWindow) := Finset.add_sum_erase Finset.univ (fun j => weight (v.pending j))
    (Finset.mem_univ i)
  have others : ∑ j ∈ Finset.univ.erase i, weight ((w.setPending i p).pending j) =
      ∑ j ∈ Finset.univ.erase i, weight (w.pending j) := by
    refine Finset.sum_congr rfl fun j member => ?_
    rw [pending_setPending_of_ne (Finset.ne_of_mem_erase member)]
  unfold weigh
  rw [← parts, ← parts w, others, pending_setPending]
  omega

@[simp] theorem weigh_decay (weight : Pending → ℕ) :
    (w.decay cooldownMs nowMs).weigh weight = w.weigh weight := by
  unfold decay
  split <;> rfl

@[simp] theorem weigh_charge (weight : Pending → ℕ) :
    (w.charge cooldownMs nowMs).weigh weight = w.weigh weight := by
  unfold charge
  dsimp only
  split <;> rfl

theorem slotOf_some (found : w.slotOf fp = some i) :
    0 < (w.pending i).refs ∧ (w.pending i).fp = fp := by
  simpa using Fin.eq_true_of_find?_eq_some found

theorem slotOf_none (absent : w.slotOf fp = none) (i : Fin loginFailLimit)
    (held : 0 < (w.pending i).refs) : (w.pending i).fp ≠ fp := by
  have := Fin.eq_false_of_find?_eq_none absent i
  simp only [Bool.and_eq_false_iff, decide_eq_false_iff_not] at this
  exact this.resolve_left (not_not.mpr held)

theorem freeSlot_some (found : w.freeSlot = some i) : (w.pending i).refs = 0 := by
  simpa using Fin.eq_true_of_find?_eq_some found

theorem freeSlot_none (absent : w.freeSlot = none) : w.inFlight = loginFailLimit := by
  have all (i : Fin loginFailLimit) : 0 < (w.pending i).refs := by
    have := Fin.eq_false_of_find?_eq_none absent i
    simp only [decide_eq_false_iff_not] at this
    omega
  unfold inFlight occupied
  rw [Finset.filter_true_of_mem fun i _ => all i, Finset.card_univ, Fintype.card_fin]

theorem slotOf_isSome_iff : (w.slotOf fp).isSome ↔ 0 < w.holders fp := by
  rw [slotOf, Fin.isSome_find?_iff, holders, weigh, Finset.sum_pos_iff]
  constructor
  · rintro ⟨i, found⟩
    simp only [Bool.and_eq_true, decide_eq_true_eq] at found
    exact ⟨i, Finset.mem_univ i, by rw [if_pos found.2]; exact found.1⟩
  · rintro ⟨i, _, held⟩
    split at held
    next same => exact ⟨i, by simp [held, same]⟩
    next => exact absurd held (Nat.lt_irrefl 0)

theorem slotOf_eq_none_iff : w.slotOf fp = none ↔ w.holders fp = 0 := by
  rw [← Option.not_isSome_iff_eq_none, slotOf_isSome_iff, Nat.not_lt, Nat.le_zero]

theorem holders_reserve (free : (w.pending i).refs = 0) :
    (w.reserve i fp).holders other = w.holders other + if fp = other then 1 else 0 := by
  have := w.weigh_setPending i ⟨fp, 1, false⟩ fun p => if p.fp = other then p.refs else 0
  simp only [free, ite_self, Nat.add_zero] at this
  exact this

theorem inFlight_reserve (free : (w.pending i).refs = 0) :
    (w.reserve i fp).inFlight = w.inFlight + 1 := by
  have := w.weigh_setPending i ⟨fp, 1, false⟩ fun p => if 0 < p.refs then 1 else 0
  simp only [free, Nat.lt_irrefl, if_false, Nat.add_zero, Nat.zero_lt_one, if_true] at this
  rw [inFlight_eq_weigh, inFlight_eq_weigh]
  exact this

theorem holders_share (found : w.slotOf fp = some i) :
    (w.share i).holders other = w.holders other + if fp = other then 1 else 0 := by
  have ⟨_, same⟩ := slotOf_some found
  have := w.weigh_setPending i ⟨(w.pending i).fp, (w.pending i).refs + 1, (w.pending i).failed⟩
    fun p => if p.fp = other then p.refs else 0
  simp only [same] at this
  unfold holders share
  rw [same]
  by_cases mine : fp = other
  · rw [if_pos mine, if_pos mine] at this
    rw [if_pos mine]
    omega
  · rw [if_neg mine, if_neg mine] at this
    rw [if_neg mine]
    exact this

theorem inFlight_share (found : w.slotOf fp = some i) : (w.share i).inFlight = w.inFlight := by
  have ⟨held, _⟩ := slotOf_some found
  have := w.weigh_setPending i ⟨(w.pending i).fp, (w.pending i).refs + 1, (w.pending i).failed⟩
    fun p => if 0 < p.refs then 1 else 0
  simp only [held, Nat.zero_lt_succ, if_true] at this
  rw [inFlight_eq_weigh, inFlight_eq_weigh]
  exact Nat.add_right_cancel this

theorem holders_letGo (failed : Bool) (other : UInt64) (found : w.slotOf fp = some i) :
    (w.letGo i failed).holders other + (if fp = other then 1 else 0) = w.holders other := by
  have ⟨held, same⟩ := slotOf_some found
  have := w.weigh_setPending i
    ⟨(w.pending i).fp, (w.pending i).refs - 1, (w.pending i).failed || failed⟩ fun p =>
      if p.fp = other then p.refs else 0
  simp only [same] at this
  unfold holders letGo
  rw [same]
  by_cases mine : fp = other
  · rw [if_pos mine, if_pos mine] at this
    rw [if_pos mine]
    omega
  · rw [if_neg mine, if_neg mine] at this
    rw [if_neg mine]
    exact this

theorem inFlight_letGo (failed : Bool) (found : w.slotOf fp = some i) :
    (w.letGo i failed).inFlight + (if (w.pending i).refs = 1 then 1 else 0) = w.inFlight := by
  have ⟨held, _⟩ := slotOf_some found
  have := w.weigh_setPending i
    ⟨(w.pending i).fp, (w.pending i).refs - 1, (w.pending i).failed || failed⟩ fun p =>
      if 0 < p.refs then 1 else 0
  rw [inFlight_eq_weigh, inFlight_eq_weigh, letGo]
  simp only [held, if_true] at this
  split at this <;> split <;> omega

@[simp] theorem count_letGo : (w.letGo i failed).count = w.count := rfl

theorem refs_letGo : ((w.letGo i failed).pending i).refs = (w.pending i).refs - 1 := by
  rw [letGo, pending_setPending]

theorem count_decay_le (w : FailWindow) (cooldownMs nowMs : ℕ) :
    (w.decay cooldownMs nowMs).count ≤ w.count := by
  unfold decay
  split
  · exact Nat.zero_le _
  · exact le_rfl

/-- What holds of every tracked window: the budget, and that a lockout has
nothing in flight. -/
structure Sound (w : FailWindow) (nowMs : ℕ) : Prop where
  budget : w.count + w.inFlight ≤ loginFailLimit
  idle : nowMs < w.blockedUntilMs → w.inFlight = 0

/-- What one call does to the window of one network. A window is looked at when
its lockout is over, and is dropped when it is idle and its history is forgiven,
or the map is full. -/
inductive Move (cooldownMs nowMs : ℕ) (full : Bool) : Option FailWindow → Option FailWindow → Prop where
  | same (held : Option FailWindow) : Move cooldownMs nowMs full held held
  | dropped (w : FailWindow) : w.live nowMs = false → w.decayed cooldownMs nowMs ∨ full →
      Move cooldownMs nowMs full (some w) none
  | looked (w : FailWindow) : w.blockedUntilMs ≤ nowMs →
      Move cooldownMs nowMs full (some w) (some (w.decay cooldownMs nowMs))
  | shared (w : FailWindow) (fp : UInt64) (i : Fin loginFailLimit) : w.blockedUntilMs ≤ nowMs →
      (w.decay cooldownMs nowMs).slotOf fp = some i →
      Move cooldownMs nowMs full (some w) (some ((w.decay cooldownMs nowMs).share i))
  | reserved (w : FailWindow) (fp : UInt64) (i : Fin loginFailLimit) : w.blockedUntilMs ≤ nowMs →
      (w.decay cooldownMs nowMs).count + (w.decay cooldownMs nowMs).inFlight < loginFailLimit →
      ((w.decay cooldownMs nowMs).pending i).refs = 0 →
      Move cooldownMs nowMs full (some w) (some ((w.decay cooldownMs nowMs).reserve i fp))
  | opened (fp : UInt64) : Move cooldownMs nowMs full none (some (empty.reserve 0 fp))
  | released (w : FailWindow) (fp : UInt64) (i : Fin loginFailLimit) (failed : Bool) :
      w.slotOf fp = some i → Move cooldownMs nowMs full (some w) (some (w.letGo i failed))
  | failed (w : FailWindow) (fp : UInt64) (i : Fin loginFailLimit) (failed : Bool) :
      w.slotOf fp = some i → (w.pending i).refs = 1 →
      Move cooldownMs nowMs full (some w) (some ((w.letGo i failed).charge cooldownMs nowMs))

theorem decay_blocked : (w.decay cooldownMs nowMs).blockedUntilMs = w.blockedUntilMs := by
  unfold decay
  split <;> rfl

@[simp] theorem inFlight_decay : (w.decay cooldownMs nowMs).inFlight = w.inFlight := by
  rw [inFlight_eq_weigh, inFlight_eq_weigh, weigh_decay]

@[simp] theorem inFlight_charge : (w.charge cooldownMs nowMs).inFlight = w.inFlight := by
  rw [inFlight_eq_weigh, inFlight_eq_weigh, weigh_charge]

theorem Sound.later {later : ℕ} (sound : w.Sound nowMs) (le : nowMs ≤ later) : w.Sound later :=
  ⟨sound.budget, fun blocked => sound.idle (le.trans_lt blocked)⟩

theorem inFlight_pos (found : w.slotOf fp = some i) : 0 < w.inFlight :=
  Finset.card_pos.mpr ⟨i, Finset.mem_filter.mpr ⟨Finset.mem_univ i, (slotOf_some found).1⟩⟩

/-- A slot is held outside lockouts only. -/
theorem Sound.unlocked (sound : w.Sound nowMs) (found : w.slotOf fp = some i) :
    w.blockedUntilMs ≤ nowMs := by
  by_contra locked
  exact absurd (sound.idle (Nat.not_le.mp locked)) (inFlight_pos found).ne'

theorem Sound.decay (sound : w.Sound nowMs) : (w.decay cooldownMs nowMs).Sound nowMs where
  budget := by
    have := count_decay_le w cooldownMs nowMs
    have := sound.budget
    rw [inFlight_decay]
    omega
  idle := by
    rw [decay_blocked, inFlight_decay]
    exact sound.idle

theorem Sound.letGo (sound : w.Sound nowMs) (found : w.slotOf fp = some i) :
    (w.letGo i failed).Sound nowMs where
  budget := by
    have := inFlight_letGo failed found
    have := sound.budget
    rw [count_letGo]
    omega
  idle blocked := by
    have := sound.unlocked found
    exact absurd blocked (Nat.not_lt.mpr this)

theorem empty_inFlight : empty.inFlight = 0 := by decide

/-- The failure that fills the budget leaves nothing in flight. -/
theorem Sound.charge (sound : w.Sound nowMs) (found : w.slotOf fp = some i)
    (last : (w.pending i).refs = 1) :
    ((w.letGo i failed).charge cooldownMs nowMs).Sound nowMs := by
  have freed := inFlight_letGo failed found
  rw [if_pos last] at freed
  have counted := count_decay_le (w.letGo i failed) cooldownMs nowMs
  rw [count_letGo] at counted
  have budget := sound.budget
  have unlocked := sound.unlocked found
  constructor
  · rw [inFlight_charge]
    unfold FailWindow.charge
    dsimp only
    split
    · dsimp only
      omega
    · dsimp only
      omega
  · rw [inFlight_charge]
    unfold FailWindow.charge
    dsimp only
    split
    next spent => exact fun _ => by omega
    next => exact fun blocked => absurd blocked (Nat.not_lt.mpr unlocked)

/-- No call exceeds the budget of a network. -/
theorem Move.sound {full : Bool} {before after : Option FailWindow}
    (move : Move cooldownMs nowMs full before after)
    (sound : ∀ w, before = some w → w.Sound nowMs) : ∀ w, after = some w → w.Sound nowMs := by
  intro v stands
  cases move with
  | same => exact sound v stands
  | dropped => cases stands
  | looked w unlocked =>
      cases stands
      exact (sound w rfl).decay
  | shared w fp i unlocked found =>
      cases stands
      have decayed : (w.decay cooldownMs nowMs).Sound nowMs := (sound w rfl).decay
      refine ⟨?_, fun blocked => absurd blocked (Nat.not_lt.mpr ?_)⟩
      · rw [inFlight_share found]
        exact decayed.budget
      · exact decay_blocked.trans_le unlocked
  | reserved w fp i unlocked room free =>
      cases stands
      refine ⟨?_, fun blocked => absurd blocked (Nat.not_lt.mpr ?_)⟩
      · rw [inFlight_reserve free]
        exact room
      · exact decay_blocked.trans_le unlocked
  | opened fp =>
      cases stands
      refine ⟨?_, fun blocked => absurd blocked (Nat.not_lt_zero nowMs)⟩
      rw [inFlight_reserve rfl, empty_inFlight]
      exact Nat.le_add_left 1 4
  | released w fp i failed found =>
      cases stands
      exact (sound w rfl).letGo found
  | failed w fp i failed found last =>
      cases stands
      exact (sound w rfl).charge found last

end FailWindow

/-! ### One call -/

section Step
variable {cooldownMs nowMs : ℕ} {table : ThrottleTable} {ip : IpAddr} {guess : Option UInt64}
variable {key k : ThrottleKey} {w : FailWindow}

theorem countedUnder_none (untracked : table.countedUnder ip = none) (tier : Fin 3) :
    table.map.lookup (throttleKeys ip tier) = none := by
  have member : throttleKeys ip tier ∈ [throttleKeys ip 0, throttleKeys ip 1, throttleKeys ip 2] := by
    match tier with
    | 0 | 1 | 2 => simp
  rw [AList.lookup_eq_none]
  exact fun tracked => List.find?_eq_none.mp untracked _ member (decide_eq_true tracked)

theorem tierFor_some {keys : Fin 3 → ThrottleKey} (found : table.tierFor keys = some key) :
    (∃ tier, key = keys tier) ∧ table.map.len < loginThrottleCap := by
  unfold ThrottleTable.tierFor at found
  have below : table.map.len * 4 / loginThrottleCap < 4 → table.map.len < loginThrottleCap := by
    unfold loginThrottleCap
    omega
  split at found
  next none => exact ⟨⟨0, (Option.some.inj found).symm⟩, below (by omega)⟩
  next one => exact ⟨⟨0, (Option.some.inj found).symm⟩, below (by omega)⟩
  next two => exact ⟨⟨1, (Option.some.inj found).symm⟩, below (by omega)⟩
  next three => exact ⟨⟨2, (Option.some.inj found).symm⟩, below (by omega)⟩
  next => cases found

@[simp] theorem lookup_set : (table.set key w).map.lookup k =
    if k = key then some w else table.map.lookup k := lookup_insert_eq key k w table.map

@[simp] theorem lookup_remove : (table.remove key).map.lookup k =
    if k = key then none else table.map.lookup k := lookup_erase_eq key k table.map

/-- A write to one network moves that network only. -/
theorem move_set {full : Bool} {before after : Option FailWindow} (found : table.map.lookup key = before)
    (move : FailWindow.Move cooldownMs nowMs full before after) :
    FailWindow.Move cooldownMs nowMs full (table.map.lookup k)
      (if k = key then after else table.map.lookup k) := by
  split
  next same =>
    rw [same, found]
    exact move
  next => exact .same _

theorem sweep_move : FailWindow.Move cooldownMs nowMs table.full (table.map.lookup k)
    ((table.sweep cooldownMs nowMs).map.lookup k) := by
  unfold ThrottleTable.sweep
  split
  · dsimp only
    rw [lookup_retain]
    cases held : table.map.lookup k with
    | none => exact .same none
    | some w =>
        rw [Option.filter_some]
        split
        next => exact .same (some w)
        next shed =>
          simp only [ThrottleTable.sweepKeeps, Bool.or_eq_true, not_or, Bool.not_eq_true,
            Bool.and_eq_false_iff, Bool.not_eq_false'] at shed
          exact .dropped w shed.1 (Or.symm shed.2)
  · exact .same _

theorem sweep_untracked (untracked : table.map.lookup k = none) :
    (table.sweep cooldownMs nowMs).map.lookup k = none := by
  unfold ThrottleTable.sweep
  split
  · dsimp only
    rw [lookup_retain, untracked]
    rfl
  · exact untracked

theorem admitUntracked_move (untracked : table.countedUnder ip = none) :
    FailWindow.Move cooldownMs nowMs table.full (table.map.lookup k)
      ((admitUntracked cooldownMs table (throttleKeys ip) guess nowMs).2.map.lookup k) := by
  unfold admitUntracked
  dsimp only
  split
  · exact sweep_move
  next key tier =>
    split
    next fp =>
      obtain ⟨⟨tier, rfl⟩, _⟩ := tierFor_some tier
      rw [lookup_set]
      split
      next same =>
        rw [same, countedUnder_none untracked]
        exact .opened fp
      next => exact sweep_move
    next => exact sweep_move

theorem admitBudgeted_move {full : Bool} (found : table.map.lookup key = some w)
    (unlocked : w.blockedUntilMs ≤ nowMs) :
    FailWindow.Move cooldownMs nowMs full (table.map.lookup k)
      ((admitBudgeted table key (w.decay cooldownMs nowMs) (w.decayed cooldownMs nowMs) guess
        nowMs).2.map.lookup k) := by
  unfold admitBudgeted
  split
  · rw [lookup_set]
    exact move_set found (.looked w unlocked)
  next room =>
    split
    next fp =>
      split
      next i free =>
        rw [lookup_set]
        exact move_set found (.reserved w fp i unlocked (Nat.not_le.mp room)
          (FailWindow.freeSlot_some free))
      next =>
        rw [lookup_set]
        exact move_set found (.looked w unlocked)
    next =>
      split
      next idle =>
        rw [Bool.and_eq_true, Bool.not_eq_true'] at idle
        rw [lookup_remove]
        refine move_set found (.dropped w ?_ (.inl idle.1))
        unfold FailWindow.live at idle ⊢
        rw [FailWindow.decay_blocked, FailWindow.inFlight_decay] at idle
        exact idle.2
      next =>
        rw [lookup_set]
        exact move_set found (.looked w unlocked)

theorem admitTracked_move {full : Bool} (found : table.map.lookup key = some w) :
    FailWindow.Move cooldownMs nowMs full (table.map.lookup k)
      ((admitTracked cooldownMs table key w guess nowMs).2.map.lookup k) := by
  unfold admitTracked
  split
  · exact .same _
  next unlocked =>
    rw [Nat.not_lt] at unlocked
    dsimp only
    split
    next i shared =>
      obtain ⟨fp, _, holds⟩ := Option.bind_eq_some_iff.mp shared
      rw [lookup_set]
      exact move_set found (.shared w fp i unlocked holds)
    next => exact admitBudgeted_move found unlocked

/-- What an admission does to each network. -/
theorem admitAt_move : FailWindow.Move cooldownMs nowMs table.full (table.map.lookup k)
    ((admitAt cooldownMs table ip guess nowMs).2.map.lookup k) := by
  unfold admitAt
  split
  · exact .same _
  · split
    next untracked => exact admitUntracked_move untracked
    next key _ =>
      split
      · exact .same _
      next w found => exact admitTracked_move found

/-- What a release does to each network. -/
theorem releaseAt_move {fp : UInt64} {failed full : Bool} :
    FailWindow.Move cooldownMs nowMs full (table.map.lookup k)
      ((releaseAt cooldownMs table key fp failed nowMs).map.lookup k) := by
  unfold releaseAt
  split
  · exact .same _
  next w found =>
    split
    · exact .same _
    next i held =>
      dsimp only
      split
      · rw [lookup_set]
        exact move_set found (.released w fp i failed held)
      next last =>
        rw [lookup_set]
        refine move_set found (.failed w fp i failed held ?_)
        have := (FailWindow.slotOf_some held).1
        rw [FailWindow.refs_letGo] at last
        simp only [Bool.or_eq_true, decide_eq_true_eq, not_or] at last
        omega

end Step

/-! ### Whole runs -/

section Run
variable {cooldownMs : ℕ} {calls : ℕ → LoginCall} {n m : ℕ} {k : ThrottleKey}

theorem logins_move : FailWindow.Move cooldownMs (calls n).nowMs
    (logins cooldownMs calls n).table.full ((logins cooldownMs calls n).table.map.lookup k)
    ((logins cooldownMs calls (n + 1)).table.map.lookup k) := by
  rw [logins]
  generalize logins cooldownMs calls n = s
  cases calls n with
  | attempt ip guess nowMs =>
      have move : FailWindow.Move cooldownMs nowMs s.table.full (s.table.map.lookup k)
          ((admitAt cooldownMs s.table ip guess nowMs).2.map.lookup k) := admitAt_move
      simp only [Logins.step, LoginCall.nowMs]
      split
      next key table same =>
        rw [same] at move
        exact move
      next error table same =>
        rw [same] at move
        exact move
  | finish attempt failed nowMs =>
      simp only [Logins.step, LoginCall.nowMs]
      split
      · split
        · exact releaseAt_move
        · exact .same _
      · exact .same _

/-- Every tracked window keeps its budget. -/
theorem logins_sound (clock : Monotone fun n => (calls n).nowMs) (n : ℕ) :
    ∀ k w, (logins cooldownMs calls n).table.map.lookup k = some w → w.Sound (calls n).nowMs := by
  induction n with
  | zero => exact fun k w found => nomatch found
  | succ n ih =>
      intro k w found
      exact (logins_move.sound (fun v held => ih k v held) w found).later (clock (Nat.le_succ n))

end Run

end Pypiron.Throttle
