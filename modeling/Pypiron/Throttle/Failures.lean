import Pypiron.Throttle.Lockout

/-! The failures charged to one address. All that fall within one cooldown are
charged to one window, which counts them up to its lockout. -/
namespace Pypiron.Throttle
open KeyedMap
variable {cooldownMs nowMs sinceMs spent : ℕ} {calls : ℕ → LoginCall} {i j n m : ℕ}
variable {k key other : ThrottleKey} {ip : IpAddr} {w : FailWindow} {before after : Option FailWindow}

/-! ### One window -/

/-- The failures since `sinceMs` are still counted, or have locked the window. -/
def WithinBudget (cooldownMs sinceMs spent : ℕ) (held : Option FailWindow) : Prop :=
  spent = 0 ∨ ∃ w, held = some w ∧ sinceMs ≤ w.lastMs ∧ (spent ≤ w.count ∨
    spent ≤ loginFailLimit ∧ min (sinceMs + cooldownMs) u64Max ≤ w.blockedUntilMs)

theorem not_decayed (positive : 0 < cooldownMs) (recent : sinceMs ≤ w.lastMs)
    (inside : nowMs < sinceMs + cooldownMs) : w.decayed cooldownMs nowMs = false := by
  unfold FailWindow.decayed
  rw [decide_eq_false_iff_not]
  omega

theorem decay_eq (undecayed : w.decayed cooldownMs nowMs = false) : w.decay cooldownMs nowMs = w := by
  rw [FailWindow.decay, undecayed]
  rfl

/-- Within the cooldown no call forgets a failure. -/
theorem WithinBudget.step (positive : 0 < cooldownMs)
    (within : WithinBudget cooldownMs sinceMs spent before)
    (move : FailWindow.Move cooldownMs nowMs false before after)
    (sound : ∀ w, before = some w → w.Sound nowMs) (since : sinceMs ≤ nowMs)
    (inside : nowMs < sinceMs + cooldownMs) (unsaturated : nowMs < u64Max) :
    WithinBudget cooldownMs sinceMs spent after := by
  obtain none | ⟨w, rfl, recent, counted | ⟨bound, locked⟩⟩ := within
  · exact .inl none
  · have undecayed := not_decayed positive recent inside
    right
    cases move with
    | same => exact ⟨w, rfl, recent, .inl counted⟩
    | dropped _ _ forgiven =>
        rw [undecayed] at forgiven
        simp at forgiven
    | looked _ _ =>
        rw [decay_eq undecayed]
        exact ⟨w, rfl, recent, .inl counted⟩
    | shared _ fp slot _ _ =>
        rw [decay_eq undecayed]
        exact ⟨_, rfl, recent, .inl counted⟩
    | reserved _ fp slot _ _ _ =>
        rw [decay_eq undecayed]
        exact ⟨_, rfl, recent, .inl counted⟩
    | released _ fp slot failed _ => exact ⟨_, rfl, recent, .inl counted⟩
    | failed _ fp slot failed found last =>
        have := (sound w rfl).budget
        have := FailWindow.inFlight_pos found
        have kept : (w.letGo slot failed).decay cooldownMs nowMs = w.letGo slot failed :=
          decay_eq (not_decayed positive recent inside)
        refine ⟨_, rfl, ?_⟩
        unfold FailWindow.charge
        rw [kept]
        dsimp only
        split
        · exact ⟨since, .inr ⟨by omega, by dsimp only; omega⟩⟩
        · exact ⟨since, .inl (by dsimp only [FailWindow.count_letGo]; omega)⟩
  · have blocked : nowMs < w.blockedUntilMs := by omega
    cases move.locked (sound w rfl) blocked
    exact .inr ⟨w, rfl, recent, .inr ⟨bound, locked⟩⟩

/-- A failure more is counted, or locks the window. -/
theorem WithinBudget.charge {fp : UInt64} {slot : Fin loginFailLimit} {failed : Bool}
    (positive : 0 < cooldownMs) (within : WithinBudget cooldownMs sinceMs spent (some w))
    (sound : w.Sound nowMs) (found : w.slotOf fp = some slot) (since : sinceMs ≤ nowMs)
    (inside : nowMs < sinceMs + cooldownMs) (unsaturated : nowMs < u64Max) :
    WithinBudget cooldownMs sinceMs (spent + 1)
      (some ((w.letGo slot failed).charge cooldownMs nowMs)) := by
  have budget := sound.budget
  have held := FailWindow.inFlight_pos found
  right
  refine ⟨_, rfl, ?_⟩
  obtain rfl | ⟨v, same, recent, counted | ⟨bound, locked⟩⟩ := within
  · unfold FailWindow.charge
    dsimp only
    split
    · exact ⟨since, .inr ⟨by decide, by dsimp only; omega⟩⟩
    · exact ⟨since, .inl (by dsimp only; omega)⟩
  · cases same
    have kept : (w.letGo slot failed).decay cooldownMs nowMs = w.letGo slot failed :=
      decay_eq (not_decayed positive recent inside)
    unfold FailWindow.charge
    rw [kept]
    dsimp only
    split
    · exact ⟨since, .inr ⟨by omega, by dsimp only; omega⟩⟩
    · exact ⟨since, .inl (by dsimp only [FailWindow.count_letGo]; omega)⟩
  · cases same
    have := sound.unlocked found
    omega

theorem WithinBudget.le (within : WithinBudget cooldownMs sinceMs spent before)
    (sound : ∀ w, before = some w → w.Sound nowMs) : spent ≤ loginFailLimit := by
  obtain rfl | ⟨w, rfl, _, counted | ⟨bound, _⟩⟩ := within
  · exact Nat.zero_le _
  · have := (sound w rfl).budget
    omega
  · exact bound

/-! ### The failures of one network -/

/-- The calls of `[i, j)` that are charged to a network. -/
def chargedTo (cooldownMs : ℕ) (calls : ℕ → LoginCall) (k : ThrottleKey) (i j : ℕ) : Finset ℕ :=
  (Finset.Ico i j).filter fun n =>
    ((logins cooldownMs calls n).charges (calls n)).map Prod.fst = some k

/-- What holds of a span: it is shorter than the cooldown, the clock has not run
out, and the map has not filled. -/
structure InSpan (cooldownMs : ℕ) (calls : ℕ → LoginCall) (i n : ℕ) : Prop where
  inside : (calls n).nowMs < (calls i).nowMs + cooldownMs
  unsaturated : (calls n).nowMs < u64Max
  room : (logins cooldownMs calls n).table.map.len < loginThrottleCap

theorem InSpan.unfilled (span : InSpan cooldownMs calls i n) :
    (logins cooldownMs calls n).table.full = false :=
  decide_eq_false (Nat.not_le.mpr span.room)

/-- Over a span the window of a network accounts for every failure charged to it. -/
theorem span_within (positive : 0 < cooldownMs) (clock : Monotone fun n => (calls n).nowMs) (le : i ≤ j)
    (span : ∀ n, i ≤ n → n < j → InSpan cooldownMs calls i n) :
    WithinBudget cooldownMs (calls i).nowMs (chargedTo cooldownMs calls k i j).card
      ((logins cooldownMs calls j).table.map.lookup k) := by
  induction j, le using Nat.le_induction with
  | base =>
      left
      rw [chargedTo, Finset.Ico_self]
      rfl
  | succ j le ih =>
      have within := ih fun n from_ to_ => span n from_ (Nat.lt_succ_of_lt to_)
      have here := span j le (Nat.lt_succ_self j)
      have sound (w : FailWindow) (found : (logins cooldownMs calls j).table.map.lookup k = some w) :=
        logins_sound clock j k w found
      have split : Finset.Ico i (j + 1) = insert j (Finset.Ico i j) :=
        Nat.Ico_succ_right_eq_insert_Ico le
      by_cases mine : ((logins cooldownMs calls j).charges (calls j)).map Prod.fst = some k
      · rw [chargedTo, split, Finset.filter_insert, if_pos mine, Finset.card_insert_of_notMem (by simp)]
        obtain ⟨⟨key, fp⟩, charged, rfl⟩ := Option.map_eq_some_iff.mp mine
        obtain ⟨w, slot, failed, found, held, _, after⟩ := logins_charges charged
        rw [after]
        rw [found] at within
        exact within.charge positive (sound w found) held (clock le) here.inside here.unsaturated
      · rw [chargedTo, split, Finset.filter_insert, if_neg mine]
        have move : FailWindow.Move cooldownMs (calls j).nowMs (logins cooldownMs calls j).table.full
          ((logins cooldownMs calls j).table.map.lookup k)
          ((logins cooldownMs calls (j + 1)).table.map.lookup k) := logins_move
        rw [here.unfilled] at move
        exact within.step positive move sound (clock le) here.inside here.unsaturated

/-- One network is charged at most the limit. -/
theorem chargedTo_le (positive : 0 < cooldownMs) (clock : Monotone fun n => (calls n).nowMs) (le : i ≤ j)
    (span : ∀ n, i ≤ n → n < j → InSpan cooldownMs calls i n) :
    (chargedTo cooldownMs calls k i j).card ≤ loginFailLimit :=
  (span_within positive clock le span).le fun w found => logins_sound clock j k w found

/-! ### The failures of one address -/

/-- An attempt of the address was admitted on the credential, and its slot has
been held ever since. -/
def Joined (cooldownMs : ℕ) (calls : ℕ → LoginCall) (n : ℕ) (ip : IpAddr) (key : ThrottleKey)
    (fp : UInt64) : Prop :=
  ∃ a < n, ∃ nowMs, calls a = .attempt ip (some fp) nowMs ∧
    (admitAt cooldownMs (logins cooldownMs calls a).table ip (some fp) nowMs).1 = .ok key ∧
    ∀ m, a < m → m ≤ n → 0 < (logins cooldownMs calls m).table.holders key fp

/-- The call is a failure of a slot that an attempt of the address has held. -/
def Charged (cooldownMs : ℕ) (calls : ℕ → LoginCall) (ip : IpAddr) (n : ℕ) : Prop :=
  ∃ key fp, (logins cooldownMs calls n).charges (calls n) = some (key, fp) ∧
    Joined cooldownMs calls n ip key fp

theorem tracked_of_holders {table : ThrottleTable} {fp : UInt64} (held : 0 < table.holders k fp) :
    k ∈ table.map := by
  by_contra untracked
  rw [ThrottleTable.holders_none (AList.lookup_eq_none.mpr untracked)] at held
  exact absurd held (Nat.lt_irrefl 0)

/-- An untracked address opens the network it is charged to, and no other. -/
theorem admitUntracked_opens {table : ThrottleTable} {keys : Fin 3 → ThrottleKey}
    {guess : Option UInt64} (answered : (admitUntracked cooldownMs table keys guess nowMs).1 = .ok key) :
    (∃ tier, key = keys tier) ∧ ∀ k, table.map.lookup k = none → k ≠ key →
      (admitUntracked cooldownMs table keys guess nowMs).2.map.lookup k = none := by
  unfold admitUntracked at answered ⊢
  dsimp only at answered ⊢
  split at answered
  · cases answered
  next opened found =>
    have tier := (tierFor_some found).1
    split at answered
    next fp =>
      cases answered
      refine ⟨tier, fun k untracked other => ?_⟩
      rw [lookup_set, if_neg other]
      exact sweep_untracked untracked
    next =>
      cases answered
      exact ⟨tier, fun k untracked _ => sweep_untracked untracked⟩

/-- An admitted address is counted under its key from then on. -/
theorem admitted_counted {guess : Option UInt64} (positive : 0 < cooldownMs)
    (called : calls n = .attempt ip guess nowMs)
    (answered : (admitAt cooldownMs (logins cooldownMs calls n).table ip guess nowMs).1 = .ok key)
    (stays : key ∈ (logins cooldownMs calls (n + 1)).table.map) :
    ∃ tier, key = throttleKeys ip tier ∧
      CountedAt (logins cooldownMs calls (n + 1)).table ip tier := by
  cases counted : (logins cooldownMs calls n).table.countedUnder ip with
  | some k =>
      obtain ⟨tier, rfl, at_⟩ := countedUnder_some counted
      have same := admitAt_counted counted positive answered
      rw [same] at stays ⊢
      exact ⟨tier, rfl, logins_finest at_ stays⟩
  | none =>
      have opened : admitAt cooldownMs (logins cooldownMs calls n).table ip guess nowMs =
          admitUntracked cooldownMs (logins cooldownMs calls n).table (throttleKeys ip) guess nowMs := by
        unfold admitAt
        rw [if_neg positive.ne', counted]
      rw [opened] at answered
      obtain ⟨⟨tier, rfl⟩, alone⟩ := admitUntracked_opens answered
      refine ⟨tier, rfl, stays, fun finer below => ?_⟩
      have distinct : throttleKeys ip finer ≠ throttleKeys ip tier := by
        intro same
        exact below.ne (throttleKeys_nested same le_rfl).1
      have untracked := alone _ (countedUnder_none counted finer) distinct
      rw [logins, called]
      simp only [Logins.step, opened]
      rw [AList.lookup_eq_none] at untracked
      split
      next same =>
        rw [same] at untracked
        exact untracked
      next same =>
        rw [same] at untracked
        exact untracked

theorem counted_through {tier : Fin 3} (le : n ≤ m)
    (counted : CountedAt (logins cooldownMs calls n).table ip tier)
    (stays : ∀ mid, n < mid → mid ≤ m →
      throttleKeys ip tier ∈ (logins cooldownMs calls mid).table.map) :
    CountedAt (logins cooldownMs calls m).table ip tier := by
  induction m, le using Nat.le_induction with
  | base => exact counted
  | succ m le ih =>
      refine logins_finest (ih fun mid after upto => stays mid after (Nat.le_succ_of_le upto)) ?_
      exact stays (m + 1) (Nat.lt_succ_of_le le) le_rfl

/-- Two admissions of an address share a key, where the first one's network stays
tracked until the second. -/
theorem same_key {a b : ℕ} {guess guess' : Option UInt64} {nowMs' : ℕ} (positive : 0 < cooldownMs)
    (before : a < b) (first : calls a = .attempt ip guess nowMs)
    (answered : (admitAt cooldownMs (logins cooldownMs calls a).table ip guess nowMs).1 = .ok key)
    (answered' : (admitAt cooldownMs (logins cooldownMs calls b).table ip guess' nowMs').1 = .ok other)
    (stays : ∀ m, a < m → m ≤ b → key ∈ (logins cooldownMs calls m).table.map) : other = key := by
  obtain ⟨tier, rfl, counted⟩ :=
    admitted_counted positive first answered (stays (a + 1) (Nat.lt_succ_self a) before)
  have later := counted_through before counted fun m after upto =>
    stays m (Nat.lt_of_succ_lt after) upto
  exact admitAt_counted later.countedUnder positive answered'

/-- The failures of one address within a cooldown are charged to one network. -/
theorem charged_same_key (positive : 0 < cooldownMs) (clock : Monotone fun n => (calls n).nowMs)
    (before : n < m) (span : ∀ mid, n ≤ mid → mid < m → InSpan cooldownMs calls n mid)
    {fp fp' : UInt64} (charged : (logins cooldownMs calls n).charges (calls n) = some (key, fp))
    (joined : Joined cooldownMs calls n ip key fp) (joined' : Joined cooldownMs calls m ip other fp') :
    other = key := by
  obtain ⟨a, begun, nowMs, called, answered, held⟩ := joined
  obtain ⟨b, begun', nowMs', called', answered', held'⟩ := joined'
  have recent (mid : ℕ) (after : n < mid) (upto : mid ≤ m) :
      key ∈ (logins cooldownMs calls mid).table.map := by
    have within : WithinBudget cooldownMs (calls n).nowMs (chargedTo cooldownMs calls key n mid).card
        ((logins cooldownMs calls mid).table.map.lookup key) :=
      span_within positive clock after.le fun k from_ to_ => span k from_ (to_.trans_le upto)
    have member : n ∈ chargedTo cooldownMs calls key n mid :=
      Finset.mem_filter.mpr ⟨Finset.mem_Ico.mpr ⟨le_rfl, after⟩, by rw [charged]; rfl⟩
    obtain none | ⟨w, found, _⟩ := within
    · exact absurd none (Finset.card_pos.mpr ⟨n, member⟩).ne'
    · exact mem_of_lookup found
  obtain earlier | rfl | later := Nat.lt_trichotomy a b
  · refine same_key positive earlier called answered answered' fun mid after upto => ?_
    obtain le | beyond := Nat.lt_or_ge n mid |>.symm
    · exact tracked_of_holders (held mid after le)
    · exact recent mid beyond (upto.trans begun'.le)
  · rw [called] at called'
    cases called'
    exact Except.ok.inj (answered'.symm.trans answered)
  · refine (same_key positive later called' answered' answered fun mid after upto => ?_).symm
    exact tracked_of_holders (held' mid after ((upto.trans_lt begun).trans before).le)

open Classical in
theorem charged_le (positive : 0 < cooldownMs) (clock : Monotone fun n => (calls n).nowMs)
    (ip : IpAddr) (inside : (calls j).nowMs < (calls i).nowMs + cooldownMs)
    (unsaturated : ∀ n ≤ j, (calls n).nowMs < u64Max)
    (room : ∀ n ≤ j, (logins cooldownMs calls n).table.map.len < loginThrottleCap) :
    ((Finset.Icc i j).filter (Charged cooldownMs calls ip)).card ≤ loginFailLimit := by
  have span (n m : ℕ) (from_ : i ≤ n) (to_ : m ≤ j) (le : n ≤ m) : InSpan cooldownMs calls n m := by
    refine ⟨?_, unsaturated m to_, room m to_⟩
    have upto : (calls m).nowMs ≤ (calls j).nowMs := clock to_
    have since : (calls i).nowMs ≤ (calls n).nowMs := clock from_
    omega
  obtain empty | ⟨n, member⟩ := ((Finset.Icc i j).filter (Charged cooldownMs calls ip)).eq_empty_or_nonempty
  · rw [empty]
    exact Nat.zero_le _
  obtain ⟨inside', key, fp, charged, joined⟩ := Finset.mem_filter.mp member
  rw [Finset.mem_Icc] at inside'
  have one : (Finset.Icc i j).filter (Charged cooldownMs calls ip) ⊆
      chargedTo cooldownMs calls key i (j + 1) := by
    intro m member'
    obtain ⟨within, key', fp', charged', joined'⟩ := Finset.mem_filter.mp member'
    rw [Finset.mem_Icc] at within
    refine Finset.mem_filter.mpr ⟨Finset.mem_Ico.mpr ⟨within.1, Nat.lt_succ_of_le within.2⟩, ?_⟩
    rw [charged']
    obtain before | rfl | after := Nat.lt_trichotomy n m
    · rw [charged_same_key positive clock before (fun mid from_ to_ =>
        span n mid inside'.1 (to_.le.trans within.2) from_) charged joined joined']
      rfl
    · rw [charged] at charged'
      cases charged'
      rfl
    · rw [charged_same_key positive clock after (fun mid from_ to_ =>
        span m mid within.1 (to_.le.trans inside'.2) from_) charged' joined' joined]
      rfl
  refine (Finset.card_le_card one).trans (chargedTo_le positive clock ?_ fun m from_ to_ => ?_)
  · exact inside'.1.trans (inside'.2.trans (Nat.le_succ j))
  · exact span i m le_rfl (Nat.le_of_lt_succ to_) from_

/-! ### The throttle over whole runs -/

open Classical in
/-- Every tracked network keeps its budget, a wrong attempt keeps its slot, a lockout
refuses all it counts until it expires, the map keeps to its cap, and until the map
fills or the clock saturates no address is charged more than the limit in less
than a cooldown. -/
theorem login_throttle_safe (positive : 0 < cooldownMs) (clock : Monotone fun n => (calls n).nowMs) :
    (∀ n k w, (logins cooldownMs calls n).table.map.lookup k = some w →
      w.count + w.inFlight ≤ loginFailLimit) ∧
    (∀ n, ∀ attempt ∈ (logins cooldownMs calls n).attempts, ∀ fp, attempt.guess = some fp →
      ∃ w, (logins cooldownMs calls n).table.map.lookup attempt.key = some w ∧
        (w.slotOf fp).isSome) ∧
    (∀ n k w ip, (logins cooldownMs calls n).table.countedUnder ip = some k →
      (logins cooldownMs calls n).table.map.lookup k = some w →
      ∀ m ≥ n, (calls m).nowMs < w.blockedUntilMs → ∀ guess,
        (admitAt cooldownMs (logins cooldownMs calls m).table ip guess (calls m).nowMs).1 =
          .error (divCeil (w.blockedUntilMs - (calls m).nowMs) 1000)) ∧
    (∀ n, (logins cooldownMs calls n).table.map.len ≤ loginThrottleCap) ∧
    (∀ i j ip, (calls j).nowMs < (calls i).nowMs + cooldownMs →
      (∀ n ≤ j, (calls n).nowMs < u64Max) →
      (∀ n ≤ j, (logins cooldownMs calls n).table.map.len < loginThrottleCap) →
      ((Finset.Icc i j).filter (Charged cooldownMs calls ip)).card ≤ loginFailLimit) := by
  refine ⟨?_, ?_, ?_, logins_len, ?_⟩
  · exact fun n k w found => (logins_sound clock n k w found).budget
  · exact fun n attempt member fp wrong => logins_slot_stays positive member wrong
  · intro n k w ip counted found m le blocked guess
    obtain ⟨tier, rfl, at_⟩ := countedUnder_some counted
    obtain ⟨at_', found'⟩ := logins_locked clock at_ found le blocked
    exact admitAt_locked positive at_'.countedUnder found' blocked
  · exact fun i j ip inside unsaturated room => charged_le positive clock ip inside unsaturated room

/-! ### A saturated clock -/

def sampleIp : IpAddr := .v4 0xcb007109#32

/-- One wrong guess after the other at one instant, each answered 401. -/
def flood (nowMs n : ℕ) : LoginCall :=
  if n % 2 = 0 then .attempt sampleIp (some (UInt64.ofNat (n / 2))) nowMs
  else .finish ⟨throttleKeys sampleIp 0, some (UInt64.ofNat (n / 2))⟩ true nowMs

theorem flood_clock (nowMs n : ℕ) : (flood nowMs n).nowMs = nowMs := by
  unfold flood
  split <;> rfl

theorem flood_monotone (nowMs : ℕ) : Monotone fun n => (flood nowMs n).nowMs := by
  intro n m _
  simp only [flood_clock, le_refl]

open Classical in
theorem flood_throttled :
    (admitAt 300000 (logins 300000 (flood 1000) 10).table sampleIp none 1000).1 = .error 300 ∧
    ((Finset.Icc 0 9).filter (Charged 300000 (flood 1000) sampleIp)).card ≤ 5 := by
  have positive : 0 < 300000 := by decide
  obtain ⟨_, _, locked, _, charged⟩ := login_throttle_safe positive (flood_monotone 1000)
  have window : ((logins 300000 (flood 1000) 10).table.map.lookup (throttleKeys sampleIp 0)).map
      (·.blockedUntilMs) = some 301000 := by decide +kernel
  obtain ⟨w, found, until_⟩ := Option.map_eq_some_iff.mp window
  have counted : (logins 300000 (flood 1000) 10).table.countedUnder sampleIp =
      some (throttleKeys sampleIp 0) := by decide +kernel
  have refused := locked 10 _ w sampleIp counted found 10 le_rfl
    (by rw [until_, flood_clock]; decide) none
  rw [until_, flood_clock] at refused
  refine ⟨refused, charged 0 9 sampleIp ?_ ?_ ?_⟩
  · rw [flood_clock, flood_clock]
    decide
  · exact fun n _ => by rw [flood_clock]; decide
  · decide +kernel

theorem flood_charged : ∀ n < 6, Charged 300000 (flood u64Max) sampleIp (2 * n + 1) := by
  intro n below
  have charges : ∀ n < 6, (logins 300000 (flood u64Max) (2 * n + 1)).charges (flood u64Max (2 * n + 1)) =
      some (throttleKeys sampleIp 0, UInt64.ofNat n) := by decide +kernel
  have called : ∀ n < 6, flood u64Max (2 * n) = .attempt sampleIp (some (UInt64.ofNat n)) u64Max := by
    intro n _
    simp [flood]
  have answered : ∀ n < 6, (admitAt 300000 (logins 300000 (flood u64Max) (2 * n)).table sampleIp
      (some (UInt64.ofNat n)) u64Max).1 = .ok (throttleKeys sampleIp 0) := by decide +kernel
  have held : ∀ n < 6, 0 < (logins 300000 (flood u64Max) (2 * n + 1)).table.holders
      (throttleKeys sampleIp 0) (UInt64.ofNat n) := by decide +kernel
  refine ⟨_, _, charges n below, 2 * n, Nat.lt_succ_self _, u64Max, called n below, answered n below, ?_⟩
  intro m after upto
  obtain rfl : m = 2 * n + 1 := by omega
  exact held n below

open Classical in
/-- Where the clock stands at the largest `u64` no lockout lasts. -/
theorem saturated_clock_charges : ¬∀ (cooldownMs : ℕ) (calls : ℕ → LoginCall), 0 < cooldownMs →
    (Monotone fun n => (calls n).nowMs) → ∀ i j ip, (calls j).nowMs < (calls i).nowMs + cooldownMs →
      (∀ n ≤ j, (logins cooldownMs calls n).table.map.len < loginThrottleCap) →
      ((Finset.Icc i j).filter (Charged cooldownMs calls ip)).card ≤ loginFailLimit := by
  intro safe
  have bound := safe 300000 (flood u64Max) (by decide) (flood_monotone u64Max) 0 11 sampleIp
    (by rw [flood_clock, flood_clock]; decide) (by decide +kernel)
  have six : (Finset.range 6).image (fun n => 2 * n + 1) ⊆
      (Finset.Icc 0 11).filter (Charged 300000 (flood u64Max) sampleIp) := by
    intro m member
    obtain ⟨n, below, rfl⟩ := Finset.mem_image.mp member
    have below := Finset.mem_range.mp below
    exact Finset.mem_filter.mpr ⟨Finset.mem_Icc.mpr ⟨Nat.zero_le _, by omega⟩, flood_charged n below⟩
  have card : ((Finset.range 6).image fun n => 2 * n + 1).card = 6 := by decide
  have := Finset.card_le_card six
  rw [card] at this
  exact absurd (this.trans bound) (by decide)

end Pypiron.Throttle
