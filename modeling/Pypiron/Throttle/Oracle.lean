import Pypiron.Throttle.Lockout

/-! What admissions tell about a credential. The runs where it is right and where
it is wrong differ in the slot that only the wrong one takes. -/
namespace Pypiron.Throttle
open KeyedMap

/-! ### Probes -/

/-- A credential-bearing request, or the end of the request that the `n`-th call
made, which was answered without a 401. An `unchecked` read is answered without a
look at the credential. -/
inductive Probe where
  | ask (ip : IpAddr) (cred : UInt64) (unchecked : Bool) (nowMs : ℕ)
  | settle (n : ℕ) (nowMs : ℕ)

/-- `guess`: the fingerprint of a credential that authenticates as nobody. -/
def guessOf (authenticates : UInt64 → Bool) (cred : UInt64) (unchecked : Bool) : Option UInt64 :=
  if !unchecked && !authenticates cred then some cred else none

structure Probing where
  table : ThrottleTable
  attempts : ℕ → Option LoginAttempt

def Probing.step (cooldownMs : ℕ) (authenticates : UInt64 → Bool) (n : ℕ) (s : Probing) :
    Probe → Probing
  | .ask ip cred unchecked nowMs =>
    let guess := guessOf authenticates cred unchecked
    match admitAt cooldownMs s.table ip guess nowMs with
    | (.ok key, table) => ⟨table, Function.update s.attempts n (some ⟨key, guess⟩)⟩
    | (.error _, table) => ⟨table, s.attempts⟩
  | .settle i nowMs =>
    match s.attempts i with
    | none => s
    | some ⟨key, some fp⟩ =>
      ⟨releaseAt cooldownMs s.table key fp false nowMs, Function.update s.attempts i none⟩
    | some ⟨_, none⟩ => ⟨s.table, Function.update s.attempts i none⟩

/-- The state before the `n`-th call. -/
def probing (cooldownMs : ℕ) (authenticates : UInt64 → Bool) (calls : ℕ → Probe) : ℕ → Probing
  | 0 => ⟨.empty, fun _ => none⟩
  | n + 1 => (probing cooldownMs authenticates calls n).step cooldownMs authenticates n (calls n)

/-- What the client is told: admitted, or 429 and the `Retry-After`. -/
def Probing.answer (cooldownMs : ℕ) (authenticates : UInt64 → Bool) (s : Probing) :
    Probe → Option (Except ℕ Unit)
  | .ask ip cred unchecked nowMs =>
    some ((admitAt cooldownMs s.table ip (guessOf authenticates cred unchecked) nowMs).1.map fun _ => ())
  | .settle _ _ => none

def answers (cooldownMs : ℕ) (authenticates : UInt64 → Bool) (calls : ℕ → Probe) (n : ℕ) :
    Option (Except ℕ Unit) :=
  (probing cooldownMs authenticates calls n).answer cooldownMs authenticates (calls n)

/-- The same credentials with `c` right, and with `c` wrong. -/
def whereRight (authenticates : UInt64 → Bool) (c : UInt64) : UInt64 → Bool :=
  Function.update authenticates c true

def whereWrong (authenticates : UInt64 → Bool) (c : UInt64) : UInt64 → Bool :=
  Function.update authenticates c false

/-! ### Windows without failures -/

namespace FailWindow
variable {w : FailWindow} {i : Fin loginFailLimit} {fp : UInt64} {cooldownMs nowMs : ℕ}

/-- No failure has been counted, and each credential has one slot. -/
structure Clean (w : FailWindow) : Prop where
  count : w.count = 0
  last : w.lastMs = 0
  unlocked : w.blockedUntilMs = 0
  unfailed : ∀ i, (w.pending i).failed = false
  distinct : ∀ i j, 0 < (w.pending i).refs → 0 < (w.pending j).refs →
    (w.pending i).fp = (w.pending j).fp → i = j

theorem clean_empty : empty.Clean :=
  ⟨rfl, rfl, rfl, fun _ => rfl, fun _ _ held => absurd held (Nat.lt_irrefl 0)⟩

theorem Clean.decay_eq (clean : w.Clean) : w.decay cooldownMs nowMs = w := by
  obtain ⟨count, _, _, _⟩ := w
  obtain rfl : count = 0 := clean.count
  unfold FailWindow.decay
  split <;> rfl

/-- A slot changes hands and stays one credential's. -/
theorem Clean.setPending {p : Pending} (clean : w.Clean) (unfailed : p.failed = false)
    (own : ∀ j ≠ i, 0 < p.refs → 0 < (w.pending j).refs → (w.pending j).fp ≠ p.fp) :
    (w.setPending i p).Clean where
  count := clean.count
  last := clean.last
  unlocked := clean.unlocked
  unfailed j := by
    by_cases mine : j = i
    · rw [mine, pending_setPending, unfailed]
    · rw [pending_setPending_of_ne mine, clean.unfailed]
  distinct j k heldj heldk same := by
    by_cases minej : j = i <;> by_cases minek : k = i
    · rw [minej, minek]
    · subst minej
      rw [pending_setPending, pending_setPending_of_ne minek] at *
      exact absurd same.symm (own k minek heldj heldk)
    · subst minek
      rw [pending_setPending, pending_setPending_of_ne minej] at *
      exact absurd same (own j minej heldk heldj)
    · rw [pending_setPending_of_ne minej, pending_setPending_of_ne minek] at *
      exact clean.distinct j k heldj heldk same

theorem Clean.reserve (clean : w.Clean) (absent : w.slotOf fp = none) : (w.reserve i fp).Clean :=
  clean.setPending rfl fun j _ _ held => slotOf_none absent j held

theorem Clean.share (clean : w.Clean) (found : w.slotOf fp = some i) : (w.share i).Clean := by
  refine clean.setPending (clean.unfailed i) fun j other _ held same => other ?_
  exact clean.distinct j i held (slotOf_some found).1 same

theorem Clean.letGo (clean : w.Clean) (found : w.slotOf fp = some i) : (w.letGo i false).Clean := by
  refine clean.setPending (by rw [clean.unfailed i]; rfl) fun j other _ held same => other ?_
  exact clean.distinct j i held (slotOf_some found).1 same

theorem Clean.refs_eq (clean : w.Clean) (found : w.slotOf fp = some i) :
    (w.pending i).refs = w.holders fp := by
  obtain ⟨held, same⟩ := slotOf_some found
  unfold holders weigh
  rw [Finset.sum_eq_single i]
  · exact (if_pos same).symm
  · intro j _ other
    refine ite_eq_right_iff.mpr fun named => ?_
    by_contra occupied
    exact other (clean.distinct j i (Nat.pos_of_ne_zero occupied) held (named.trans same.symm))
  · exact fun absent => absurd (Finset.mem_univ i) absent

theorem inFlight_le (w : FailWindow) : w.inFlight ≤ loginFailLimit := by
  have := Finset.card_le_univ w.occupied
  rwa [Fintype.card_fin] at this

end FailWindow

namespace ThrottleTable
variable {table : ThrottleTable} {k key : ThrottleKey} {w : FailWindow}

/-- The window of a network, empty where it is not tracked. -/
def window (table : ThrottleTable) (k : ThrottleKey) : FailWindow := (table.map.lookup k).getD .empty

theorem window_set : (table.set key w).window k = if k = key then w else table.window k := by
  unfold window
  rw [lookup_set]
  split <;> rfl

theorem window_remove : (table.remove key).window k = if k = key then .empty else table.window k := by
  unfold window
  rw [lookup_remove]
  split <;> rfl

theorem window_of_lookup (found : table.map.lookup k = some w) : table.window k = w := by
  rw [window, found]
  rfl

theorem window_untracked (untracked : k ∉ table.map) : table.window k = .empty := by
  rw [window, AList.lookup_eq_none.mpr untracked]
  rfl

def Clean (table : ThrottleTable) : Prop := ∀ k, (table.window k).Clean

theorem Clean.set (clean : table.Clean) (fresh : w.Clean) : (table.set key w).Clean := by
  intro k
  rw [window_set]
  split
  · exact fresh
  · exact clean k

theorem Clean.remove (clean : table.Clean) : (table.remove key).Clean := by
  intro k
  rw [window_remove]
  split
  · exact FailWindow.clean_empty
  · exact clean k

/-- The network that a request counts under, none where the map has no room for it. -/
def placed (cooldownMs : ℕ) (table : ThrottleTable) (ip : IpAddr) (nowMs : ℕ) : Option ThrottleKey :=
  match table.countedUnder ip with
  | some key => some key
  | none => (table.sweep cooldownMs nowMs).tierFor (throttleKeys ip)

/-- A sweep drops networks with nothing in flight. -/
theorem inFlight_sweep {cooldownMs nowMs : ℕ} :
    ((table.sweep cooldownMs nowMs).window k).inFlight = (table.window k).inFlight := by
  have move : FailWindow.Move cooldownMs nowMs table.full (table.map.lookup k)
    ((table.sweep cooldownMs nowMs).map.lookup k) := sweep_move
  unfold ThrottleTable.sweep
  split
  next due =>
    unfold ThrottleTable.window
    dsimp only
    rw [lookup_retain]
    cases found : table.map.lookup k with
    | none => rfl
    | some w =>
        rw [Option.filter_some]
        split
        next => rfl
        next shed =>
          simp only [sweepKeeps, Bool.or_eq_true, not_or, Bool.not_eq_true] at shed
          exact FailWindow.empty_inFlight.trans (FailWindow.not_live shed.1).symm
  next => rfl

theorem Clean.sweep {cooldownMs nowMs : ℕ} (clean : table.Clean) :
    (table.sweep cooldownMs nowMs).Clean := by
  intro k
  unfold ThrottleTable.sweep
  split
  next due =>
    have fresh := clean k
    unfold ThrottleTable.window at fresh ⊢
    dsimp only
    rw [lookup_retain]
    cases found : table.map.lookup k with
    | none => exact FailWindow.clean_empty
    | some w =>
        rw [found] at fresh
        rw [Option.filter_some]
        split
        · exact fresh
        · exact FailWindow.clean_empty
  next => exact clean k

/-- The table in which an address is counted: an untracked one is counted after a sweep. -/
def swept (cooldownMs : ℕ) (table : ThrottleTable) (ip : IpAddr) (nowMs : ℕ) : ThrottleTable :=
  if (table.countedUnder ip).isNone then table.sweep cooldownMs nowMs else table

section Swept
variable {cooldownMs nowMs : ℕ} {ip : IpAddr}

theorem Clean.swept (clean : table.Clean) : (table.swept cooldownMs ip nowMs).Clean := by
  unfold ThrottleTable.swept
  split
  · exact clean.sweep
  · exact clean

@[simp] theorem inFlight_swept :
    ((table.swept cooldownMs ip nowMs).window k).inFlight = (table.window k).inFlight := by
  unfold ThrottleTable.swept
  split
  · exact inFlight_sweep
  · rfl

@[simp] theorem holders_swept {fp : UInt64} :
    (table.swept cooldownMs ip nowMs).holders k fp = table.holders k fp := by
  unfold ThrottleTable.swept
  split
  · exact holders_sweep
  · rfl

end Swept

end ThrottleTable

/-! ### One admission -/

section Admit
variable {cooldownMs nowMs : ℕ} {table : ThrottleTable} {ip : IpAddr} {guess : Option UInt64}
variable {k key : ThrottleKey} {w : FailWindow} {outcome : Admission × ThrottleTable}

/-- Admission at the network `k`, whose window is `w`, where nothing has failed. -/
inductive PlainAdmit (table : ThrottleTable) (k : ThrottleKey) (w : FailWindow)
    (guess : Option UInt64) : Admission × ThrottleTable → Prop where
  | shared (fp : UInt64) (i : Fin loginFailLimit) : guess = some fp → w.slotOf fp = some i →
      PlainAdmit table k w guess (.ok k, table.set k (w.share i))
  | spent : guess.bind w.slotOf = none → loginFailLimit ≤ w.inFlight →
      PlainAdmit table k w guess (.error 1, table.set k w)
  | reserved (fp : UInt64) (i : Fin loginFailLimit) : guess = some fp → w.slotOf fp = none →
      w.inFlight < loginFailLimit → (w.pending i).refs = 0 →
      PlainAdmit table k w guess (.ok k, table.set k (w.reserve i fp))
  | dropped : guess = none → w.inFlight = 0 → PlainAdmit table k w guess (.ok k, table.remove k)
  | passed : guess = none → w.inFlight < loginFailLimit →
      PlainAdmit table k w guess (.ok k, table.set k w)
  | unseen : guess = none → w.inFlight < loginFailLimit → PlainAdmit table k w guess (.ok k, table)

theorem admitTracked_plain (clean : w.Clean) :
    PlainAdmit table k w guess (admitTracked cooldownMs table k w guess nowMs) := by
  unfold admitTracked
  dsimp only
  rw [clean.unlocked, if_neg (Nat.not_lt_zero nowMs), clean.decay_eq]
  split
  next i shared =>
    obtain ⟨fp, rfl, slot⟩ := Option.bind_eq_some_iff.mp shared
    exact .shared fp i rfl slot
  next absent =>
    unfold admitBudgeted
    rw [clean.count, Nat.zero_add]
    split
    next full => exact .spent absent full
    next room =>
      rw [Nat.not_le] at room
      split
      next fp =>
        split
        next i free => exact .reserved fp i rfl absent room (FailWindow.freeSlot_some free)
        next none => exact absurd (FailWindow.freeSlot_none none) room.ne
      next =>
        split
        next idle =>
          rw [Bool.and_eq_true, Bool.not_eq_true'] at idle
          exact .dropped rfl (FailWindow.not_live idle.2)
        next => exact .passed rfl room

/-- Without failures, an admission reads the window of the network it is placed under. -/
theorem plain_admit (positive : 0 < cooldownMs) (clean : table.Clean)
    (found : table.placed cooldownMs ip nowMs = some key) :
    PlainAdmit (table.swept cooldownMs ip nowMs) key ((table.swept cooldownMs ip nowMs).window key)
      guess (admitAt cooldownMs table ip guess nowMs) := by
  unfold admitAt ThrottleTable.swept
  unfold ThrottleTable.placed at found
  rw [if_neg positive.ne']
  cases counted : table.countedUnder ip with
  | some other =>
      rw [counted] at found
      obtain rfl := Option.some.inj found
      obtain ⟨w, stands⟩ := lookup_of_mem (countedUnder_tracked counted)
      have fresh := clean other
      rw [ThrottleTable.window_of_lookup stands] at fresh
      dsimp only [Option.isNone]
      rw [if_neg Bool.false_ne_true, ThrottleTable.window_of_lookup stands, stands]
      exact admitTracked_plain fresh
  | none =>
      rw [counted] at found
      dsimp only [Option.isNone] at found ⊢
      obtain ⟨⟨tier, rfl⟩, _⟩ := tierFor_some found
      have untracked : (table.sweep cooldownMs nowMs).map.lookup (throttleKeys ip tier) = none :=
        sweep_untracked (countedUnder_none counted tier)
      rw [if_pos rfl, ThrottleTable.window_untracked (AList.lookup_eq_none.mp untracked)]
      unfold admitUntracked
      dsimp only
      rw [found]
      cases guess with
      | some fp =>
          have absent : FailWindow.empty.slotOf fp = none :=
            FailWindow.slotOf_eq_none_iff.mpr (FailWindow.holders_idle FailWindow.empty_inFlight)
          exact .reserved fp 0 rfl absent (by decide) rfl
      | none => exact .unseen rfl (by decide)

/-- Where the map has no room for a request, it is refused for the cooldown. -/
theorem admit_unplaced (positive : 0 < cooldownMs)
    (nowhere : table.placed cooldownMs ip nowMs = none) : admitAt cooldownMs table ip guess nowMs =
      (.error (divCeil cooldownMs 1000), table.swept cooldownMs ip nowMs) := by
  unfold admitAt ThrottleTable.swept
  unfold ThrottleTable.placed at nowhere
  rw [if_neg positive.ne']
  cases counted : table.countedUnder ip with
  | some other =>
      rw [counted] at nowhere
      cases nowhere
  | none =>
      rw [counted] at nowhere
      dsimp only at nowhere ⊢
      unfold admitUntracked
      dsimp only
      rw [nowhere]
      rfl

theorem holders_window {fp : UInt64} : table.holders k fp = (table.window k).holders fp := by
  unfold ThrottleTable.holders ThrottleTable.window
  cases table.map.lookup k with
  | none => exact (FailWindow.holders_idle FailWindow.empty_inFlight).symm
  | some w => rfl

/-- A guess in flight shares its slot; any other request needs one to be free. -/
def HasRoom (table : ThrottleTable) (k : ThrottleKey) (guess : Option UInt64) : Prop :=
  (∃ fp ∈ guess, 0 < table.holders k fp) ∨ (table.window k).inFlight < loginFailLimit

instance (table : ThrottleTable) (k : ThrottleKey) (guess : Option UInt64) :
    Decidable (HasRoom table k guess) := inferInstanceAs (Decidable (_ ∨ _))

@[simp] theorem hasRoom_swept :
    HasRoom (table.swept cooldownMs ip nowMs) k guess ↔ HasRoom table k guess := by
  simp [HasRoom]

/-- What a request is told that counts under the network `place`, and what it takes. -/
structure Admits (cooldownMs : ℕ) (table : ThrottleTable) (place : Option ThrottleKey)
    (guess : Option UInt64) (outcome : Admission × ThrottleTable) : Prop where
  told : outcome.1 = match place with
    | none => .error (divCeil cooldownMs 1000)
    | some k => if HasRoom table k guess then .ok k else .error 1
  holders : ∀ k fp, outcome.2.holders k fp = table.holders k fp +
    if guess = some fp ∧ place = some k ∧ HasRoom table k guess then 1 else 0
  inFlight : ∀ k, (outcome.2.window k).inFlight = (table.window k).inFlight +
    if (∃ fp ∈ guess, table.holders k fp = 0) ∧ place = some k ∧ HasRoom table k guess then 1 else 0
  clean : outcome.2.Clean

theorem slotOf_window {fp : UInt64} : (table.window k).slotOf fp = none ↔ table.holders k fp = 0 := by
  rw [FailWindow.slotOf_eq_none_iff, holders_window]

namespace PlainAdmit

theorem told (plain : PlainAdmit table k (table.window k) guess outcome) :
    outcome.1 = if HasRoom table k guess then .ok k else .error 1 := by
  cases plain with
  | shared fp i same found =>
      have held : 0 < table.holders k fp := by
        rw [Nat.pos_iff_ne_zero, ne_eq, ← slotOf_window, found]
        exact nofun
      rw [if_pos (.inl ⟨fp, same, held⟩)]
  | spent absent full =>
      rw [if_neg]
      rintro (⟨fp, named, held⟩ | room)
      · rw [Option.mem_def.mp named, Option.bind_some, slotOf_window] at absent
        exact absurd absent held.ne'
      · exact absurd full (Nat.not_le.mpr room)
  | reserved fp i _ _ room => rw [if_pos (.inr room)]
  | dropped _ idle => rw [if_pos (.inr (idle.trans_lt (by decide)))]
  | passed _ room => rw [if_pos (.inr room)]
  | unseen _ room => rw [if_pos (.inr room)]

theorem clean (plain : PlainAdmit table k (table.window k) guess outcome)
    (clean : table.Clean) : outcome.2.Clean := by
  cases plain with
  | shared fp i _ found => exact clean.set ((clean k).share found)
  | spent => exact clean.set (clean k)
  | reserved fp i _ absent => exact clean.set ((clean k).reserve absent)
  | dropped => exact clean.remove
  | passed => exact clean.set (clean k)
  | unseen => exact clean

/-- A guess that no slot holds takes one where there is room. -/
theorem inFlight (plain : PlainAdmit table k (table.window k) guess outcome) (other : ThrottleKey) :
    (outcome.2.window other).inFlight = (table.window other).inFlight +
      if (∃ fp ∈ guess, table.holders other fp = 0) ∧ some k = some other ∧
        HasRoom table other guess then 1 else 0 := by
  have untouched (v : FailWindow) (same : v.inFlight = (table.window k).inFlight) :
      ((table.set k v).window other).inFlight = (table.window other).inFlight := by
    rw [ThrottleTable.window_set]
    split
    next mine => rw [mine, same]
    next => rfl
  have guessless : ¬∃ fp ∈ (none : Option UInt64), table.holders other fp = 0 := by
    rintro ⟨fp, named, _⟩
    cases named
  cases plain with
  | shared fp i same found =>
      rw [untouched _ (FailWindow.inFlight_share found), if_neg, Nat.add_zero]
      rintro ⟨⟨fp', named, unheld⟩, mine, _⟩
      obtain rfl := Option.some.inj mine
      obtain rfl := Option.some.inj (same.symm.trans named)
      rw [slotOf_window.mpr unheld] at found
      cases found
  | spent absent full =>
      rw [untouched _ rfl, if_neg, Nat.add_zero]
      rintro ⟨⟨fp, named, unheld⟩, mine, room⟩
      obtain rfl := Option.some.inj mine
      obtain ⟨fp', named', held⟩ | room := room
      · obtain rfl := Option.mem_unique named named'
        exact absurd unheld held.ne'
      · exact absurd full (Nat.not_le.mpr room)
  | reserved fp i same absent room free =>
      subst same
      rw [ThrottleTable.window_set]
      by_cases mine : other = k
      · subst mine
        rw [if_pos rfl, if_pos ⟨⟨fp, rfl, slotOf_window.mp absent⟩, rfl, .inr room⟩,
          FailWindow.inFlight_reserve free]
      · rw [if_neg mine, if_neg fun all => mine (Option.some.inj all.2.1).symm, Nat.add_zero]
  | dropped same idle =>
      subst same
      rw [ThrottleTable.window_remove]
      split
      next mine => rw [if_neg fun all => guessless all.1, Nat.add_zero, mine, idle, FailWindow.empty_inFlight]
      next => rw [if_neg fun all => guessless all.1, Nat.add_zero]
  | passed same =>
      subst same
      rw [untouched _ rfl, if_neg fun all => guessless all.1, Nat.add_zero]
  | unseen same =>
      subst same
      rw [if_neg fun all => guessless all.1, Nat.add_zero]

end PlainAdmit

theorem admitAt_admits (positive : 0 < cooldownMs) (clean : table.Clean) :
    Admits cooldownMs table (table.placed cooldownMs ip nowMs) guess
      (admitAt cooldownMs table ip guess nowMs) := by
  cases place : table.placed cooldownMs ip nowMs with
  | none =>
      rw [admit_unplaced positive place]
      exact ⟨rfl, fun k fp => by simp, fun k => by simp, clean.swept⟩
  | some key =>
      have plain : PlainAdmit (table.swept cooldownMs ip nowMs) key
          ((table.swept cooldownMs ip nowMs).window key) guess (admitAt cooldownMs table ip guess nowMs) :=
        plain_admit positive clean place
      have takes : Takes table (admitAt cooldownMs table ip guess nowMs).2 guess
        (admitAt cooldownMs table ip guess nowMs).1 := admitAt_takes positive
      have told := plain.told
      have counts := plain.inFlight
      simp only [hasRoom_swept, ThrottleTable.inFlight_swept, ThrottleTable.holders_swept] at told counts
      refine ⟨told, fun k fp => ?_, counts, plain.clean clean.swept⟩
      rw [told] at takes
      split at takes
      next room =>
        rw [takes k fp]
        by_cases mine : key = k
        · subst mine
          simp [room]
        · simp [mine]
      next spent =>
        rw [takes k fp, if_neg, Nat.add_zero]
        rintro ⟨_, mine, room⟩
        exact spent (Option.some.inj mine ▸ room)

/-- A release without a failure frees the slot of its last holder. -/
theorem plain_release (cooldownMs nowMs : ℕ) (key : ThrottleKey) (fp : UInt64)
    (clean : table.Clean) (other : ThrottleKey) :
    ((releaseAt cooldownMs table key fp false nowMs).window other).inFlight +
      (if other = key ∧ table.holders key fp = 1 then 1 else 0) = (table.window other).inFlight ∧
    (releaseAt cooldownMs table key fp false nowMs).Clean := by
  unfold releaseAt
  split
  next untracked =>
    rw [ThrottleTable.holders_none untracked]
    exact ⟨by simp, clean⟩
  next w found =>
    have fresh := clean key
    rw [ThrottleTable.window_of_lookup found] at fresh
    rw [ThrottleTable.holders_some found]
    split
    next absent =>
      rw [FailWindow.slotOf_eq_none_iff.mp absent]
      exact ⟨by simp, clean⟩
    next i slot =>
      dsimp only
      have unfailed : ((w.letGo i false).pending i).failed = false := (fresh.letGo slot).unfailed i
      rw [if_pos (by simp [unfailed])]
      refine ⟨?_, clean.set (fresh.letGo slot)⟩
      rw [ThrottleTable.window_set, ← fresh.refs_eq slot]
      by_cases mine : other = key
      · have freed := FailWindow.inFlight_letGo false slot
        rw [if_pos mine, mine, ThrottleTable.window_of_lookup found]
        simpa using freed
      · rw [if_neg mine, if_neg fun both => mine both.1, Nat.add_zero]

end Admit

/-! ### The two runs -/

section Shadow
variable {cooldownMs nowMs n : ℕ} {c : UInt64} {right wrong : Probing} {guess : Option UInt64}
variable {ip : IpAddr} {key : ThrottleKey} {authenticates : UInt64 → Bool} {calls : ℕ → Probe}

/-- The attempts of one request in the two runs. -/
inductive SameAttempt (c : UInt64) : Option LoginAttempt → Option LoginAttempt → Prop where
  | none : SameAttempt c none none
  | other (key : ThrottleKey) (guess : Option UInt64) : guess ≠ some c →
      SameAttempt c (some ⟨key, guess⟩) (some ⟨key, guess⟩)
  | probed (key key' : ThrottleKey) : SameAttempt c (some ⟨key, .none⟩) (some ⟨key', some c⟩)

/-- The run where `c` is wrong holds its slots besides what the other run holds. -/
structure Shadow (c : UInt64) (right wrong : Probing) : Prop where
  holders : ∀ k fp, fp ≠ c → right.table.holders k fp = wrong.table.holders k fp
  unheld : ∀ k, right.table.holders k c = 0
  inFlight : ∀ k, (wrong.table.window k).inFlight = (right.table.window k).inFlight +
    if 0 < wrong.table.holders k c then 1 else 0
  cleanRight : right.table.Clean
  cleanWrong : wrong.table.Clean
  attempts : ∀ i, SameAttempt c (right.attempts i) (wrong.attempts i)

/-- A request under the network `key` for which the slot of `c` is the one that fills
the budget. -/
def Decisive (c : UInt64) (table : ThrottleTable) (key : ThrottleKey) (guess : Option UInt64) : Prop :=
  0 < table.holders key c ∧ loginFailLimit ≤ (table.window key).inFlight ∧
    ∀ fp ∈ guess, table.holders key fp = 0

/-- The right run has room wherever the wrong one has, and only a decisive request
tells them apart. -/
theorem Shadow.room_other (shadow : Shadow c right wrong) (other : guess ≠ some c) :
    HasRoom right.table key guess ↔
      HasRoom wrong.table key guess ∨ Decisive c wrong.table key guess := by
  have counts := shadow.inFlight key
  have bound := FailWindow.inFlight_le (wrong.table.window key)
  have shared (fp : UInt64) (named : fp ∈ guess) :
      right.table.holders key fp = wrong.table.holders key fp :=
    shadow.holders key fp fun same => other (same ▸ named)
  constructor
  · rintro (⟨fp, named, held⟩ | room)
    · exact .inl (.inl ⟨fp, named, shared fp named ▸ held⟩)
    · by_cases held : ∃ fp ∈ guess, 0 < wrong.table.holders key fp
      · exact .inl (.inl held)
      by_cases full : loginFailLimit ≤ (wrong.table.window key).inFlight
      · refine .inr ⟨?_, full, fun fp named => ?_⟩
        · split at counts
          next marked => exact marked
          next => omega
        · by_contra some
          exact held ⟨fp, named, Nat.pos_of_ne_zero some⟩
      · exact .inl (.inr (Nat.not_le.mp full))
  · rintro ((⟨fp, named, held⟩ | room) | ⟨marked, _, _⟩)
    · exact .inl ⟨fp, named, (shared fp named).symm ▸ held⟩
    · exact .inr (by omega)
    · rw [if_pos marked] at counts
      exact .inr (by omega)

/-- A request with `c` itself is answered alike. -/
theorem Shadow.room_same (shadow : Shadow c right wrong) :
    HasRoom right.table key none ↔ HasRoom wrong.table key (some c) := by
  have counts := shadow.inFlight key
  have bound := FailWindow.inFlight_le (wrong.table.window key)
  constructor
  · rintro (⟨fp, named, _⟩ | room)
    · cases named
    · split at counts
      next marked => exact .inl ⟨c, rfl, marked⟩
      next => exact .inr (by omega)
  · rintro (⟨fp, named, held⟩ | room)
    · cases named
      rw [if_pos held] at counts
      exact .inr (by omega)
    · exact .inr (by omega)

/-- One admission in each run, of a request with `c` or of the same other guess, which
counts under the same network. -/
theorem Shadow.attempt {guessRight guessWrong : Option UInt64} {outRight outWrong : Admission × ThrottleTable}
    {place : Option ThrottleKey} (shadow : Shadow c right wrong)
    (inRight : Admits cooldownMs right.table place guessRight outRight)
    (inWrong : Admits cooldownMs wrong.table place guessWrong outWrong)
    (guesses : guessRight = none ∧ guessWrong = some c ∨ guessRight = guessWrong ∧
      guessWrong ≠ some c ∧ ∀ key ∈ place, ¬Decisive c wrong.table key guessWrong) :
    outRight.1 = outWrong.1 ∧ ∀ attemptsRight attemptsWrong,
      (∀ i, SameAttempt c (attemptsRight i) (attemptsWrong i)) →
      Shadow c ⟨outRight.2, attemptsRight⟩ ⟨outWrong.2, attemptsWrong⟩ := by
  have rooms (key : ThrottleKey) (here : place = some key) :
      HasRoom right.table key guessRight ↔ HasRoom wrong.table key guessWrong := by
    obtain ⟨rfl, rfl⟩ | ⟨rfl, other, spared⟩ := guesses
    · exact shadow.room_same
    · rw [shadow.room_other other]
      exact or_iff_left (spared key here)
  have agrees (key : ThrottleKey) (fp : UInt64) (other : fp ≠ c) :
      outRight.2.holders key fp = outWrong.2.holders key fp := by
    rw [inRight.holders, inWrong.holders, shadow.holders key fp other]
    obtain ⟨rfl, rfl⟩ | ⟨rfl, _⟩ := guesses
    · simp [Ne.symm other]
    · by_cases here : place = some key
      · simp only [rooms key here]
      · simp only [here, false_and, and_false]
  have unheld (key : ThrottleKey) : outRight.2.holders key c = 0 := by
    rw [inRight.holders, shadow.unheld, if_neg]
    rintro ⟨named, _⟩
    obtain ⟨rfl, rfl⟩ | ⟨rfl, other, _⟩ := guesses
    · cases named
    · exact other named
  have counts (key : ThrottleKey) : (outWrong.2.window key).inFlight = (outRight.2.window key).inFlight +
      if 0 < outWrong.2.holders key c then 1 else 0 := by
    have before := shadow.inFlight key
    rw [inRight.inFlight, inWrong.inFlight, inWrong.holders]
    by_cases here : place = some key
    · obtain ⟨rfl, rfl⟩ | ⟨rfl, other, spared⟩ := guesses
      · by_cases room : HasRoom wrong.table key (some c)
        · by_cases marked : 0 < wrong.table.holders key c
          · simp [room, marked, marked.ne'] at before ⊢
            exact before
          · simp [room, here, Nat.eq_zero_of_not_pos marked] at before ⊢
            exact before
        · simp [room] at before ⊢
          exact before
      · have unshared : (∃ fp ∈ guessRight, right.table.holders key fp = 0) ↔
            ∃ fp ∈ guessRight, wrong.table.holders key fp = 0 := by
          refine exists_congr fun fp => and_congr_right fun named => ?_
          rw [shadow.holders key fp fun mine => other (mine ▸ named)]
        simp only [unshared, rooms key here, other, before, false_and, if_false, Nat.add_zero]
        omega
    · simp only [here, false_and, and_false, if_false, Nat.add_zero]
      exact before
  refine ⟨?_, fun attemptsRight attemptsWrong same =>
    ⟨agrees, unheld, counts, inRight.clean, inWrong.clean, same⟩⟩
  rw [inRight.told, inWrong.told]
  cases place with
  | none => rfl
  | some key => simp only [rooms key rfl]

theorem release_holders {table : ThrottleTable} {key k : ThrottleKey} {fp other : UInt64} :
    (releaseAt cooldownMs table key fp false nowMs).holders k other =
      table.holders k other - if k = key ∧ other = fp then 1 else 0 := by
  by_cases held : 0 < table.holders key fp
  · have gives : (releaseAt cooldownMs table key fp false nowMs).holders k other +
        (if (⟨k, some other⟩ : LoginAttempt) = ⟨key, some fp⟩ then 1 else 0) = table.holders k other :=
      releaseAt_gives held k other
    simp only [LoginAttempt.mk.injEq, Option.some.injEq] at gives
    omega
  · have unheld := Nat.eq_zero_of_not_pos held
    have unchanged : releaseAt cooldownMs table key fp false nowMs = table := by
      unfold releaseAt
      split
      · rfl
      next w found =>
        rw [ThrottleTable.holders_some found] at unheld
        rw [FailWindow.slotOf_eq_none_iff.mpr unheld]
    rw [unchanged]
    split
    next mine => rw [mine.1, mine.2, unheld]
    next => rfl

/-- The same request ends in each run. -/
theorem Shadow.settle (shadow : Shadow c right wrong) (i : ℕ) :
    Shadow c (right.step cooldownMs (whereRight authenticates c) n (.settle i nowMs))
      (wrong.step cooldownMs (whereWrong authenticates c) n (.settle i nowMs)) := by
  have attempts (a b : Option LoginAttempt) (same : SameAttempt c a b) (j : ℕ) :
      SameAttempt c (Function.update right.attempts i a j) (Function.update wrong.attempts i b j) := by
    by_cases mine : j = i
    · rw [mine, Function.update_self, Function.update_self]
      exact same
    · rw [Function.update_of_ne mine, Function.update_of_ne mine]
      exact shadow.attempts j
  have same := shadow.attempts i
  simp only [Probing.step]
  generalize right.attempts i = a at same ⊢
  generalize wrong.attempts i = b at same ⊢
  cases same with
  | none => exact shadow
  | other key guess other =>
      cases guess with
      | none => exact { shadow with attempts := attempts _ _ .none }
      | some fp =>
          have other : fp ≠ c := fun same => other (congrArg some same)
          have plainRight := plain_release cooldownMs nowMs key fp shadow.cleanRight
          have plainWrong := plain_release cooldownMs nowMs key fp shadow.cleanWrong
          refine ⟨fun k fp' distinct => ?_, fun k => ?_, fun k => ?_,
            (plainRight key).2, (plainWrong key).2, attempts _ _ .none⟩
          · dsimp only
            rw [release_holders, release_holders, shadow.holders k fp' distinct]
          · dsimp only
            rw [release_holders, shadow.unheld, Nat.zero_sub]
          · dsimp only
            have before := shadow.inFlight k
            have freedRight := (plainRight k).1
            have freedWrong := (plainWrong k).1
            rw [shadow.holders key fp other] at freedRight
            have kept : (releaseAt cooldownMs wrong.table key fp false nowMs).holders k c =
                wrong.table.holders k c := by
              rw [release_holders, if_neg fun mine => other mine.2.symm, Nat.sub_zero]
            rw [kept]
            omega
  | probed key key' =>
      have plainWrong := plain_release cooldownMs nowMs key' c shadow.cleanWrong
      refine ⟨fun k fp distinct => ?_, shadow.unheld, fun k => ?_,
        shadow.cleanRight, (plainWrong key').2, attempts _ _ .none⟩
      · dsimp only
        rw [release_holders, if_neg fun mine => distinct mine.2, Nat.sub_zero]
        exact shadow.holders k fp distinct
      · dsimp only
        have before := shadow.inFlight k
        have freed := (plainWrong k).1
        rw [release_holders]
        by_cases mine : k = key'
        · subst mine
          simp only [and_self, if_true, true_and] at freed ⊢
          split at before <;> split at freed <;> split <;> omega
        · simp only [mine, false_and, if_false, Nat.add_zero, Nat.sub_zero] at freed ⊢
          rw [freed]
          exact before

/-! ### Both runs -/

/-- The right and the wrong run count a request under the same network. -/
def PlacedAlike (cooldownMs : ℕ) (right wrong : ThrottleTable) : Probe → Prop
  | .ask ip _ _ nowMs => right.placed cooldownMs ip nowMs = wrong.placed cooldownMs ip nowMs
  | .settle _ _ => True

/-- A request, not with `c`, for which the slot of `c` is the one that fills the budget. -/
def DecidedBy (cooldownMs : ℕ) (authenticates : UInt64 → Bool) (c : UInt64) (wrong : ThrottleTable) :
    Probe → Prop
  | .ask ip cred unchecked nowMs =>
    guessOf (whereWrong authenticates c) cred unchecked ≠ some c ∧
      ∃ key ∈ wrong.placed cooldownMs ip nowMs,
        Decisive c wrong key (guessOf (whereWrong authenticates c) cred unchecked)
  | .settle _ _ => False

/-- The entry of `c` does not move the `n`-th call to another network. -/
def PlacedAlikeAt (cooldownMs : ℕ) (authenticates : UInt64 → Bool) (c : UInt64) (calls : ℕ → Probe)
    (n : ℕ) : Prop :=
  PlacedAlike cooldownMs (probing cooldownMs (whereRight authenticates c) calls n).table
    (probing cooldownMs (whereWrong authenticates c) calls n).table (calls n)

def DecisiveAt (cooldownMs : ℕ) (authenticates : UInt64 → Bool) (c : UInt64) (calls : ℕ → Probe)
    (n : ℕ) : Prop :=
  DecidedBy cooldownMs authenticates c (probing cooldownMs (whereWrong authenticates c) calls n).table
    (calls n)

theorem guessOf_cases (authenticates : UInt64 → Bool) (c cred : UInt64) (unchecked : Bool) :
    (cred = c ∧ unchecked = false ∧ guessOf (whereRight authenticates c) cred unchecked = none ∧
      guessOf (whereWrong authenticates c) cred unchecked = some c) ∨
    (¬(cred = c ∧ unchecked = false) ∧ guessOf (whereRight authenticates c) cred unchecked =
        guessOf (whereWrong authenticates c) cred unchecked ∧
      guessOf (whereWrong authenticates c) cred unchecked ≠ some c) := by
  unfold guessOf whereRight whereWrong
  by_cases mine : cred = c
  · subst mine
    cases unchecked <;> simp
  · right
    rw [Function.update_of_ne mine, Function.update_of_ne mine]
    refine ⟨fun both => mine both.1, rfl, ?_⟩
    split
    · exact fun same => mine (Option.some.inj same)
    · exact nofun

/-- One call in both runs. -/
theorem Shadow.step (authenticates : UInt64 → Bool) (n : ℕ) (positive : 0 < cooldownMs)
    (shadow : Shadow c right wrong) (call : Probe)
    (alike : PlacedAlike cooldownMs right.table wrong.table call)
    (spared : ¬DecidedBy cooldownMs authenticates c wrong.table call) :
    Shadow c (right.step cooldownMs (whereRight authenticates c) n call)
      (wrong.step cooldownMs (whereWrong authenticates c) n call) ∧
    right.answer cooldownMs (whereRight authenticates c) call =
      wrong.answer cooldownMs (whereWrong authenticates c) call := by
  cases call with
  | settle i nowMs => exact ⟨shadow.settle i, rfl⟩
  | ask ip cred unchecked nowMs =>
      have guesses := guessOf_cases authenticates c cred unchecked
      simp only [DecidedBy, not_and, not_exists] at spared
      simp only [Probing.step, Probing.answer]
      generalize guessOf (whereRight authenticates c) cred unchecked = guessRight at *
      generalize guessOf (whereWrong authenticates c) cred unchecked = guessWrong at *
      have either : guessRight = none ∧ guessWrong = some c ∨ guessRight = guessWrong ∧
          guessWrong ≠ some c ∧ ∀ key ∈ wrong.table.placed cooldownMs ip nowMs,
            ¬Decisive c wrong.table key guessWrong := by
        obtain ⟨_, _, right, wrong⟩ | ⟨_, same, other⟩ := guesses
        · exact .inl ⟨right, wrong⟩
        · exact .inr ⟨same, other, spared other⟩
      have named (key : ThrottleKey) : SameAttempt c (some ⟨key, guessRight⟩) (some ⟨key, guessWrong⟩) := by
        obtain ⟨rfl, rfl⟩ | ⟨rfl, other, _⟩ := either
        · exact .probed key key
        · exact .other key guessRight other
      have inRight : Admits cooldownMs right.table (right.table.placed cooldownMs ip nowMs) guessRight
          (admitAt cooldownMs right.table ip guessRight nowMs) :=
        admitAt_admits positive shadow.cleanRight
      rw [show right.table.placed cooldownMs ip nowMs = wrong.table.placed cooldownMs ip nowMs from
        alike] at inRight
      obtain ⟨told, after⟩ := shadow.attempt inRight (admitAt_admits positive shadow.cleanWrong) either
      generalize admitAt cooldownMs right.table ip guessRight nowMs = outRight at *
      generalize admitAt cooldownMs wrong.table ip guessWrong nowMs = outWrong at *
      obtain ⟨answerRight, tableRight⟩ := outRight
      obtain ⟨answerWrong, tableWrong⟩ := outWrong
      obtain rfl : answerRight = answerWrong := told
      cases answerRight with
      | error => exact ⟨after _ _ shadow.attempts, rfl⟩
      | ok key =>
          refine ⟨after _ _ fun i => ?_, rfl⟩
          by_cases mine : i = n
          · rw [mine, Function.update_self, Function.update_self]
            exact named key
          · rw [Function.update_of_ne mine, Function.update_of_ne mine]
            exact shadow.attempts i

/-- A decisive request is admitted in one run and refused in the other. -/
theorem Shadow.told_apart (positive : 0 < cooldownMs) (shadow : Shadow c right wrong) (call : Probe)
    (alike : PlacedAlike cooldownMs right.table wrong.table call)
    (decided : DecidedBy cooldownMs authenticates c wrong.table call) :
    right.answer cooldownMs (whereRight authenticates c) call ≠
      wrong.answer cooldownMs (whereWrong authenticates c) call := by
  cases call with
  | settle i nowMs => exact decided.elim
  | ask ip cred unchecked nowMs =>
      obtain ⟨other, key, place, decisive⟩ := decided
      have same : guessOf (whereRight authenticates c) cred unchecked =
          guessOf (whereWrong authenticates c) cred unchecked := by
        obtain ⟨_, _, _, mine⟩ | ⟨_, same, _⟩ := guessOf_cases authenticates c cred unchecked
        · exact absurd mine other
        · exact same
      simp only [Probing.answer, same]
      generalize guessOf (whereWrong authenticates c) cred unchecked = guess at *
      have inRight : Admits cooldownMs right.table (right.table.placed cooldownMs ip nowMs) guess
          (admitAt cooldownMs right.table ip guess nowMs) := admitAt_admits positive shadow.cleanRight
      have inWrong : Admits cooldownMs wrong.table (wrong.table.placed cooldownMs ip nowMs) guess
          (admitAt cooldownMs wrong.table ip guess nowMs) := admitAt_admits positive shadow.cleanWrong
      have admitted := inRight.told
      have refused := inWrong.told
      rw [show right.table.placed cooldownMs ip nowMs = wrong.table.placed cooldownMs ip nowMs from
        alike, Option.mem_def.mp place] at admitted
      rw [Option.mem_def.mp place] at refused
      have spent : ¬HasRoom wrong.table key guess := by
        rintro (⟨fp, named, held⟩ | room)
        · exact absurd (decisive.2.2 fp named) held.ne'
        · exact absurd decisive.2.1 (Nat.not_le.mpr room)
      dsimp only at admitted refused
      rw [if_pos ((shadow.room_other other).mpr (.inr decisive))] at admitted
      rw [if_neg spent] at refused
      rw [admitted, refused]
      exact nofun

theorem shadow_empty : Shadow c ⟨.empty, fun _ => none⟩ ⟨.empty, fun _ => none⟩ where
  holders _ _ _ := rfl
  unheld _ := rfl
  inFlight _ := rfl
  cleanRight _ := FailWindow.clean_empty
  cleanWrong _ := FailWindow.clean_empty
  attempts _ := .none

/-- As long as the entry of `c` decides nothing, one run shadows the other. -/
theorem probing_shadow (positive : 0 < cooldownMs)
    (alike : ∀ m < n, PlacedAlikeAt cooldownMs authenticates c calls m)
    (spared : ∀ m < n, ¬DecisiveAt cooldownMs authenticates c calls m) :
    Shadow c (probing cooldownMs (whereRight authenticates c) calls n)
      (probing cooldownMs (whereWrong authenticates c) calls n) := by
  induction n with
  | zero => exact shadow_empty
  | succ n ih =>
      have before := ih (fun m earlier => alike m (Nat.lt_succ_of_lt earlier)) fun m earlier =>
        spared m (Nat.lt_succ_of_lt earlier)
      exact (before.step authenticates n positive (calls n) (alike n (Nat.lt_succ_self n))
        (spared n (Nat.lt_succ_self n))).1

theorem disabled (authenticates : UInt64 → Bool) (calls : ℕ → Probe) (n : ℕ) :
    (probing 0 authenticates calls n).table = .empty := by
  induction n with
  | zero => rfl
  | succ n ih =>
      rw [probing]
      generalize probing 0 authenticates calls n = s at ih ⊢
      cases calls n with
      | ask ip cred unchecked nowMs => simp only [Probing.step, admitAt, if_true, ih]
      | settle i nowMs =>
          simp only [Probing.step]
          split
          · exact ih
          · rw [ih]
            rfl
          · exact ih

/-- As long as the entry of `c` moves no request to another network, the answers are the
same whether `c` is right or wrong just when no other request finds a budget that the
slot of `c` has filled. -/
theorem login_throttle_oracle (n : ℕ)
    (alike : ∀ m < n, PlacedAlikeAt cooldownMs authenticates c calls m) :
    (∀ m < n, answers cooldownMs (whereRight authenticates c) calls m =
      answers cooldownMs (whereWrong authenticates c) calls m) ↔
    ∀ m < n, ¬DecisiveAt cooldownMs authenticates c calls m := by
  obtain rfl | positive := Nat.eq_zero_or_pos cooldownMs
  · refine ⟨fun _ m _ decided => ?_, fun _ m _ => ?_⟩
    · unfold DecisiveAt at decided
      rw [disabled] at decided
      cases called : calls m with
      | settle i nowMs =>
          rw [called] at decided
          exact decided
      | ask ip cred unchecked nowMs =>
          rw [called] at decided
          obtain ⟨_, key, _, held, _⟩ := decided
          exact absurd held (Nat.lt_irrefl 0)
    · unfold answers
      cases calls m with
      | ask ip cred unchecked nowMs => simp only [Probing.answer, admitAt, if_true]
      | settle i nowMs => rfl
  constructor
  · intro same m
    induction m using Nat.strong_induction_on with
    | _ m spared =>
      intro before decided
      have shadow : Shadow c (probing cooldownMs (whereRight authenticates c) calls m)
          (probing cooldownMs (whereWrong authenticates c) calls m) :=
        probing_shadow positive (fun i earlier => alike i (earlier.trans before))
          fun i earlier => spared i earlier (earlier.trans before)
      exact shadow.told_apart positive (calls m) (alike m before) decided (same m before)
  · intro spared m before
    have shadow : Shadow c (probing cooldownMs (whereRight authenticates c) calls m)
        (probing cooldownMs (whereWrong authenticates c) calls m) :=
      probing_shadow positive (fun i earlier => alike i (earlier.trans before))
        fun i earlier => spared i (earlier.trans before)
    exact (shadow.step authenticates m positive (calls m) (alike m before) (spared m before)).2

end Shadow

/-! ### Probes that tell -/

def probeIp : IpAddr := .v4 0xcb007109#32

/-- Four wrong credentials hang, then `c`, then a fifth wrong one and `c` again. -/
def tellingProbes (n : ℕ) : Probe := .ask probeIp ([1, 2, 3, 4, 9, 5, 9].getD n 9) false 1000

theorem telling_right : answers 300000 (whereRight (fun _ => false) 9) tellingProbes 6 =
    some (.error 1) := by decide +kernel

theorem telling_wrong : answers 300000 (whereWrong (fun _ => false) 9) tellingProbes 6 =
    some (.ok ()) := by decide +kernel

/-- Concurrent probes reveal whether a credential is right. -/
theorem login_throttle_tells : ¬∀ (cooldownMs : ℕ) (authenticates : UInt64 → Bool) (c : UInt64)
    (calls : ℕ → Probe) (n : ℕ), answers cooldownMs (whereRight authenticates c) calls n =
      answers cooldownMs (whereWrong authenticates c) calls n := by
  intro alike
  have same := alike 300000 (fun _ => false) 9 tellingProbes 6
  rw [telling_right, telling_wrong] at same
  cases same

/-- Three wrong credentials hang with `c`, which comes back, as does one of them, and a
right one. -/
def quietProbes (n : ℕ) : Probe := .ask probeIp ([1, 2, 3, 9, 9, 2, 7].getD n 7) false 1000

theorem quietProbes_tell_nothing :
    (List.range 7).map (answers 300000 (whereRight (fun cred => cred = 7) 9) quietProbes) =
      (List.range 7).map (answers 300000 (whereWrong (fun cred => cred = 7) 9) quietProbes) := by
  have alike : ∀ m < 7, PlacedAlikeAt 300000 (fun cred => cred = 7) 9 quietProbes m := by
    unfold PlacedAlikeAt PlacedAlike quietProbes
    decide +kernel
  have quiet : ∀ m < 7, ¬DecisiveAt 300000 (fun cred => cred = 7) 9 quietProbes m := by
    unfold DecisiveAt DecidedBy Decisive quietProbes
    decide +kernel
  refine List.map_congr_left fun n member => ?_
  exact (login_throttle_oracle 7 alike).mpr quiet n (List.mem_range.mp member)

end Pypiron.Throttle
