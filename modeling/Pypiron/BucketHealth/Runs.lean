import Pypiron.BucketHealth.Safety

/-! Health controller safety over every run. -/
namespace Pypiron.Health
variable {n : ℕ}

/-- Each move is a clock reading and what happened at it. -/
structure HealthMoves (n : ℕ) where
  start : ControllerState n
  moves : List (ℕ × Event n)

namespace HealthMoves
variable (run : HealthMoves n)

/-- The state before move `k`. -/
def state : ℕ → ControllerState n
  | 0 => run.start
  | k + 1 =>
    match run.moves[k]? with
    | some (now, event) => event.apply now (state k)
    | none => state k

def Ticks (k : ℕ) : Prop := ∃ now caughtUp, run.moves[k]? = some (now, .tick caughtUp)

/-- Move `k` is a tick whose snapshot hands `index` to the worker. -/
def Lists (k : ℕ) (index : Fin n) : Prop := ∃ now caughtUp,
  run.moves[k]? = some (now, .tick caughtUp) ∧
    index ∈ ((run.state k).workerTickAt now caughtUp).2.topologyRevalidation

/-- Move `k` acknowledges a check that the snapshot of tick `j` asked for, with no
later tick between them. -/
def Clears (j k : ℕ) (index : Fin n) : Prop :=
  j < k ∧ run.Lists j index ∧ (∃ now, run.moves[k]? = some (now, .checkPassed index)) ∧
    ∀ m, j < m → m < k → ¬run.Ticks m

/-- Move `k` is the first success of a bucket that was not healthy. -/
def Recovers (k : ℕ) (index : Fin n) : Prop := ∃ now signal,
  run.moves[k]? = some (now, .observe index signal) ∧ classify signal = .healthy ∧
    ((run.state k).health.buckets index).state ≠ .healthy

def Fails (k : ℕ) (index : Fin n) : Prop := ∃ now signal,
  run.moves[k]? = some (now, .observe index signal) ∧ classify signal = .availabilityFailure

end HealthMoves

/-- A controller that serves after some startup, under a clock that never goes back
and one worker that finishes the checks of a snapshot before its next tick. -/
structure HealthRun (n : ℕ) extends HealthMoves n where
  started : Started start
  timely : ∀ {j k earlier later : ℕ} {e f : Event n}, moves[j]? = some (earlier, e) →
    moves[k]? = some (later, f) → j ≤ k → earlier ≤ later
  checked : ∀ {k now target : ℕ}, moves[k]? = some (now, .checkPassed target) →
    ∃ j index, index.val = target ∧ toHealthMoves.Clears j k index

namespace HealthMoves
variable (run : HealthMoves n)

/-- At move `k` the bucket's return window is complete: it is usable, its healthy
clock covers the window, and at every move inside the window it was `good` and did
not fail. -/
def WindowServed (good : BucketStatus → Prop) (k now : ℕ) (index : Fin n) : Prop :=
  let health := (run.state (k + 1)).health
  health.usable index ∧
    (∃ since, (health.buckets index).healthySince = some since ∧
      health.policy.returnAfterHealthy ≤ now - since) ∧
    ∀ j, j ≤ k → ∀ then_ event, run.moves[j]? = some (then_, event) →
      now < then_ + health.policy.returnAfterHealthy →
      good ((run.state j).health.buckets index) ∧ ¬run.Fails j index

/-- The write selection leaves a bucket only when it is unhealthy, or at a tick when
it is not usable, or for a better one that served its window. -/
def LeavesSafely (good : BucketStatus → Prop) : Prop :=
  ∀ k now event, run.moves[k]? = some (now, event) →
    let health := (run.state (k + 1)).health
    let previous := (run.state k).health.selected
    health.selected ≠ previous →
    (health.buckets previous).state = .unhealthy ∨
      (run.Ticks k ∧ ¬health.usable previous) ∨
      (health.selected < previous ∧ run.WindowServed good k now health.selected)

def TicksUsable : Prop := ∀ k, run.Ticks k →
  (∃ index, (run.state (k + 1)).health.usable index) →
    (run.state (k + 1)).health.usable (run.state (k + 1)).health.selected

def PinsUsable : Prop := (∀ k, PinUsable (run.state k).health) ∧
  ∀ k, (run.state k).health.readPin ≠ .earned → (run.state (k + 1)).health.readPin = .earned →
    ∃ now, run.moves[k]? = some (now, .tick true)

/-- A recovered bucket is out until a check listed after the recovery passes. -/
def RecoversChecked : Prop := ∀ r k index, run.Recovers r index → r < k →
  (run.state k).health.usable index →
    ∃ j m, r < j ∧ m < k ∧ run.Clears j m index

/-- A switch goes out only to the current selection, and only while it is usable. -/
def PublishesSafely : Prop := ∀ k dest,
  (((run.state k).applySelection dest).isSome →
    dest = (run.state k).health.selected ∧ (run.state k).health.usable dest) ∧
  (((run.state k).applyReadSelection dest).isSome →
    dest = (run.state k).health.readIndex ∧ (run.state k).health.usable dest)

end HealthMoves

/-- What an event says to the write selection. -/
def Event.blind : Event n → Option (Event n)
  | tick _ => some (.tick false)
  | publishRead _ => none
  | event => some event

def blindMoves (moves : List (ℕ × Event n)) : List (ℕ × Event n) :=
  moves.filterMap fun move => move.2.blind.map fun event => (move.1, event)

/-- The write selection after each move that is not about reads. -/
def selections (state : ControllerState n) : List (ℕ × Event n) → List (Fin n)
  | [] => []
  | (now, event) :: moves =>
    let next := event.apply now state
    match event.blind with
    | some _ => next.health.selected :: selections next moves
    | none => selections next moves

/-- Two runs that differ in region preference and caught-up inputs only. -/
def HealthMoves.SameWrites (run other : HealthMoves n) : Prop :=
  run.start.health.policy = other.start.health.policy ∧
    run.start.health.buckets = other.start.health.buckets ∧
    run.start.health.selected = other.start.health.selected ∧
    blindMoves run.moves = blindMoves other.moves

/-- The safety of the controller, with `good` the state a bucket must keep through
the window it returns after. -/
structure HealthMoves.Safe (run : HealthMoves n) (good : BucketStatus → Prop) : Prop where
  leaves : run.LeavesSafely good
  ticks : run.TicksUsable
  pins : run.PinsUsable
  recovers : run.RecoversChecked
  publishes : run.PublishesSafely
  reads : ∀ other : HealthRun n, run.SameWrites other.toHealthMoves →
    selections run.start run.moves = selections other.start other.moves

section Runs
variable (run : HealthMoves n)

theorem HealthMoves.state_some {k now : ℕ} {event : Event n}
    (move : run.moves[k]? = some (now, event)) :
    run.state (k + 1) = event.apply now (run.state k) := by
  rw [state, move]

theorem HealthMoves.state_none {k : ℕ} (done : run.moves[k]? = none) :
    run.state (k + 1) = run.state k := by
  rw [state, done]

/-- A property of the start that every event keeps holds throughout. -/
theorem HealthMoves.state_induction {P : ControllerState n → Prop} (start : P run.start)
    (step : ∀ now (event : Event n) state, P state → P (event.apply now state)) (k : ℕ) :
    P (run.state k) := by
  induction k with
  | zero => exact start
  | succ k held =>
      cases move : run.moves[k]? with
      | none =>
          rw [run.state_none move]
          exact held
      | some pair => exact run.state_some move ▸ step pair.1 pair.2 _ held

theorem HealthMoves.state_policy (k : ℕ) :
    (run.state k).health.policy = run.start.health.policy :=
  run.state_induction (P := fun state => state.health.policy = run.start.health.policy) rfl
    (fun now event state same => (event.apply_policy now state).trans same) k

end Runs

section Safety
variable (run : HealthRun n)

/-- While a bucket's healthy clock runs, it has been healthy and has not failed
since the clock started. -/
theorem HealthRun.clock_covers {k : ℕ} {index : Fin n} {since : ℕ}
    (clock : ((run.state k).health.buckets index).healthySince = some since)
    {j then_ : ℕ} {event : Event n} (before : j < k) (move : run.moves[j]? = some (then_, event))
    (inside : since < then_) :
    ((run.state j).health.buckets index).state = .healthy ∧ ¬run.Fails j index := by
  induction k with
  | zero => exact absurd before (Nat.not_lt_zero j)
  | succ k covered =>
      have healthy : ClockHealthy (run.state k) :=
        run.state_induction run.started.clockHealthy (fun now event _ => event.apply_clockHealthy now _) k
      cases next : run.moves[k]? with
      | none =>
          rw [run.state_none next] at clock
          obtain earlier | rfl := Nat.lt_succ_iff_lt_or_eq.mp before
          · exact covered clock earlier
          · rw [next] at move
            cases move
      | some pair =>
          obtain ⟨now, step⟩ := pair
          rw [run.state_some next, Event.apply_buckets] at clock
          obtain ⟨passes, ⟨running, -⟩ | ⟨rfl, -⟩⟩ := step.onBucket_clock now _ clock
          · obtain earlier | rfl := Nat.lt_succ_iff_lt_or_eq.mp before
            · exact covered running earlier
            · refine ⟨healthy index since running, ?_⟩
              rintro ⟨time, signal, observed, failed⟩
              rw [next] at observed
              cases observed
              exact passes signal rfl failed
          · -- the clock starts at this move, so nothing was after it
            have late : then_ ≤ since := run.timely move next (Nat.lt_succ_iff.mp before)
            exact absurd inside (Nat.not_lt.mpr late)

theorem HealthRun.leavesSafely : run.LeavesSafely fun bucket => bucket.state = .healthy := by
  intro k now event move health previous moved
  have step := run.state_some move
  have policy : health.policy = (run.state k).health.policy :=
    (run.state_policy (k + 1)).trans (run.state_policy k).symm
  obtain same | ⟨gone | ⟨⟨caughtUp, rfl⟩, gone⟩, -⟩ | ⟨better, served⟩ :=
    event.apply_selected now (run.state k)
  · exact absurd ((congrArg (·.health.selected) step).trans same) moved
  · refine .inl ?_
    rw [← step] at gone
    exact gone
  · refine .inr (.inl ⟨⟨now, caughtUp, move⟩, ?_⟩)
    rw [← step] at gone
    exact gone
  · rw [← step] at better served
    rw [← policy, BucketStatus.served, Bool.and_eq_true, Option.any_eq_true] at served
    obtain ⟨usable, since, clock, long⟩ := served
    have window := of_decide_eq_true long
    refine .inr (.inr ⟨better, usable, ⟨since, clock, window⟩, ?_⟩)
    intro j earlier then_ other past recent
    have ordered : then_ ≤ now := run.timely past move earlier
    have reached : now < then_ + health.policy.returnAfterHealthy := recent
    have inside : since < then_ := by
      have elapsed : health.policy.returnAfterHealthy ≤ now - since := window
      omega
    exact run.clock_covers clock (Nat.lt_succ_iff.mpr earlier) past inside

theorem HealthRun.ticksUsable : run.TicksUsable := by
  rintro k ⟨now, caughtUp, move⟩ ⟨index, usable⟩
  rw [run.state_some move] at usable ⊢
  have kept (index : Fin n) : ((Event.tick caughtUp).apply now (run.state k)).health.usable index =
      (run.state k).health.usable index := BucketStatus.handOver_usable _
  rw [kept] at usable ⊢
  exact (run.state k).health.reselect_usable now usable

theorem HealthRun.pinsUsable : run.PinsUsable := by
  have pinned (k : ℕ) : PinUsable (run.state k).health :=
    run.state_induction (P := fun state => PinUsable state.health) run.started.pinUsable
      (fun now event _ => event.apply_pinUsable now _) k
  refine ⟨pinned, fun k before earned => ?_⟩
  cases move : run.moves[k]? with
  | none =>
      rw [run.state_none move] at earned
      exact absurd earned before
  | some pair =>
      obtain ⟨now, event⟩ := pair
      rw [run.state_some move] at earned
      obtain ⟨-, held | rfl⟩ := event.apply_pin now _ (pinned k) earned
      · exact absurd held before
      · exact ⟨now, rfl⟩

/-- After a recovery a bucket under check was listed since, and a verified one
passed a check that was listed since. -/
theorem HealthRun.topology_after {r k : ℕ} {index : Fin n} (recovers : run.Recovers r index)
    (after : r < k) :
    (((run.state k).health.buckets index).topology = .checking → ∃ j, r < j ∧ j < k ∧ run.Ticks j) ∧
    (((run.state k).health.buckets index).topology = .verified →
      ∃ j m, r < j ∧ m < k ∧ run.Clears j m index) := by
  induction k, after using Nat.le_induction with
  | base =>
      obtain ⟨now, signal, move, healthy, out⟩ := recovers
      rw [run.state_some move, Event.apply_buckets, Event.onBucket, if_pos rfl, BucketHealth.absorb,
        healthy]
      dsimp only
      rw [if_pos out]
      constructor
      · intro nothing
        cases nothing
      · intro nothing
        cases nothing
  | succ k after held =>
      have longer : (∃ j, r < j ∧ j < k ∧ run.Ticks j) → ∃ j, r < j ∧ j < k + 1 ∧ run.Ticks j := by
        rintro ⟨j, later, before, ticks⟩
        exact ⟨j, later, Nat.lt_succ_of_lt before, ticks⟩
      have longer' : (∃ j m, r < j ∧ m < k ∧ run.Clears j m index) →
          ∃ j m, r < j ∧ m < k + 1 ∧ run.Clears j m index := by
        rintro ⟨j, m, later, before, clears⟩
        exact ⟨j, m, later, Nat.lt_succ_of_lt before, clears⟩
      cases move : run.moves[k]? with
      | none =>
          rw [run.state_none move]
          exact ⟨longer ∘ held.1, longer' ∘ held.2⟩
      | some pair =>
          obtain ⟨now, event⟩ := pair
          rw [run.state_some move, Event.apply_buckets]
          obtain ⟨verified, checking⟩ := event.onBucket_topology now (run.state k).health.policy
            index ((run.state k).health.buckets index)
          refine ⟨fun out => ?_, fun back => ?_⟩
          · obtain before | ⟨⟨caughtUp, rfl⟩, -⟩ := checking out
            · exact longer (held.1 before)
            · exact ⟨k, after, Nat.lt_succ_self k, now, caughtUp, move⟩
          · obtain before | ⟨rfl, before⟩ := verified back
            · exact longer' (held.2 before)
            · -- the check was handed out at the last tick, and there is one since the recovery
              obtain ⟨j, later, earlier, ticks⟩ := held.1 before
              obtain ⟨listed, other, same, clears⟩ := run.checked move
              cases Fin.ext same
              have last : ¬listed < j := fun between => clears.2.2.2 j between earlier ticks
              exact ⟨listed, k, by omega, Nat.lt_succ_self k, clears⟩

theorem HealthRun.recoversChecked : run.RecoversChecked := by
  intro r k index recovers after usable
  rw [BucketHealth.usable, BucketStatus.usable, decide_eq_true_eq] at usable
  exact (run.topology_after recovers after).2 usable.2

theorem HealthMoves.publishesSafely (moves : HealthMoves n) : moves.PublishesSafely := by
  intro k dest
  refine ⟨fun published => ?_, fun published => ?_⟩
  · rw [ControllerState.applySelection] at published
    split at published
    next current => exact ⟨current.1.symm, current.2⟩
    next => cases published
  · rw [ControllerState.applyReadSelection] at published
    split at published
    next current => exact ⟨current.1.symm, current.2⟩
    next => cases published

end Safety

section Reads

/-- Two controllers that agree on all the write selection reads. -/
structure SameSelection (state other : ControllerState n) : Prop where
  policy : state.health.policy = other.health.policy
  buckets : state.health.buckets = other.health.buckets
  selected : state.health.selected = other.health.selected

variable {state other : ControllerState n}

theorem BucketHealth.reselect_congr {health twin : BucketHealth n} {now : ℕ} {fromTick : Bool}
    (policy : health.policy = twin.policy) (buckets : health.buckets = twin.buckets)
    (selected : health.selected = twin.selected) :
    health.reselect now fromTick = twin.reselect now fromTick := by
  unfold reselect
  rw [policy, buckets, selected]

/-- The write selection after an event is the one after its blind form. -/
theorem SameSelection.apply_blind (same : SameSelection state other) (now : ℕ) {event sees : Event n}
    (blind : event.blind = some sees) :
    SameSelection (event.apply now state) (sees.apply now other) := by
  have onBucket (policy : HealthPolicy) (index : Fin n) (bucket : BucketStatus) :
      event.onBucket policy now index bucket = sees.onBucket policy now index bucket := by
    cases event with
    | publishRead dest => cases blind
    | tick caughtUp =>
        cases blind
        rfl
    | observe target signal =>
        cases blind
        rfl
    | checkPassed target =>
        cases blind
        rfl
    | publish dest =>
        cases blind
        rfl
  refine ⟨?_, funext fun index => ?_, ?_⟩
  · rw [Event.apply_policy, Event.apply_policy, same.policy]
  · rw [Event.apply_buckets, Event.apply_buckets, onBucket, same.policy, same.buckets]
  · cases event with
    | observe target signal =>
        cases blind
        by_cases inside : target < n
        · rw [Event.apply_observe now state inside, Event.apply_observe now other inside]
          refine BucketHealth.reselect_congr same.policy ?_ same.selected
          dsimp only
          rw [same.policy, same.buckets]
        · rw [Event.apply_observe_outside now state inside,
            Event.apply_observe_outside now other inside]
          exact same.selected
    | tick caughtUp =>
        cases blind
        exact BucketHealth.reselect_congr same.policy same.buckets same.selected
    | checkPassed target =>
        cases blind
        by_cases inside : target < n
        · rw [Event.apply_checkPassed now state inside, Event.apply_checkPassed now other inside]
          exact same.selected
        · rw [Event.apply_checkPassed_outside now state inside,
            Event.apply_checkPassed_outside now other inside]
          exact same.selected
    | publish dest =>
        cases blind
        rw [Event.apply_publish, Event.apply_publish]
        exact same.selected
    | publishRead dest => cases blind

theorem SameSelection.apply_publishRead (same : SameSelection state other) (now : ℕ)
    {event : Event n} (blind : event.blind = none) : SameSelection (event.apply now state) other := by
  cases event with
  | publishRead dest =>
      have kept := Event.apply_publishRead now state dest
      exact ⟨kept ▸ same.policy, kept ▸ same.buckets, kept ▸ same.selected⟩
  | observe target signal => cases blind
  | tick caughtUp => cases blind
  | checkPassed target => cases blind
  | publish dest => cases blind

/-- The write selections are a function of the blind moves. -/
theorem SameSelection.selections_blind (moves : List (ℕ × Event n))
    (same : SameSelection state other) :
    selections state moves = selections other (blindMoves moves) := by
  induction moves generalizing state other with
  | nil => rfl
  | cons move moves ih =>
      obtain ⟨now, event⟩ := move
      cases blind : event.blind with
      | none =>
          rw [selections, blind, blindMoves, List.filterMap_cons_none (by rw [blind]; rfl)]
          exact ih (same.apply_publishRead now blind)
      | some sees =>
          have again : sees.blind = some sees := by
            cases event with
            | publishRead dest => cases blind
            | _ =>
                cases blind
                rfl
          have next := same.apply_blind now blind
          rw [selections, blind, blindMoves, List.filterMap_cons_some (by rw [blind]; rfl),
            selections, again]
          exact congrArg₂ List.cons next.selected (ih next)

theorem HealthMoves.SameWrites.selections {run twin : HealthMoves n} (same : run.SameWrites twin) :
    selections run.start run.moves = selections twin.start twin.moves := by
  obtain ⟨policy, buckets, selected, moves⟩ := same
  have blind : SameSelection twin.start twin.start := ⟨rfl, rfl, rfl⟩
  calc Health.selections run.start run.moves
      = Health.selections twin.start (blindMoves run.moves) :=
        SameSelection.selections_blind _ ⟨policy, buckets, selected⟩
    _ = Health.selections twin.start twin.moves := by
        rw [moves, ← blind.selections_blind twin.moves]

end Reads

/-- Every run of the controller is safe, and a bucket it returns to has been healthy
through its whole window. -/
theorem controller_safe (run : HealthRun n) : run.Safe fun bucket => bucket.state = .healthy where
  leaves := run.leavesSafely
  ticks := run.ticksUsable
  pins := run.pinsUsable
  recovers := run.recoversChecked
  publishes := run.publishesSafely
  reads := fun _ same => same.selections

namespace Returned

/-- Two buckets that leave on the first failure and return after a window of 100. -/
def fresh : ControllerState 2 where
  health := {
    policy := ⟨1, 100⟩
    buckets := Function.update (fun _ => .new .unknown) 0 (.new .healthy)
    selected := 0
    readPreference := none
    readPin := .followWrite }
  appliedSelected := 0
  appliedReadSelected := 0
  alarms := fun _ => 0

theorem started : Started fresh := by
  have creates : ControllerState.new 2 ⟨1, 100⟩ = .ok fresh := rfl
  exact .new creates

/-- Bucket 0 fails, answers again at 10 and passes its check only at 110. -/
def outage : HealthMoves 2 where
  start := fresh
  moves := [
    (0, .observe 1 .success), (0, .tick false), (0, .checkPassed 1),
    (1, .observe 0 .timeout), (10, .observe 0 .success),
    (110, .tick false), (110, .checkPassed 0), (111, .tick false)]

theorem outage_timely {j k earlier later : ℕ} {e f : Event 2}
    (before : outage.moves[j]? = some (earlier, e)) (after : outage.moves[k]? = some (later, f))
    (ordered : j ≤ k) : earlier ≤ later := by
  have sorted : outage.moves.Pairwise fun a b => a.1 ≤ b.1 := by decide
  rw [List.getElem?_eq_some_iff] at before after
  obtain ⟨first, before⟩ := before
  obtain ⟨second, after⟩ := after
  obtain less | rfl := Nat.lt_or_eq_of_le ordered
  · have held := List.pairwise_iff_getElem.mp sorted j k first second less
    rw [before, after] at held
    exact held
  · cases before.symm.trans after
    exact le_rfl

theorem outage_checked {k now target : ℕ} (move : outage.moves[k]? = some (now, .checkPassed target)) :
    ∃ j index, index.val = target ∧ outage.Clears j k index := by
  match k, move with
  | 2, move =>
      cases move
      exact ⟨1, 1, rfl, by decide, ⟨0, false, rfl, by decide +kernel⟩, ⟨0, rfl⟩, by omega⟩
  | k + 7, move =>
      match k, move with
      | 0, move => cases move
      | _ + 1, move => cases move
  | 6, move =>
      cases move
      exact ⟨5, 0, rfl, by decide, ⟨110, false, rfl, by decide +kernel⟩, ⟨110, rfl⟩, by omega⟩

def outageRun : HealthRun 2 where
  toHealthMoves := outage
  started := started
  timely := outage_timely
  checked := outage_checked

end Returned

open Returned in
/-- The selection returns to bucket 0 one tick after its check passed, although it
was usable for a fraction of the window only. -/
theorem return_before_usable_window :
    ∃ run : HealthRun 2, ¬run.LeavesSafely fun bucket => bucket.usable = true := by
  refine ⟨outageRun, fun safe => ?_⟩
  have moved : (outage.state 8).health.selected ≠ (outage.state 7).health.selected := by
    decide +kernel
  obtain gone | ⟨-, gone⟩ | ⟨-, -, -, window⟩ := safe 7 111 (.tick false) rfl moved
  · exact absurd gone (by decide +kernel)
  · exact absurd (show (outage.state 8).health.usable (outage.state 7).health.selected by
      decide +kernel) gone
  · have early := window 5 (by decide) 110 (.tick false) rfl (by decide +kernel)
    exact absurd early.1 (by decide +kernel)

end Pypiron.Health
