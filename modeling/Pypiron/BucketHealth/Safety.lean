import Pypiron.BucketHealth

/-! What a node's bucket selection can do over a whole run. -/
namespace Pypiron.Health
variable {n : ℕ}

section Selection
variable (health : BucketHealth n) (now : ℕ) (regionCaughtUp fromTick : Bool)

/-- The selection stays, flees to a usable bucket, or returns to one that served
its window. -/
theorem BucketHealth.reselect_cases : health.reselect now fromTick = health.selected ∨
    (((health.buckets health.selected).state = .unhealthy ∨
        (fromTick ∧ ¬(health.buckets health.selected).usable)) ∧
      health.usable (health.reselect now fromTick)) ∨
    (health.reselect now fromTick < health.selected ∧
      (health.buckets (health.reselect now fromTick)).served health.policy.returnAfterHealthy now) := by
  unfold reselect
  dsimp only
  split
  next gone =>
    cases found : (List.finRange n).find? fun index => (health.buckets index).usable with
    | none => exact .inl rfl
    | some index =>
        have usable := List.find?_some found
        exact .inr (.inl ⟨gone, usable⟩)
  next =>
    cases found : (List.finRange n).find? fun index => index < health.selected ∧
        (health.buckets index).served health.policy.returnAfterHealthy now with
    | none => exact .inl rfl
    | some index => exact .inr (.inr (by simpa using List.find?_some found))

theorem BucketStatus.usable_of_served {bucket : BucketStatus} {window : ℕ}
    (served : bucket.served window now) : bucket.usable := by
  rw [BucketStatus.served, Bool.and_eq_true] at served
  exact served.1

/-- A tick leaves the selection on a usable bucket when there is one. -/
theorem BucketHealth.reselect_usable {index : Fin n} (some_ : health.usable index) :
    health.usable (health.reselect now true) := by
  obtain same | ⟨-, usable⟩ | ⟨-, served⟩ := health.reselect_cases now true
  · by_cases here : health.usable health.selected
    · rw [same]
      exact here
    · -- the tick looks for any usable bucket
      have gone : (health.buckets health.selected).state = .unhealthy ∨
          (true ∧ ¬(health.buckets health.selected).usable) := .inr ⟨rfl, here⟩
      unfold reselect
      dsimp only
      rw [if_pos gone]
      cases found : (List.finRange n).find? fun index => (health.buckets index).usable with
      | none => exact absurd some_ (List.find?_eq_none.mp found index (List.mem_finRange index))
      | some index => exact List.find?_some found
  · exact usable
  · exact BucketStatus.usable_of_served now served

theorem nextReadPin_earned (pin : ReadPin) {usable served caughtUp : Bool}
    (earned : nextReadPin pin usable served caughtUp = .earned) :
    usable ∧ (pin = .earned ∨ caughtUp) := by
  cases pin with
  | earned =>
      cases usable with
      | true => exact ⟨rfl, .inl rfl⟩
      | false => cases earned
  | followWrite =>
      rw [nextReadPin] at earned
      split at earned
      next entered =>
        simp only [Bool.and_eq_true] at entered
        exact ⟨entered.1.1, .inr entered.2⟩
      next => cases earned

end Selection

section Steps

/-- What an event makes of one bucket. -/
def Event.onBucket (policy : HealthPolicy) (now : ℕ) (index : Fin n) (bucket : BucketStatus) :
    Event n → BucketStatus
  | observe target signal =>
    if index.val = target then BucketHealth.absorb policy bucket signal now else bucket
  | tick _ => bucket.handOver
  | checkPassed target =>
    if index.val = target ∧ bucket.topology = .checking then { bucket with topology := .verified }
    else bucket
  | publish _ => bucket
  | publishRead _ => bucket

variable (now : ℕ) (state : ControllerState n) (event : Event n)

theorem Event.apply_observe {index : ℕ} (inside : index < n) (signal : BucketSignal) :
    ((Event.observe index signal).apply now state).health = ({ state.health with
      buckets := Function.update state.health.buckets ⟨index, inside⟩
        (BucketHealth.absorb state.health.policy (state.health.buckets ⟨index, inside⟩) signal now) }
      |>.evaluate now false false).1 := by
  rw [apply, ControllerState.observeAt, BucketHealth.observe, dif_pos inside]
  rfl

theorem Event.apply_observe_outside {index : ℕ} (outside : ¬index < n) (signal : BucketSignal) :
    (Event.observe index signal).apply now state = state := by
  rw [apply, ControllerState.observeAt, BucketHealth.observe, dif_neg outside]
  rfl

theorem Event.apply_checkPassed {index : ℕ} (inside : index < n) :
    ((Event.checkPassed index).apply now state).health = { state.health with
      buckets := Function.update state.health.buckets ⟨index, inside⟩
        (if (state.health.buckets ⟨index, inside⟩).topology = .checking then
          { state.health.buckets ⟨index, inside⟩ with topology := .verified }
        else state.health.buckets ⟨index, inside⟩) } := by
  rw [apply, ControllerState.topologyCheckPassed, ControllerState.withBucket, dif_pos inside]
  rfl

theorem Event.apply_checkPassed_outside {index : ℕ} (outside : ¬index < n) :
    (Event.checkPassed index).apply now state = state := by
  rw [apply, ControllerState.topologyCheckPassed, ControllerState.withBucket, dif_neg outside]
  rfl

theorem Event.apply_publish (dest : Fin n) :
    ((Event.publish dest).apply now state).health = state.health := by
  rw [apply, ControllerState.applySelection]
  split
  next => rfl
  next => rfl

theorem Event.apply_publishRead (dest : Fin n) :
    ((Event.publishRead dest).apply now state).health = state.health := by
  rw [apply, ControllerState.applyReadSelection]
  split
  next => rfl
  next => rfl

theorem Event.apply_policy : (event.apply now state).health.policy = state.health.policy := by
  cases event with
  | observe index signal =>
      by_cases inside : index < n
      · rw [apply_observe now state inside]
        rfl
      · rw [apply_observe_outside now state inside]
  | tick caughtUp => rfl
  | checkPassed index =>
      by_cases inside : index < n
      · rw [apply_checkPassed now state inside]
      · rw [apply_checkPassed_outside now state inside]
  | publish dest => rw [apply_publish]
  | publishRead dest => rw [apply_publishRead]

theorem Event.apply_buckets (index : Fin n) : (event.apply now state).health.buckets index =
    event.onBucket state.health.policy now index (state.health.buckets index) := by
  cases event with
  | observe target signal =>
      rw [onBucket]
      by_cases inside : target < n
      · rw [apply_observe now state inside]
        split
        next here =>
          subst here
          exact Function.update_self ..
        next apart => exact Function.update_of_ne (fun same => apart (congrArg Fin.val same)) ..
      · have apart : ¬index.val = target := fun here => inside (here ▸ index.isLt)
        rw [apply_observe_outside now state inside, if_neg apart]
  | tick caughtUp => rfl
  | checkPassed target =>
      rw [onBucket]
      by_cases inside : target < n
      · rw [apply_checkPassed now state inside]
        by_cases here : index.val = target
        · subst here
          simp
        · have apart : index ≠ ⟨target, inside⟩ := fun same => here (congrArg Fin.val same)
          simp [here, Function.update_of_ne apart]
      · have apart : ¬index.val = target := fun here => inside (here ▸ index.isLt)
        rw [apply_checkPassed_outside now state inside, if_neg fun both => apart both.1]
  | publish dest => rw [apply_publish, onBucket]
  | publishRead dest => rw [apply_publishRead, onBucket]

@[simp] theorem BucketStatus.handOver_state (bucket : BucketStatus) :
    bucket.handOver.state = bucket.state := by
  unfold handOver
  split
  next => rfl
  next => rfl

@[simp] theorem BucketStatus.handOver_usable (bucket : BucketStatus) :
    bucket.handOver.usable = bucket.usable := by
  unfold handOver
  split
  next unverified => simp [usable, unverified]
  next => rfl

@[simp] theorem BucketStatus.handOver_healthySince (bucket : BucketStatus) :
    bucket.handOver.healthySince = bucket.healthySince := by
  unfold handOver
  split
  next => rfl
  next => rfl

/-- The write selection moves off a bucket that is gone, off an unusable one at a
tick, or to a better one that served its window. -/
theorem Event.apply_selected :
    (event.apply now state).health.selected = state.health.selected ∨
    ((((event.apply now state).health.buckets state.health.selected).state = .unhealthy ∨
        ((∃ caughtUp, event = .tick caughtUp) ∧
          ¬((event.apply now state).health.buckets state.health.selected).usable)) ∧
      (event.apply now state).health.usable (event.apply now state).health.selected) ∨
    ((event.apply now state).health.selected < state.health.selected ∧
      ((event.apply now state).health.buckets (event.apply now state).health.selected).served
        state.health.policy.returnAfterHealthy now) := by
  cases event with
  | observe target signal =>
      by_cases inside : target < n
      · rw [apply_observe now state inside]
        obtain same | ⟨gone | ⟨tick, -⟩, usable⟩ | returns := BucketHealth.reselect_cases
          { state.health with
            buckets := Function.update state.health.buckets ⟨target, inside⟩ (BucketHealth.absorb
              state.health.policy (state.health.buckets ⟨target, inside⟩) signal now) } now false
        · exact .inl same
        · exact .inr (.inl ⟨.inl gone, usable⟩)
        · cases tick
        · exact .inr (.inr returns)
      · rw [apply_observe_outside now state inside]
        exact .inl rfl
  | tick caughtUp =>
      have buckets (index : Fin n) : ((Event.tick caughtUp).apply now state).health.buckets index =
        (state.health.buckets index).handOver := rfl
      have selected : ((Event.tick caughtUp).apply now state).health.selected =
        state.health.reselect now true := rfl
      rw [selected]
      simp only [buckets, BucketHealth.usable, BucketStatus.served, BucketStatus.handOver_state,
        BucketStatus.handOver_usable, BucketStatus.handOver_healthySince]
      obtain same | ⟨gone | ⟨-, gone⟩, usable⟩ | returns := state.health.reselect_cases now true
      · exact .inl same
      · exact .inr (.inl ⟨.inl gone, usable⟩)
      · exact .inr (.inl ⟨.inr ⟨⟨caughtUp, rfl⟩, gone⟩, usable⟩)
      · exact .inr (.inr returns)
  | checkPassed target =>
      by_cases inside : target < n
      · rw [apply_checkPassed now state inside]
        exact .inl rfl
      · rw [apply_checkPassed_outside now state inside]
        exact .inl rfl
  | publish dest =>
      rw [apply_publish]
      exact .inl rfl
  | publishRead dest =>
      rw [apply_publishRead]
      exact .inl rfl

/-- An earned pin has a region to serve from, and that region is usable. -/
def PinUsable (health : BucketHealth n) : Prop :=
  health.readPin = .earned → ∃ region, health.readPreference = some region ∧ health.usable region

theorem BucketHealth.evaluate_pin (health : BucketHealth n) (caughtUp fromTick : Bool)
    (placed : health.readPin = .earned → ∃ region, health.readPreference = some region)
    (earned : (health.evaluate now caughtUp fromTick).1.readPin = .earned) :
    (∃ region, health.readPreference = some region ∧ health.usable region) ∧
      (health.readPin = .earned ∨ caughtUp) := by
  cases preference : health.readPreference with
  | none =>
      have pin : (health.evaluate now caughtUp fromTick).1.readPin = health.readPin := by
        unfold evaluate
        simp only [preference]
      obtain ⟨region, some_⟩ := placed (pin ▸ earned)
      rw [preference] at some_
      cases some_
  | some region =>
      have pin : (health.evaluate now caughtUp fromTick).1.readPin = nextReadPin health.readPin
          (health.buckets region).usable
          ((health.buckets region).served health.policy.returnAfterHealthy now) caughtUp := by
        unfold evaluate
        simp only [preference]
      have kept := nextReadPin_earned _ (pin ▸ earned)
      exact ⟨⟨region, rfl, kept.1⟩, kept.2⟩

/-- A pin stays earned on a usable region, and is entered by a caught-up tick. -/
theorem Event.apply_pin (pinned : PinUsable state.health)
    (earned : (event.apply now state).health.readPin = .earned) :
    (∃ region, (event.apply now state).health.readPreference = some region ∧
      (event.apply now state).health.usable region) ∧
      (state.health.readPin = .earned ∨ event = .tick true) := by
  cases event with
  | observe target signal =>
      by_cases inside : target < n
      · rw [apply_observe now state inside] at earned ⊢
        have placed : state.health.readPin = .earned →
            ∃ region, state.health.readPreference = some region := fun earned => by
          obtain ⟨region, some_, -⟩ := pinned earned
          exact ⟨region, some_⟩
        obtain ⟨region, before | caughtUp⟩ := BucketHealth.evaluate_pin now
          { state.health with
            buckets := Function.update state.health.buckets ⟨target, inside⟩ (BucketHealth.absorb
              state.health.policy (state.health.buckets ⟨target, inside⟩) signal now) }
          false false placed earned
        · exact ⟨region, .inl before⟩
        · cases caughtUp
      · rw [apply_observe_outside now state inside] at earned ⊢
        exact ⟨pinned earned, .inl earned⟩
  | tick caughtUp =>
      have placed : state.health.readPin = .earned →
          ∃ region, state.health.readPreference = some region := fun earned => by
        obtain ⟨region, some_, -⟩ := pinned earned
        exact ⟨region, some_⟩
      obtain ⟨⟨region, some_, usable⟩, entered⟩ :=
        BucketHealth.evaluate_pin now state.health caughtUp true placed earned
      have kept : ((Event.tick caughtUp).apply now state).health.usable region =
        (state.health.buckets region).handOver.usable := rfl
      rw [BucketStatus.handOver_usable] at kept
      refine ⟨⟨region, some_, kept.trans usable⟩, entered.imp_right fun passing => ?_⟩
      rw [passing]
  | checkPassed target =>
      have same : ((Event.checkPassed target).apply now state).health.readPin =
          state.health.readPin ∧ ((Event.checkPassed target).apply now state).health.readPreference =
          state.health.readPreference := by
        by_cases inside : target < n
        · rw [apply_checkPassed now state inside]
          exact ⟨rfl, rfl⟩
        · rw [apply_checkPassed_outside now state inside]
          exact ⟨rfl, rfl⟩
      rw [same.1] at earned
      obtain ⟨region, some_, usable⟩ := pinned earned
      refine ⟨⟨region, same.2.trans some_, ?_⟩, .inl earned⟩
      rw [BucketHealth.usable, apply_buckets, onBucket]
      split
      next => -- a passed check only adds trust
        rw [BucketHealth.usable, BucketStatus.usable, decide_eq_true_eq] at usable
        simp [BucketStatus.usable, usable.1]
      next => exact usable
  | publish dest =>
      rw [apply_publish] at earned ⊢
      exact ⟨pinned earned, .inl earned⟩
  | publishRead dest =>
      rw [apply_publishRead] at earned ⊢
      exact ⟨pinned earned, .inl earned⟩

theorem Event.apply_pinUsable (pinned : PinUsable state.health) :
    PinUsable (event.apply now state).health :=
  fun earned => (event.apply_pin now state pinned earned).1

theorem Started.pinUsable {state : ControllerState n} (started : Started state) :
    PinUsable state.health := by
  induction started with
  | @new policy state made =>
      rw [ControllerState.new, BucketHealth.new] at made
      split at made
      next =>
        split at made
        next => cases made
        next =>
          cases made
          intro earned
          cases earned
      next => cases made
  | event now event _ pinned => exact event.apply_pinUsable now _ pinned
  | @revalidated state index state' _ passed pinned =>
      rw [ControllerState.topologyRevalidated, ControllerState.withBucket] at passed
      split at passed
      next inside =>
        cases passed
        intro earned
        obtain ⟨region, some_, usable⟩ := pinned earned
        refine ⟨region, some_, ?_⟩
        rw [BucketHealth.usable, BucketStatus.usable, decide_eq_true_eq] at usable ⊢
        by_cases here : region = ⟨index, inside⟩
        · subst here
          simp [usable.1]
        · simpa [Function.update_of_ne here] using usable
      next => cases passed
  | configured preference earned _ _ =>
      intro pinned
      obtain ⟨usable, -⟩ := nextReadPin_earned (if earned then .earned else .followWrite) pinned
      exact ⟨preference, rfl, usable⟩

/-- The healthy clock runs only on a healthy bucket. -/
def ClockHealthy (state : ControllerState n) : Prop :=
  ∀ index since, (state.health.buckets index).healthySince = some since →
    (state.health.buckets index).state = .healthy

theorem BucketHealth.absorb_clock (policy : HealthPolicy) {bucket : BucketStatus}
    (signal : BucketSignal) {since : ℕ}
    (clock : (absorb policy bucket signal now).healthySince = some since) :
    classify signal ≠ .availabilityFailure ∧
      (bucket.healthySince = some since ∧
          ((absorb policy bucket signal now).state = .healthy ∨
            (absorb policy bucket signal now).state = bucket.state) ∨
        since = now ∧ (absorb policy bucket signal now).state = .healthy) := by
  unfold absorb at clock ⊢
  cases class_ : classify signal with
  | healthy =>
      rw [class_] at clock
      dsimp only at clock ⊢
      refine ⟨nofun, ?_⟩
      cases before : bucket.healthySince with
      | none =>
          rw [before] at clock
          cases clock
          exact .inr ⟨rfl, rfl⟩
      | some earlier =>
          rw [before] at clock
          cases clock
          exact .inl ⟨rfl, .inl rfl⟩
  | availabilityFailure =>
      rw [class_] at clock
      cases clock
  | ignored =>
      rw [class_] at clock
      exact ⟨nofun, .inl ⟨clock, .inr rfl⟩⟩

/-- A running healthy clock was running before, or starts now. -/
theorem Event.onBucket_clock (policy : HealthPolicy) {index : Fin n} {bucket : BucketStatus}
    {since : ℕ} (clock : (event.onBucket policy now index bucket).healthySince = some since) :
    (∀ signal, event = .observe index signal → classify signal ≠ .availabilityFailure) ∧
      (bucket.healthySince = some since ∧
          ((event.onBucket policy now index bucket).state = .healthy ∨
            (event.onBucket policy now index bucket).state = bucket.state) ∨
        since = now ∧ (event.onBucket policy now index bucket).state = .healthy) := by
  cases event with
  | observe target signal =>
      rw [onBucket] at clock ⊢
      split at clock
      next here =>
        rw [if_pos here]
        obtain ⟨passes, kept⟩ := BucketHealth.absorb_clock now policy signal clock
        refine ⟨fun other same => ?_, kept⟩
        cases same
        exact passes
      next apart =>
        rw [if_neg apart]
        refine ⟨fun other same => ?_, .inl ⟨clock, .inr rfl⟩⟩
        cases same
        exact absurd rfl apart
  | tick caughtUp =>
      rw [onBucket, BucketStatus.handOver_healthySince] at clock
      rw [onBucket, BucketStatus.handOver_state]
      exact ⟨nofun, .inl ⟨clock, .inr rfl⟩⟩
  | checkPassed target =>
      rw [onBucket] at clock ⊢
      split at clock
      next passes =>
        rw [if_pos passes]
        exact ⟨nofun, .inl ⟨clock, .inr rfl⟩⟩
      next stays =>
        rw [if_neg stays]
        exact ⟨nofun, .inl ⟨clock, .inr rfl⟩⟩
  | publish dest => exact ⟨nofun, .inl ⟨clock, .inr rfl⟩⟩
  | publishRead dest => exact ⟨nofun, .inl ⟨clock, .inr rfl⟩⟩

theorem Event.apply_clockHealthy (healthy : ClockHealthy state) :
    ClockHealthy (event.apply now state) := by
  intro index since clock
  rw [apply_buckets] at clock ⊢
  obtain ⟨-, ⟨before, fresh | kept⟩ | ⟨-, fresh⟩⟩ := event.onBucket_clock now _ clock
  · exact fresh
  · exact kept.trans (healthy index since before)
  · exact fresh

theorem Started.clockHealthy {state : ControllerState n} (started : Started state) :
    ClockHealthy state := by
  induction started with
  | @new policy state made =>
      rw [ControllerState.new, BucketHealth.new] at made
      split at made
      next =>
        split at made
        next => cases made
        next positive _ =>
          cases made
          intro index since clock
          by_cases here : index = ⟨0, positive⟩
          · subst here
            simp [BucketStatus.new] at clock
          · simp [Function.update_of_ne here, BucketStatus.new] at clock
      next => cases made
  | event now event _ healthy => exact event.apply_clockHealthy now _ healthy
  | @revalidated state index state' _ passed healthy =>
      rw [ControllerState.topologyRevalidated, ControllerState.withBucket] at passed
      split at passed
      next inside =>
        cases passed
        intro other since
        by_cases here : other = ⟨index, inside⟩
        · subst here
          simpa using healthy ⟨index, inside⟩ since
        · simpa [Function.update_of_ne here] using healthy other since
      next => cases passed
  | configured preference earned _ healthy => exact healthy

/-- A verified bucket was verified, or a check of it passed while it was out;
one that is out was out, or a tick handed it over. -/
theorem Event.onBucket_topology (policy : HealthPolicy) (index : Fin n) (bucket : BucketStatus) :
    ((event.onBucket policy now index bucket).topology = .verified →
      bucket.topology = .verified ∨ (event = .checkPassed index ∧ bucket.topology = .checking)) ∧
    ((event.onBucket policy now index bucket).topology = .checking →
      bucket.topology = .checking ∨
        ((∃ caughtUp, event = .tick caughtUp) ∧ bucket.topology ≠ .verified)) := by
  cases event with
  | observe target signal =>
      rw [onBucket]
      split
      next =>
        unfold BucketHealth.absorb
        split
        next =>
          dsimp only
          split
          next => exact ⟨nofun, nofun⟩
          next => exact ⟨.inl, .inl⟩
        next => exact ⟨.inl, .inl⟩
        next => exact ⟨.inl, .inl⟩
      next => exact ⟨.inl, .inl⟩
  | tick caughtUp =>
      rw [onBucket, BucketStatus.handOver]
      split
      next out => exact ⟨nofun, fun _ => .inr ⟨⟨caughtUp, rfl⟩, out⟩⟩
      next => exact ⟨.inl, .inl⟩
  | checkPassed target =>
      rw [onBucket]
      split
      next passes =>
        obtain ⟨rfl, checking⟩ := passes
        exact ⟨fun _ => .inr ⟨rfl, checking⟩, nofun⟩
      next => exact ⟨.inl, .inl⟩
  | publish dest => exact ⟨.inl, .inl⟩
  | publishRead dest => exact ⟨.inl, .inl⟩

end Steps
end Pypiron.Health
