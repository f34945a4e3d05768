import Mathlib.Algebra.Group.Nat.Defs
import Mathlib.Data.List.FinRange
import Mathlib.Logic.Function.Basic

/-! Per-node bucket health and selection. Request paths feed observations, the
worker ticks, checks the topology of the buckets a tick listed, and publishes the
selections a tick proposed. -/
namespace Pypiron.Health

inductive BucketSignal where
  | success
  | timeout
  | connectionFailure
  | httpStatus (code : ℕ)
  | kmsError
  | quotaError
  | configurationError
  | otherError
  deriving DecidableEq, Repr

inductive SignalClass where
  | healthy
  | availabilityFailure
  | ignored
  deriving DecidableEq, Repr

def classify : BucketSignal → SignalClass
  | .success => .healthy
  | .timeout | .connectionFailure => .availabilityFailure
  | .httpStatus code =>
    if code = 408 ∨ (500 ≤ code ∧ code ≤ 599) then .availabilityFailure
    else if 200 ≤ code ∧ code ≤ 399 then .healthy
    else .ignored
  | .kmsError | .quotaError | .configurationError | .otherError => .ignored

inductive HealthState where
  | unknown
  | healthy
  | unhealthy
  deriving DecidableEq, Repr

structure HealthPolicy where
  leaveAfterFailures : ℕ
  returnAfterHealthy : ℕ
  deriving DecidableEq, Repr

inductive HealthConfigError where
  | noBuckets
  | zeroLeaveThreshold
  deriving DecidableEq, Repr

structure InvalidBucket where
  index : ℕ
  bucketCount : ℕ
  deriving DecidableEq, Repr

structure SelectionChange (n : ℕ) where
  source : Fin n
  dest : Fin n
  deriving DecidableEq, Repr

/-- Where a node with a region read preference serves reads from. -/
inductive ReadPin where
  | followWrite
  | earned
  deriving DecidableEq, Repr

def nextReadPin (pin : ReadPin) (usable servedWindow caughtUp : Bool) : ReadPin :=
  match pin with
  | .earned => if usable then .earned else .followWrite
  | .followWrite => if usable && servedWindow && caughtUp then .earned else .followWrite

/-- Whether a bucket's topology stamp is trusted. -/
inductive Topology where
  | verified
  | pending
  | checking
  deriving DecidableEq, Repr

structure BucketStatus where
  state : HealthState
  consecutiveFailures : ℕ
  healthySince : Option ℕ
  topology : Topology
  deriving DecidableEq, Repr

namespace BucketStatus

def new (state : HealthState) : BucketStatus := ⟨state, 0, none, .verified⟩

def usable (bucket : BucketStatus) : Bool :=
  bucket.state = .healthy ∧ bucket.topology = .verified

/-- Usable, and healthy without interruption for the whole return window. -/
def served (bucket : BucketStatus) (window now : ℕ) : Bool :=
  bucket.usable && bucket.healthySince.any fun since => window ≤ now - since

/-- A bucket awaiting its check is handed to the worker. -/
def handOver (bucket : BucketStatus) : BucketStatus :=
  if bucket.topology ≠ .verified then { bucket with topology := .checking } else bucket

end BucketStatus

structure BucketHealth (n : ℕ) where
  policy : HealthPolicy
  buckets : Fin n → BucketStatus
  selected : Fin n
  readPreference : Option (Fin n)
  readPin : ReadPin

structure HealthUpdate (n : ℕ) where
  selectedIndex : Fin n
  selectionChange : Option (SelectionChange n)
  readSelectedIndex : Fin n
  readSelectionChange : Option (SelectionChange n)
  deriving DecidableEq, Repr

/-- The failure counter is a `u32`. -/
def saturatingSucc (failures : ℕ) : ℕ := min (failures + 1) (2 ^ 32 - 1)

def changeOf {n : ℕ} (previous next : Fin n) : Option (SelectionChange n) :=
  if next ≠ previous then some ⟨previous, next⟩ else none

namespace BucketHealth
variable {n : ℕ}

def new (bucketCount : ℕ) (policy : HealthPolicy) :
    Except HealthConfigError (BucketHealth bucketCount) :=
  if positive : 0 < bucketCount then
    if policy.leaveAfterFailures = 0 then .error .zeroLeaveThreshold
    else
      let first : Fin bucketCount := ⟨0, positive⟩
      .ok {
        policy
        buckets := Function.update (fun _ => .new .unknown) first (.new .healthy)
        selected := first
        readPreference := none
        readPin := .followWrite }
  else .error .noBuckets

variable (health : BucketHealth n)

/-- The bucket reads are served from. -/
def readIndex : Fin n :=
  match health.readPreference, health.readPin with
  | some region, .earned => region
  | _, _ => health.selected

def usable (index : Fin n) : Bool := (health.buckets index).usable

def setReadAffinity (preference : Fin n) (earned : Bool) : BucketHealth n :=
  let pin := if earned then ReadPin.earned else .followWrite
  { health with
    readPreference := some preference
    readPin := nextReadPin pin (health.usable preference) false false }

/-- The write selection after a look at the buckets. -/
def reselect (now : ℕ) (fromTick : Bool) : Fin n :=
  let current := health.buckets health.selected
  if current.state = .unhealthy ∨ (fromTick ∧ ¬current.usable) then
    ((List.finRange n).find? fun index => (health.buckets index).usable).getD health.selected
  else
    ((List.finRange n).find? fun index => index < health.selected ∧
      (health.buckets index).served health.policy.returnAfterHealthy now).getD health.selected

def evaluate (now : ℕ) (regionCaughtUp fromTick : Bool) : BucketHealth n × HealthUpdate n :=
  let selected := health.reselect now fromTick
  let readPin :=
    match health.readPreference with
    | some region =>
      let bucket := health.buckets region
      nextReadPin health.readPin bucket.usable
        (bucket.served health.policy.returnAfterHealthy now) regionCaughtUp
    | none => health.readPin
  let next := { health with selected, readPin }
  (next, {
    selectedIndex := selected
    selectionChange := changeOf health.selected selected
    readSelectedIndex := next.readIndex
    readSelectionChange := changeOf health.readIndex next.readIndex })

/-- One observation on its bucket. -/
def absorb (policy : HealthPolicy) (bucket : BucketStatus) (signal : BucketSignal) (now : ℕ) :
    BucketStatus :=
  match classify signal with
  | .healthy =>
    { state := .healthy
      consecutiveFailures := 0
      healthySince := some (bucket.healthySince.getD now)
      topology := if bucket.state ≠ .healthy then .pending else bucket.topology }
  | .availabilityFailure =>
    let failures := saturatingSucc bucket.consecutiveFailures
    { bucket with
      consecutiveFailures := failures
      healthySince := none
      state := if policy.leaveAfterFailures ≤ failures then .unhealthy else bucket.state }
  | .ignored => bucket

def observe (index : ℕ) (signal : BucketSignal) (now : ℕ) :
    Except InvalidBucket (BucketHealth n × HealthUpdate n) :=
  if inside : index < n then
    let index : Fin n := ⟨index, inside⟩
    let bucket := absorb health.policy (health.buckets index) signal now
    .ok ({ health with buckets := Function.update health.buckets index bucket }.evaluate now false false)
  else .error ⟨index, n⟩

def tick (now : ℕ) (regionCaughtUp : Bool) : BucketHealth n × HealthUpdate n :=
  health.evaluate now regionCaughtUp true

end BucketHealth

structure WorkerHealthSnapshot (n : ℕ) where
  selectedIndex : Fin n
  selectionChange : Option (SelectionChange n)
  readSelectedIndex : Fin n
  readSelectionChange : Option (SelectionChange n)
  states : Fin n → HealthState
  topologyRevalidation : List (Fin n)
  alarms : Fin n → ℕ

structure ControllerState (n : ℕ) where
  health : BucketHealth n
  appliedSelected : Fin n
  appliedReadSelected : Fin n
  alarms : Fin n → ℕ

namespace ControllerState
variable {n : ℕ}

def new (bucketCount : ℕ) (policy : HealthPolicy) :
    Except HealthConfigError (ControllerState bucketCount) := do
  let health ← BucketHealth.new bucketCount policy
  return ⟨health, health.selected, health.selected, fun _ => 0⟩

variable (state : ControllerState n)

def observeAt (index : ℕ) (signal : BucketSignal) (now : ℕ) :
    Except InvalidBucket (ControllerState n) := do
  let (health, _) ← state.health.observe index signal now
  return { state with
    health
    alarms := fun bucket =>
      -- an alarm is counted in a `u64`
      if bucket.val = index ∧ classify signal = .ignored then
        min (state.alarms bucket + 1) (2 ^ 64 - 1)
      else state.alarms bucket }

def workerTickAt (now : ℕ) (regionCaughtUp : Bool) : ControllerState n × WorkerHealthSnapshot n :=
  let (health, update) := state.health.tick now regionCaughtUp
  let reads := match health.readPreference with
    | some _ => (update.readSelectedIndex, changeOf state.appliedReadSelected update.readSelectedIndex)
    | none => (health.selected, none)
  ({ state with
      health := { health with buckets := fun index => (health.buckets index).handOver }
      alarms := fun _ => 0 }, {
    selectedIndex := health.selected
    selectionChange := changeOf state.appliedSelected health.selected
    readSelectedIndex := reads.1
    readSelectionChange := reads.2
    states := fun index => (health.buckets index).state
    topologyRevalidation := (List.finRange n).filter fun index =>
      (health.buckets index).topology ≠ .verified
    alarms := state.alarms })

/-- Publish the write switch a snapshot proposed, unless it is stale. -/
def applySelection (dest : Fin n) : Option (ControllerState n) :=
  if state.health.selected = dest ∧ state.health.usable dest then
    some { state with appliedSelected := dest }
  else none

def applyReadSelection (dest : Fin n) : Option (ControllerState n) :=
  if state.health.readIndex = dest ∧ state.health.usable dest then
    some { state with appliedReadSelected := dest }
  else none

def configureReadAffinity (preference : Fin n) (earned : Bool) : ControllerState n × Bool :=
  let health := state.health.setReadAffinity preference earned
  let pinned : Bool := health.readPin = .earned
  ({ state with
    health
    appliedReadSelected := if pinned then preference else state.appliedSelected }, pinned)

def readReturnPending : Option (Fin n) := do
  let region ← state.health.readPreference
  if state.appliedReadSelected ≠ region ∧ state.health.usable region then some region else none

def withBucket (index : ℕ) (update : BucketStatus → BucketStatus) :
    Except InvalidBucket (ControllerState n) :=
  if inside : index < n then
    let index : Fin n := ⟨index, inside⟩
    .ok { state with health := { state.health with
      buckets := Function.update state.health.buckets index (update (state.health.buckets index)) } }
  else .error ⟨index, n⟩

/-- Startup's own verification. -/
def topologyRevalidated (index : ℕ) : Except InvalidBucket (ControllerState n) :=
  state.withBucket index fun bucket => { bucket with topology := .verified }

/-- The worker's check of a bucket a snapshot listed. -/
def topologyCheckPassed (index : ℕ) : Except InvalidBucket (ControllerState n) :=
  state.withBucket index fun bucket =>
    if bucket.topology = .checking then { bucket with topology := .verified } else bucket

end ControllerState

/-- What happens to a controller once it serves. -/
inductive Event (n : ℕ) where
  | observe (index : ℕ) (signal : BucketSignal)
  | tick (regionCaughtUp : Bool)
  | checkPassed (index : ℕ)
  | publish (dest : Fin n)
  | publishRead (dest : Fin n)
  deriving DecidableEq, Repr

/-- A request that is refused changes nothing. -/
def Event.apply {n : ℕ} (now : ℕ) (state : ControllerState n) : Event n → ControllerState n
  | observe index signal => (state.observeAt index signal now).toOption.getD state
  | tick regionCaughtUp => (state.workerTickAt now regionCaughtUp).1
  | checkPassed index => (state.topologyCheckPassed index).toOption.getD state
  | publish dest => (state.applySelection dest).getD state
  | publishRead dest => (state.applyReadSelection dest).getD state

/-- What startup may have done before the controller serves. -/
inductive Started {n : ℕ} : ControllerState n → Prop where
  | new : ControllerState.new n policy = .ok state → Started state
  | event (now : ℕ) (event : Event n) : Started state → Started (event.apply now state)
  | revalidated : Started state → state.topologyRevalidated index = .ok state' → Started state'
  | configured (preference : Fin n) (earned : Bool) :
      Started state → Started (state.configureReadAffinity preference earned).1

end Pypiron.Health
