import Mathlib.Tactic.IntervalCases
import Pypiron.Quarantine
import Pypiron.Secure

/-! Epochs over a whole fleet. A publish spends the epoch after its bucket's and its
node's own. As long as no other bucket is ahead of both when the write lands, one
epoch names one set everywhere, and the epoch of every bucket and node only grows. -/
namespace Pypiron.Quarantine
open Program ThreadPool
variable {β ν : Type} [DecidableEq β] [DecidableEq ν]

section Facts
variable (run : ℕ → FleetConfig β ν)

/-- The bucket holds this set at this instant. -/
def Stands (now : ℕ) (bucket : β) (value : StoredQuarantined) : Prop :=
  ∃ revision, (run now).store.sets bucket = some ⟨.stored value, revision⟩

/-- Some bucket has held this set. -/
def StoredBy (now : ℕ) (value : StoredQuarantined) : Prop :=
  ∃ instant ≤ now, ∃ bucket, Stands run instant bucket value

/-- A set that belongs to its epoch: nothing at epoch zero, or what was stored. -/
def Known (now : ℕ) (set : Finset String) (epoch : ℕ) : Prop :=
  (epoch = 0 ∧ set = ∅) ∨ StoredBy run now ⟨set, epoch⟩

def epochOf : Option Object → ℕ
  | some ⟨.stored value, _⟩ => value.epoch
  | some ⟨.unreadable _, _⟩ | none => 0

def epochAt (now : ℕ) (bucket : β) : ℕ := epochOf ((run now).store.sets bucket)

/-- The conditional write of `value` over what was read as `etag`. -/
def PutsOver (bucket : β) (etag : Option Etag) (value : StoredQuarantined) (op : QuarantineOp β ν) :
    Prop :=
  match etag with
  | some etag => op = .putIfMatch bucket etag value
  | none => op = .putIfNoneMatch bucket value

/-- The thread read its node's snapshot just before what it does at `now`. -/
def ChoseFrom (thread now : ℕ) (state : AdvisoryState) : Prop :=
  ∃ instant call, Performed fleet run thread instant call (.readState call.node) state ∧
    Quiet run thread (instant + 1) now

theorem ChoseFrom.later {run : ℕ → FleetConfig β ν} {thread now later : ℕ} {state : AdvisoryState}
    (chose : ChoseFrom run thread now state) (quiet : Quiet run thread now later) :
    ChoseFrom run thread later state := by
  obtain ⟨instant, call, performed, before⟩ := chose
  exact ⟨instant, call, performed, before.trans quiet⟩

/-- No bucket is ahead of a publish whose write lands: each stands at most at the
epoch of the publisher's bucket, or at the one its node read before choosing; and no
epoch is spent up. -/
def PublisherAhead (now : ℕ) : Prop :=
  ∀ thread call op answer bucket etag value state,
    Performed fleet run thread now call op answer → PutsOver bucket etag value op →
    (run now).store.sets bucket = etag → ChoseFrom run thread now state →
    ∀ other, epochAt run now other ≤ max (epochAt run now bucket) state.quarantinedEpoch ∧
      epochAt run now other < u64Max

/-- How a node starts: with nothing, or with the set of a bucket it loaded. -/
def FreshSlot (slot : AdvisoryState) : Prop :=
  slot.quarantinedUnpublished = false ∧ Known run 0 slot.quarantined slot.quarantinedEpoch

/-- Any calls of any nodes over buckets that start with one set for each epoch. -/
structure FleetRun : Prop where
  trace : Trace fleet run
  idle : ∀ thread, (run 0).threads thread = none
  fresh : ∀ node, FreshSlot run ((run 0).store.slots node)
  unique : ∀ value value', StoredBy run 0 value → StoredBy run 0 value' →
    value.epoch = value'.epoch → value = value'
  positive : ∀ value, StoredBy run 0 value → 0 < value.epoch

/-- One epoch names one set, no bucket goes back, and every node's snapshot is a
stored set or says that it is not. -/
structure Sound (now : ℕ) : Prop where
  unique : ∀ value value', StoredBy run now value → StoredBy run now value' →
    value.epoch = value'.epoch → value = value'
  top : ∀ instant ≤ now, ∀ bucket value, Stands run instant bucket value →
    ∃ latest, Stands run now bucket latest ∧ value.epoch ≤ latest.epoch
  positive : ∀ value, StoredBy run now value → 0 < value.epoch
  epochs : ∀ node, ((run now).store.slots node).quarantinedEpoch = 0 ∨
    ∃ value, StoredBy run now value ∧
      value.epoch = ((run now).store.slots node).quarantinedEpoch
  slots : ∀ node, ((run now).store.slots node).quarantinedUnpublished = false →
    Known run now ((run now).store.slots node).quarantined
      ((run now).store.slots node).quarantinedEpoch

/-- The invariant, as long as every publish so far was ahead. -/
def SoundIfAhead (now : ℕ) : Prop := (∀ instant < now, PublisherAhead run instant) → Sound run now

/-- A set is offered under the epoch its publisher chose from what it read, or is a
stored set offered to a bucket whose copy is older. -/
def Offered (thread now : ℕ) (etag : Option Etag) (value : StoredQuarantined) : Prop :=
  0 < value.epoch ∧
    ((∃ state, ChoseFrom run thread now state ∧
        value.epoch = saturatingAddOne (max (epochOf etag) state.quarantinedEpoch)) ∨
      ((∀ instant < now, PublisherAhead run instant) → StoredBy run now value) ∧
        epochOf etag < value.epoch)

/-- What every operation of a call owes: a reseed offers stored sets only, and a node
moves its own snapshot only. -/
def Owed (thread : ℕ) (call : Call β ν) (now : ℕ) : QuarantineOp β ν → Prop
  | .putIfMatch _ etag value => Offered run thread now (some etag) value ∧
      (∀ replicas, call.task = .reseed replicas →
        (∀ instant < now, PublisherAhead run instant) → StoredBy run now value)
  | .putIfNoneMatch _ value => Offered run thread now none value ∧
      (∀ replicas, call.task = .reseed replicas →
        (∀ instant < now, PublisherAhead run instant) → StoredBy run now value)
  | .adopt node set epoch _ => node = call.node ∧ Known run now set epoch
  | .armLocal node _ _ => node = call.node
  | _ => True

end Facts

section Mono
variable {run : ℕ → FleetConfig β ν} {now later : ℕ} {value : StoredQuarantined}

omit [DecidableEq β] [DecidableEq ν] in
theorem StoredBy.mono (stored : StoredBy run now value) (le : now ≤ later) :
    StoredBy run later value := by
  obtain ⟨instant, before, bucket, stands⟩ := stored
  exact ⟨instant, before.trans le, bucket, stands⟩

omit [DecidableEq β] [DecidableEq ν] in
theorem Known.mono {set : Finset String} {epoch : ℕ} (known : Known run now set epoch)
    (le : now ≤ later) : Known run later set epoch :=
  known.imp_right fun stored => stored.mono le

omit [DecidableEq β] [DecidableEq ν] in
theorem storedBy_succ (stored : StoredBy run (now + 1) value) :
    StoredBy run now value ∨ ∃ bucket, Stands run (now + 1) bucket value := by
  obtain ⟨instant, before, bucket, stands⟩ := stored
  obtain earlier | rfl := Nat.le_succ_iff.mp before
  · exact .inl ⟨instant, earlier, bucket, stands⟩
  · exact .inr ⟨bucket, stands⟩

end Mono

section Steps
variable {world world' : World β ν} {op : QuarantineOp β ν} {answer : op.Ans}

/-- An operation leaves a bucket's set alone, or lands a conditional write on it. -/
theorem performs_sets (performs : Performs world op answer world') (bucket : β) :
    world'.sets bucket = world.sets bucket ∨ ∃ etag value revision,
      PutsOver bucket etag value op ∧ world.sets bucket = etag ∧
      world'.sets bucket = some ⟨.stored value, revision⟩ := by
  have served {answer : op.Ans} (serves : Serves world op answer world') :
      world'.sets bucket = world.sets bucket ∨ ∃ etag value revision,
        PutsOver bucket etag value op ∧ world.sets bucket = etag ∧
        world'.sets bucket = some ⟨.stored value, revision⟩ := by
    cases serves with
    | @replaced target etag value revision held =>
        by_cases here : bucket = target
        · subst here
          exact .inr ⟨some etag, value, revision, rfl, held, Function.update_self ..⟩
        · exact .inl (Function.update_of_ne here ..)
    | @created target value revision missing =>
        by_cases here : bucket = target
        · subst here
          exact .inr ⟨none, value, revision, rfl, missing, Function.update_self ..⟩
        · exact .inl (Function.update_of_ne here ..)
    | _ => exact .inl rfl
  cases performs with
  | served serves => exact served serves
  | refused => exact .inl rfl
  | lost _ serves => exact served serves

/-- An operation leaves a node's snapshot alone, or is one of its own. -/
theorem performs_slots (performs : Performs world op answer world') (node : ν) :
    world'.slots node = world.slots node ∨
    (∃ set epoch etag, op = .adopt node set epoch etag ∧
      world'.slots node = (adoptQuarantined (world.slots node) set epoch etag).1) ∨
    (∃ pkg blocked, op = .armLocal node pkg blocked ∧
      world'.slots node = armLocalQuarantine (world.slots node) pkg blocked) ∨
    ∃ zipSha256, op = .reload node zipSha256 ∧
      world'.slots node = { world.slots node with zipSha256 := some zipSha256 } := by
  have served {answer : op.Ans} (serves : Serves world op answer world') :
      world'.slots node = world.slots node ∨
      (∃ set epoch etag, op = .adopt node set epoch etag ∧
        world'.slots node = (adoptQuarantined (world.slots node) set epoch etag).1) ∨
      (∃ pkg blocked, op = .armLocal node pkg blocked ∧
        world'.slots node = armLocalQuarantine (world.slots node) pkg blocked) ∨
      ∃ zipSha256, op = .reload node zipSha256 ∧
        world'.slots node = { world.slots node with zipSha256 := some zipSha256 } := by
    cases serves with
    | @adopted target names epoch etag =>
        by_cases here : node = target
        · subst here
          exact .inr (.inl ⟨names, epoch, etag, rfl, Function.update_self ..⟩)
        · exact .inl (Function.update_of_ne here ..)
    | @armed target pkg blocked =>
        by_cases here : node = target
        · subst here
          exact .inr (.inr (.inl ⟨pkg, blocked, rfl, Function.update_self ..⟩))
        · exact .inl (Function.update_of_ne here ..)
    | @reloaded target zipSha256 =>
        by_cases here : node = target
        · subst here
          exact .inr (.inr (.inr ⟨zipSha256, rfl, Function.update_self ..⟩))
        · exact .inl (Function.update_of_ne here ..)
    | _ => exact .inl rfl
  cases performs with
  | served serves => exact served serves
  | refused => exact .inl rfl
  | lost _ serves => exact served serves

theorem performs_got {bucket : β} {found : Option Object}
    (performs : Performs world (.getWithEtag bucket) (.ok found) world') :
    world.sets bucket = found := by
  generalize same : (.ok found : Except String (Option Object)) = answer at performs
  cases performs with
  | served serves =>
      cases serves
      cases same
      rfl
  | refused fails =>
      cases fails
      cases same
  | lost fails =>
      cases fails
      cases same

theorem performs_bytes {bucket : β} {body : Body}
    (performs : Performs world (.getBytes bucket) (.ok body) world') :
    ∃ revision, world.sets bucket = some ⟨body, revision⟩ := by
  generalize same : (.ok body : Except String Body) = answer at performs
  cases performs with
  | served serves =>
      cases serves with
      | @read _ object held =>
          cases same
          exact ⟨object.revision, held⟩
  | refused fails =>
      cases fails
      cases same
  | lost fails =>
      cases fails
      cases same

theorem performs_state {node : ν} {state : AdvisoryState}
    (performs : Performs world (.readState node) state world') : state = world.slots node := by
  cases performs with
  | served serves =>
      cases serves
      rfl
  | refused fails => cases fails
  | lost fails => cases fails

/-- A conditional write that answers with an etag has landed. -/
theorem performs_put {bucket : β} (etag : Option Etag) {value : StoredQuarantined}
    {op : QuarantineOp β ν} {answer : op.Ans} {landed : Etag} (puts : PutsOver bucket etag value op)
    (performs : Performs world op answer world')
    (same : HEq answer (.ok (some landed) : Except String (Option Etag))) :
    ∃ revision, world'.sets bucket = some ⟨.stored value, revision⟩ := by
  cases etag with
  | some etag =>
      cases puts
      cases performs with
      | served serves =>
          cases serves with
          | replaced held => exact ⟨_, Function.update_self ..⟩
          | changed => cases same
      | refused fails =>
          cases fails
          cases same
      | lost fails =>
          cases fails
          cases same
  | none =>
      cases puts
      cases performs with
      | served serves =>
          cases serves with
          | created missing => exact ⟨_, Function.update_self ..⟩
          | occupied => cases same
      | refused fails =>
          cases fails
          cases same
      | lost fails =>
          cases fails
          cases same

variable {run : ℕ → FleetConfig β ν}

/-- The store changes as an operation is made, and only so. -/
theorem store_step (trace : Trace fleet run) (now : ℕ) :
    (∃ thread call op answer, Performed fleet run thread now call op answer) ∨
      (run (now + 1)).store = (run now).store := by
  obtain performed | ⟨_, _, _, next⟩ | ⟨stays, _⟩ | ⟨_, _, _, stays, _⟩ | paused := trace.cases now
  · exact .inl performed
  · rw [next]
    exact .inr rfl
  · exact stays.elim
  · exact .inr stays
  · rw [paused]
    exact .inr rfl

/-- What one instant does to a bucket's set. -/
theorem sets_step (trace : Trace fleet run) (now : ℕ) (bucket : β) :
    (run (now + 1)).store.sets bucket = (run now).store.sets bucket ∨
    ∃ thread call op answer etag value revision, Performed fleet run thread now call op answer ∧
      PutsOver bucket etag value op ∧ (run now).store.sets bucket = etag ∧
      (run (now + 1)).store.sets bucket = some ⟨.stored value, revision⟩ := by
  obtain ⟨thread, call, op, answer, performed⟩ | stays := store_step trace now
  · have ⟨_, _, performs, _⟩ := performed
    obtain same | ⟨etag, value, revision, puts, held, lands⟩ := performs_sets performs bucket
    · exact .inl same
    · exact .inr ⟨thread, call, op, answer, etag, value, revision, performed, puts, held, lands⟩
  · exact .inl (by rw [stays])

/-- What one instant does to a node's snapshot. -/
theorem slots_step (trace : Trace fleet run) (now : ℕ) (node : ν) :
    (run (now + 1)).store.slots node = (run now).store.slots node ∨
    (∃ thread call set epoch etag answer,
      Performed fleet run thread now call (.adopt node set epoch etag) answer ∧
      (run (now + 1)).store.slots node =
        (adoptQuarantined ((run now).store.slots node) set epoch etag).1) ∨
    (∃ thread call pkg blocked answer,
      Performed fleet run thread now call (.armLocal node pkg blocked) answer ∧
      (run (now + 1)).store.slots node =
        armLocalQuarantine ((run now).store.slots node) pkg blocked) ∨
    ∃ zipSha256, (run (now + 1)).store.slots node =
      { (run now).store.slots node with zipSha256 := some zipSha256 } := by
  obtain ⟨thread, call, op, answer, performed⟩ | stays := store_step trace now
  · have ⟨_, _, performs, _⟩ := performed
    obtain same | ⟨set, epoch, etag, rfl, adopts⟩ | ⟨pkg, blocked, rfl, arms⟩ |
      ⟨zipSha256, rfl, reloads⟩ := performs_slots performs node
    · exact .inl same
    · exact .inr (.inl ⟨thread, call, set, epoch, etag, answer, performed, adopts⟩)
    · exact .inr (.inr (.inl ⟨thread, call, pkg, blocked, answer, performed, arms⟩))
    · exact .inr (.inr (.inr ⟨zipSha256, reloads⟩))
  · exact .inl (by rw [stays])

end Steps

section Snapshots
variable {state : AdvisoryState} {set : Finset String} {epoch : ℕ} {etag : Option (Option Etag)}

/-- An offered set is refused, or becomes the live one. -/
theorem adopt_cases (state : AdvisoryState) (set : Finset String) (epoch : ℕ)
    (etag : Option (Option Etag)) :
    ((adoptQuarantined state set epoch etag).1.quarantined = state.quarantined ∧
      (adoptQuarantined state set epoch etag).1.quarantinedEpoch = state.quarantinedEpoch ∧
      (adoptQuarantined state set epoch etag).1.quarantinedUnpublished = state.quarantinedUnpublished) ∨
    ((adoptQuarantined state set epoch etag).1.quarantined = set ∧
      (adoptQuarantined state set epoch etag).1.quarantinedEpoch = epoch ∧
      (adoptQuarantined state set epoch etag).1.quarantinedUnpublished = false ∧
      state.quarantinedEpoch ≤ epoch ∧
      (epoch = state.quarantinedEpoch → state.quarantinedUnpublished = true → set = state.quarantined)) := by
  unfold adoptQuarantined
  dsimp only
  by_cases older : epoch < state.quarantinedEpoch
  · left
    simp [older]
  · by_cases pending : epoch = state.quarantinedEpoch ∧ state.quarantinedUnpublished ∧
        set ≠ state.quarantined
    · left
      simp [pending]
    · right
      rw [if_neg older, if_neg pending, if_pos rfl]
      refine ⟨rfl, rfl, rfl, Nat.le_of_not_lt older, fun same flagged => ?_⟩
      by_contra differs
      exact pending ⟨same, flagged, differs⟩

theorem adopt_epoch : state.quarantinedEpoch ≤ (adoptQuarantined state set epoch etag).1.quarantinedEpoch := by
  obtain ⟨-, same, -⟩ | ⟨-, same, -, grows, -⟩ := adopt_cases state set epoch etag
  · exact same.ge
  · rw [same]
    exact grows

theorem armLocal_epoch (state : AdvisoryState) (pkg : String) (blocked : Bool) :
    (armLocalQuarantine state pkg blocked).quarantinedEpoch = state.quarantinedEpoch := by
  unfold armLocalQuarantine
  dsimp only
  split
  next => rfl
  next => rfl

/-- An arm that leaves the snapshot unflagged changed nothing. -/
theorem armLocal_unflagged {state : AdvisoryState} {pkg : String} {blocked : Bool}
    (plain : (armLocalQuarantine state pkg blocked).quarantinedUnpublished = false) :
    armLocalQuarantine state pkg blocked = state := by
  unfold armLocalQuarantine at plain ⊢
  dsimp only at plain ⊢
  split at plain
  next same => rw [if_pos same]
  next => cases plain

theorem armLocal_leaves {state : AdvisoryState} {pkg name : String} {blocked : Bool}
    (member : name ∈ state.quarantined)
    (gone : name ∉ (armLocalQuarantine state pkg blocked).quarantined) :
    name = pkg ∧ blocked = false := by
  unfold armLocalQuarantine at gone
  dsimp only at gone
  split at gone
  next => exact absurd member gone
  next =>
    unfold withName at gone
    dsimp only at gone
    cases blocked with
    | true => exact absurd (Finset.mem_insert_of_mem member) gone
    | false =>
        refine ⟨?_, rfl⟩
        by_contra other
        exact gone (Finset.mem_erase.mpr ⟨other, member⟩)

end Snapshots

section Invariant
variable {run : ℕ → FleetConfig β ν} {now : ℕ}

omit [DecidableEq β] [DecidableEq ν] in
theorem stands_epochAt {bucket : β} {value : StoredQuarantined} (stands : Stands run now bucket value) :
    epochAt run now bucket = value.epoch := by
  obtain ⟨revision, held⟩ := stands
  rw [epochAt, held]
  rfl

theorem saturatingAddOne_pos (epoch : ℕ) : 0 < saturatingAddOne epoch := by
  unfold saturatingAddOne u64Max
  omega

theorem lt_saturatingAddOne {epoch bound : ℕ} (le : epoch ≤ bound) (below : epoch < u64Max) :
    epoch < saturatingAddOne bound := by
  unfold saturatingAddOne
  omega

/-- A write that lands while its publisher is ahead carries a set of its own epoch:
one nobody stored before, or the one that was stored under it. -/
theorem Sound.landing (sound : Sound run now) {thread : ℕ} {call : Call β ν} {op : QuarantineOp β ν}
    {answer : op.Ans} {bucket : β} {etag : Option Etag} {value : StoredQuarantined}
    (ahead : ∀ instant ≤ now, PublisherAhead run instant)
    (performed : Performed fleet run thread now call op answer) (puts : PutsOver bucket etag value op)
    (held : (run now).store.sets bucket = etag) (offered : Offered run thread now etag value) :
    epochAt run now bucket < value.epoch ∧
      (StoredBy run now value ∨ ∀ other, StoredBy run now other → other.epoch < value.epoch) := by
  obtain ⟨-, ⟨state, chose, same⟩ | ⟨stored, older⟩⟩ := offered
  · have first := ahead now le_rfl thread call op answer bucket etag value state performed puts held chose
    have above (other : β) : epochAt run now other < value.epoch := by
      obtain ⟨bounded, below⟩ := first other
      rw [same]
      refine lt_saturatingAddOne ?_ below
      have here : epochAt run now bucket = epochOf etag := by rw [epochAt, held]
      rw [here] at bounded
      exact bounded
    refine ⟨above bucket, .inr fun other ⟨instant, before, place, stands⟩ => ?_⟩
    obtain ⟨latest, current, le⟩ := sound.top instant before place other stands
    have top := above place
    rw [stands_epochAt current] at top
    omega
  · refine ⟨?_, .inl (stored fun instant before => ahead instant before.le)⟩
    rw [epochAt, held]
    exact older

theorem Sound.next (fleetRun : FleetRun run) (sound : Sound run now)
    (ahead : ∀ instant ≤ now, PublisherAhead run instant)
    (owed : ∀ thread call op answer, Performed fleet run thread now call op answer →
      Owed run thread call now op) : Sound run (now + 1) := by
  have offers {thread : ℕ} {call : Call β ν} {op : QuarantineOp β ν} {answer : op.Ans} {bucket : β}
      {etag : Option Etag} {value : StoredQuarantined}
      (performed : Performed fleet run thread now call op answer)
      (puts : PutsOver bucket etag value op) : Offered run thread now etag value := by
    have owes := owed thread call op answer performed
    cases etag with
    | some etag =>
        cases puts
        exact owes.1
    | none =>
        cases puts
        exact owes.1
  -- a set new to some bucket: older than nothing there, and of its own epoch
  have fresh (bucket : β) (value : StoredQuarantined) (stands : Stands run (now + 1) bucket value) :
      StoredBy run now value ∨
        0 < value.epoch ∧ ∀ other, StoredBy run now other → other.epoch < value.epoch := by
    obtain ⟨revision, stands⟩ := stands
    obtain same | ⟨thread, call, op, answer, etag, landed, revision', performed, puts, held, lands⟩ :=
      sets_step fleetRun.trace now bucket
    · rw [same] at stands
      exact .inl ⟨now, le_rfl, bucket, revision, stands⟩
    · cases stands.symm.trans lands
      obtain ⟨-, stored | new⟩ := sound.landing ahead performed puts held (offers performed puts)
      · exact .inl stored
      · exact .inr ⟨(offers performed puts).1, new⟩
  have distinct (first second : StoredQuarantined) (stored : StoredBy run now first)
      (bucket : β) (stands : Stands run (now + 1) bucket second) (same : first.epoch = second.epoch) :
      first = second := by
    obtain stored' | ⟨-, new⟩ := fresh bucket second stands
    · exact sound.unique first second stored stored' same
    · exact absurd same (Nat.ne_of_lt (new first stored))
  have unique : ∀ value value', StoredBy run (now + 1) value → StoredBy run (now + 1) value' →
      value.epoch = value'.epoch → value = value' := by
    intro value value' first second same
    obtain stored | ⟨bucket, stands⟩ := storedBy_succ first
    · obtain stored' | ⟨bucket, stands⟩ := storedBy_succ second
      · exact sound.unique value value' stored stored' same
      · exact distinct value value' stored bucket stands same
    · obtain stored' | ⟨bucket', stands'⟩ := storedBy_succ second
      · exact (distinct value' value stored' bucket stands same.symm).symm
      · -- both are new: one operation lands on one bucket only
        obtain stored | new := fresh bucket value stands
        · exact distinct value value' stored bucket' stands' same
        · obtain stored' | new' := fresh bucket' value' stands'
          · exact (distinct value' value stored' bucket stands same.symm).symm
          · obtain ⟨revision, held⟩ := stands
            obtain ⟨revision', held'⟩ := stands'
            obtain kept | ⟨thread, call, op, answer, etag, landed, _, performed, puts, _, lands⟩ :=
              sets_step fleetRun.trace now bucket
            · rw [kept] at held
              exact absurd (new.2 value ⟨now, le_rfl, bucket, revision, held⟩) (lt_irrefl _)
            · obtain kept | ⟨thread', call', op', answer', etag', landed', _, performed', puts', _, lands'⟩ :=
                sets_step fleetRun.trace now bucket'
              · rw [kept] at held'
                exact absurd (new'.2 value' ⟨now, le_rfl, bucket', revision', held'⟩) (lt_irrefl _)
              · cases held.symm.trans lands
                cases held'.symm.trans lands'
                cases performed.unique performed'
                have ⟨_, task, _, _⟩ := performed
                have ⟨_, task', _, _⟩ := performed'
                cases task.symm.trans task'
                exact puts_value puts puts'
  have top : ∀ instant ≤ now + 1, ∀ bucket value, Stands run instant bucket value →
      ∃ latest, Stands run (now + 1) bucket latest ∧ value.epoch ≤ latest.epoch := by
    intro instant before bucket value stands
    obtain earlier | rfl := Nat.le_succ_iff.mp before
    · obtain ⟨latest, ⟨revision, current⟩, le⟩ := sound.top instant earlier bucket value stands
      obtain same | ⟨thread, call, op, answer, etag, landed, revision', performed, puts, held, lands⟩ :=
        sets_step fleetRun.trace now bucket
      · exact ⟨latest, ⟨revision, same.trans current⟩, le⟩
      · have above := (sound.landing ahead performed puts held (offers performed puts)).1
        rw [stands_epochAt ⟨revision, current⟩] at above
        exact ⟨landed, ⟨revision', lands⟩, le.trans above.le⟩
    · exact ⟨value, stands, le_rfl⟩
  have positive : ∀ value, StoredBy run (now + 1) value → 0 < value.epoch := by
    intro value stored
    obtain stored | ⟨bucket, stands⟩ := storedBy_succ stored
    · exact sound.positive value stored
    · obtain stored | ⟨spends, -⟩ := fresh bucket value stands
      · exact sound.positive value stored
      · exact spends
  refine ⟨unique, top, positive, fun node => ?_, fun node plain => ?_⟩
  · have before : ((run now).store.slots node).quarantinedEpoch = 0 ∨
        ∃ value, StoredBy run (now + 1) value ∧
          value.epoch = ((run now).store.slots node).quarantinedEpoch :=
      (sound.epochs node).imp_right fun ⟨value, stored, same⟩ =>
        ⟨value, stored.mono (Nat.le_succ now), same⟩
    obtain same | ⟨thread, call, set, epoch, etag, answer, performed, adopts⟩ |
      ⟨thread, call, pkg, blocked, answer, performed, arms⟩ | ⟨zipSha256, reloads⟩ :=
        slots_step fleetRun.trace now node
    · rw [same]
      exact before
    · rw [adopts]
      obtain ⟨-, kept, -⟩ | ⟨-, taken, -⟩ :=
        adopt_cases ((run now).store.slots node) set epoch etag
      · rw [kept]
        exact before
      · rw [taken]
        have known : Known run now set epoch := (owed _ _ _ _ performed).2
        obtain ⟨zero, -⟩ | stored := known
        · exact .inl zero
        · exact .inr ⟨_, stored.mono (Nat.le_succ now), rfl⟩
    · rw [arms, armLocal_epoch]
      exact before
    · rw [reloads]
      exact before
  · obtain same | ⟨thread, call, set, epoch, etag, answer, performed, adopts⟩ |
      ⟨thread, call, pkg, blocked, answer, performed, arms⟩ | ⟨zipSha256, reloads⟩ :=
        slots_step fleetRun.trace now node
    · rw [same] at plain ⊢
      exact (sound.slots node plain).mono (Nat.le_succ now)
    · rw [adopts] at plain ⊢
      obtain ⟨set', epoch', flag⟩ | ⟨set', epoch', -⟩ :=
        adopt_cases ((run now).store.slots node) set epoch etag
      · rw [flag] at plain
        rw [set', epoch']
        exact (sound.slots node plain).mono (Nat.le_succ now)
      · rw [set', epoch']
        have known : Known run now set epoch := (owed _ _ _ _ performed).2
        exact known.mono (Nat.le_succ now)
    · rw [arms] at plain ⊢
      have same := armLocal_unflagged plain
      rw [same] at plain ⊢
      exact (sound.slots node plain).mono (Nat.le_succ now)
    · rw [reloads] at plain ⊢
      exact (sound.slots node plain).mono (Nat.le_succ now)
where
  puts_value {op : QuarantineOp β ν} {bucket bucket' : β} {etag etag' : Option Etag}
      {value value' : StoredQuarantined} (puts : PutsOver bucket etag value op)
      (puts' : PutsOver bucket' etag' value' op) : value = value' := by
    cases etag with
    | some etag =>
        cases puts
        cases etag' with
        | some etag' =>
            cases puts'
            rfl
        | none => cases puts'
    | none =>
        cases puts
        cases etag' with
        | some etag' => cases puts'
        | none =>
            cases puts'
            rfl

end Invariant
section Programs
variable {run : ℕ → FleetConfig β ν} {thread : ℕ} {call : Call β ν} {instant : ℕ} {γ : Type}

/-- The thread makes the rest of its operations as it owes them. -/
abbrev Keeps (run : ℕ → FleetConfig β ν) (thread : ℕ) (call : Call β ν) (post : ℕ → γ → Prop)
    (instant : ℕ) (program : QuarantineM β ν γ) : Prop :=
  Secure fleet run (SoundIfAhead run) (fun _ _ _ => True)
    (fun now op _ => Owed run thread call now op) thread call post instant program

/-- What a read of a bucket's object says of the sets stored so far. -/
def ReadFrom (run : ℕ → FleetConfig β ν) (now : ℕ) (found : Option Object) : Prop :=
  ∀ value revision, found = some ⟨.stored value, revision⟩ → StoredBy run now value

theorem keeps_getWithEtag (bucket : β) :
    Keeps run thread call (ReadFrom run) instant (getWithEtag bucket) := by
  intro now _ _ answer performed _
  refine ⟨trivial, fun _ => ?_⟩
  cases answer with
  | error error => trivial
  | ok found =>
      have ⟨_, _, performs, _⟩ := performed
      have held : (run now).store.sets bucket = found := performs_got performs
      intro value revision same
      exact ⟨now, Nat.le_succ now, bucket, revision, held.trans same⟩

theorem keeps_getBytes (bucket : β) :
    Keeps run thread call (fun later body => ∀ value, body = .stored value → StoredBy run later value)
      instant (getBytes bucket) := by
  intro now _ _ answer performed _
  refine ⟨trivial, fun _ => ?_⟩
  cases answer with
  | error error => trivial
  | ok body =>
      have ⟨_, _, performs, _⟩ := performed
      rintro value rfl
      obtain ⟨revision, held⟩ := performs_bytes performs
      exact ⟨now, Nat.le_succ now, bucket, revision, held⟩

/-- A snapshot, read by the call's node. -/
theorem keeps_readState : Keeps run thread call
    (fun later state => ChoseFrom run thread later state ∧ SoundIfAhead run (later - 1) ∧
      state = (run (later - 1)).store.slots call.node)
    instant (readState call.node) := by
  intro now _ sound state performed _
  have ⟨_, _, performs, _⟩ := performed
  exact ⟨trivial, fun _ => ⟨⟨now, call, performed, .refl _⟩, sound, performs_state performs⟩⟩

/-- Whatever an operation answers, if nothing is owed for it. -/
theorem keeps_any {op : QuarantineOp β ν} {next : op.Ans → QuarantineM β ν γ} {post : ℕ → γ → Prop}
    (free : ∀ now, Owed run thread call now op)
    (rest : ∀ later, instant ≤ later → SoundIfAhead run later → ∀ answer,
      Keeps run thread call post later (next answer)) :
    Keeps run thread call post instant (.call op next) := fun now quiet _ answer _ _ =>
  ⟨free now, fun sound => rest (now + 1) (quiet.1.trans (Nat.le_succ now)) sound answer⟩

theorem keeps_done {result : Except String γ} {post : ℕ → γ → Prop}
    (yields : ∀ value, result = .ok value → post instant value) :
    Keeps run thread call post instant (.done result) := by
  cases result with
  | error error => trivial
  | ok value => exact yields value rfl

/-- One request whose answer is the result. -/
theorem keeps_request {op : QuarantineOp β ν} {result : op.Ans → Except String γ}
    (free : ∀ now, Owed run thread call now op) :
    Keeps run thread call (fun _ _ => True) instant (.call op fun answer => done (result answer)) :=
  keeps_any free fun _ _ _ _ => keeps_done fun _ _ => trivial

/-- An adopted set is one that was stored, or the empty one of no object. -/
theorem keeps_adopt {set : Finset String} {epoch : ℕ} {etag : Option (Option Etag)}
    (known : Known run instant set epoch) :
    Keeps run thread call (fun _ _ => True) instant (adopt call.node set epoch etag) :=
  fun _ quiet _ _ _ _ => ⟨⟨rfl, known.mono quiet.1⟩, fun _ => trivial⟩

/-- A conditional write, whose etag says that it landed. -/
theorem keeps_putOver {bucket : β} {etag : Option Etag} {value : StoredQuarantined}
    (offered : ∀ now, Quiet run thread instant now → SoundIfAhead run now →
      Offered run thread now etag value ∧ (∀ replicas, call.task = .reseed replicas →
        (∀ earlier < now, PublisherAhead run earlier) → StoredBy run now value)) :
    Keeps run thread call (fun later landed => landed.isSome → StoredBy run later value) instant
      (putOver bucket etag value) := by
  cases etag with
  | some etag =>
      intro now quiet sound answer performed _
      refine ⟨offered now quiet sound, fun _ => keeps_done fun landed same lands => ?_⟩
      have ⟨_, _, performs, _⟩ := performed
      obtain ⟨etag', rfl⟩ := Option.isSome_iff_exists.mp lands
      obtain ⟨revision, held⟩ := performs_put (some etag) rfl performs (heq_of_eq same)
      exact ⟨now + 1, le_rfl, bucket, revision, held⟩
  | none =>
      intro now quiet sound answer performed _
      refine ⟨offered now quiet sound, fun _ => keeps_done fun landed same lands => ?_⟩
      have ⟨_, _, performs, _⟩ := performed
      obtain ⟨etag', rfl⟩ := Option.isSome_iff_exists.mp lands
      obtain ⟨revision, held⟩ := performs_put none rfl performs (heq_of_eq same)
      exact ⟨now + 1, le_rfl, bucket, revision, held⟩

/-- A seed offers its set to a bucket whose copy is older. -/
theorem keeps_seed {value : StoredQuarantined} (bucket : β) (sound : SoundIfAhead run instant)
    (positive : 0 < value.epoch) (stored : ∀ later, instant ≤ later →
      (∀ earlier < later, PublisherAhead run earlier) → StoredBy run later value) :
    Keeps run thread call (fun _ _ => True) instant (seedQuarantinedOnto bucket value) := by
  have puts (etag : Option Etag) (older : epochOf etag < value.epoch) (later : ℕ) (le : instant ≤ later)
      (sound : SoundIfAhead run later) : Keeps run thread call (fun _ _ => True) later
        (putOver bucket etag value >>= fun landed => return landed.isSome) := by
    refine Secure.bind sound (keeps_putOver fun now quiet _ => ?_) fun _ _ _ _ _ => trivial
    have known := stored now (le.trans quiet.1)
    exact ⟨⟨positive, .inr ⟨known, older⟩⟩, fun _ _ => known⟩
  refine Secure.bind sound (keeps_getWithEtag bucket) fun later le sound found reads => ?_
  match found with
  | none => exact puts none positive later le sound
  | some ⟨.stored held, revision⟩ =>
      dsimp only
      split
      next => trivial
      next behind => exact puts (some ⟨.stored held, revision⟩) (Nat.lt_of_not_le behind) later le sound
  | some ⟨.unreadable error, revision⟩ =>
      exact puts (some ⟨.unreadable error, revision⟩) positive later le sound

theorem keeps_seedPeers {value : StoredQuarantined} (replicas : List β)
    (sound : SoundIfAhead run instant) (positive : 0 < value.epoch)
    (stored : ∀ later, instant ≤ later → (∀ earlier < later, PublisherAhead run earlier) →
      StoredBy run later value) :
    Keeps run thread call (fun _ _ => True) instant (seedPeers value replicas) := by
  induction replicas generalizing instant with
  | nil => trivial
  | cons replica rest ih =>
      have next (later : ℕ) (le : instant ≤ later) (sound : SoundIfAhead run later) :
          Keeps run thread call (fun _ _ => True) later (seedPeers value rest) :=
        ih sound fun after le' => stored after (le.trans le')
      exact Secure.attempt sound (keeps_seed replica sound positive stored)
        (fun later le sound _ => next later le sound) (fun later le sound _ _ => next later le sound)

theorem currentOf_ok {edit : QuarantinedEdit} {found : Option Object} {current : Current}
    (same : currentOf edit found = .ok current) :
    current.etag = found ∧ current.stored.epoch = epochOf found ∧
      (current.stored = default ∨ ∃ revision, found = some ⟨.stored current.stored, revision⟩) := by
  match found with
  | none =>
      cases same
      exact ⟨rfl, rfl, .inl rfl⟩
  | some ⟨.stored stored, revision⟩ =>
      cases same
      exact ⟨rfl, rfl, .inr ⟨revision, rfl⟩⟩
  | some ⟨.unreadable error, revision⟩ =>
      unfold currentOf at same
      dsimp only at same
      split at same
      next =>
        cases same
        exact ⟨rfl, rfl, .inl rfl⟩
      next => cases same

/-- A publish that is not behind applies its edit to the set it read. -/
theorem keeps_haveOf (edit : QuarantinedEdit) (current : Current)
    (sound : SoundIfAhead run instant) :
    Keeps run thread call
      (fun _ (have_ : Finset String × Bool) => have_.2 = false → have_.1 = current.stored.quarantined)
      instant (haveOf call.node edit current) := by
  refine Secure.bind sound keeps_readState fun later _ sound live _ => ?_
  split
  next =>
    refine Secure.bind sound keeps_readState fun _ _ _ _ _ => ?_
    exact nofun
  next => exact fun _ => rfl

theorem keeps_nextOf (bucket : β) (edit : QuarantinedEdit) (current : Current)
    (standing : Finset String) (sound : SoundIfAhead run instant) :
    Keeps run thread call (fun _ _ => True) instant (nextOf bucket edit current standing) := by
  cases edit with
  | one => trivial
  | derive name blocked =>
      unfold nextOf
      dsimp only
      split
      next => trivial
      next => exact Secure.bind sound (keeps_request fun _ => trivial) fun _ _ _ _ _ => trivial
  | sweep => trivial

theorem keeps_publishAttempts (bucket : β) (replicas : List β) (edit : QuarantinedEdit)
    (plain : ∀ replicas, call.task ≠ .reseed replicas) (attempts : ℕ)
    (sound : SoundIfAhead run instant) :
    Keeps run thread call (fun _ _ => True) instant
      (publishAttempts bucket replicas call.node edit attempts) := by
  induction attempts generalizing instant with
  | zero => trivial
  | succ attempts ih =>
      refine Secure.bind sound (keeps_getWithEtag bucket) fun later _ sound found reads => ?_
      have chooses : Keeps run thread call (fun _ current => currentOf edit found = .ok current) later
          (.done (currentOf edit found)) := keeps_done fun _ same => same
      refine Secure.bind sound chooses fun later' le sound current chosen => ?_
      obtain ⟨token, older, read⟩ := currentOf_ok chosen
      have known : Known run later' current.stored.quarantined current.stored.epoch := by
        obtain base | ⟨revision, held⟩ := read
        · rw [base]
          exact .inl ⟨rfl, rfl⟩
        · exact .inr ((reads current.stored revision held).mono le)
      refine Secure.bind sound (keeps_haveOf edit current sound) ?_
      rintro after le sound ⟨standing, behind⟩ applied
      refine Secure.bind sound (keeps_nextOf bucket edit current standing sound) ?_
      intro after' le' sound next _
      split
      next unchanged =>
        have same : next = current.stored.quarantined :=
          unchanged.1.trans (applied (Bool.eq_false_of_not_eq_true unchanged.2))
        refine Secure.bind sound (keeps_adopt ?_) fun _ _ _ _ _ => trivial
        rw [same]
        exact known.mono (le.trans le')
      next =>
        refine Secure.bind sound keeps_readState fun chosen _ sound live ⟨chose, _, _⟩ => ?_
        refine Secure.bind sound (keeps_putOver fun now quiet _ => ?_) ?_
        · refine ⟨⟨saturatingAddOne_pos _, .inl ⟨live, ?_, ?_⟩⟩, fun replicas reseeds => ?_⟩
          · exact chose.later quiet
          · rw [token, older]
          · exact absurd reseeds (plain replicas)
        · intro landed _ sound answer stored
          match answer with
          | none => exact ih sound
          | some _ =>
              have stored := stored rfl
              refine Secure.bind sound (keeps_seedPeers replicas sound (saturatingAddOne_pos _)
                fun _ le _ => stored.mono le) fun _ le sound _ _ => ?_
              refine Secure.bind sound (keeps_adopt (.inr (stored.mono le))) fun _ _ _ _ _ => trivial

theorem keeps_publish (bucket : β) (replicas : List β) (edit : QuarantinedEdit)
    (plain : ∀ replicas, call.task ≠ .reseed replicas) (sound : SoundIfAhead run instant) :
    Keeps run thread call (fun _ _ => True) instant
      (publishQuarantined bucket replicas call.node edit) :=
  keeps_publishAttempts bucket replicas edit plain quarantinedCasAttempts sound

theorem keeps_poll (bucket : β) (sound : SoundIfAhead run instant) :
    Keeps run thread call (fun _ _ => True) instant (pollQuarantined bucket call.node) := by
  have reloads : Keeps run thread call (fun _ _ => True) instant
      (reloadQuarantined bucket call.node) := by
    refine Secure.bind sound (keeps_request fun _ => trivial) fun later _ sound etag _ => ?_
    refine Secure.bind sound keeps_readState fun later _ sound loaded _ => ?_
    split
    next => trivial
    next =>
      split
      next => trivial
      next =>
        refine Secure.bind sound (keeps_getBytes bucket) fun later _ sound body read => ?_
        cases body with
        | unreadable error => trivial
        | stored value =>
            exact Secure.bind sound (keeps_adopt (.inr (read value rfl))) fun _ _ _ _ _ => trivial
  exact Secure.attempt sound reloads (fun _ _ _ _ => trivial) fun _ _ _ _ _ => trivial

/-- A reseed offers a snapshot that says it was stored. -/
theorem keeps_reseed (bucket : β) (replicas : List β) (sound : SoundIfAhead run instant) :
    Keeps run thread call (fun _ _ => True) instant (reseedIfAbsent bucket replicas call.node) := by
  refine Secure.bind sound keeps_readState fun later _ sound' snap ⟨_, before, read⟩ => ?_
  split
  next offers =>
    obtain ⟨positive, plain⟩ := offers
    have stored (after : ℕ) (le : later ≤ after)
        (ahead : ∀ earlier < after, PublisherAhead run earlier) :
        StoredBy run after ⟨snap.quarantined, snap.quarantinedEpoch⟩ := by
      have sound := before fun earlier lt => ahead earlier (by omega)
      have known := sound.slots call.node (by rw [← read]; exact Bool.eq_false_of_not_eq_true plain)
      rw [← read] at known
      obtain ⟨zero, -⟩ | stored := known
      · exact absurd zero positive.ne'
      · exact stored.mono ((Nat.sub_le later 1).trans le)
    refine Secure.bind sound' (keeps_seed bucket sound' positive stored) fun after le sound _ _ => ?_
    exact keeps_seedPeers replicas sound positive fun last le' => stored last (le.trans le')
  next => trivial

theorem keeps_arm (bucket : β) (replicas : List β) (pkg : String) (blocked : Bool)
    (plain : ∀ replicas, call.task ≠ .reseed replicas) :
    Keeps run thread call (fun _ _ => True) instant
      (armQuarantine bucket replicas call.node pkg blocked) :=
  keeps_any (fun _ => rfl) fun _ _ sound _ => keeps_publish bucket replicas _ plain sound

theorem keeps_shareStatus (bucket : β) (replicas : List β) (pkg : String) (blocked : Bool)
    (plain : ∀ replicas, call.task ≠ .reseed replicas) (sound : SoundIfAhead run instant) :
    Keeps run thread call (fun _ _ => True) instant
      (shareStatus bucket replicas call.node pkg blocked) := by
  refine Secure.attempt sound (keeps_arm bucket replicas pkg blocked plain) ?_ ?_
  · intro later _ sound error
    exact Secure.attempt sound (keeps_request fun _ => trivial) (fun _ _ _ _ => trivial)
      fun _ _ _ _ _ => trivial
  · intro later _ sound value _
    exact Secure.attempt sound (keeps_request fun _ => trivial) (fun _ _ _ _ => trivial)
      fun _ _ _ _ _ => trivial

theorem keeps_status (bucket : β) (replicas : List β) (pkg : String) (doc : ProjectStatusDoc)
    (plain : ∀ replicas, call.task ≠ .reseed replicas) (sound : SoundIfAhead run instant) :
    Keeps run thread call (fun _ _ => True) instant
      (writeProjectStatus bucket replicas call.node pkg doc) := by
  unfold writeProjectStatus
  dsimp only
  split
  all_goals
    refine Secure.bind sound (keeps_request fun _ => trivial) fun later _ sound _ _ => ?_
    exact keeps_shareStatus bucket replicas pkg _ plain sound

theorem keeps_drain (bucket : β) (replicas : List β) (generation : ℕ) (pkg : String)
    (plain : ∀ replicas, call.task ≠ .reseed replicas) (sound : SoundIfAhead run instant) :
    Keeps run thread call (fun _ _ => True) instant
      (drainPackage bucket replicas call.node generation pkg) := by
  refine Secure.bind sound (keeps_request fun _ => trivial) fun _ _ sound listed _ => ?_
  dsimp only
  split
  next => trivial
  next =>
    refine Secure.bind sound (keeps_request fun _ => trivial) fun _ _ sound doc _ => ?_
    refine Secure.bind sound (keeps_request fun _ => trivial) fun _ _ sound _ _ => ?_
    refine Secure.bind sound (keeps_publish bucket replicas _ plain sound) fun _ _ sound _ _ => ?_
    exact Secure.attempt sound (keeps_request fun _ => trivial) (fun _ _ _ _ => trivial)
      fun _ _ _ _ _ => trivial

theorem keeps_sweepStatuses (bucket : β) (names : List String) (sound : SoundIfAhead run instant) :
    Keeps run thread call (fun _ _ => True) instant (sweepStatuses bucket names) := by
  induction names generalizing instant with
  | nil => trivial
  | cons pkg rest ih =>
      refine Secure.bind sound (keeps_request fun _ => trivial) fun _ _ sound _ _ => ?_
      exact Secure.bind sound (ih sound) fun _ _ _ _ _ => trivial

theorem keeps_walk (bucket : β) (replicas : List β) (base : Except String (Finset String × ℕ))
    (plain : ∀ replicas, call.task ≠ .reseed replicas) (sound : SoundIfAhead run instant) :
    Keeps run thread call (fun _ _ => True) instant
      (walkAndPublish bucket replicas call.node base) := by
  refine Secure.bind sound (keeps_request fun _ => trivial) fun _ _ sound names _ => ?_
  refine Secure.bind sound (keeps_sweepStatuses bucket names sound) fun _ _ sound set _ => ?_
  cases base with
  | error error => trivial
  | ok base =>
      exact Secure.attempt sound (keeps_publish bucket replicas _ plain sound)
        (fun _ _ _ _ => trivial) fun _ _ _ _ _ => trivial

theorem keeps_audit (bucket : β) (replicas : List β) (plain : ∀ replicas, call.task ≠ .reseed replicas)
    (sound : SoundIfAhead run instant) :
    Keeps run thread call (fun _ _ => True) instant (audit bucket replicas call.node) := by
  have reads : Keeps run thread call (fun _ _ => True) instant (storedQuarantined bucket) := by
    refine Secure.bind sound (keeps_getWithEtag bucket) fun _ _ _ found _ => ?_
    match found with
    | none => trivial
    | some ⟨.stored value, _⟩ => trivial
    | some ⟨.unreadable _, _⟩ => trivial
  exact Secure.attempt sound reads (fun _ _ sound error => keeps_walk bucket replicas _ plain sound)
    fun _ _ sound base _ => keeps_walk bucket replicas _ plain sound

theorem keeps_program (thread : ℕ) (call : Call β ν) (sound : SoundIfAhead run instant) :
    Keeps run thread call (fun _ _ => True) instant (fleet.program call) := by
  obtain ⟨node, storage, task⟩ := call
  cases task with
  | poll => exact keeps_poll storage sound
  | publish replicas edit => exact keeps_publish storage replicas edit nofun sound
  | arm replicas pkg blocked => exact keeps_arm storage replicas pkg blocked nofun
  | reseed replicas => exact keeps_reseed storage replicas sound
  | reload zipSha256 => exact keeps_request fun _ => trivial
  | status replicas pkg doc => exact keeps_status storage replicas pkg doc nofun sound
  | drain replicas generation pkg => exact keeps_drain storage replicas generation pkg nofun sound
  | audit replicas => exact keeps_audit storage replicas nofun sound

end Programs

section Runs
variable {run : ℕ → FleetConfig β ν}

theorem FleetRun.sound_zero (fleetRun : FleetRun run) : Sound run 0 where
  unique := fleetRun.unique
  top := by
    rintro instant before bucket value stands
    obtain rfl := Nat.le_zero.mp before
    exact ⟨value, stands, le_rfl⟩
  positive := fleetRun.positive
  epochs node := by
    obtain ⟨zero, -⟩ | stored := (fleetRun.fresh node).2
    · exact .inl zero
    · exact .inr ⟨_, stored, rfl⟩
  slots node _ := (fleetRun.fresh node).2

/-- The invariant of every run, and what every operation of it owed. -/
theorem FleetRun.sound (fleetRun : FleetRun run) (now : ℕ) :
    SoundIfAhead run now ∧ ∀ thread call op answer,
      Performed fleet run thread now call op answer → Owed run thread call now op := by
  refine fleetRun.trace.guaranteed fleetRun.idle (SoundIfAhead run) (Owed run)
    (fun _ => fleetRun.sound_zero) ?_ ?_ now
  · intro now sound owed ahead
    exact (sound fun earlier before => ahead earlier (Nat.lt_succ_of_lt before)).next fleetRun
      (fun earlier before => ahead earlier (Nat.lt_succ_of_le before)) owed
  · exact fun thread start call sound _ => keeps_program thread call sound

end Runs

/-- As long as no bucket is ahead of a publisher when its write lands, two buckets at
one epoch hold one set, in every state of every run. -/
theorem equal_epochs_equal_sets {run : ℕ → FleetConfig β ν} (fleetRun : FleetRun run) (now : ℕ)
    (ahead : ∀ instant < now, PublisherAhead run instant) (bucket bucket' : β)
    (value value' : StoredQuarantined) (stands : Stands run now bucket value)
    (stands' : Stands run now bucket' value') (same : value.epoch = value'.epoch) :
    value.quarantined = value'.quarantined := by
  have sound := (fleetRun.sound now).1 ahead
  rw [sound.unique value value' ⟨now, le_rfl, bucket, stands⟩ ⟨now, le_rfl, bucket', stands'⟩ same]

section Samples

/-- Requests are carried out, a listing of markers as given or not at all. -/
def answering (listing : List Marker) : Server (fleet : System (World β ν) _ _ _ _ _) where
  serve thread world
    | .getWithEtag bucket | .listEtag bucket => (.ok (world.sets bucket), world)
    | .getBytes bucket =>
      match world.sets bucket with
      | some object => (.ok object.body, world)
      | none => (.error "not found", world)
    | .putIfMatch bucket etag value =>
      if world.sets bucket = some etag then
        (.ok (some ⟨.stored value, 0⟩), world.put bucket ⟨.stored value, 0⟩)
      else (.ok none, world)
    | .putIfNoneMatch bucket value =>
      match world.sets bucket with
      | none => (.ok (some ⟨.stored value, 0⟩), world.put bucket ⟨.stored value, 0⟩)
      | some _ => (.ok none, world)
    | .readStatus bucket pkg => (.ok ((world.statuses bucket pkg).getD default), world)
    | .listStatuses _ => (.error "timed out", world)
    | .writeStatus bucket pkg doc => (.ok (), world.setStatus bucket pkg (some doc))
    | .clearStatus bucket pkg => (.ok (), world.setStatus bucket pkg none)
    | .putMarker bucket pkg =>
      if ⟨pkg, thread⟩ ∈ world.markers bucket then (.error "taken", world)
      else (.ok (), world.setMarkers bucket (insert ⟨pkg, thread⟩ (world.markers bucket)))
    | .listMarkers bucket =>
      if listing.toFinset = world.markers bucket then (.ok listing, world)
      else (.error "timed out", world)
    | .deleteMarkers bucket markers =>
      (.ok (), world.setMarkers bucket (world.markers bucket \ markers.toFinset))
    | .requireGeneration _ => (.ok (), world)
    | .readState node => (world.slots node, world)
    | .adopt node names epoch etag =>
      ((adoptQuarantined (world.slots node) names epoch etag).2,
        world.setSlot node (adoptQuarantined (world.slots node) names epoch etag).1)
    | .armLocal node pkg blocked =>
      ((), world.setSlot node (armLocalQuarantine (world.slots node) pkg blocked))
    | .reload node zipSha256 =>
      ((), world.setSlot node { world.slots node with zipSha256 := some zipSha256 })
  sound thread world op := by
    cases op with
    | getWithEtag => exact .served .got
    | listEtag => exact .served .listed
    | getBytes bucket =>
        dsimp only
        split
        next held => exact .served (.read held)
        next => exact .refused .getBytes
    | putIfMatch bucket etag value =>
        dsimp only
        split
        next held => exact .served (.replaced held)
        next moved => exact .served (.changed moved)
    | putIfNoneMatch bucket value =>
        dsimp only
        split
        next missing => exact .served (.created missing)
        next held => exact .served (.occupied held)
    | readStatus => exact .served .status
    | listStatuses => exact .refused .listStatuses
    | writeStatus => exact .served .statusWritten
    | clearStatus => exact .served .statusCleared
    | putMarker bucket pkg =>
        dsimp only
        split
        next => exact .refused .putMarker
        next free => exact .served (.marked free)
    | listMarkers bucket =>
        dsimp only
        split
        next same => exact .served (.markers same)
        next => exact .refused .listMarkers
    | deleteMarkers => exact .served .consumed
    | requireGeneration => exact .served .generation
    | readState => exact .served .state
    | adopt => exact .served .adopted
    | armLocal => exact .served .armed
    | reload => exact .served .reloaded

/-- No objects, and nodes that know of none. -/
def bare : FleetConfig β ν where
  store := ⟨fun _ => none, fun _ _ => none, fun _ => ∅, fun _ => ⟨none, ∅, none, 0, false⟩⟩
  threads _ := none

theorem bare_stores {moves : List (Move (fleet : System (World β ν) _ _ _ _ _))}
    {value : StoredQuarantined} : ¬StoredBy (replay bare moves) 0 value := by
  rintro ⟨instant, before, bucket, revision, held⟩
  obtain rfl := Nat.le_zero.mp before
  cases held

theorem bare_run (moves : List (Move (fleet : System (World β ν) _ _ _ _ _))) :
    FleetRun (replay bare moves) where
  trace := trace_replay _ _
  idle _ := rfl
  fresh _ := ⟨rfl, .inl ⟨rfl, rfl⟩⟩
  unique _ _ stored := absurd stored bare_stores
  positive _ stored := absurd stored bare_stores

def turn (thread : ℕ) : Move (fleet : System (World β ν) _ _ _ _ _) :=
  .perform thread (answering [])

/-- Two nodes that selected different buckets publish at once, each reading before the
other's write; the write-through of each finds the other's epoch and skips. -/
def splitPublish : ℕ → FleetConfig Bool Bool :=
  replay bare [.start 0 ⟨false, false, .publish [true] (.one "x" true)⟩,
    .start 1 ⟨true, true, .publish [false] (.one "y" true)⟩,
    turn 0, turn 0, turn 0, turn 1, turn 1, turn 1, turn 0, turn 1,
    turn 0, turn 0, turn 1, turn 1]

theorem split_publish_epochs : FleetRun splitPublish ∧
    (∀ thread, (splitPublish 14).threads thread = none ∨
      ∃ call, (splitPublish 14).threads thread = some (call, .done (.ok ()))) ∧
    Stands splitPublish 14 false ⟨{"x"}, 1⟩ ∧ Stands splitPublish 14 true ⟨{"y"}, 1⟩ := by
  refine ⟨bare_run _, fun thread => ?_, ⟨0, rfl⟩, ⟨0, rfl⟩⟩
  match thread with
  | 0 => exact .inr ⟨_, rfl⟩
  | 1 => exact .inr ⟨_, rfl⟩
  | _ + 2 => exact .inl rfl

theorem split_publish_disagrees : ¬∀ run : ℕ → FleetConfig Bool Bool, FleetRun run →
    ∀ now bucket bucket' value value', Stands run now bucket value → Stands run now bucket' value' →
      value.epoch = value'.epoch → value.quarantined = value'.quarantined := by
  intro agrees
  obtain ⟨fleetRun, -, stands, stands'⟩ := split_publish_epochs
  have same := agrees _ fleetRun 14 false true _ _ stands stands' rfl
  revert same
  decide

def publishThrough : List (Move (fleet : System (World Bool Bool) _ _ _ _ _)) :=
  [.start 0 ⟨false, false, .publish [true] (.one "x" true)⟩, turn 0, turn 0, turn 0, turn 0, turn 0,
    turn 0, turn 0]

/-- The seed is no choice of an epoch: the snapshot was read before the publish. -/
theorem seed_chose_nothing {state : AdvisoryState} : ¬ChoseFrom (replay bare publishThrough) 0 6 state := by
  rintro ⟨instant, call, performed, le, quiet⟩
  have reads : Performed fleet (replay bare publishThrough) 0 5 _ _ _ := performed_replay rfl rfl
  obtain rfl | earlier : instant = 5 ∨ instant < 5 := by omega
  · cases (performed.same_op reads).2
  · exact reads.changes ((quiet 6 (by omega) le_rfl).trans (quiet 5 (by omega) (by omega)).symm)

theorem publish_through_agrees : FleetRun (replay bare publishThrough) ∧
    Stands (replay bare publishThrough) 8 false ⟨{"x"}, 1⟩ ∧
    Stands (replay bare publishThrough) 8 true ⟨{"x"}, 1⟩ ∧
    ∀ value value', Stands (replay bare publishThrough) 8 false value →
      Stands (replay bare publishThrough) 8 true value' → value.epoch = value'.epoch →
        value.quarantined = value'.quarantined := by
  refine ⟨bare_run _, ⟨0, rfl⟩, ⟨0, rfl⟩, fun value value' => ?_⟩
  refine equal_epochs_equal_sets (bare_run _) 8 (fun instant before => ?_) false true value value'
  intro thread call op answer bucket etag put state performed puts held chose other
  obtain early | late := Nat.lt_or_ge instant 5
  · have zero : epochAt (replay bare publishThrough) instant other = 0 := by
      interval_cases instant <;> cases other <;> rfl
    rw [zero]
    exact ⟨Nat.zero_le _, by decide⟩
  obtain rfl | rfl | rfl : instant = 5 ∨ instant = 6 ∨ instant = 7 := by omega
  · have reads : Performed fleet (replay bare publishThrough) 0 5 _ _ _ := performed_replay rfl rfl
    cases (performed.same_op reads).2
    cases etag <;> cases puts
  · have seeds : Performed fleet (replay bare publishThrough) 0 6 _ _ _ := performed_replay rfl rfl
    cases performed.unique seeds
    exact absurd chose seed_chose_nothing
  · have adopts : Performed fleet (replay bare publishThrough) 0 7 _ _ _ := performed_replay rfl rfl
    cases (performed.same_op adopts).2
    cases etag <;> cases puts

end Samples
end Pypiron.Quarantine
