import Pypiron.Quarantine.Epochs

/-! A quarantine never moves backwards on one bucket. The publisher's own bucket is
the only one, so every write that lands spends an epoch above all earlier ones, and a
name leaves a node's live set only as that node disarms it or adopts a newer body. -/
namespace Pypiron.Quarantine
open Program ThreadPool

section Nodes
variable {β ν : Type} [DecidableEq β] [DecidableEq ν] {run : ℕ → FleetConfig β ν}

/-- No node's epoch goes back, whatever the order of the steps. -/
theorem live_epoch_monotone (trace : Trace fleet run) (node : ν) :
    Monotone fun now => ((run now).store.slots node).quarantinedEpoch := by
  refine monotone_nat_of_le_succ fun now => ?_
  obtain same | ⟨_, _, set, epoch, etag, _, _, adopts⟩ | ⟨_, _, pkg, blocked, _, _, arms⟩ |
    ⟨_, reloads⟩ := slots_step trace now node
  · rw [same]
  · rw [adopts]
    exact adopt_epoch
  · rw [arms, armLocal_epoch]
  · rw [reloads]

omit [DecidableEq β] [DecidableEq ν] in
/-- A set adopted at the live epoch holds every name the live set holds. -/
theorem Sound.adopt_keeps {now : ℕ} (sound : Sound run now) {node : ν} {set : Finset String}
    {epoch : ℕ} {etag : Option (Option Etag)} {name : String} (known : Known run now set epoch)
    (member : name ∈ ((run now).store.slots node).quarantined)
    (gone : name ∉ (adoptQuarantined ((run now).store.slots node) set epoch etag).1.quarantined) :
    ((run now).store.slots node).quarantinedEpoch < epoch ∧
      (adoptQuarantined ((run now).store.slots node) set epoch etag).1.quarantined = set := by
  obtain ⟨kept, -⟩ | ⟨taken, -, -, grows, pending⟩ :=
    adopt_cases ((run now).store.slots node) set epoch etag
  · rw [kept] at gone
    exact absurd member gone
  · refine ⟨lt_of_le_of_ne grows fun same => gone ?_, taken⟩
    rw [taken]
    cases flag : ((run now).store.slots node).quarantinedUnpublished with
    | true =>
        rw [pending same.symm flag]
        exact member
    | false =>
        -- a snapshot that is not flagged is the stored set of its epoch
        have live := sound.slots node flag
        rw [same] at live
        obtain ⟨zero, empty⟩ | stored := live
        · rw [empty] at member
          exact absurd member (Finset.notMem_empty name)
        · obtain ⟨zero, -⟩ | stored' := known
          · exact absurd (sound.positive _ stored) (by rw [zero]; exact lt_irrefl 0)
          · cases sound.unique _ _ stored stored' rfl
            exact member

end Nodes

section OneBucket
variable {ν : Type} [DecidableEq ν]

/-- What holds of the quarantine as the run moves on from `now`. -/
structure Forward (run : ℕ → FleetConfig Unit ν) (now : ℕ) : Prop where
  /-- A conditional write that lands spends an epoch above every set stored before. -/
  writes : ∀ thread call op answer etag value,
    Performed fleet run thread now call op answer → PutsOver () etag value op →
    (run now).store.sets () = etag → ∀ stored, StoredBy run now stored → stored.epoch < value.epoch
  /-- The set changes as such a write lands, and only so. -/
  lands : (run (now + 1)).store.sets () = (run now).store.sets () ∨
    ∃ thread call op answer etag value, Performed fleet run thread now call op answer ∧
      PutsOver () etag value op ∧ (run now).store.sets () = etag ∧ Stands run (now + 1) () value
  /-- One epoch names one set, over all sets stored so far. -/
  unique : ∀ value value', StoredBy run now value → StoredBy run now value' →
    value.epoch = value'.epoch → value = value'
  /-- No node's live epoch decreases. -/
  live : ∀ node, ((run now).store.slots node).quarantinedEpoch ≤
    ((run (now + 1)).store.slots node).quarantinedEpoch
  /-- A name leaves a live set by a local disarm of it, or for a newer stored body. -/
  leaves : ∀ node name, name ∈ ((run now).store.slots node).quarantined →
    name ∉ ((run (now + 1)).store.slots node).quarantined →
    (∃ thread call answer, call.node = node ∧
      Performed fleet run thread now call (.armLocal node name false) answer) ∨
    ∃ thread call set epoch etag answer, call.node = node ∧
      Performed fleet run thread now call (.adopt node set epoch etag) answer ∧
      StoredBy run now ⟨set, epoch⟩ ∧ ((run now).store.slots node).quarantinedEpoch < epoch ∧
      ((run (now + 1)).store.slots node).quarantined = set
  /-- A reseed offers what was stored under its epoch, never an unpublished arm. -/
  offers : ∀ thread call op answer etag value replicas,
    Performed fleet run thread now call op answer → PutsOver () etag value op →
    call.task = .reseed replicas → StoredBy run now value

variable {run : ℕ → FleetConfig Unit ν} {now : ℕ}

/-- A publisher is ahead of the only bucket, unless its epochs are spent up. -/
theorem ahead_of_spare (spare : epochAt run now () < u64Max) : PublisherAhead run now :=
  fun _ _ _ _ _ _ _ _ _ _ _ _ _ => ⟨le_max_left _ _, spare⟩

omit [DecidableEq ν] in
theorem stored_le_epochAt (sound : Sound run now) {stored : StoredQuarantined}
    (before : StoredBy run now stored) : stored.epoch ≤ epochAt run now () := by
  obtain ⟨instant, upto, bucket, stands⟩ := before
  obtain ⟨latest, current, le⟩ := sound.top instant upto bucket stored stands
  rw [← stands_epochAt current] at le
  exact le

end OneBucket

/-- Whatever the nodes do over one bucket and in whatever order: as long as no body
to write over stands at the last epoch, every step of the run moves forward. -/
theorem quarantine_moves_forward {ν : Type} [DecidableEq ν] {run : ℕ → FleetConfig Unit ν}
    (fleetRun : FleetRun run) (now : ℕ) (spare : ∀ instant ≤ now, epochAt run instant () < u64Max) :
    Forward run now := by
  have ahead : ∀ instant ≤ now, PublisherAhead run instant := fun instant before =>
    ahead_of_spare (spare instant before)
  have ahead' : ∀ instant < now, PublisherAhead run instant := fun instant before =>
    ahead instant before.le
  have ⟨keeps, owed⟩ := fleetRun.sound now
  have sound := keeps ahead'
  have offers {thread : ℕ} {call : Call Unit ν} {op : QuarantineOp Unit ν} {answer : op.Ans}
      {etag : Option Etag} {value : StoredQuarantined}
      (performed : Performed fleet run thread now call op answer) (puts : PutsOver () etag value op) :
      Offered run thread now etag value ∧ (∀ replicas, call.task = .reseed replicas →
        StoredBy run now value) := by
    have owes := owed thread call op answer performed
    cases etag with
    | some etag =>
        cases puts
        exact ⟨owes.1, fun replicas reseeds => owes.2 replicas reseeds ahead'⟩
    | none =>
        cases puts
        exact ⟨owes.1, fun replicas reseeds => owes.2 replicas reseeds ahead'⟩
  refine ⟨?_, ?_, sound.unique, ?_, ?_, ?_⟩
  · intro thread call op answer etag value performed puts held stored before
    have above := (sound.landing ahead performed puts held (offers performed puts).1).1
    exact (stored_le_epochAt sound before).trans_lt above
  · obtain same | ⟨thread, call, op, answer, etag, value, revision, performed, puts, held, lands⟩ :=
      sets_step fleetRun.trace now ()
    · exact .inl same
    · exact .inr ⟨thread, call, op, answer, etag, value, performed, puts, held, revision, lands⟩
  · exact fun node => live_epoch_monotone fleetRun.trace node (Nat.le_succ now)
  · intro node name member gone
    obtain same | ⟨thread, call, set, epoch, etag, answer, performed, adopts⟩ |
      ⟨thread, call, pkg, blocked, answer, performed, arms⟩ | ⟨_, reloads⟩ :=
        slots_step fleetRun.trace now node
    · rw [same] at gone
      exact absurd member gone
    · right
      rw [adopts] at gone ⊢
      obtain ⟨mine, known⟩ := owed _ _ _ _ performed
      obtain ⟨newer, taken⟩ := sound.adopt_keeps known member gone
      refine ⟨thread, call, set, epoch, etag, answer, mine.symm, performed, ?_, newer, taken⟩
      exact known.resolve_left fun zero => absurd newer (by rw [zero.1]; exact Nat.not_lt_zero _)
    · left
      rw [arms] at gone
      obtain ⟨rfl, rfl⟩ := armLocal_leaves member gone
      exact ⟨thread, call, answer, (owed _ _ _ _ performed).symm, performed⟩
    · rw [reloads] at gone
      exact absurd member gone
  · exact fun thread call op answer etag value replicas performed puts reseeds =>
      (offers performed puts).2 replicas reseeds

section Samples

/-- A node arms one name and publishes it. -/
def armed : ℕ → FleetConfig Unit Unit :=
  replay bare [.start 0 ⟨(), (), .arm [] "x" true⟩, turn 0, turn 0, turn 0, turn 0, turn 0, turn 0]

theorem armed_moves_forward : FleetRun armed ∧ Stands armed 6 () ⟨{"x"}, 1⟩ ∧ Forward armed 5 := by
  have spare (instant : ℕ) (before : instant ≤ 5) : epochAt armed instant () < u64Max := by
    have zero : epochAt armed instant () = 0 := by
      interval_cases instant <;> rfl
    rw [zero]
    decide
  exact ⟨bare_run _, ⟨0, rfl⟩, quarantine_moves_forward (bare_run _) 5 spare⟩

/-- The bucket's epochs are spent up. -/
def spentUp : FleetConfig Unit Unit where
  store := ⟨fun _ => some ⟨.stored ⟨∅, u64Max⟩, 0⟩, fun _ _ => none, fun _ => ∅,
    fun _ => ⟨none, ∅, none, 0, false⟩⟩
  threads _ := none

def publishSpent : ℕ → FleetConfig Unit Unit :=
  replay spentUp [.start 0 ⟨(), (), .publish [] (.one "x" true)⟩, turn 0, turn 0, turn 0, turn 0]

theorem publishSpent_starts {value : StoredQuarantined} (stored : StoredBy publishSpent 0 value) :
    value = ⟨∅, u64Max⟩ := by
  obtain ⟨instant, before, bucket, revision, held⟩ := stored
  obtain rfl := Nat.le_zero.mp before
  cases held
  rfl

theorem publishSpent_run : FleetRun publishSpent where
  trace := trace_replay _ _
  idle _ := rfl
  fresh _ := ⟨rfl, .inl ⟨rfl, rfl⟩⟩
  unique _ _ stored stored' _ := (publishSpent_starts stored).trans (publishSpent_starts stored').symm
  positive _ stored := by
    rw [publishSpent_starts stored]
    decide

/-- The epoch after the last one is the last one again. -/
theorem spent_epoch_repeats : ¬∀ run : ℕ → FleetConfig Unit Unit, FleetRun run → ∀ now,
    Forward run now := by
  intro forward
  have put : Performed fleet publishSpent 0 4 _
      (.putIfMatch () ⟨.stored ⟨∅, u64Max⟩, 0⟩ ⟨{"x"}, u64Max⟩) _ := performed_replay rfl rfl
  have above := (forward publishSpent publishSpent_run 4).writes _ _ _ _
    (some ⟨.stored ⟨∅, u64Max⟩, 0⟩) ⟨{"x"}, u64Max⟩ put rfl rfl ⟨∅, u64Max⟩ ⟨0, by decide, (), 0, rfl⟩
  exact lt_irrefl _ above

end Samples
end Pypiron.Quarantine
