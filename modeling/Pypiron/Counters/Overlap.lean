import Pypiron.Counters

/-! Overlapping compaction passes. A pass reads the segments it listed, freezes
their sum by a plain put, and sweeps them. What can go wrong is that another
pass has swept them in between: as long as every segment a pass reads is still
there, each freeze writes the same total. -/
namespace Pypiron.Counters
open Program ThreadPool
variable {β : Type} [DecidableEq β]

section Start
variable (store : CounterStore β)

/-- What a bucket has counted of a day-shard: its rollup, or else its segments. -/
def counted (bucket : β) (id : DayShard) : BucketMap :=
  (store.object bucket (.frozen id bucket)).elim (segmentSum store bucket id) (·.asSegment.buckets)

/-- The total each bucket owes a day-shard: what every copy of its rollup says,
and the sum of its segments where it has frozen none. -/
structure Started (total : β → DayShard → BucketMap) : Prop where
  copies : ∀ holder owner id body, store.object holder (.frozen id owner) = some body →
    body.asSegment.buckets = total owner id
  unfrozen : ∀ bucket id, store.object bucket (.frozen id bucket) = none →
    store.keysIn bucket (.openShard id) ≠ [] → total bucket id = segmentSum store bucket id

end Start

/-- Any number of passes over buckets nobody flushes to, every request answered. -/
structure OverlapRun (config : CounterConfig) (total : β → DayShard → BucketMap)
    (run : CountersRun β) : Prop where
  trace : Trace (counters config) run
  idle : ∀ thread, (run 0).threads thread = none
  passes : ∀ now thread call program, (run now).threads thread = some (call, program) →
    ∃ pin peers, call = .compact pin peers
  answered : ∀ thread call now op answer, Performed (counters config) run thread now call op answer →
    ∃ answer', Performed (counters config) run thread now call op answer' ∧ ¬op.Failed answer'
  started : Started (run 0).store total

/-- Every segment a pass reads is still there. -/
def Unswept (config : CounterConfig) (run : CountersRun β) : Prop :=
  ∀ now thread call bucket id node seq answer,
    Performed (counters config) run thread now call (.get bucket (.seg id node seq)) answer →
    objectAt run now bucket (.seg id node seq) ≠ none

section Rules
variable (config : CounterConfig) (total : β → DayShard → BucketMap) (run : CountersRun β) (now : ℕ)

/-- The segments of a day-shard are swept together, and inside retention only
once they are frozen. -/
structure Sound : Prop where
  copies : ∀ holder owner id body, objectAt run now holder (.frozen id owner) = some body →
    body.asSegment.buckets = total owner id
  shrinks : ∀ instant ≤ now, ∀ bucket id node seq body,
    objectAt run now bucket (.seg id node seq) = some body →
    objectAt run instant bucket (.seg id node seq) = some body
  whole : ∀ bucket id node seq node' seq', objectAt run 0 bucket (.seg id node seq) ≠ none →
    objectAt run now bucket (.seg id node' seq') ≠ none →
    objectAt run now bucket (.seg id node seq) ≠ none
  paired : ∀ bucket id node seq, objectAt run 0 bucket (.frozen id bucket) ≠ none →
    objectAt run now bucket (.seg id node seq) ≠ none →
    objectAt run now bucket (.frozen id bucket) ≠ none
  lasts : ∀ instant ≤ now, ∀ holder owner id, retainFrom config run now ≤ id.day →
    objectAt run instant holder (.frozen id owner) ≠ none →
    objectAt run now holder (.frozen id owner) ≠ none
  kept : ∀ bucket id node seq, retainFrom config run now ≤ id.day →
    objectAt run 0 bucket (.seg id node seq) ≠ none →
    objectAt run now bucket (.seg id node seq) ≠ none ∨
    objectAt run now bucket (.frozen id bucket) ≠ none

/-- What a pass may do: freeze the total, and sweep whole day-shards. -/
def Fair : CounterOp β → Prop
  | .put _ (.frozen id owner) body => body.asSegment.buckets = total owner id
  | .put _ (.seg _ _ _) _ => False
  | .delete bucket keys =>
      (∀ id, (∃ node seq, .seg id node seq ∈ keys) ∨ .frozen id bucket ∈ keys → ∀ node seq,
        objectAt run now bucket (.seg id node seq) ≠ none → .seg id node seq ∈ keys) ∧
      (∀ id node seq, .seg id node seq ∈ keys → retainFrom config run now ≤ id.day →
        objectAt run now bucket (.frozen id bucket) ≠ none) ∧
      ∀ id owner, .frozen id owner ∈ keys → id.day < retainFrom config run now
  | _ => True

end Rules

section Keeps
variable {config : CounterConfig} {total : β → DayShard → BucketMap} {run : CountersRun β} {now : ℕ}

theorem sound_zero (overlap : OverlapRun config total run) : Sound config total run 0 where
  copies := overlap.started.copies
  shrinks instant le bucket id node seq body held := by
    rwa [Nat.le_zero.mp le]
  whole _ _ _ _ _ _ there _ := there
  paired _ _ _ _ there _ := there
  lasts instant le holder owner id _ there := by
    rwa [Nat.le_zero.mp le] at there
  kept _ _ _ _ _ there := .inl there

/-- Nothing changed but the date. -/
theorem Sound.still (overlap : OverlapRun config total run) (sound : Sound config total run now)
    (same : ∀ bucket key, objectAt run (now + 1) bucket key = objectAt run now bucket key) :
    Sound config total run (now + 1) := by
  have le := retainFrom_mono overlap.trace (Nat.le_succ now)
  refine ⟨?_, ?_, ?_, ?_, ?_, ?_⟩
  · simpa only [same] using sound.copies
  · intro instant upto bucket id node seq body held
    obtain before | rfl := Nat.le_succ_iff.mp upto
    · exact sound.shrinks instant before bucket id node seq body (by rwa [same] at held)
    · exact held
  · simpa only [same] using sound.whole
  · simpa only [same] using sound.paired
  · intro instant upto holder owner id inside there
    obtain before | rfl := Nat.le_succ_iff.mp upto
    · rw [same]
      exact sound.lasts instant before holder owner id (le.trans inside) there
    · exact there
  · intro bucket id node seq inside there
    simpa only [same] using sound.kept bucket id node seq (le.trans inside) there

theorem Sound.put (overlap : OverlapRun config total run) (sound : Sound config total run now)
    (fair : Fair config total run now (.put bucket key body))
    (wrote : ∀ bucket' key', objectAt run (now + 1) bucket' key' =
      if bucket' = bucket ∧ key' = key then some body else objectAt run now bucket' key') :
    Sound config total run (now + 1) := by
  have le := retainFrom_mono overlap.trace (Nat.le_succ now)
  -- a pass never puts a segment, and what it puts is there
  have segments (bucket' : β) (id : DayShard) (node seq : ℕ) :
      objectAt run (now + 1) bucket' (.seg id node seq) = objectAt run now bucket' (.seg id node seq) := by
    rw [wrote, if_neg]
    rintro ⟨-, rfl⟩
    exact fair
  have present (bucket' : β) (key' : Key β) (there : objectAt run now bucket' key' ≠ none) :
      objectAt run (now + 1) bucket' key' ≠ none := by
    rw [wrote]
    split
    · simp
    · exact there
  refine ⟨?_, ?_, ?_, ?_, ?_, ?_⟩
  · intro holder owner id body' held
    rw [wrote] at held
    split at held
    next here =>
      obtain ⟨-, rfl⟩ := here
      cases held
      exact fair
    next => exact sound.copies holder owner id body' held
  · intro instant upto bucket id node seq body held
    obtain before | rfl := Nat.le_succ_iff.mp upto
    · exact sound.shrinks instant before bucket id node seq body (by rwa [segments] at held)
    · exact held
  · simpa only [segments] using sound.whole
  · intro bucket' id node seq there held
    rw [segments] at held
    exact present _ _ (sound.paired bucket' id node seq there held)
  · intro instant upto holder owner id inside there
    obtain before | rfl := Nat.le_succ_iff.mp upto
    · exact present _ _ (sound.lasts instant before holder owner id (le.trans inside) there)
    · exact there
  · intro bucket' id node seq inside there
    rw [segments]
    exact (sound.kept bucket' id node seq (le.trans inside) there).imp_right (present _ _)

theorem Sound.delete (overlap : OverlapRun config total run) (sound : Sound config total run now)
    (fair : Fair config total run now (.delete bucket keys))
    (left : ∀ bucket' key, objectAt run (now + 1) bucket' key =
      if bucket' = bucket ∧ key ∈ keys then none else objectAt run now bucket' key) :
    Sound config total run (now + 1) := by
  obtain ⟨together, frozen, pruned⟩ := fair
  have le := retainFrom_mono overlap.trace (Nat.le_succ now)
  have before (bucket' : β) (key : Key β) (there : objectAt run (now + 1) bucket' key ≠ none) :
      objectAt run (now + 1) bucket' key = objectAt run now bucket' key ∧
        ¬(bucket' = bucket ∧ key ∈ keys) := by
    rw [left] at there ⊢
    split
    next here => exact absurd (if_pos here) there
    next apart => exact ⟨rfl, apart⟩
  -- a rollup inside retention stays
  have stays (holder owner : β) (id : DayShard) (inside : retainFrom config run (now + 1) ≤ id.day)
      (there : objectAt run now holder (.frozen id owner) ≠ none) :
      objectAt run (now + 1) holder (.frozen id owner) ≠ none := by
    rw [left, if_neg]
    · exact there
    · rintro ⟨rfl, member⟩
      exact absurd (pruned id owner member) (Nat.not_lt.mpr (le.trans inside))
  refine ⟨?_, ?_, ?_, ?_, ?_, ?_⟩
  · intro holder owner id body held
    rw [(before _ _ (by rw [held]; simp)).1] at held
    exact sound.copies holder owner id body held
  · intro instant upto bucket' id node seq body held
    obtain earlier | rfl := Nat.le_succ_iff.mp upto
    · rw [(before _ _ (by rw [held]; simp)).1] at held
      exact sound.shrinks instant earlier bucket' id node seq body held
    · exact held
  · intro bucket' id node seq node' seq' initial there
    obtain ⟨same, apart⟩ := before _ _ there
    rw [left, if_neg]
    · exact sound.whole bucket' id node seq node' seq' initial (same ▸ there)
    · rintro ⟨rfl, member⟩
      exact apart ⟨rfl, together id (.inl ⟨node, seq, member⟩) node' seq' (same ▸ there)⟩
  · intro bucket' id node seq initial there
    obtain ⟨same, apart⟩ := before _ _ there
    rw [left, if_neg]
    · exact sound.paired bucket' id node seq initial (same ▸ there)
    · rintro ⟨rfl, member⟩
      exact apart ⟨rfl, together id (.inr member) node seq (same ▸ there)⟩
  · intro instant upto holder owner id inside there
    obtain earlier | rfl := Nat.le_succ_iff.mp upto
    · exact stays holder owner id inside
        (sound.lasts instant earlier holder owner id (le.trans inside) there)
    · exact there
  · intro bucket' id node seq inside initial
    by_cases swept : bucket' = bucket ∧ Key.seg id node seq ∈ keys
    · obtain ⟨rfl, member⟩ := swept
      exact .inr (stays _ _ id inside (frozen id node seq member (le.trans inside)))
    · obtain there | rolled := sound.kept bucket' id node seq (le.trans inside) initial
      · rw [left, if_neg swept]
        exact .inl there
      · exact .inr (stays _ _ id inside rolled)

/-- Fair operations keep the run sound. -/
theorem Sound.succ (overlap : OverlapRun config total run) (sound : Sound config total run now)
    (fair : ∀ thread call op answer, Performed (counters config) run thread now call op answer →
      Fair config total run now op) : Sound config total run (now + 1) := by
  obtain ⟨-, same | ⟨thread, call, bucket, key, body, answer, performed, wrote⟩ |
    ⟨thread, call, bucket, keys, answer, _, -, performed, -, -⟩⟩ :=
    objects_step overlap.trace now
  · exact sound.still overlap same
  · exact sound.put overlap (fair _ _ _ _ performed) wrote
  · have fair := fair _ _ _ _ performed
    obtain ⟨served, performed, answered⟩ := overlap.answered _ _ _ _ _ performed
    have ⟨_, _, performs, _⟩ := performed
    obtain ⟨-, gone, -, exact_, left⟩ := performs_delete performs
    have ok : served = .ok () := by
      cases served with
      | ok => rfl
      | error text => exact absurd ⟨text, rfl⟩ answered
    obtain rfl := exact_ ok
    exact sound.delete overlap fair left

end Keeps
section Passes
variable {config : CounterConfig} {total : β → DayShard → BucketMap} {run : CountersRun β}
variable {thread instant now later : ℕ} {call : CounterCall β} {bucket : β} {id : DayShard}
variable {keys segKeys : List (Key β)} {groups : List (DayShard × List (Key β))}

variable (config total run thread call)

/-- Programs of a pass under the rules. -/
abbrev Does {α : Type} (post : ℕ → α → Prop) (instant : ℕ) (program : CounterM β α) : Prop :=
  Secure (counters config) run (Sound config total run) (fun _ op answer => ¬op.Failed answer)
    (fun now op _ => Fair config total run now op) thread call post instant program

variable {config total run thread call}

theorem does_op (op : CounterOp β)
    (fair : ∀ now, instant ≤ now → Sound config total run now → Fair config total run now op) :
    Does config total run thread call (fun later answer => ∃ now, instant ≤ now ∧ now < later ∧
      Sound config total run now ∧ Performed (counters config) run thread now call op answer ∧
      ¬op.Failed answer) instant (perform op) := by
  refine Secure.weaken (Secure.perform op fun now quiet sound _ _ _ => fair now quiet.1 sound)
    fun later le answer told => ?_
  obtain ⟨now, rfl, quiet, sound, performed, answered⟩ := told
  exact ⟨now, quiet.1, Nat.lt_succ_self _, sound, performed, answered⟩

/-- A read is answered with what the bucket held. -/
theorem does_get (key : Key β) :
    Does config total run thread call (fun later answer => ∃ now, instant ≤ now ∧ now < later ∧
      Sound config total run now ∧ answer = .ok (objectAt run now bucket key) ∧
      Performed (counters config) run thread now call (.get bucket key) answer) instant
      (get bucket key) := by
  refine Secure.weaken (does_op (.get bucket key) fun _ _ _ => trivial) fun later le answer told => ?_
  obtain ⟨now, from_, before, sound, performed, answered⟩ := told
  have ⟨_, _, performs, _⟩ := performed
  obtain failed | got := performs_get performs
  · exact absurd failed answered
  · exact ⟨now, from_, before, sound, got, performed⟩

theorem does_list (scope : Scope) :
    Does config total run thread call (fun later answer => ∃ now keys, instant ≤ now ∧ now < later ∧
      Sound config total run now ∧ answer = .ok keys ∧ Listed run now bucket scope keys) instant
      (list bucket scope) := by
  refine Secure.weaken (does_op (.list bucket scope) fun _ _ _ => trivial) fun later le answer told => ?_
  obtain ⟨now, from_, before, sound, performed, answered⟩ := told
  have ⟨_, _, performs, _⟩ := performed
  obtain failed | ⟨keys, answered, same⟩ := performs_list performs
  · exact absurd failed answered
  · exact ⟨now, keys, from_, before, sound, answered, listed_of_perm same⟩

theorem does_put {key : Key β} {body : Body}
    (fair : ∀ now, Fair config total run now (.put bucket key body)) :
    Does config total run thread call (fun later answer => answer = .ok () ∧
      ∃ now ≤ later, objectAt run now bucket key ≠ none) instant (put bucket key body) := by
  refine Secure.weaken (does_op (.put bucket key body) fun now _ _ => fair now)
    fun later le answer told => ?_
  obtain ⟨now, from_, before, sound, performed, answered⟩ := told
  have ⟨_, _, performs, _⟩ := performed
  have served : answer = .ok () := by
    cases answer with
    | ok => rfl
    | error text => exact absurd ⟨text, rfl⟩ answered
  obtain ⟨-, ⟨-, failed⟩ | wrote⟩ := performs_put performs
  · exact absurd served failed
  · refine ⟨served, now + 1, before, ?_⟩
    rw [objectAt, wrote, if_pos ⟨rfl, rfl⟩]
    simp

theorem does_delete (fair : ∀ now, instant ≤ now → Sound config total run now →
      Fair config total run now (.delete bucket keys)) :
    Does config total run thread call (fun _ _ => True) instant (delete bucket keys) :=
  Secure.weaken (does_op (.delete bucket keys) fair) fun _ _ _ _ => trivial

/-- The sum of segments that are all there at every read. -/
theorem does_sumSegments (unswept : Unswept config run)
    (held : Sound config total run instant) (segments : ∀ key ∈ segKeys, key.segmentOf = some id)
    (acc : BucketMap) :
    Does config total run thread call (fun _ sum => sum = some (acc +
      (segKeys.map (tallyOf (run 0).store bucket)).sum)) instant (sumSegments bucket segKeys acc) := by
  induction segKeys generalizing instant acc with
  | nil => exact Secure.pure (by simp)
  | cons key rest ih =>
      refine Secure.bind held (does_get key) fun later le sound answer told => ?_
      obtain ⟨now, from_, before, sound', got, performed⟩ := told
      have segment := segments key List.mem_cons_self
      cases key with
      | seg id' node seq =>
          obtain ⟨body, found⟩ := Option.ne_none_iff_exists'.mp (unswept _ _ _ _ _ _ _ _ performed)
          rw [got, found]
          have initial := sound'.shrinks 0 (Nat.zero_le _) _ _ _ _ _ found
          have tally : tallyOf (run 0).store bucket (.seg id' node seq) = body.asSegment.buckets := by
            rw [tallyOf, show (run 0).store.object bucket (.seg id' node seq) = some body from initial]
            rfl
          refine Secure.weaken (ih sound (fun key member => segments key (List.mem_cons_of_mem _ member))
            (acc + body.asSegment.buckets)) fun _ _ sum same => ?_
          rw [same, List.map_cons, List.sum_cons, tally, Multiset.add_assoc]
      | frozen _ _ => cases segment
      | summary _ _ _ => cases segment

/-- Segments seen without a rollup are all the bucket started with. -/
theorem Group.sums (overlap : OverlapRun config total run) (sound : Sound config total run now)
    (group : Group run now bucket id segKeys)
    (unfrozen : objectAt run now bucket (.frozen id bucket) = none) :
    (segKeys.map (tallyOf (run 0).store bucket)).sum = total bucket id := by
  obtain ⟨key, member⟩ := List.exists_mem_of_ne_nil _ group.nonempty
  obtain ⟨segment, present⟩ := (group.mem key).mp member
  obtain ⟨node, seq, rfl⟩ := segmentOf_eq_some segment
  have initially : objectAt run 0 bucket (.frozen id bucket) = none := by
    by_contra there
    exact sound.paired bucket id node seq there present unfrozen
  have same : segKeys.Perm ((run 0).store.keysIn bucket (.openShard id)) := by
    refine (List.perm_ext_iff_of_nodup group.nodup (keysIn_nodup _ _ _)).mpr fun key => ?_
    rw [group.mem, mem_keysIn]
    constructor
    · rintro ⟨segment, there⟩
      obtain ⟨node', seq', rfl⟩ := segmentOf_eq_some segment
      obtain ⟨body, held⟩ := Option.ne_none_iff_exists'.mp there
      refine ⟨?_, by simp [Scope.covers]⟩
      rw [show (run 0).store.object bucket (.seg id node' seq') = some body from
        sound.shrinks 0 (Nat.zero_le _) _ _ _ _ _ held]
      simp
    · rintro ⟨there, covered⟩
      cases key with
      | seg id' node' seq' =>
          obtain rfl : id' = id := by simpa [Scope.covers] using covered
          exact ⟨rfl, sound.whole bucket id' node' seq' node seq there present⟩
      | frozen _ _ => cases covered
      | summary _ _ _ => cases covered
  have nonempty : (run 0).store.keysIn bucket (.openShard id) ≠ [] := by
    intro nothing
    rw [nothing] at same
    exact group.nonempty same.eq_nil
  rw [overlap.started.unfrozen bucket id initially nonempty]
  exact (same.map _).sum_eq

/-- The bucket froze the day-shard at some instant. -/
def Rolled (run : CountersRun β) (later : ℕ) (bucket : β) (id : DayShard) : Prop :=
  ∃ now ≤ later, objectAt run now bucket (.frozen id bucket) ≠ none

theorem Rolled.mono (rolled : Rolled run now bucket id) (le : now ≤ later) :
    Rolled run later bucket id := by
  obtain ⟨instant, upto, there⟩ := rolled
  exact ⟨instant, upto.trans le, there⟩

/-- A group may be swept once its rollup was there. -/
theorem Group.fair (group : Group run instant bucket id segKeys)
    (rolled : Rolled run now bucket id) (before : instant ≤ now) (later : ℕ) (le : now ≤ later)
    (sound : Sound config total run later) :
    Fair config total run later (.delete bucket segKeys) := by
  refine ⟨?_, ?_, ?_⟩
  · rintro id' (⟨node, seq, member⟩ | member) node' seq' there
    · obtain ⟨segment, -⟩ := (group.mem _).mp member
      cases segment
      obtain ⟨body, held⟩ := Option.ne_none_iff_exists'.mp there
      refine (group.mem _).mpr ⟨rfl, ?_⟩
      rw [sound.shrinks instant (before.trans le) _ _ _ _ _ held]
      simp
    · cases ((group.mem _).mp member).1
  · intro id' node seq member inside
    obtain ⟨segment, -⟩ := (group.mem _).mp member
    cases segment
    obtain ⟨at_, upto, there⟩ := rolled
    exact sound.lasts at_ (upto.trans le) bucket bucket id inside there
  · intro id' owner member
    cases ((group.mem _).mp member).1

theorem does_sweepShard (group : Group run instant bucket id segKeys)
    (held : Sound config total run now) (rolled : Rolled run now bucket id) (before : instant ≤ now)
    (progress : Progress β) (rollups : ∀ key ∈ progress.rollups, key.isRollup) :
    Does config total run thread call (fun _ (result : Progress β) =>
      ∀ key ∈ result.rollups, key.isRollup) now (sweepShard bucket segKeys progress) := by
  refine Secure.bind held (does_delete fun later le sound => group.fair rolled before later le sound)
    fun later le _ answer _ => ?_
  cases answer with
  | ok => exact Secure.pure rollups
  | error text => exact Secure.pure rollups

theorem does_freezeShard (overlap : OverlapRun config total run) (unswept : Unswept config run)
    (group : Group run instant bucket id segKeys) (seen : Sound config total run instant)
    (unfrozen : objectAt run instant bucket (.frozen id bucket) = none)
    (held : Sound config total run now) (before : instant ≤ now) (progress : Progress β)
    (rollups : ∀ key ∈ progress.rollups, key.isRollup) :
    Does config total run thread call (fun later (result : Progress β) =>
      (∀ key ∈ result.rollups, key.isRollup) ∧ Rolled run later bucket id) now
      (freezeShard config bucket id segKeys progress) := by
  have segments : ∀ key ∈ segKeys, key.segmentOf = some id := fun key member => ((group.mem key).mp member).1
  refine Secure.bind held (does_sumSegments unswept held segments 0)
    fun summed le sound sum same => ?_
  rw [same]
  have fair (now : ℕ) : Fair config total run now (.put bucket (.frozen id bucket)
      (.segment ⟨config.resolutionSecs, 0 + (segKeys.map (tallyOf (run 0).store bucket)).sum⟩)) := by
    simpa only [Fair, Body.asSegment, zero_add] using group.sums overlap seen unfrozen
  refine Secure.bind sound (does_put fair) fun frozen le' sound' answer told => ?_
  obtain ⟨rfl, rolled⟩ := told
  refine Secure.bind sound' (does_delete fun later le'' sound'' =>
    group.fair rolled (before.trans (le.trans le')) later le'' sound'') fun swept le'' _ _ _ => ?_
  refine Secure.pure ⟨fun key member => ?_, Rolled.mono rolled le''⟩
  obtain rfl | old := List.mem_insert_iff.mp member
  · rfl
  · exact rollups key old

theorem does_freezeShards (overlap : OverlapRun config total run) (unswept : Unswept config run)
    (seen : Sound config total run instant)
    (grouped : ∀ id segKeys, (id, segKeys) ∈ groups → Group run instant bucket id segKeys)
    (rolledUp : ∀ id, id ∈ frozen ↔ objectAt run instant bucket (.frozen id bucket) ≠ none)
    (held : Sound config total run now) (before : instant ≤ now) (progress : Progress β)
    (rollups : ∀ key ∈ progress.rollups, key.isRollup) :
    Does config total run thread call (fun later (result : Progress β) =>
      (∀ key ∈ result.rollups, key.isRollup) ∧
      ∀ id segKeys, (id, segKeys) ∈ groups → id.day < closeCutoff → Rolled run later bucket id) now
      (freezeShards config bucket closeCutoff frozen groups progress) := by
  induction groups generalizing now progress with
  | nil => exact Secure.pure ⟨rollups, nofun⟩
  | cons group rest ih =>
      obtain ⟨id, segKeys⟩ := group
      have group := grouped id segKeys List.mem_cons_self
      have others (id : DayShard) (segKeys : List (Key β)) (member : (id, segKeys) ∈ rest) :=
        grouped id segKeys (List.mem_cons_of_mem _ member)
      unfold freezeShards
      split
      next recent =>
        refine Secure.weaken (ih others held before progress rollups) fun later le result told => ?_
        refine ⟨told.1, fun id' segKeys' member closed => ?_⟩
        obtain same | later := List.mem_cons.mp member
        · cases same
          exact absurd closed (Nat.not_lt.mpr recent)
        · exact told.2 id' segKeys' later closed
      next =>
        -- frozen before or frozen now, the rest of the loop goes on from here
        have onward (program : CounterM β (Progress β))
            (first : Does config total run thread call (fun later (result : Progress β) =>
              (∀ key ∈ result.rollups, key.isRollup) ∧ Rolled run later bucket id) now program) :
            Does config total run thread call (fun later (result : Progress β) =>
              (∀ key ∈ result.rollups, key.isRollup) ∧
              ∀ id' segKeys', (id', segKeys') ∈ (id, segKeys) :: rest → id'.day < closeCutoff →
                Rolled run later bucket id') now
              (program >>= fun progress =>
                freezeShards config bucket closeCutoff frozen rest progress) := by
          refine Secure.bind held first fun middle le sound result told => ?_
          refine Secure.weaken (ih others sound (before.trans le) result told.1)
            fun later le' final told' => ⟨told'.1, fun id' segKeys' member closed => ?_⟩
          obtain same | member := List.mem_cons.mp member
          · cases same
            exact told.2.mono le'
          · exact told'.2 id' segKeys' member closed
        dsimp only
        split
        next member =>
          have rolled : Rolled run now bucket id := ⟨instant, before, (rolledUp id).mp member⟩
          refine onward _ (Secure.weaken (does_sweepShard group held rolled before progress rollups) ?_)
          exact fun later le result told => ⟨told, rolled.mono le⟩
        next absent =>
          have unfrozen : objectAt run instant bucket (.frozen id bucket) = none :=
            not_not.mp (mt (rolledUp id).mpr absent)
          exact onward _ (does_freezeShard overlap unswept group seen unfrozen held before progress
            rollups)

theorem does_foldRollups (held : Sound config total run instant) (totals : Multiset String) :
    Does config total run thread call (fun _ _ => True) instant (foldRollups bucket keys totals) := by
  induction keys generalizing instant totals with
  | nil => exact Secure.pure trivial
  | cons key rest ih =>
      cases key with
      | seg _ _ _ | summary _ _ _ => exact ih held totals
      | frozen id owner =>
          unfold foldRollups
          split
          next => exact ih held totals
          next =>
            refine Secure.bind held (does_get (.frozen id owner)) fun _ _ sound answer told => ?_
            obtain ⟨_, _, _, _, rfl, _⟩ := told
            split
            next => exact ih sound _
            next => exact Secure.pure trivial

theorem does_writeSummary (held : Sound config total run instant) (metric : String) (day : ℕ) :
    Does config total run thread call (fun _ (key : Option (Key β)) => ∀ key', key = some key' →
      key'.isRollup) instant (writeSummary bucket metric day) := by
  refine Secure.bind held (does_list (.day metric day)) fun _ _ sound answer told => ?_
  obtain ⟨_, keys, _, _, _, rfl, _⟩ := told
  refine Secure.bind sound (does_foldRollups sound 0) fun _ _ sound' folded _ => ?_
  cases folded with
  | none => exact Secure.pure nofun
  | some totals =>
      refine Secure.bind sound' (does_put fun _ => trivial) fun _ _ _ answer told => ?_
      obtain ⟨rfl, -⟩ := told
      refine Secure.pure fun key' same => ?_
      cases same
      rfl

theorem does_writeSummaries (held : Sound config total run instant) (days : List (String × ℕ))
    (rollups : ∀ key ∈ keys, key.isRollup) :
    Does config total run thread call (fun _ (result : List (Key β)) => ∀ key ∈ result, key.isRollup)
      instant (writeSummaries bucket days keys) := by
  induction days generalizing instant keys with
  | nil => exact Secure.pure rollups
  | cons day rest ih =>
      obtain ⟨metric, day⟩ := day
      refine Secure.bind held (does_writeSummary held metric day)
        fun _ _ sound written told => ?_
      cases written with
      | none => exact ih sound rollups
      | some key =>
          refine ih sound fun key' member => ?_
          obtain rfl | old := List.mem_insert_iff.mp member
          · exact told _ rfl
          · exact rollups key' old

/-- Stale keys may go: their segments go together, and no rollup inside retention
is among them. -/
theorem fair_stale (listed : Listed run instant bucket .all keys) (before : instant ≤ now)
    (sound : Sound config total run now) (past : cutoff ≤ retainFrom config run now) :
    Fair config total run now (.delete bucket (keys.filter (·.day < cutoff))) := by
  have day (key : Key β) (member : key ∈ keys.filter (·.day < cutoff)) : key.day < cutoff := by
    simpa using (List.mem_filter.mp member).2
  refine ⟨fun id swept node seq there => ?_, fun id node seq member inside => ?_,
    fun id owner member => (day _ member).trans_le past⟩
  · have old : id.day < cutoff := by
      obtain ⟨node', seq', member⟩ | member := swept
      · exact day _ member
      · exact day _ member
    obtain ⟨body, held⟩ := Option.ne_none_iff_exists'.mp there
    have seen := sound.shrinks instant before _ _ _ _ _ held
    exact List.mem_filter.mpr ⟨(listed.2 _).mpr ⟨by rw [seen]; simp, rfl⟩, decide_eq_true old⟩
  · exact absurd ((day _ member).trans_le past) (Nat.not_lt.mpr inside)

/-- A day-shard the bucket had something of at the start. -/
def Owed (run : CountersRun β) (bucket : β) (id : DayShard) : Prop :=
  (∃ node seq, objectAt run 0 bucket (.seg id node seq) ≠ none) ∨
    objectAt run 0 bucket (.frozen id bucket) ≠ none

/-- What a pass leaves of a bucket: everything owed before the cutoff is frozen,
or past retention. -/
def Closed (config : CounterConfig) (run : CountersRun β) (later cutoff : ℕ) (bucket : β) : Prop :=
  ∀ id, id.day < cutoff → Owed run bucket id →
    Rolled run later bucket id ∨ id.day < retainFrom config run later

theorem Closed.mono (overlap : OverlapRun config total run)
    (closed : Closed config run now cutoff bucket) (le : now ≤ later) :
    Closed config run later cutoff bucket := by
  intro id old owed
  obtain rolled | past := closed id old owed
  · exact .inl (rolled.mono le)
  · exact .inr (past.trans_le (retainFrom_mono overlap.trace le))

theorem does_compactBucket (overlap : OverlapRun config total run) (unswept : Unswept config run)
    (held : Sound config total run now) (past : retainCutoff ≤ retainFrom config run now) :
    Does config total run thread call (fun later (result : Option (List (Key β)) × ℕ) =>
      (∀ keys, result.1 = some keys → ∀ key ∈ keys, key.isRollup) ∧
      Closed config run later closeCutoff bucket) now
      (compactBucket config bucket closeCutoff retainCutoff) := by
  refine Secure.bind held (does_list .all) fun seen le sound answer told => ?_
  obtain ⟨instant, keys, from_, before, sound', rfl, listed⟩ := told
  have rollups : ∀ key ∈ keys.filter (·.isRollup), key.isRollup := fun key member =>
    (List.mem_filter.mp member).2
  refine Secure.bind sound (does_freezeShards overlap unswept sound'
    (fun id segKeys => group_parse listed) (frozen_parse listed) sound before.le _ rollups)
    fun frozen le' sound'' progress told => ?_
  refine Secure.bind sound'' (does_writeSummaries sound'' _ told.1)
    fun summed le'' sound3 rollups' allRollups => ?_
  have closed (later : ℕ) (le3 : frozen ≤ later) : Closed config run later closeCutoff bucket := by
    intro id old owed
    by_cases inside : retainFrom config run later ≤ id.day
    · left
      have present : ∀ key : Key β, objectAt run instant bucket key ≠ none → key ∈ keys :=
        fun key there => (listed.2 key).mpr ⟨there, rfl⟩
      have inside' : retainFrom config run instant ≤ id.day :=
        (retainFrom_mono overlap.trace (before.le.trans (le'.trans le3))).trans inside
      have rolls (there : objectAt run instant bucket (.frozen id bucket) ≠ none) :
          Rolled run later bucket id := ⟨instant, before.le.trans (le'.trans le3), there⟩
      obtain ⟨node, seq, initial⟩ | initial := owed
      · obtain there | there := sound'.kept bucket id node seq inside' initial
        · have member : (id, keys.filter fun key => key.segmentOf = some id) ∈
              (Layout.parse keys bucket).segments :=
            List.mem_map.mpr ⟨id, List.mem_dedup.mpr (List.mem_filterMap.mpr
              ⟨_, present _ there, rfl⟩), rfl⟩
          exact (told.2 id _ member old).mono le3
        · exact rolls there
      · exact rolls (sound'.lasts 0 (Nat.zero_le _) bucket bucket id inside' initial)
    · exact .inr (Nat.not_le.mp inside)
  dsimp only
  split
  next =>
    refine Secure.pure ⟨fun keys' same => ?_, closed summed le''⟩
    cases same
    exact allRollups
  next =>
    refine Secure.bind sound3 (does_delete fun later le3 sound4 => fair_stale listed
      (before.le.trans (le'.trans (le''.trans le3))) sound4 (past.trans
        (retainFrom_mono overlap.trace (le.trans (le'.trans (le''.trans le3))))))
      fun swept le3 _ _ _ => ?_
    refine Secure.pure ⟨fun keys' same => ?_, closed swept (le''.trans le3)⟩
    cases same
    exact fun key member => allRollups key (List.mem_filter.mp member).1

theorem does_compactBuckets (overlap : OverlapRun config total run) (unswept : Unswept config run)
    (buckets : List β) (mesh : List (β × List (Key β))) (discarded : ℕ)
    (held : Sound config total run now) (past : retainCutoff ≤ retainFrom config run now)
    (rollups : ∀ entry ∈ mesh, ∀ key ∈ entry.2, key.isRollup) :
    Does config total run thread call (fun later (result : List (β × List (Key β)) × ℕ) =>
      (∀ entry ∈ result.1, ∀ key ∈ entry.2, key.isRollup) ∧
      ∀ bucket ∈ buckets, Closed config run later closeCutoff bucket) now
      (compactBuckets config closeCutoff retainCutoff buckets mesh discarded) := by
  induction buckets generalizing now mesh discarded with
  | nil => exact Secure.pure ⟨rollups, nofun⟩
  | cons bucket rest ih =>
      refine Secure.bind held (does_compactBucket overlap unswept held past)
        fun middle le sound result told => ?_
      obtain ⟨compacted, swept⟩ := result
      obtain ⟨allRollups, closed⟩ := told
      refine Secure.weaken (ih _ _ sound (past.trans (retainFrom_mono overlap.trace le)) ?_)
        fun later le' final told' => ⟨told'.1, fun bucket' member => ?_⟩
      · intro entry member
        obtain old | new := List.mem_append.mp member
        · exact rollups entry old
        · obtain ⟨keys, same, rfl⟩ := List.mem_map.mp new
          exact allRollups keys (Option.mem_toList.mp same)
      · obtain rfl | member := List.mem_cons.mp member
        · exact closed.mono overlap le'
        · exact told'.2 bucket' member

theorem does_copyTo {key : Key β} {body : Body}
    (fair : ∀ now dest, Fair config total run now (.put dest key body)) (dests : List β)
    (held : Sound config total run instant) :
    Does config total run thread call (fun _ _ => True) instant (copyTo key body dests) := by
  induction dests generalizing instant with
  | nil => exact Secure.pure trivial
  | cons dest rest ih =>
      exact Secure.bind held (does_put fun now => fair now dest) fun _ _ sound _ _ => ih sound

/-- A copy says what its source said. -/
theorem fair_copy (sound : Sound config total run now) {key : Key β} {body : Body}
    (found : objectAt run now bucket key = some body) (rollup : key.isRollup) (later : ℕ) (dest : β) :
    Fair config total run later (.put dest key body) := by
  cases key with
  | seg _ _ _ => cases rollup
  | frozen id owner => exact sound.copies bucket owner id body found
  | summary _ _ _ => trivial

theorem does_reseedKeys (mesh : List (β × List (Key β)))
    (rollups : ∀ key ∈ keys, key.isRollup) (held : Sound config total run instant) :
    Does config total run thread call (fun _ _ => True) instant (reseedKeys mesh keys) := by
  induction keys generalizing instant with
  | nil => exact Secure.pure trivial
  | cons key rest ih =>
      have others : ∀ key ∈ rest, key.isRollup := fun key member =>
        rollups key (List.mem_cons_of_mem _ member)
      unfold reseedKeys
      split
      next => exact ih others held
      next =>
        split
        next => exact ih others held
        next source _ _ =>
          refine Secure.bind held (does_get key) fun _ _ sound answer told => ?_
          obtain ⟨now, _, _, sound', got, _⟩ := told
          cases found : objectAt run now source key with
          | none =>
              rw [got, found]
              exact ih others sound
          | some body =>
              rw [got, found]
              refine Secure.bind sound (does_copyTo
                (fair_copy sound' found (rollups key List.mem_cons_self)) _ sound) fun _ _ last _ _ => ?_
              exact ih others last

/-- A whole pass. -/
theorem does_compact (overlap : OverlapRun config total run) (unswept : Unswept config run)
    (pin : β) (peers : List β) (held : Sound config total run instant) :
    Does config total run thread call (fun later _ => ∀ bucket ∈ pin :: peers,
      Closed config run later (todayAt run instant - config.graceDays) bucket) instant
      (compact config pin peers) := by
  refine Secure.bind held (does_op .nowUtc fun _ _ _ => trivial) fun begun le sound today told => ?_
  obtain ⟨now, from_, before, -, performed, -⟩ := told
  have ⟨_, _, performs, _⟩ := performed
  have same : today = todayAt run now := performs_nowUtc performs
  have past : today - config.retentionDays ≤ retainFrom config run begun := by
    rw [same]
    exact retainFrom_mono overlap.trace before.le
  refine Secure.bind sound (does_compactBuckets overlap unswept _ [] 0 sound past nofun)
    fun compacted le' sound' result told => ?_
  obtain ⟨mesh, discarded⟩ := result
  obtain ⟨rollups, closed⟩ := told
  have reseeded : Does config total run thread call (fun _ _ => True) compacted
      (reseedRollups mesh (today - config.retentionDays)) := by
    unfold reseedRollups
    split
    next => exact Secure.pure trivial
    next =>
      refine does_reseedKeys mesh (fun key member => ?_) sound'
      obtain ⟨member, -⟩ := List.mem_filter.mp (List.mem_dedup.mp member)
      obtain ⟨entry, there, member⟩ := List.mem_flatMap.mp member
      exact rollups entry there key member
  refine Secure.bind sound' reseeded fun _ le'' _ _ _ => ?_
  refine Secure.pure fun bucket member id old owed => ?_
  have visited : bucket ∈ (pin :: peers).reverse.dedup.reverse := by
    rw [List.mem_reverse, List.mem_dedup, List.mem_reverse]
    exact member
  refine ((closed bucket visited).mono overlap le'') id (old.trans_le ?_) owed
  rw [same]
  exact Nat.sub_le_sub_right (today_mono overlap.trace from_) _

end Passes

section Overlap
variable {config : CounterConfig} {total : β → DayShard → BucketMap} {run : CountersRun β}
variable {bucket : β} {id : DayShard}

/-- What a finished pass has achieved. -/
def Achieves (config : CounterConfig) (run : CountersRun β) (start later : ℕ) : CounterCall β → Prop
  | .compact pin peers => ∀ bucket ∈ pin :: peers,
      Closed config run later (todayAt run start - config.graceDays) bucket
  | .flush _ _ => True

theorem OverlapRun.sound (overlap : OverlapRun config total run) (unswept : Unswept config run)
    (now : ℕ) : Sound config total run now ∧
    ∀ thread call program, (run now).threads thread = some (call, program) →
      ∃ start since, Underway (counters config) run thread call start now ∧ start ≤ since ∧
        Quiet run thread since now ∧ Sound config total run since ∧
        Does config total run thread call (fun later _ => Achieves config run start later call) since
          program := by
  refine overlap.trace.secure overlap.idle (Sound config total run)
    (fun _ _ _ _ op answer => ¬op.Failed answer) (fun _ _ _ now op _ => Fair config total run now op)
    (fun _ call start later _ => Achieves config run start later call) (sound_zero overlap)
    (fun thread call _ now op answer _ => overlap.answered thread call now op answer) ?_ ?_ now
  · intro now sound fair
    refine sound.succ overlap fun thread call op answer performed => ?_
    obtain ⟨_, _, _, _, _, fair⟩ := fair thread call op answer performed
    exact fair
  · intro thread start call sound task
    obtain ⟨pin, peers, rfl⟩ := overlap.passes start thread call _ task
    exact does_compact overlap unswept pin peers sound

theorem Owed.counted (overlap : OverlapRun config total run) (owed : Owed run bucket id) :
    total bucket id = counted (run 0).store bucket id := by
  unfold Counters.counted
  cases frozen : (run 0).store.object bucket (.frozen id bucket) with
  | some body => exact (overlap.started.copies _ _ _ _ frozen).symm
  | none =>
      obtain ⟨node, seq, there⟩ | there := owed
      · refine overlap.started.unfrozen bucket id frozen ?_
        exact List.ne_nil_of_mem (mem_keysIn.mpr ⟨there, by simp [Scope.covers]⟩)
      · exact absurd frozen there

/-- As long as every segment a pass reads is still there, overlapping passes never
lower a count of a rollup, and each that finishes leaves every closed day of its
buckets frozen at what the bucket had counted at the start. -/
theorem rollups_survive_overlap (overlap : OverlapRun config total run)
    (unswept : Unswept config run) :
    (∀ now later holder owner id older newer, now ≤ later →
      objectAt run now holder (.frozen id owner) = some older →
      objectAt run later holder (.frozen id owner) = some newer →
      ∀ entry, older.asSegment.buckets.count entry ≤ newer.asSegment.buckets.count entry) ∧
    ∀ thread pin peers now discarded,
      (run now).threads thread = some (.compact pin peers, .done (.ok discarded)) →
      ∃ start, Underway (counters config) run thread (.compact pin peers) start now ∧
        ∀ bucket ∈ pin :: peers, ∀ id, id.day < todayAt run start - config.graceDays →
          todayAt run now - config.retentionDays ≤ id.day → Owed run bucket id →
          ∃ body, objectAt run now bucket (.frozen id bucket) = some body ∧
            body.asSegment.buckets = counted (run 0).store bucket id := by
  refine ⟨?_, ?_⟩
  · intro now later holder owner id older newer _ before after entry
    rw [(overlap.sound unswept now).1.copies _ _ _ _ before,
      (overlap.sound unswept later).1.copies _ _ _ _ after]
  · intro thread pin peers now discarded finished
    obtain ⟨sound, secured⟩ := overlap.sound unswept now
    obtain ⟨start, since, underway, -, quiet, -, done⟩ := secured thread _ _ finished
    refine ⟨start, underway, fun bucket member id old inside owed => ?_⟩
    have closed : Closed config run since (todayAt run start - config.graceDays) bucket :=
      done bucket member
    obtain ⟨instant, le, there⟩ | past := closed.mono overlap quiet.1 id old owed
    · obtain ⟨body, held⟩ := Option.ne_none_iff_exists'.mp
        (sound.lasts instant le bucket bucket id inside there)
      exact ⟨body, held, (sound.copies _ _ _ _ held).trans (owed.counted overlap)⟩
    · exact absurd past (Nat.not_lt.mpr inside)

end Overlap

section Samples

/-- One bucket with one segment of a day that is over. -/
def oneSegment : CounterStore Unit where
  today := 10
  objects _ := AList.singleton (.seg sixDay 1 0) oneDownload
  seqs _ := 0

theorem started_oneSegment : Started oneSegment (counted oneSegment) where
  copies holder owner id body held := nomatch held
  unfrozen bucket id missing _ := by
    rw [counted, missing]
    rfl

/-- Two passes over the bucket, taking turns as given. -/
def turns (order : List ℕ) : List (Move (@counters Unit _ monthly)) :=
  .start 0 (.compact () []) :: .start 1 (.compact () []) :: order.map (answering monthly)

def twoPasses (order : List ℕ) : CountersRun Unit :=
  replay ⟨oneSegment, fun _ => none⟩ (turns order)

theorem moves_turns {now : ℕ} {server : Server (@counters Unit _ monthly)}
    (next : (turns order)[now]? = some (.perform thread server)) :
    thread ∈ order ∧ server = ⟨fun _ => serveAll, fun _ store op => (serveAll_sound store op).1⟩ := by
  have moved := List.mem_of_getElem? next
  simp only [turns, answering, List.mem_cons, List.mem_map] at moved
  obtain same | same | ⟨mover, member, same⟩ := moved
  · cases same
  · cases same
  · cases same
    exact ⟨member, rfl⟩

theorem overlapRun_twoPasses (order : List ℕ) :
    OverlapRun monthly (counted oneSegment) (twoPasses order) where
  trace := trace_replay _ _
  idle _ := rfl
  passes now := by
    refine replay_started (P := fun _ (call : CounterCall Unit) =>
      ∃ pin peers, call = .compact pin peers)
      (fun _ => rfl) ?_ now
    intro thread call member
    simp only [turns, List.mem_cons, List.mem_map] at member
    obtain same | same | ⟨_, _, same⟩ := member
    · cases same
      exact ⟨_, _, rfl⟩
    · cases same
      exact ⟨_, _, rfl⟩
    · cases same
  answered thread call now op answer performed := by
    have ⟨server, next⟩ := performed.of_replay
    have ⟨rest, task, _⟩ := performed
    obtain ⟨-, rfl⟩ := moves_turns next
    exact ⟨_, performed_replay next task, (serveAll_sound _ _).2⟩
  started := started_oneSegment

/-- The deposed leader lists the segment and reads it only after its successor
has frozen and swept it. -/
def deposed : CountersRun Unit :=
  twoPasses [0, 0, 1, 1, 0, 0, 0, 1, 1, 1, 1, 1, 1, 0, 0, 0]

/-- Its empty sum replaces the successor's rollup, and both passes finish. -/
theorem deposed_empties_rollup : OverlapRun monthly (counted oneSegment) deposed ∧
    objectAt deposed 8 () (.frozen sixDay ()) = some oneDownload ∧
    objectAt deposed 18 () (.frozen sixDay ()) = some (.segment ⟨3600, 0⟩) ∧
    (deposed 18).threads 0 = some (.compact () [], .done (.ok 0)) ∧
    (deposed 18).threads 1 = some (.compact () [], .done (.ok 0)) ∧
    ¬(∀ entry, oneDownload.asSegment.buckets.count entry ≤ (0 : BucketMap).count entry) ∧
    segmentSum oneSegment () sixDay ≠ 0 := by
  refine ⟨overlapRun_twoPasses _, rfl, rfl, rfl, rfl, fun grows => ?_, by decide +kernel⟩
  exact absurd (grows ("00", "six/1.0")) (by decide +kernel)

/-- Both passes read the segment before either sweeps it. -/
def handoverOrder : List ℕ := [0, 0, 1, 1, 0, 1, 0, 1, 0, 1, 0, 1, 0, 1, 0, 1]

def handover : CountersRun Unit := twoPasses handoverOrder

/-- The thread's next operation does not read a segment that is gone. -/
def readsHeld (config : Config (CounterStore Unit) (CounterCall Unit) (CounterOp Unit)
    CounterOp.Ans String ℕ) (thread : ℕ) : Bool :=
  match config.threads thread with
  | some (_, .call (.get bucket (.seg id node seq)) _) =>
    (config.store.object bucket (.seg id node seq)).isSome
  | _ => true

theorem unswept_handover : Unswept monthly handover := by
  intro now thread call bucket id node seq answer performed
  have held : ∀ now < 18, ∀ thread < 2, readsHeld (handover now) thread = true := by decide +kernel
  obtain ⟨server, next⟩ := performed.of_replay
  have inside : now < 18 := (List.getElem?_eq_some_iff.mp next).1
  have turn : thread ∈ handoverOrder := (moves_turns next).1
  have few : thread < 2 := by
    have all : ∀ thread ∈ handoverOrder, thread < 2 := by decide
    exact all thread turn
  obtain ⟨_, task, _⟩ := performed
  have reads := held now inside thread few
  rw [readsHeld, task] at reads
  exact Option.isSome_iff_ne_none.mp reads

theorem handover_keeps_rollup :
    (handover 18).threads 1 = some (.compact () [], .done (.ok 0)) ∧
    ∃ body, objectAt handover 18 () (.frozen sixDay ()) = some body ∧
      body.asSegment.buckets = counted oneSegment () sixDay := by
  have finished : (handover 18).threads 1 = some (.compact () [], .done (.ok 0)) := rfl
  obtain ⟨start, -, frozen⟩ :=
    (rollups_survive_overlap (overlapRun_twoPasses handoverOrder) unswept_handover).2 1 () [] 18 0 finished
  have today (now : ℕ) : todayAt handover now = 10 := by
    obtain ⟨instant, bound, same⟩ := replay_bounded ⟨oneSegment, fun _ => none⟩ (turns handoverOrder) now
    have same' : todayAt handover now = todayAt handover instant := congrArg (·.store.today) same
    have all : ∀ instant ≤ 18, todayAt handover instant = 10 := by decide +kernel
    exact same'.trans (all instant bound)
  refine ⟨finished, frozen () List.mem_cons_self sixDay ?_ ?_ (.inl ⟨1, 0, ?_⟩)⟩
  · rw [show todayAt (twoPasses handoverOrder) start = 10 from today start]
    decide
  · decide
  · exact nofun

end Samples
end Pypiron.Counters
