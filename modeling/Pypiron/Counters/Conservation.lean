import Pypiron.Counters.Query
import Pypiron.Counters.Reseed

/-! Counts from the segments that landed to what a query reports. Of each
day-shard a bucket holds either the segments that landed on it or a rollup of
all of them, and every copy of the rollup says the same. -/
namespace Pypiron.Counters
open Program ThreadPool
variable {β : Type} [DecidableEq β]

/-- A segment put onto a bucket. -/
structure Landing (β : Type) where
  bucket : β
  id : DayShard
  node : ℕ
  seq : ℕ
  body : Body

section Landings
variable (config : CounterConfig) (run : CountersRun β)

/-- The put took effect between `now` and `now + 1`. -/
def Lands (now : ℕ) (landing : Landing β) : Prop :=
  ∃ thread call answer, Performed (counters config) run thread now call
    (.put landing.bucket (.seg landing.id landing.node landing.seq) landing.body) answer ∧
    objectAt run (now + 1) landing.bucket (.seg landing.id landing.node landing.seq) =
      some landing.body

open Classical in
/-- The deltas that land at an instant, of the landings that count. -/
noncomputable def arrival (counts : Landing β → Prop) (now : ℕ) : BucketMap :=
  if lands : ∃ landing, Lands config run now landing ∧ counts landing then
    lands.choose.body.asSegment.buckets
  else 0

/-- The sum of the deltas that have landed. -/
noncomputable def landed (counts : Landing β → Prop) : ℕ → BucketMap
  | 0 => 0
  | now + 1 => landed counts now + arrival config run counts now

/-- The landings of a day-shard on a bucket. -/
def On (bucket : β) (id : DayShard) (landing : Landing β) : Prop :=
  landing.bucket = bucket ∧ landing.id = id

variable {config run} {counts : Landing β → Prop} {landing landing' : Landing β} {now : ℕ}

theorem Lands.unique (lands : Lands config run now landing) (lands' : Lands config run now landing') :
    landing = landing' := by
  obtain ⟨thread, call, answer, performed, -⟩ := lands
  obtain ⟨thread', call', answer', performed', -⟩ := lands'
  obtain rfl := performed.unique performed'
  obtain ⟨_, task, _⟩ := performed
  obtain ⟨_, task', _⟩ := performed'
  rw [task] at task'
  cases landing
  cases landing'
  cases task'
  rfl

theorem arrival_eq (lands : Lands config run now landing) (counted : counts landing) :
    arrival config run counts now = landing.body.asSegment.buckets := by
  have some_ : ∃ landing, Lands config run now landing ∧ counts landing := ⟨landing, lands, counted⟩
  rw [arrival, dif_pos some_, some_.choose_spec.1.unique lands]

theorem arrival_zero (none_ : ∀ landing, Lands config run now landing → ¬counts landing) :
    arrival config run counts now = 0 := by
  rw [arrival, dif_neg]
  rintro ⟨landing, lands, counted⟩
  exact none_ landing lands counted

/-- Where nothing more lands the sum stays. -/
theorem landed_still (le : now ≤ later)
    (none_ : ∀ instant, now ≤ instant → ∀ landing, Lands config run instant landing → ¬counts landing) :
    landed config run counts later = landed config run counts now := by
  induction later, le using Nat.le_induction with
  | base => rfl
  | succ later le ih => rw [landed, arrival_zero (none_ later le), Multiset.add_zero, ih]

end Landings

section Fresh
variable {config : CounterConfig} {run : CountersRun β} {thread now later : ℕ}

theorem performs_fetchSeq {store store' : CounterStore β} {node seq : ℕ}
    (performs : CounterPerforms store (.fetchSeq node) seq store') :
    store.seqs node = seq ∧ store'.seqs node = seq + 1 := by
  cases performs
  exact ⟨rfl, Function.update_self ..⟩

/-- Sequence numbers only grow. -/
theorem seqs_mono (trace : Trace (counters config) run) (node : ℕ) :
    Monotone fun now => (run now).store.seqs node := by
  refine monotone_nat_of_le_succ fun now => ?_
  obtain ⟨thread, call, op, answer, performed⟩ | ⟨_, _, _, next⟩ | ⟨⟨_, _, next⟩, _⟩ |
    ⟨_, _, _, next, _⟩ | next := trace.cases now
  · obtain ⟨_, _, performs, _⟩ := performed
    generalize (run now).store = store at performs ⊢
    generalize (run (now + 1)).store = store' at performs ⊢
    cases performs with
    | @fetchSeq node' =>
        by_cases same : node = node'
        · subst same
          simp
        · simp [Function.update_of_ne same]
    | nowUtc | listed _ | listFailed | got | getFailed | put | putFailed | putLost | deleted
      | deleteFailed _ | takePending _ => exact le_rfl
  · rw [next, Config.setThread_store]
  · rw [next]
  · rw [show (run (now + 1)).store = (run now).store from next]
  · rw [next]

/-- A sequence number is handed out once. -/
theorem fetchSeq_unique (trace : Trace (counters config) run)
    {call call' : CounterCall β} {node seq now now' : ℕ}
    (fetched : Performed (counters config) run thread now call (.fetchSeq node) seq)
    (fetched' : Performed (counters config) run thread' now' call' (.fetchSeq node) seq) :
    now = now' := by
  obtain ⟨_, _, performs, _⟩ := fetched
  obtain ⟨_, _, performs', _⟩ := fetched'
  obtain ⟨before, after⟩ := performs_fetchSeq performs
  obtain ⟨before', after'⟩ := performs_fetchSeq performs'
  obtain less | same | more := Nat.lt_trichotomy now now'
  · have grows := seqs_mono trace node (Nat.succ_le_of_lt less)
    simp only [after, before'] at grows
    omega
  · exact same
  · have grows := seqs_mono trace node (Nat.succ_le_of_lt more)
    simp only [after', before] at grows
    omega

variable (config run) in
/-- The thread holds a sequence number it has not written under. -/
def Minted (thread now node seq : ℕ) : Prop :=
  ∃ instant call, instant < now ∧
    Performed (counters config) run thread instant call (.fetchSeq node) seq ∧
    Quiet run thread (instant + 1) now

variable (config run) in
/-- Every segment was written once, under a number its thread had just fetched. -/
def Owned (now : ℕ) : Prop :=
  ∀ bucket id node seq, objectAt run now bucket (.seg id node seq) ≠ none →
    ∃ thread call body answer instant, instant < now ∧ Minted config run thread instant node seq ∧
      Performed (counters config) run thread instant call (.put bucket (.seg id node seq) body) answer

/-- Every key counted is of the shard, or was folded past the cap. -/
def InShard (id : DayShard) (buckets : BucketMap) : Prop :=
  ∀ tally ∈ buckets, tally.2 = overflowKey ∨ shardOf tally.2 = id.shard

variable (config run) in
/-- Segments are put under minted numbers only, and count keys of their shard. -/
def Mints (thread now : ℕ) : CounterOp β → Prop
  | .put _ (.seg id node seq) body =>
      Minted config run thread now node seq ∧ InShard id body.asSegment.buckets
  | _ => True

theorem mints_flushSegments {call : CounterCall β} (pin : β) (node : ℕ)
    (taken : List (DayShard × BucketMap)) (sharded : Sharded taken) (instant : ℕ) :
    Secure (counters config) run (fun _ => True) (fun _ _ _ => True)
      (fun now op _ => Mints config run thread now op) thread call (fun _ _ => True) instant
      (flushSegments config node pin taken) := by
  induction taken generalizing instant with
  | nil => exact Secure.pure trivial
  | cons first rest ih =>
      obtain ⟨id, buckets⟩ := first
      have ih := ih fun entry member => sharded entry (List.mem_cons_of_mem _ member)
      unfold flushSegments
      split
      next => exact ih instant
      next =>
        refine Secure.bind trivial (Secure.perform (CounterOp.fetchSeq node) fun _ _ _ _ _ _ => trivial)
          fun later _ _ seq told => ?_
        obtain ⟨fetched, rfl, -, -, performed, -⟩ := told
        refine Secure.bind trivial (Secure.perform (CounterOp.put pin (.seg id node seq) _)
          fun now quiet _ _ _ _ => ?_)
          fun _ _ _ _ _ => ih _
        exact ⟨⟨fetched, call, quiet.1, performed, quiet⟩, sharded _ List.mem_cons_self⟩

theorem performs_takePending {store store' : CounterStore β} {node : ℕ}
    {taken : List (DayShard × BucketMap)}
    (performs : CounterPerforms store (.takePending node) taken store') : Sharded taken := by
  cases performs with
  | takePending sharded => exact sharded

/-- Every segment put is made under a minted number. -/
theorem SerialRun.mints (serialRun : SerialRun config run) {call : CounterCall β} {bucket : β}
    {id : DayShard} {node seq : ℕ} {body : Body} {answer : Except String Unit}
    (performed : Performed (counters config) run thread now call (.put bucket (.seg id node seq) body) answer) :
    Minted config run thread now node seq ∧ InShard id body.asSegment.buckets := by
  have ⟨_, task, _⟩ := performed
  have secured := (serialRun.trace.secure serialRun.idle (fun _ => True)
    (fun _ _ _ _ _ _ => True) (fun thread _ _ now op _ => Mints config run thread now op)
    (fun _ _ _ _ _ => True) trivial (fun _ _ _ _ _ answer _ performed => ⟨answer, performed, trivial⟩)
    (fun _ _ _ => trivial) ?_ now).2 thread call _ task
  · obtain ⟨_, since, _, _, quiet, -, secure⟩ := secured
    exact (secure now quiet trivial answer performed trivial).1
  · intro thread start call _ _
    cases call with
    | flush node pin =>
        have flushes : Secure (counters config) run (fun _ => True) (fun _ _ _ => True)
            (fun now op _ => Mints config run thread now op) thread (.flush node pin) (fun _ _ => True)
            start (flush config node pin) := by
          refine Secure.bind trivial (Secure.perform (CounterOp.takePending node)
            fun _ _ _ _ _ _ => trivial) fun later _ _ taken told => ?_
          obtain ⟨_, -, -, -, ⟨_, _, performs, _⟩, -⟩ := told
          exact mints_flushSegments pin node taken (performs_takePending performs) later
        exact Secure.bind trivial flushes fun _ _ _ _ _ => Secure.pure trivial
    | compact pin peers =>
        refine Secure.weaken (Secure.of_issues (issues_program config (.compact pin peers)) ?_)
          fun _ _ _ _ => trivial
        intro now op answer orderly
        cases op with
        | put bucket key body =>
            cases key with
            | seg _ _ _ => cases orderly
            | frozen _ _ | summary _ _ _ => trivial
        | nowUtc | list _ _ | get _ _ | delete _ _ | takePending _ | fetchSeq _ => trivial

theorem SerialRun.owned (serialRun : SerialRun config run) (now : ℕ) : Owned config run now := by
  induction now with
  | zero => exact fun bucket id node seq there => absurd (serialRun.bare bucket _) there
  | succ now ih =>
      intro bucket id node seq there
      have older (before : objectAt run now bucket (.seg id node seq) ≠ none) :
          ∃ thread call body answer instant, instant < now + 1 ∧
            Minted config run thread instant node seq ∧
            Performed (counters config) run thread instant call (.put bucket (.seg id node seq) body)
              answer := by
        obtain ⟨thread, call, body, answer, instant, before, owned⟩ := ih bucket id node seq before
        exact ⟨thread, call, body, answer, instant, before.trans (Nat.lt_succ_self _), owned⟩
      obtain ⟨-, same | ⟨thread, call, bucket', key, body, answer, performed, wrote⟩ |
        ⟨_, _, _, _, _, _, _, _, _, left⟩⟩ := objects_step serialRun.trace now
      · exact older (same bucket _ ▸ there)
      · rw [wrote] at there
        split at there
        next here =>
          obtain ⟨rfl, rfl⟩ := here
          exact ⟨thread, call, body, answer, now, Nat.lt_succ_self _, (serialRun.mints performed).1, performed⟩
        next => exact older there
      · rw [left] at there
        split at there
        next => exact absurd rfl there
        next => exact older there

/-- A segment is never put where there is one. -/
theorem SerialRun.fresh (serialRun : SerialRun config run) {call : CounterCall β} {bucket : β}
    {id : DayShard} {node seq : ℕ} {body : Body} {answer : Except String Unit}
    (performed : Performed (counters config) run thread now call (.put bucket (.seg id node seq) body) answer) :
    objectAt run now bucket (.seg id node seq) = none := by
  by_contra there
  obtain ⟨⟨instant, fetcher, before, fetched, quiet⟩, -⟩ := serialRun.mints performed
  obtain ⟨thread', call', body', answer', written, earlier, ⟨instant', fetcher', before', fetched', _⟩,
    performed'⟩ := serialRun.owned now bucket id node seq there
  obtain rfl := fetchSeq_unique serialRun.trace fetched fetched'
  obtain rfl := fetched.unique fetched'
  -- the thread has not moved since it fetched the number
  refine performed'.changes ?_
  rw [quiet.2 written before' earlier.le, quiet.2 (written + 1) (Nat.le_succ_of_le before') earlier]

end Fresh

section Sums
variable {store store' : CounterStore β} {bucket : β} {id : DayShard}

theorem mem_openShard {key : Key β} : key ∈ store.keysIn bucket (.openShard id) ↔
    store.object bucket key ≠ none ∧ key.segmentOf = some id := by
  rw [mem_keysIn]
  refine and_congr_right fun _ => ?_
  cases key with
  | seg id' _ _ => simp [Scope.covers, Key.segmentOf]
  | frozen _ _ | summary _ _ _ => simp [Scope.covers, Key.segmentOf]

theorem segmentSum_congr
    (same : ∀ key, key.segmentOf = some id → store'.object bucket key = store.object bucket key) :
    segmentSum store' bucket id = segmentSum store bucket id := by
  have keys : (store'.keysIn bucket (.openShard id)).Perm (store.keysIn bucket (.openShard id)) := by
    refine (List.perm_ext_iff_of_nodup (keysIn_nodup _ _ _) (keysIn_nodup _ _ _)).mpr fun key => ?_
    rw [mem_openShard, mem_openShard]
    exact and_congr_left fun segment => by rw [same key segment]
  rw [segmentSum, segmentSum, (keys.map _).sum_eq]
  refine congrArg List.sum (List.map_congr_left fun key member => ?_)
  rw [tallyOf, tallyOf, same key (mem_openShard.mp member).2]

theorem segmentSum_add {added : Key β} {body : Body} (segment : added.segmentOf = some id)
    (missing : store.object bucket added = none)
    (wrote : ∀ key, key.segmentOf = some id → store'.object bucket key =
      if key = added then some body else store.object bucket key) :
    segmentSum store' bucket id = segmentSum store bucket id + body.asSegment.buckets := by
  have keys : (store'.keysIn bucket (.openShard id)).Perm
      (added :: store.keysIn bucket (.openShard id)) := by
    refine (List.perm_ext_iff_of_nodup (keysIn_nodup _ _ _) (List.nodup_cons.mpr
      ⟨fun member => (mem_openShard.mp member).1 missing, keysIn_nodup _ _ _⟩)).mpr fun key => ?_
    rw [List.mem_cons, mem_openShard, mem_openShard]
    by_cases same : key = added
    · subst same
      simp [wrote key segment, segment]
    · simp only [same, false_or]
      refine and_congr_left fun segment' => ?_
      rw [wrote key segment', if_neg same]
  have others : (store.keysIn bucket (.openShard id)).map (tallyOf store' bucket) =
      (store.keysIn bucket (.openShard id)).map (tallyOf store bucket) := by
    refine List.map_congr_left fun key member => ?_
    obtain ⟨there, segment'⟩ := mem_openShard.mp member
    have apart : key ≠ added := fun same => there (same ▸ missing)
    rw [tallyOf, tallyOf, wrote key segment', if_neg apart]
  rw [segmentSum, segmentSum, (keys.map _).sum_eq, List.map_cons, List.sum_cons, others, tallyOf,
    wrote added segment, if_pos rfl, Option.elim_some, Multiset.add_comm]

end Sums

section Conserved
variable (config : CounterConfig) (run : CountersRun β) (now : ℕ)

/-- No delta of the day-shard lands on the bucket from `now` on. -/
def Sealed (bucket : β) (id : DayShard) : Prop :=
  ∀ instant, now ≤ instant → ∀ landing, Lands config run instant landing → ¬On bucket id landing

/-- Inside retention, every rollup is the sum of what landed and nothing lands
after it, and segments that are not rolled up are all there. -/
structure Conserved : Prop where
  rolled : ∀ holder bucket id body, retainFrom config run now ≤ id.day →
    objectAt run now holder (.frozen id bucket) = some body →
    body.asSegment.buckets = landed config run (On bucket id) now ∧ Sealed config run now bucket id
  live : ∀ bucket id, retainFrom config run now ≤ id.day →
    objectAt run now bucket (.frozen id bucket) = none →
    segmentSum (run now).store bucket id = landed config run (On bucket id) now

/-- What a pass may do to the counts. -/
def Faithful : CounterOp β → Prop
  | .put holder (.frozen id bucket) body => retainFrom config run now ≤ id.day →
      objectAt run (now + 1) holder (.frozen id bucket) = some body →
      body.asSegment.buckets = landed config run (On bucket id) now ∧ Sealed config run now bucket id
  | .delete bucket keys => ∀ id, retainFrom config run now ≤ id.day →
      ((∃ node seq, .seg id node seq ∈ keys) → objectAt run now bucket (.frozen id bucket) ≠ none) ∧
      ∀ owner, .frozen id owner ∉ keys
  | _ => True

end Conserved

section Steps
variable {config : CounterConfig} {run : CountersRun β} {now : ℕ} {bucket : β} {id : DayShard}

theorem landed_succ_of_none (none_ : ∀ landing, Lands config run now landing → ¬On bucket id landing) :
    landed config run (On bucket id) (now + 1) = landed config run (On bucket id) now := by
  rw [landed, arrival_zero none_, Multiset.add_zero]

/-- A put that is not of a segment, or any other operation, lands nothing. -/
theorem Lands.performed {thread : ℕ} {call : CounterCall β} {op : CounterOp β} {answer : op.Ans}
    {landing : Landing β} (lands : Lands config run now landing)
    (performed : Performed (counters config) run thread now call op answer) :
    op = .put landing.bucket (.seg landing.id landing.node landing.seq) landing.body := by
  obtain ⟨thread', call', answer', performed', -⟩ := lands
  obtain rfl := performed.unique performed'
  obtain ⟨_, task, _⟩ := performed
  obtain ⟨_, task', _⟩ := performed'
  rw [task] at task'
  cases task'
  rfl

/-- A landing is seen in its bucket. -/
theorem SerialRun.lands_changes (serialRun : SerialRun config run) {landing : Landing β}
    (lands : Lands config run now landing) :
    objectAt run (now + 1) landing.bucket (.seg landing.id landing.node landing.seq) ≠
      objectAt run now landing.bucket (.seg landing.id landing.node landing.seq) := by
  obtain ⟨thread, call, answer, performed, held⟩ := lands
  rw [held, serialRun.fresh performed]
  simp

/-- Nothing landed, no rollup inside retention was lost, and those that are new are
complete. -/
theorem Conserved.unlanded (serialRun : SerialRun config run) (conserved : Conserved config run now)
    (none_ : ∀ landing, ¬Lands config run now landing)
    (rolls : ∀ holder bucket id body, retainFrom config run now ≤ id.day →
      objectAt run (now + 1) holder (.frozen id bucket) = some body →
      objectAt run now holder (.frozen id bucket) = some body ∨
      (body.asSegment.buckets = landed config run (On bucket id) now ∧ Sealed config run now bucket id))
    (segments : ∀ bucket id, retainFrom config run now ≤ id.day →
      objectAt run (now + 1) bucket (.frozen id bucket) = none →
      objectAt run now bucket (.frozen id bucket) = none ∧ ∀ key, key.segmentOf = some id →
        objectAt run (now + 1) bucket key = objectAt run now bucket key) :
    Conserved config run (now + 1) := by
  have le := retainFrom_mono serialRun.trace (Nat.le_succ now)
  have still (bucket : β) (id : DayShard) :
      landed config run (On bucket id) (now + 1) = landed config run (On bucket id) now :=
    landed_succ_of_none fun landing lands => absurd lands (none_ landing)
  refine ⟨fun holder bucket id body inside held => ?_, fun bucket id inside missing => ?_⟩
  · have complete : body.asSegment.buckets = landed config run (On bucket id) now ∧
        Sealed config run now bucket id := by
      obtain before | new := rolls holder bucket id body (le.trans inside) held
      · exact conserved.rolled holder bucket id body (le.trans inside) before
      · exact new
    rw [still]
    exact ⟨complete.1, fun instant after => complete.2 instant ((Nat.le_succ now).trans after)⟩
  · obtain ⟨before, same⟩ := segments bucket id (le.trans inside) missing
    rw [still, ← conserved.live bucket id (le.trans inside) before]
    exact segmentSum_congr same

/-- Faithful operations keep the counts. -/
theorem Conserved.succ (serialRun : SerialRun config run) (conserved : Conserved config run now)
    (faithful : ∀ thread call op answer, Performed (counters config) run thread now call op answer →
      Faithful config run now op) : Conserved config run (now + 1) := by
  have le := retainFrom_mono serialRun.trace (Nat.le_succ now)
  obtain ⟨-, same | ⟨thread, call, bucket, key, body, answer, performed, wrote⟩ |
    ⟨thread, call, bucket, keys, answer, gone, inside, performed, -, left⟩⟩ :=
    objects_step serialRun.trace now
  · refine conserved.unlanded serialRun (fun landing lands => ?_) (fun holder bucket id body _ held => ?_)
      fun bucket id _ missing => ?_
    · exact serialRun.lands_changes lands (same _ _)
    · exact .inl (same _ _ ▸ held)
    · exact ⟨same _ _ ▸ missing, fun key _ => same _ _⟩
  · have faithful := faithful _ _ _ _ performed
    cases key with
    | seg id node seq =>
        have fresh := serialRun.fresh performed
        have lands : Lands config run now ⟨bucket, id, node, seq, body⟩ :=
          ⟨thread, call, answer, performed, by rw [wrote, if_pos ⟨rfl, rfl⟩]⟩
        have rollups (holder owner : β) (id : DayShard) :
            objectAt run (now + 1) holder (.frozen id owner) = objectAt run now holder (.frozen id owner) := by
          rw [wrote, if_neg (by simp)]
        refine ⟨fun holder bucket' id' body' inside held => ?_, fun bucket' id' inside missing => ?_⟩
        · rw [rollups] at held
          obtain ⟨sum, closed⟩ := conserved.rolled holder bucket' id' body' (le.trans inside) held
          rw [landed_succ_of_none (closed now le_rfl)]
          exact ⟨sum, fun instant after => closed instant ((Nat.le_succ now).trans after)⟩
        · rw [rollups] at missing
          have before := conserved.live bucket' id' (le.trans inside) missing
          by_cases here : On bucket' id' ⟨bucket, id, node, seq, body⟩
          · obtain ⟨rfl, rfl⟩ := here
            rw [landed, arrival_eq lands ⟨rfl, rfl⟩, ← before]
            refine segmentSum_add (show Key.segmentOf (.seg id node seq) = some id from rfl) fresh fun key _ => ?_
            simpa [objectAt] using wrote bucket key
          · rw [landed_succ_of_none fun landing lands' => lands'.unique lands ▸ here, ← before]
            refine segmentSum_congr fun key segment => ?_
            refine (wrote bucket' key).trans (if_neg ?_)
            rintro ⟨rfl, rfl⟩
            exact here ⟨rfl, Option.some.inj segment⟩
    | frozen id owner =>
        refine conserved.unlanded serialRun (fun landing lands => ?_)
          (fun holder bucket' id' body' inside held => ?_) fun bucket' id' inside missing => ?_
        · cases lands.performed performed
        · by_cases here : holder = bucket ∧ Key.frozen id' bucket' = Key.frozen id owner
          · obtain ⟨rfl, same⟩ := here
            cases same
            have after := held
            rw [wrote, if_pos ⟨rfl, rfl⟩] at held
            cases held
            exact .inr (faithful inside after)
          · rw [wrote, if_neg here] at held
            exact .inl held
        · rw [wrote] at missing
          split at missing
          next => cases missing
          next => exact ⟨missing, fun key segment => by
            rw [wrote, if_neg]
            rintro ⟨-, rfl⟩
            cases segment⟩
    | summary metric day owner =>
        refine conserved.unlanded serialRun (fun landing lands => ?_)
          (fun holder bucket' id' body' inside held => ?_) fun bucket' id' inside missing => ?_
        · cases lands.performed performed
        · rw [wrote, if_neg (by simp)] at held
          exact .inl held
        · rw [wrote, if_neg (by simp)] at missing
          refine ⟨missing, fun key segment => ?_⟩
          rw [wrote, if_neg]
          rintro ⟨-, rfl⟩
          cases segment
  · have faithful := faithful _ _ _ _ performed
    refine conserved.unlanded serialRun (fun landing lands => ?_)
      (fun holder bucket' id' body' recent held => ?_) fun bucket' id' recent missing => ?_
    · cases lands.performed performed
    · rw [left] at held
      split at held
      next => cases held
      next => exact .inl held
    · -- the rollup was not among the keys, so neither were the segments
      rw [left] at missing
      rw [if_neg fun here => (faithful id' recent).2 bucket' (inside here.2)] at missing
      refine ⟨missing, fun key segment => ?_⟩
      rw [left, if_neg]
      rintro ⟨rfl, member⟩
      cases key with
      | seg id node seq =>
          cases segment
          exact (faithful id' recent).1 ⟨node, seq, inside member⟩ missing
      | frozen _ _ | summary _ _ _ => cases segment

end Steps

/-- No delta of a day-shard lands on a bucket once the pass that freezes it there
has listed the bucket. -/
def Settled (config : CounterConfig) (run : CountersRun β) : Prop :=
  ∀ thread pin peers start listed frozen bucket id body answer answer',
    Underway (counters config) run thread (.compact pin peers) start frozen →
    start ≤ listed → listed < frozen →
    Performed (counters config) run thread listed (.compact pin peers) (.list bucket .all) answer →
    Performed (counters config) run thread frozen (.compact pin peers)
      (.put bucket (.frozen id bucket) body) answer' →
    objectAt run (frozen + 1) bucket (.frozen id bucket) = some body →
    Sealed config run listed bucket id

section Passes
variable {config : CounterConfig} {run : CountersRun β}
variable {thread start instant now later listed cutoff : ℕ}
variable {pin bucket : β} {peers : List β} {keys segKeys : List (Key β)} {id : DayShard}

/-- While a pass is quiet no segment is lost or replaced. -/
theorem SerialRun.segments_quiet (serialRun : SerialRun config run) (quiet : Quiet run thread now later)
    (running : Running run later thread) {key : Key β} (segment : ¬key.isRollup) {body : Body}
    (held : objectAt run now bucket key = some body) : objectAt run later bucket key = some body := by
  have ⟨le, same⟩ := quiet
  obtain ⟨pin, peers, op, next, task⟩ := running
  refine Quiet.induction (fun _ last => objectAt run last bucket key = some body) quiet held ?_
  intro instant from_ before unmoved still
  have busy : Running run instant thread := ⟨pin, peers, op, next, unmoved.trans task⟩
  have stays : (run (instant + 1)).threads thread = (run instant).threads thread := by
    rw [same instant from_ before.le, same (instant + 1) (Nat.le_succ_of_le from_) before]
  obtain ⟨-, unchanged | ⟨thread', call', bucket', key', body', answer, performed, wrote⟩ |
    ⟨thread', call', bucket', keys, answer, gone, -, performed, -, -⟩⟩ :=
    objects_step serialRun.trace instant
  · exact (unchanged bucket key).trans still
  · rw [wrote, if_neg, still]
    rintro ⟨rfl, rfl⟩
    cases key with
    | seg id node seq =>
        rw [serialRun.fresh performed] at still
        cases still
    | frozen _ _ | summary _ _ _ => exact segment rfl
  · obtain ⟨node, pin', rfl⟩ := serialRun.flushes busy stays performed
    exact (serialRun.orderly performed).elim

/-- Apart from some keys, rollups of the bucket stay and segments stay as they are. -/
def Keeps (run : CountersRun β) (first last : ℕ) (bucket : β) (gone : List (Key β)) : Prop :=
  ∀ key, key ∉ gone → (key.isRollup → objectAt run first bucket key ≠ none →
    objectAt run last bucket key ≠ none) ∧
  ∀ body, ¬key.isRollup → objectAt run first bucket key = some body →
    objectAt run last bucket key = some body

theorem Keeps.refl (instant : ℕ) (bucket : β) : Keeps run instant instant bucket [] :=
  fun _ _ => ⟨fun _ there => there, fun _ _ held => held⟩

theorem Keeps.trans {gone gone' : List (Key β)} (first : Keeps run instant now bucket gone)
    (second : Keeps run now later bucket gone') : Keeps run instant later bucket (gone ++ gone') := by
  intro key outside
  rw [List.mem_append, not_or] at outside
  refine ⟨fun rollup there => ?_, fun body segment held => ?_⟩
  · exact (second key outside.2).1 rollup ((first key outside.1).1 rollup there)
  · exact (second key outside.2).2 body segment ((first key outside.1).2 body segment held)

theorem SerialRun.keeps_quiet (serialRun : SerialRun config run) (quiet : Quiet run thread now later)
    (running : Running run later thread) : Keeps run now later bucket [] := by
  intro key _
  refine ⟨fun rollup there => ?_, fun body segment held => ?_⟩
  · rw [serialRun.rollups_quiet quiet running bucket rollup]
    exact there
  · exact serialRun.segments_quiet quiet running segment held

variable (config run thread start pin peers)

/-- Programs of a pass. -/
abbrev Counts {α : Type} (post : ℕ → α → Prop) (instant : ℕ) (program : CounterM β α) : Prop :=
  Secure (counters config) run (Conserved config run)
    (fun now _ _ => Underway (counters config) run thread (.compact pin peers) start now)
    (fun now op _ => Faithful config run now op) thread (.compact pin peers) post instant program

variable {config run thread start pin peers}

/-- An operation that deletes nothing keeps everything. -/
theorem counts_op (serialRun : SerialRun config run) (bucket : β) (op : CounterOp β)
    (keeps : ∀ bucket keys, op ≠ .delete bucket keys)
    (faithful : ∀ now answer, instant ≤ now → Keeps run instant now bucket [] → Conserved config run now →
      Underway (counters config) run thread (.compact pin peers) start now →
      Performed (counters config) run thread now (.compact pin peers) op answer →
      Faithful config run now op) :
    Counts config run thread start pin peers (fun later answer => Keeps run instant later bucket [] ∧
      ∃ now, later = now + 1 ∧ instant ≤ now ∧ Keeps run instant now bucket [] ∧
        Keeps run now later bucket [] ∧ Conserved config run now ∧
        Performed (counters config) run thread now (.compact pin peers) op answer) instant
      (perform op) := by
  refine Secure.weaken (Secure.perform op fun now quiet held answer performed underway => ?_)
    fun later le answer told => ?_
  · have ⟨next, task, _⟩ := performed
    exact faithful now answer quiet.1 (serialRun.keeps_quiet quiet ⟨pin, peers, op, next, task⟩) held
      underway performed
  · obtain ⟨now, rfl, quiet, held, performed, -⟩ := told
    have ⟨next, task, _⟩ := performed
    have before : Keeps run instant now bucket [] :=
      serialRun.keeps_quiet quiet ⟨pin, peers, op, next, task⟩
    have after : Keeps run now (now + 1) bucket [] := by
      intro key _
      obtain same | ⟨dest, key', body, rfl, wrote⟩ | ⟨dest, keys, _, _, rfl, _⟩ :=
        objects_performed performed
      · rw [same bucket key]
        exact ⟨fun _ there => there, fun _ _ held => held⟩
      · refine ⟨fun _ there => ?_, fun body' segment held => ?_⟩
        · rw [wrote]
          split
          · simp
          · exact there
        · rw [wrote, if_neg, held]
          rintro ⟨-, rfl⟩
          exact segment (serialRun.orderly performed)
      · exact absurd rfl (keeps dest keys)
    exact ⟨before.trans after, now, rfl, quiet.1, before, after, held, performed⟩

theorem counts_delete (serialRun : SerialRun config run)
    (faithful : ∀ now, instant ≤ now → Keeps run instant now bucket [] →
      Faithful config run now (.delete bucket keys)) :
    Counts config run thread start pin peers (fun later _ => Keeps run instant later bucket keys)
      instant (delete bucket keys) := by
  refine Secure.weaken (Secure.perform (CounterOp.delete bucket keys)
    fun now quiet _ answer performed _ => ?_) fun later le answer told => ?_
  · have ⟨next, task, _⟩ := performed
    exact faithful now quiet.1 (serialRun.keeps_quiet quiet ⟨pin, peers, _, next, task⟩)
  · obtain ⟨now, rfl, quiet, -, performed, -⟩ := told
    have ⟨next, task, performs, _⟩ := performed
    have before : Keeps run instant now bucket [] :=
      serialRun.keeps_quiet quiet ⟨pin, peers, _, next, task⟩
    have after : Keeps run now (now + 1) bucket keys := by
      obtain ⟨-, gone, inside, -, left⟩ := performs_delete performs
      intro key outside
      have same : objectAt run (now + 1) bucket key = objectAt run now bucket key :=
        (left bucket key).trans (if_neg fun here => outside (inside here.2))
      rw [same]
      exact ⟨fun _ there => there, fun _ _ held => held⟩
    exact before.trans after

/-- The segments listed are still there, so a sum is of all of them or none. -/
theorem counts_sumSegments (serialRun : SerialRun config run) (held : Conserved config run instant)
    (segments : ∀ key ∈ keys, ¬key.isRollup ∧
      objectAt run instant bucket key = (run listed).store.object bucket key ∧
      (run listed).store.object bucket key ≠ none) (acc : BucketMap) :
    Counts config run thread start pin peers (fun later sum => Keeps run instant later bucket [] ∧
      ∀ buckets, sum = some buckets →
        buckets = acc + (keys.map (tallyOf (run listed).store bucket)).sum) instant
      (sumSegments bucket keys acc) := by
  induction keys generalizing instant acc with
  | nil => exact Secure.pure ⟨.refl _ _, fun _ same => by cases same; exact (Multiset.add_zero acc).symm⟩
  | cons key rest ih =>
      obtain ⟨segment, same, there⟩ := segments key List.mem_cons_self
      obtain ⟨body, stored⟩ := Option.ne_none_iff_exists'.mp there
      refine Secure.bind held (counts_op serialRun bucket (.get bucket key) nofun
        fun _ _ _ _ _ _ _ => trivial)
        fun read _ held' answer told => ?_
      obtain ⟨kept, now, rfl, from_, before, -, -, performed⟩ := told
      have others : ∀ key ∈ rest, ¬key.isRollup ∧
          objectAt run (now + 1) bucket key = (run listed).store.object bucket key ∧
          (run listed).store.object bucket key ≠ none := by
        intro key member
        obtain ⟨segment, same, there⟩ := segments key (List.mem_cons_of_mem _ member)
        refine ⟨segment, ?_, there⟩
        obtain ⟨body, stored⟩ := Option.ne_none_iff_exists'.mp there
        rw [stored] at same ⊢
        exact (kept key List.not_mem_nil).2 body segment same
      have ⟨_, _, performs, _⟩ := performed
      obtain ⟨text, rfl⟩ | rfl := performs_get performs
      · exact Secure.pure ⟨kept, nofun⟩
      · have found : (run now).store.object bucket key = some body :=
          (before key List.not_mem_nil).2 body segment (same.trans stored)
        rw [found]
        refine Secure.weaken (ih held' others _) fun later _ sum told => ?_
        refine ⟨kept.trans told.1, fun buckets same => ?_⟩
        rw [told.2 buckets same, List.map_cons, List.sum_cons, tallyOf, stored, Option.elim_some,
          Multiset.add_assoc]

/-- What a listing grouped sums to. -/
theorem segmentSum_group (group : Group run listed bucket id segKeys) :
    segmentSum (run listed).store bucket id =
      (segKeys.map (tallyOf (run listed).store bucket)).sum := by
  have keys : ((run listed).store.keysIn bucket (.openShard id)).Perm segKeys := by
    refine (List.perm_ext_iff_of_nodup (keysIn_nodup _ _ _) group.nodup).mpr fun key => ?_
    rw [mem_openShard, group.mem key]
    exact and_comm
  exact (keys.map _).sum_eq

theorem Group.not_rollup (group : Group run listed bucket id segKeys) {key : Key β}
    (member : key ∈ segKeys) : ¬key.isRollup := by
  obtain ⟨node, seq, rfl⟩ := segmentOf_eq_some ((group.mem key).mp member).1
  exact nofun

/-- Segments may go once their rollup is there. -/
theorem faithful_sweep (group : Group run listed bucket id segKeys)
    (rolled : objectAt run now bucket (.frozen id bucket) ≠ none) :
    Faithful config run now (.delete bucket segKeys) := by
  intro id' _
  refine ⟨?_, fun owner member => group.not_rollup member rfl⟩
  rintro ⟨node, seq, member⟩
  have same := ((group.mem _).mp member).1
  cases same
  exact rolled

variable (config run thread pin peers) in
/-- A pass has listed the bucket, and of the keys it saw some are gone. -/
structure Sees (listed now : ℕ) (bucket : β) (gone : List (Key β)) : Prop where
  performed : ∃ answer,
    Performed (counters config) run thread listed (.compact pin peers) (.list bucket .all) answer
  conserved : Conserved config run listed
  before : listed < now
  keeps : Keeps run listed now bucket gone

theorem Sees.trans {gone gone' : List (Key β)}
    (sees : Sees config run thread pin peers listed now bucket gone) (le : now ≤ later)
    (keeps : Keeps run now later bucket gone') :
    Sees config run thread pin peers listed later bucket (gone ++ gone') :=
  ⟨sees.performed, sees.conserved, sees.before.trans_le le, sees.keeps.trans keeps⟩

theorem Sees.still {gone : List (Key β)}
    (sees : Sees config run thread pin peers listed now bucket gone) (le : now ≤ later)
    (keeps : Keeps run now later bucket []) :
    Sees config run thread pin peers listed later bucket gone :=
  List.append_nil gone ▸ sees.trans le keeps

/-- A day-shard's rollup is what has landed of it. -/
theorem counts_freezeShard (serialRun : SerialRun config run) (settled : Settled config run)
    (begun : start ≤ listed) {gone : List (Key β)}
    (sees : Sees config run thread pin peers listed now bucket gone)
    (held : Conserved config run now) (group : Group run listed bucket id segKeys)
    (vacant : objectAt run listed bucket (.frozen id bucket) = none)
    (outside : ∀ key ∈ segKeys, key ∉ gone) (progress : Progress β) :
    Counts config run thread start pin peers (fun later _ =>
      ∃ swept ⊆ segKeys, Sees config run thread pin peers listed later bucket (gone ++ swept)) now
      (freezeShard config bucket id segKeys progress) := by
  have segments : ∀ key ∈ segKeys, ¬key.isRollup ∧
      objectAt run now bucket key = (run listed).store.object bucket key ∧
      (run listed).store.object bucket key ≠ none := by
    intro key member
    have there : (run listed).store.object bucket key ≠ none := ((group.mem key).mp member).2
    obtain ⟨body, stored⟩ := Option.ne_none_iff_exists'.mp there
    refine ⟨group.not_rollup member, ?_, there⟩
    rw [stored]
    exact (sees.keeps key (outside key member)).2 body (group.not_rollup member) stored
  refine Secure.bind held (counts_sumSegments serialRun held segments 0)
    fun summed le held' sum told => ?_
  obtain ⟨kept, sum_eq⟩ := told
  have sees' := sees.still le kept
  cases sum with
  | none => exact Secure.pure ⟨[], List.nil_subset _, (List.append_nil gone).symm ▸ sees'⟩
  | some buckets =>
      refine Secure.bind held' (counts_op serialRun bucket (.put bucket (.frozen id bucket)
        (.segment ⟨config.resolutionSecs, buckets⟩)) nofun ?_) fun put le' held'' answer told => ?_
      · intro frozen answer from_ _ _ underway performed inside written
        obtain ⟨_, listing⟩ := sees.performed
        have earlier : listed < frozen := sees'.before.trans_le from_
        have closed := settled _ _ _ _ _ _ _ _ _ _ _ underway begun earlier listing performed written
        refine ⟨?_, fun instant after => closed instant (earlier.le.trans after)⟩
        have recent := (retainFrom_mono serialRun.trace earlier.le).trans inside
        rw [landed_still earlier.le closed, ← sees.conserved.live bucket id recent vacant,
          segmentSum_group group, ← Multiset.zero_add (segKeys.map _).sum]
        exact sum_eq buckets rfl
      · obtain ⟨kept', frozen, rfl, _, _, _, _, performed⟩ := told
        have sees'' := sees'.still le' kept'
        cases answer with
        | error text => exact Secure.pure ⟨[], List.nil_subset _, (List.append_nil gone).symm ▸ sees''⟩
        | ok =>
            have rolled : objectAt run (frozen + 1) bucket (.frozen id bucket) ≠ none := by
              have ⟨_, _, performs, _⟩ := performed
              obtain ⟨-, ⟨-, failed⟩ | wrote⟩ := performs_put performs
              · exact absurd rfl failed
              · rw [objectAt, wrote, if_pos ⟨rfl, rfl⟩]
                simp
            refine Secure.bind held'' (counts_delete serialRun fun now _ keeps => faithful_sweep group
              ((keeps _ List.not_mem_nil).1 rfl rolled)) fun swept le'' _ _ kept'' => ?_
            exact Secure.pure ⟨segKeys, List.Subset.refl _, sees''.trans le'' kept''⟩

/-- Segments of a day-shard that was already frozen count no more. -/
theorem counts_sweepShard (serialRun : SerialRun config run) {gone : List (Key β)}
    (sees : Sees config run thread pin peers listed now bucket gone)
    (held : Conserved config run now) (group : Group run listed bucket id segKeys)
    (frozen : objectAt run listed bucket (.frozen id bucket) ≠ none)
    (outside : .frozen id bucket ∉ gone) (progress : Progress β) :
    Counts config run thread start pin peers (fun later _ =>
      Sees config run thread pin peers listed later bucket (gone ++ segKeys)) now
      (sweepShard bucket segKeys progress) := by
  have rolled := (sees.keeps _ outside).1 rfl frozen
  refine Secure.bind held (counts_delete serialRun fun now _ keeps => faithful_sweep group
    ((keeps _ List.not_mem_nil).1 rfl rolled)) fun swept le _ answer kept => ?_
  cases answer with
  | ok => exact Secure.pure (sees.trans le kept)
  | error text => exact Secure.pure (sees.trans le kept)

theorem counts_freezeShards (serialRun : SerialRun config run) (settled : Settled config run)
    (begun : start ≤ listed) (closeCutoff : ℕ) (frozen : List DayShard)
    (known : ∀ id, id ∈ frozen ↔ objectAt run listed bucket (.frozen id bucket) ≠ none)
    (groups : List (DayShard × List (Key β))) (distinct : (groups.map (·.1)).Nodup)
    (grouped : ∀ group ∈ groups, Group run listed bucket group.1 group.2) {gone : List (Key β)}
    (sees : Sees config run thread pin peers listed now bucket gone)
    (held : Conserved config run now)
    (passed : ∀ key ∈ gone, ∃ id, key.segmentOf = some id ∧ id ∉ groups.map (·.1))
    (progress : Progress β) :
    Counts config run thread start pin peers (fun _ _ => True) now
      (freezeShards config bucket closeCutoff frozen groups progress) := by
  induction groups generalizing now gone progress with
  | nil => exact Secure.pure trivial
  | cons group rest ih =>
      obtain ⟨id, segKeys⟩ := group
      obtain ⟨new, distinct⟩ := List.nodup_cons.mp distinct
      have mine := grouped _ List.mem_cons_self
      have others : ∀ group ∈ rest, Group run listed bucket group.1 group.2 := fun group member =>
        grouped group (List.mem_cons_of_mem _ member)
      have older : ∀ key ∈ gone, ∃ id, key.segmentOf = some id ∧ id ∉ rest.map (·.1) := by
        intro key member
        obtain ⟨id, segment, outside⟩ := passed key member
        exact ⟨id, segment, fun member => outside (List.mem_cons_of_mem _ member)⟩
      have further (swept : List (Key β)) (inside : swept ⊆ segKeys) :
          ∀ key ∈ gone ++ swept, ∃ id, key.segmentOf = some id ∧ id ∉ rest.map (·.1) := by
        intro key member
        obtain old | member := List.mem_append.mp member
        · exact older key old
        · exact ⟨id, ((mine.mem key).mp (inside member)).1, new⟩
      unfold freezeShards
      dsimp only
      split
      next => exact ih distinct others sees held older progress
      next =>
        split
        next rolled =>
          refine Secure.bind held (counts_sweepShard serialRun sees held mine ((known id).mp rolled)
            (fun member => ?_) progress) fun later _ held' result sees' => ?_
          · obtain ⟨_, segment, _⟩ := passed _ member
            cases segment
          · exact ih distinct others sees' held' (further segKeys (List.Subset.refl _)) result
        next unrolled =>
          have vacant : objectAt run listed bucket (.frozen id bucket) = none := by
            by_contra there
            exact unrolled ((known id).mpr there)
          refine Secure.bind held (counts_freezeShard serialRun settled begun sees held mine vacant
            (fun key member old => ?_) progress) fun later _ held' result told => ?_
          · obtain ⟨_, segment, outside⟩ := passed key old
            rw [((mine.mem key).mp member).1] at segment
            cases segment
            exact outside List.mem_cons_self
          · obtain ⟨swept, inside, sees'⟩ := told
            exact ih distinct others sees' held' (further swept inside) result

/-- Operations on anything but counts. -/
theorem counts_other (op : CounterOp β) (faithful : ∀ now, Faithful config run now op) :
    Counts config run thread start pin peers (fun _ _ => True) instant (perform op) :=
  Secure.weaken (Secure.perform op fun now _ _ _ _ _ => faithful now) fun _ _ _ _ => trivial

theorem counts_foldRollups (held : Conserved config run instant) (totals : Multiset String) :
    Counts config run thread start pin peers (fun _ _ => True) instant
      (foldRollups bucket keys totals) := by
  induction keys generalizing instant totals with
  | nil => exact Secure.pure trivial
  | cons key rest ih =>
      cases key with
      | seg _ _ _ | summary _ _ _ => exact ih held totals
      | frozen id owner =>
          unfold foldRollups
          split
          next => exact ih held totals
          next =>
            refine Secure.bind held (counts_other (.get bucket (.frozen id owner)) fun _ => trivial)
              fun _ _ held' answer _ => ?_
            split
            next => exact ih held' _
            next => exact Secure.pure trivial

theorem counts_writeSummary (held : Conserved config run instant) (metric : String) (day : ℕ) :
    Counts config run thread start pin peers (fun _ _ => True) instant
      (writeSummary bucket metric day) := by
  refine Secure.bind held (counts_other (.list bucket (.day metric day)) fun _ => trivial)
    fun _ _ held' answer _ => ?_
  split
  next => exact Secure.pure trivial
  next =>
    refine Secure.bind held' (counts_foldRollups held' 0) fun _ _ held'' folded _ => ?_
    cases folded with
    | none => exact Secure.pure trivial
    | some totals =>
        refine Secure.bind held'' (counts_other (.put bucket (.summary metric day bucket)
          (.summary (rankSummary totals))) fun _ => trivial) fun _ _ _ answer _ => ?_
        cases answer with
        | ok => exact Secure.pure trivial
        | error text => exact Secure.pure trivial

theorem counts_writeSummaries (days : List (String × ℕ)) (held : Conserved config run instant) :
    Counts config run thread start pin peers (fun _ _ => True) instant
      (writeSummaries bucket days keys) := by
  induction days generalizing instant keys with
  | nil => exact Secure.pure trivial
  | cons day rest ih =>
      obtain ⟨metric, day⟩ := day
      refine Secure.bind held (counts_writeSummary held metric day) fun _ _ held' written _ => ?_
      cases written with
      | none => exact ih held'
      | some key => exact ih held'

theorem counts_compactBucket (serialRun : SerialRun config run) (settled : Settled config run)
    (begun : start ≤ instant) (past : cutoff ≤ retainFrom config run instant) (closeCutoff : ℕ)
    (held : Conserved config run instant) :
    Counts config run thread start pin peers (fun _ _ => True) instant
      (compactBucket config bucket closeCutoff cutoff) := by
  refine Secure.bind held (counts_op serialRun bucket (.list bucket .all) nofun
    fun _ _ _ _ _ _ _ => trivial) fun listing le held' answer told => ?_
  obtain ⟨-, listed, rfl, from_, -, kept, conserved, performed⟩ := told
  have ⟨_, _, performs, _⟩ := performed
  obtain ⟨text, rfl⟩ | ⟨keys, rfl, same⟩ := performs_list performs
  · exact Secure.pure trivial
  have view : Listed run listed bucket .all keys := listed_of_perm same
  have sees : Sees config run thread pin peers listed (listed + 1) bucket [] :=
    ⟨⟨_, performed⟩, conserved, Nat.lt_succ_self _, kept⟩
  refine Secure.bind held' (counts_freezeShards serialRun settled (begun.trans from_) closeCutoff _
    (frozen_parse view) _ ?_ (fun group member => group_parse view member) sees held' nofun _)
    fun frozen le' held'' progress _ => ?_
  · rw [Layout.parse, List.map_map]
    exact (List.nodup_dedup _).map fun _ _ same => same
  refine Secure.bind held'' (counts_writeSummaries _ held'') fun summed le'' held3 rollups _ => ?_
  dsimp only
  split
  next => exact Secure.pure trivial
  next =>
    have late : cutoff ≤ retainFrom config run summed :=
      past.trans (retainFrom_mono serialRun.trace (le.trans (le'.trans le'')))
    refine Secure.bind held3 (counts_delete serialRun fun now after _ => ?_)
      fun _ _ _ _ _ => Secure.pure trivial
    intro id inside
    -- stale keys are of days before those that count
    have recent : cutoff ≤ id.day := late.trans ((retainFrom_mono serialRun.trace after).trans inside)
    refine ⟨?_, fun owner member => ?_⟩
    · rintro ⟨node, seq, member⟩
      exact absurd (of_decide_eq_true (List.mem_filter.mp member).2) (Nat.not_lt.mpr recent)
    · exact absurd (of_decide_eq_true (List.mem_filter.mp member).2) (Nat.not_lt.mpr recent)

theorem counts_compactBuckets (serialRun : SerialRun config run) (settled : Settled config run)
    (begun : start ≤ instant) (past : cutoff ≤ retainFrom config run instant) (closeCutoff : ℕ)
    (buckets : List β) (mesh : List (β × List (Key β))) (discarded : ℕ)
    (held : Conserved config run instant) :
    Counts config run thread start pin peers (fun _ _ => True) instant
      (compactBuckets config closeCutoff cutoff buckets mesh discarded) := by
  induction buckets generalizing instant mesh discarded with
  | nil => exact Secure.pure trivial
  | cons bucket rest ih =>
      refine Secure.bind held (counts_compactBucket serialRun settled begun past closeCutoff held)
        fun later le held' result _ => ?_
      exact ih (begun.trans le) (past.trans (retainFrom_mono serialRun.trace le)) _ _ held'

variable (config run) in
/-- A rollup that may be copied: complete, and of a day-shard where nothing lands. -/
def Fits (key : Key β) (body : Body) (now : ℕ) : Prop :=
  ∀ id owner, key = .frozen id owner → retainFrom config run now ≤ id.day →
    body.asSegment.buckets = landed config run (On owner id) now ∧ Sealed config run now owner id

theorem Fits.mono (serialRun : SerialRun config run) {key : Key β} {body : Body}
    (fits : Fits config run key body now) (le : now ≤ later) : Fits config run key body later := by
  intro id owner same inside
  obtain ⟨sum, closed⟩ := fits id owner same ((retainFrom_mono serialRun.trace le).trans inside)
  rw [landed_still le closed]
  exact ⟨sum, fun instant after => closed instant (le.trans after)⟩

theorem counts_copyTo (serialRun : SerialRun config run) {key : Key β} {body : Body}
    (dests : List β) (fits : Fits config run key body instant) (held : Conserved config run instant) :
    Counts config run thread start pin peers (fun _ _ => True) instant (copyTo key body dests) := by
  induction dests generalizing instant with
  | nil => exact Secure.pure trivial
  | cons dest rest ih =>
      refine Secure.bind held (Secure.weaken (Secure.perform (CounterOp.put dest key body)
        fun now quiet _ _ _ _ => ?_) fun _ _ _ _ => trivial) fun later le held' answer _ => ?_
      · cases key with
        | seg _ _ _ | summary _ _ _ => trivial
        | frozen id owner => exact fun inside _ => fits.mono serialRun quiet.1 id owner rfl inside
      · exact ih (fits.mono serialRun le) held'

theorem counts_reseedKeys (serialRun : SerialRun config run) (mesh : List (β × List (Key β)))
    (held : Conserved config run instant) :
    Counts config run thread start pin peers (fun _ _ => True) instant (reseedKeys mesh keys) := by
  induction keys generalizing instant with
  | nil => exact Secure.pure trivial
  | cons key rest ih =>
      unfold reseedKeys
      split
      next => exact ih held
      next =>
        split
        next => exact ih held
        next source _ _ =>
          refine Secure.bind held (counts_op serialRun source (.get source key) nofun
            fun _ _ _ _ _ _ _ => trivial) fun later le held' answer told => ?_
          obtain ⟨-, now, rfl, -, -, -, conserved, performed⟩ := told
          have ⟨_, _, performs, _⟩ := performed
          obtain ⟨text, rfl⟩ | rfl := performs_get performs
          · exact ih held'
          cases found : (run now).store.object source key with
          | none => exact ih held'
          | some body =>
              have fits : Fits config run key body now := by
                rintro id owner rfl inside
                exact conserved.rolled source owner id body inside found
              refine Secure.bind held' (counts_copyTo serialRun _
                (fits.mono serialRun (Nat.le_succ now)) held') fun _ _ held'' _ _ => ih held''

theorem counts_compact (serialRun : SerialRun config run) (settled : Settled config run)
    (held : Conserved config run start) :
    Counts config run thread start pin peers (fun _ _ => True) start (compact config pin peers) := by
  refine Secure.bind held (counts_op serialRun pin .nowUtc nofun fun _ _ _ _ _ _ _ => trivial)
    fun begun le held' today told => ?_
  obtain ⟨-, clock, rfl, -, -, -, -, performed⟩ := told
  have ⟨_, _, performs, _⟩ := performed
  obtain rfl : today = todayAt run clock := performs_nowUtc performs
  refine Secure.bind held' (counts_compactBuckets serialRun settled le
    (retainFrom_mono serialRun.trace (Nat.le_succ clock)) _ _ [] 0 held')
    fun compacted _ held'' result _ => ?_
  obtain ⟨mesh, discarded⟩ := result
  have reseeds : Counts config run thread start pin peers (fun _ _ => True) compacted
      (reseedRollups mesh (retainFrom config run clock)) := by
    unfold reseedRollups
    split
    next => exact Secure.pure trivial
    next => exact counts_reseedKeys serialRun mesh held''
  exact Secure.bind held'' reseeds fun _ _ _ _ _ => Secure.pure trivial

/-- The counts are kept in every run that is settled. -/
theorem SerialRun.conserved (serialRun : SerialRun config run) (settled : Settled config run)
    (now : ℕ) : Conserved config run now := by
  refine (serialRun.trace.secure serialRun.idle (Conserved config run)
    (fun thread call start now _ _ => Underway (counters config) run thread call start now)
    (fun _ _ _ now op _ => Faithful config run now op) (fun _ _ _ _ _ => True) ⟨?_, ?_⟩ ?_ ?_ ?_ now).1
  · intro holder bucket id body _ there
    rw [serialRun.bare] at there
    cases there
  · intro bucket id _ _
    have none_ : (run 0).store.keysIn bucket (.openShard id) = [] := by
      refine List.eq_nil_iff_forall_not_mem.mpr fun key member => ?_
      exact (mem_openShard.mp member).1 (serialRun.bare bucket key)
    rw [segmentSum, none_]
    rfl
  · exact fun _ _ _ _ _ answer underway performed => ⟨answer, performed, underway⟩
  · intro now conserved faithful
    refine conserved.succ serialRun fun thread call op answer performed => ?_
    obtain ⟨_, _, _, _, _, kept⟩ := faithful thread call op answer performed
    exact kept
  · intro thread start call conserved _
    cases call with
    | compact pin peers => exact counts_compact serialRun settled conserved
    | flush node pin =>
        refine Secure.weaken (Secure.of_issues (issues_program config (.flush node pin)) ?_)
          fun _ _ _ _ => trivial
        intro now op answer orderly
        cases op with
        | put bucket key body =>
            cases key with
            | seg _ _ _ | summary _ _ _ => trivial
            | frozen _ _ => exact orderly.elim
        | delete _ _ => exact orderly.elim
        | nowUtc | list _ _ | get _ _ | takePending _ | fetchSeq _ => trivial

end Passes
end Pypiron.Counters
