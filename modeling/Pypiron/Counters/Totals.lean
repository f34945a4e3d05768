import Pypiron.Counters.Conservation
import Pypiron.Counters.Immutable

/-! A package's series against the segments that landed. After a complete pass any
bucket has the rollups of all the others, so what it reports of a day is exactly
what landed, wherever it landed. -/
namespace Pypiron.Counters
open Program ThreadPool
variable {β : Type} [DecidableEq β]

section Shards
variable {pkg key : String}

/-- Keys of a package are in the package's shard. -/
theorem shardOf_subKey (sub : subKey pkg key ≠ none) : shardOf key = shardOf pkg := by
  rw [subKey] at sub
  split at sub
  next starts =>
    rw [String.toList_append] at starts
    obtain ⟨rest, same⟩ := starts
    rw [shardOf, shardOf, ← same]
    cases pkg.toList with
    | nil => rfl -- an empty package's keys begin with the slash
    | cons first others => rfl
  next => exact absurd rfl sub

theorem subKey_overflow (pkg : String) : subKey pkg overflowKey = none := by
  refine if_neg fun starts => ?_
  have slash : '/' ∈ (pkg ++ "/").toList := by
    rw [String.toList_append]
    exact List.mem_append_right _ (by decide)
  exact absurd (starts.subset slash) (by decide)

theorem packageTally_eq_zero {id : DayShard} {buckets : BucketMap} (inShard : InShard id buckets)
    (apart : id.shard ≠ shardOf pkg) : packageTally pkg buckets = 0 := by
  refine Multiset.eq_zero_of_forall_notMem fun sub member => ?_
  obtain ⟨key, counted, same⟩ := (Multiset.mem_filterMap _ _).mp member
  obtain ⟨tally, inside, rfl⟩ := Multiset.mem_map.mp counted
  obtain overflow | shard := inShard tally inside
  · rw [overflow, subKey_overflow] at same
    cases same
  · have ofPkg : shardOf tally.2 = shardOf pkg := shardOf_subKey (by rw [same]; simp)
    exact apart (shard.symm.trans ofPkg)

theorem packageTally_mono (pkg : String) {buckets more : BucketMap} (le : buckets ≤ more) :
    packageTally pkg buckets ≤ packageTally pkg more :=
  Multiset.filterMap_le_filterMap _ (Multiset.map_le_map le)

end Shards

section Landed
variable {config : CounterConfig} {run : CountersRun β} {now : ℕ}

/-- The landings of a day-shard, on any bucket. -/
def OfShard (id : DayShard) (landing : Landing β) : Prop := landing.id = id

/-- The landings of a day. -/
def OnDay (metric : String) (day : ℕ) (landing : Landing β) : Prop :=
  landing.id.metric = metric ∧ landing.id.day = day

theorem SerialRun.inShard (serialRun : SerialRun config run) {landing : Landing β}
    (lands : Lands config run now landing) : InShard landing.id landing.body.asSegment.buckets := by
  obtain ⟨_, _, _, performed, -⟩ := lands
  exact (serialRun.mints performed).2

/-- Of what lands on a day, a package's keys land in its shard. -/
theorem SerialRun.landed_shard (serialRun : SerialRun config run) (metric pkg : String) (day now : ℕ) :
    packageTally pkg (landed config run (OfShard ⟨metric, day, shardOf pkg⟩) now) =
      packageTally pkg (landed config run (OnDay metric day) now) := by
  induction now with
  | zero => rfl
  | succ now ih =>
      rw [landed, landed, packageTally_add, packageTally_add, ih]
      congr 1
      by_cases lands : ∃ landing, Lands config run now landing ∧ OnDay metric day landing
      · obtain ⟨landing, lands, onDay⟩ := lands
        rw [arrival_eq lands onDay]
        by_cases shard : landing.id.shard = shardOf pkg
        · obtain ⟨rfl, rfl⟩ := onDay
          have here : OfShard ⟨landing.id.metric, landing.id.day, shardOf pkg⟩ landing := by
            rw [← shard]
            rfl
          rw [arrival_eq lands here]
        · rw [packageTally_eq_zero (serialRun.inShard lands) shard, arrival_zero, packageTally_zero]
          intro landing' lands' here
          rw [lands'.unique lands] at here
          exact shard (congrArg DayShard.shard here)
      · rw [arrival_zero, arrival_zero]
        · exact fun landing lands' onDay => lands ⟨landing, lands', onDay⟩
        · intro landing lands' here
          exact lands ⟨landing, lands', congrArg DayShard.metric here, congrArg DayShard.day here⟩

theorem landed_mono {counts : Landing β → Prop} {later : ℕ} (le : now ≤ later) :
    landed config run counts now ≤ landed config run counts later := by
  induction later, le using Nat.le_induction with
  | base => exact le_rfl
  | succ later _ ih => exact ih.trans (Multiset.le_add_right _ _)

theorem le_landed {counts : Landing β → Prop} {landing : Landing β}
    (lands : Lands config run now landing) (counted : counts landing) :
    landing.body.asSegment.buckets ≤ landed config run counts (now + 1) := by
  rw [landed, arrival_eq lands counted]
  exact Multiset.le_add_left _ _

/-- A sum that only one of its terms adds to. -/
theorem sum_only {tags : List β} {bucket : β} (distinct : tags.Nodup) (member : bucket ∈ tags)
    (buckets : BucketMap) : (tags.map fun tag => if tag = bucket then buckets else 0).sum = buckets := by
  induction tags with
  | nil => cases member
  | cons tag rest ih =>
      obtain ⟨new, distinct⟩ := List.nodup_cons.mp distinct
      rw [List.map_cons, List.sum_cons]
      by_cases same : tag = bucket
      · subst same
        have apart : ∀ other ∈ rest, (if other = tag then buckets else 0) = 0 := by
          intro other inside
          rw [if_neg]
          rintro rfl
          exact new inside
        rw [if_pos rfl, List.map_congr_left apart]
        simp
      · obtain here | inside := List.mem_cons.mp member
        · exact absurd here.symm same
        · rw [if_neg same, Multiset.zero_add, ih distinct inside]

/-- What lands on the buckets together. -/
theorem landed_buckets (tags : List β) (distinct : tags.Nodup) (every : ∀ bucket, bucket ∈ tags)
    (id : DayShard) (now : ℕ) :
    (tags.map fun tag => landed config run (On tag id) now).sum =
      landed config run (OfShard id) now := by
  induction now with
  | zero => simp [landed]
  | succ now ih =>
      simp only [landed]
      rw [List.sum_map_add, ih]
      congr 1
      by_cases lands : ∃ landing, Lands config run now landing ∧ OfShard id landing
      · obtain ⟨landing, lands, rfl⟩ := lands
        have there (tag : β) : arrival config run (On tag landing.id) now =
            if tag = landing.bucket then landing.body.asSegment.buckets else 0 := by
          split
          next here => exact arrival_eq lands ⟨here.symm, rfl⟩
          next apart =>
            refine arrival_zero fun landing' lands' on => apart ?_
            rw [← on.1, lands'.unique lands]
        rw [arrival_eq lands (show OfShard landing.id landing from rfl),
          List.map_congr_left fun tag _ => there tag]
        exact sum_only distinct (every _) _
      · rw [arrival_zero fun landing lands' same => lands ⟨landing, lands', same⟩,
          List.map_congr_left fun tag _ => arrival_zero fun landing lands' on =>
            lands ⟨landing, lands', on.2⟩]
        simp

end Landed

section Queries
variable {config : CounterConfig} {run : CountersRun β} {thread finish now : ℕ}
variable {pin primary : β} {peers others tags : List β}

/-- What is read of a day-shard after a complete pass. -/
theorem CompletePass.shardTotal_eq (complete : CompletePass config run thread pin peers finish)
    (serialRun : SerialRun config run) (settled : Settled config run)
    (reached : ∀ bucket, bucket ∈ pin :: peers) (after : finish < now)
    (idle : ∀ instant, finish < instant → instant < now → ∀ thread', ¬Running run instant thread')
    (distinct : tags.Nodup) (every : ∀ bucket, bucket ∈ tags)
    (visited : ∀ bucket, bucket ∈ primary :: others) {id : DayShard}
    (inside : retainFrom config run now ≤ id.day) :
    shardTotal (run now).store primary tags (primary :: others).reverse.dedup.reverse id =
      landed config run (OfShard id) now := by
  have conserved := serialRun.conserved settled now
  obtain ⟨clock, before, mirrored⟩ := complete.mirrored serialRun
  have still := serialRun.rollups_idle after idle
  have recent : retainFrom config run clock ≤ id.day :=
    (retainFrom_mono serialRun.trace (before.trans after.le)).trans inside
  -- a bucket's rollup is at the primary or nowhere
  have unrolled (bucket : β) (missing : objectAt run now primary (.frozen id bucket) = none) :
      objectAt run now bucket (.frozen id bucket) = none := by
    by_contra there
    rw [still bucket _ rfl] at there
    have copied := mirrored.spread bucket (reached bucket) primary (reached primary) (.frozen id bucket)
      rfl recent there
    rw [← still primary _ rfl] at copied
    exact copied missing
  have each (tag : β) : tallyOf (run now).store primary (.frozen id tag) +
      (if objectAt run now primary (.frozen id tag) = none then segmentSum (run now).store tag id
        else 0) = landed config run (On tag id) now := by
    rw [tallyOf]
    cases held : objectAt run now primary (.frozen id tag) with
    | none =>
        rw [show (run now).store.object primary (.frozen id tag) = none from held, Option.elim_none,
          if_pos rfl, Multiset.zero_add]
        exact conserved.live tag id inside (unrolled tag held)
    | some body =>
        rw [show (run now).store.object primary (.frozen id tag) = some body from held,
          Option.elim_some, if_neg (by simp), Multiset.add_zero]
        exact (conserved.rolled primary tag id body inside held).1
  have buckets : (primary :: others).reverse.dedup.reverse.Perm tags := by
    refine (List.perm_ext_iff_of_nodup (List.nodup_reverse.mpr (List.nodup_dedup _)) distinct).mpr
      fun bucket => ?_
    rw [List.mem_reverse, List.mem_dedup, List.mem_reverse]
    exact iff_of_true (visited bucket) (every bucket)
  have open_ : ((primary :: others).reverse.dedup.reverse.filter fun bucket => bucket ∉ tags ∨
      (run now).store.object primary (.frozen id bucket) = none).Perm
      (tags.filter fun bucket => objectAt run now primary (.frozen id bucket) = none) := by
    refine (buckets.filter _).trans (List.Perm.of_eq (List.filter_congr fun bucket _ => ?_))
    refine decide_eq_decide.mpr (or_iff_right fun outside => outside (every bucket))
  rw [shardTotal, (open_.map _).sum_eq, ← landed_buckets tags distinct every id now,
    ← List.map_congr_left fun tag _ => each tag, List.sum_map_add, List.sum_map_ite]
  simp

/-- In a serial run where nothing lands on a day-shard once the pass that freezes it
has listed its bucket, every bucket reports, after a complete pass, exactly what
landed of each day inside retention. -/
theorem counts_conserved (serialRun : SerialRun config run) (settled : Settled config run)
    (complete : CompletePass config run thread pin peers finish)
    (reached : ∀ bucket, bucket ∈ pin :: peers) (after : finish < now)
    (idle : ∀ instant, finish < instant → instant < now → ∀ thread', ¬Running run instant thread')
    (distinct : tags.Nodup) (every : ∀ bucket, bucket ∈ tags)
    (visited : ∀ bucket, bucket ∈ primary :: others) (metric pkg : String) (first last : ℕ)
    (inside : retainFrom config run now ≤ first) :
    observe (run now).store (queryPackage primary others tags metric pkg first last) =
      .ok (seriesOf (fun day => packageTally pkg (landed config run (OnDay metric day) now))
        (List.range' first (last - first + 1))) := by
  have total (day : ℕ) (from_ : first ≤ day) :
      packageTally pkg (shardTotal (run now).store primary tags
        (primary :: others).reverse.dedup.reverse ⟨metric, day, shardOf pkg⟩) =
      packageTally pkg (landed config run (OnDay metric day) now) := by
    rw [complete.shardTotal_eq serialRun settled reached after idle distinct every visited
      (inside.trans from_), serialRun.landed_shard]
  rw [observe_queryPackage]
  refine congrArg Except.ok (List.filterMap_congr fun day member => ?_)
  obtain ⟨from_, -⟩ := List.mem_range'_1.mp member
  simp only [total day from_]

end Queries
section Samples

/-- A segment that the thread is about to put. -/
def puts (config : Config (CounterStore Bool) (CounterCall Bool) (CounterOp Bool)
    CounterOp.Ans String ℕ) (thread : ℕ) : Option (Key Bool) :=
  match config.threads thread with
  | some (_, .call (.put _ (.seg id node seq) _) _) => some (.seg id node seq)
  | _ => none

theorem puts_of_lands {config : CounterConfig} {run : CountersRun Bool} {instant : ℕ}
    {landing : Landing Bool} (lands : Lands config run instant landing) :
    ∃ thread, puts (run instant) thread = some (.seg landing.id landing.node landing.seq) ∧
      ∃ call op answer, Performed (counters config) run thread instant call op answer := by
  obtain ⟨thread, call, answer, performed, -⟩ := lands
  have ⟨_, task, _⟩ := performed
  exact ⟨thread, by rw [puts, task], call, _, answer, performed⟩

/-- The only download lands before the pass begins. -/
theorem settled_mirroredDay : Settled monthly mirroredDay := by
  intro thread pin peers start listed frozen bucket id body answer answer' _ _ _ listing _ _
    instant after landing lands _
  have silent : ∀ now < 18, 4 ≤ now → ∀ thread < 2, puts (mirroredDay now) thread = none := by
    decide +kernel
  have early : ∀ now < 4, ∀ thread < 2, ¬busy (mirroredDay now) thread := by decide +kernel
  have late : 4 ≤ listed := by
    by_contra before
    have ⟨_, task, _⟩ := listing
    obtain ⟨less, atWork⟩ := busy_replay few_firstMoves ⟨pin, peers, _, _, task⟩
    exact early listed (Nat.not_le.mp before) thread less atWork
  obtain ⟨thread', putting, call, op, answer, performed⟩ := puts_of_lands lands
  obtain ⟨server, next⟩ := performed.of_replay
  have inside : instant < 18 := (List.getElem?_eq_some_iff.mp next).1
  have ⟨_, task, _⟩ := performed
  have less : thread' < 2 :=
    replay_started (P := fun thread _ => thread < 2) (fun _ => rfl) few_firstMoves instant thread' _ _ task
  rw [silent instant inside (late.trans after) thread' less] at putting
  cases putting

example : observe (mirroredDay 4).store
    (queryPackage true [false] [false, true] "downloads" "six" 3 3) = .ok [(3, {"1.0"})] := by
  decide +kernel

/-- The second bucket reports the download that landed on the first. -/
theorem mirroredDay_conserved :
    observe (mirroredDay 18).store
        (queryPackage true [false] [false, true] "downloads" "six" 3 3) = .ok [(3, {"1.0"})] ∧
    observe (mirroredDay 18).store
        (queryPackage true [false] [false, true] "downloads" "six" 3 3) =
      .ok (seriesOf (fun day => packageTally "six" (landed monthly mirroredDay (OnDay "downloads" day) 18))
        (List.range' 3 (3 - 3 + 1))) := by
  refine ⟨rfl, counts_conserved serialRun_mirroredDay settled_mirroredDay completePass_mirroredDay
    (by decide) (by decide) ?_ (by decide) (by decide) (by decide) "downloads" "six" 3 3 (by decide)⟩
  intro instant after before
  omega

theorem sixDay_sharded : Sharded [(sixDay, {("00", "six/1.0")})] := by decide

/-- A second download lands while the pass is between its listing and its rollup. -/
def crossingMoves : List (Move (@counters Bool _ monthly)) :=
  firstFlush ++
  [.start 1 (.compact false [true]), answering monthly 1, answering monthly 1] ++
  [.start 2 (.flush 1 false), taking monthly 2 [(sixDay, {("00", "six/1.0")})] sixDay_sharded,
    answering monthly 2, answering monthly 2] ++
  List.replicate 11 (answering monthly 1)

def crossingDay : CountersRun Bool := replay ⟨emptyBuckets, fun _ => none⟩ crossingMoves

theorem few_crossingMoves (thread : ℕ) (call : CounterCall Bool)
    (member : .start thread call ∈ crossingMoves) : thread < 3 := by
  simp only [crossingMoves, firstFlush, taking, answering, List.mem_append, List.mem_cons,
    List.mem_replicate, List.not_mem_nil] at member
  simp at member
  omega

theorem serialRun_crossingDay : SerialRun monthly crossingDay :=
  serialRun_replay few_crossingMoves (by decide +kernel)

theorem completePass_crossingDay : CompletePass monthly crossingDay 1 false [true] 21 where
  running := ⟨false, [true], _, _, rfl⟩
  finished := ⟨0, rfl⟩
  answered start instant op answer _ _ performed := by
    have ⟨server, next⟩ := performed.of_replay
    have ⟨_, task, _⟩ := performed
    have moved := List.mem_of_getElem? next
    simp only [crossingMoves, firstFlush, taking, answering, List.mem_append, List.mem_cons,
      List.mem_replicate, List.not_mem_nil] at moved
    simp at moved
    obtain rfl := moved
    exact ⟨_, performed_replay next task, (serveAll_sound _ _).2⟩

/-- No bucket has a rollup of the day of the segment the thread is about to put. -/
def putsUnrolled (config : Config (CounterStore Bool) (CounterCall Bool) (CounterOp Bool)
    CounterOp.Ans String ℕ) (thread : ℕ) : Bool :=
  match puts config thread with
  | some key => ∀ holder, ∀ key' ∈ (config.store.objects holder).keys, key'.isRollup → key'.day ≠ key.day
  | none => true

theorem unrolled_crossingDay (instant : ℕ) (landing : Landing Bool)
    (lands : Lands monthly crossingDay instant landing) (holder owner : Bool) (id : DayShard)
    (day : id.day = landing.id.day) : objectAt crossingDay instant holder (.frozen id owner) = none := by
  have clear : ∀ now < 22, ∀ thread < 3, putsUnrolled (crossingDay now) thread := by decide +kernel
  obtain ⟨thread, putting, call, op, answer, performed⟩ := puts_of_lands lands
  obtain ⟨server, next⟩ := performed.of_replay
  have inside : instant < 22 := (List.getElem?_eq_some_iff.mp next).1
  have ⟨_, task, _⟩ := performed
  have less : thread < 3 :=
    replay_started (P := fun thread _ => thread < 3) (fun _ => rfl) few_crossingMoves instant thread _ _ task
  have checked := clear instant inside thread less
  rw [putsUnrolled, putting] at checked
  by_contra there
  have member : .frozen id owner ∈ ((crossingDay instant).store.objects holder).keys := by
    rw [objectAt, CounterStore.object, AList.lookup_eq_none, not_not] at there
    exact there
  exact of_decide_eq_true checked holder _ member rfl day

theorem lands_crossingDay : Lands monthly crossingDay 3 ⟨false, sixDay, 1, 0, oneDownload⟩ ∧
    Lands monthly crossingDay 10 ⟨false, sixDay, 1, 1, oneDownload⟩ := by
  have first : crossingMoves[3]? = some (answering monthly 0) := rfl
  have second : crossingMoves[10]? = some (answering monthly 2) := rfl
  exact ⟨⟨0, .flush 1 false, .ok (), performed_replay first rfl, rfl⟩,
    2, .flush 1 false, .ok (), performed_replay second rfl, rfl⟩

/-- Both downloads land, yet only the first is reported once the pass is over. -/
theorem crossingDay_loses : SerialRun monthly crossingDay ∧
    (∀ instant landing, Lands monthly crossingDay instant landing → ∀ holder owner id,
      id.day = landing.id.day → objectAt crossingDay instant holder (.frozen id owner) = none) ∧
    CompletePass monthly crossingDay 1 false [true] 21 ∧ retainFrom monthly crossingDay 22 ≤ 3 ∧
    observe (crossingDay 22).store
        (queryPackage false [true] [false, true] "downloads" "six" 3 3) ≠
      .ok (seriesOf (fun day => packageTally "six" (landed monthly crossingDay (OnDay "downloads" day) 22))
        (List.range' 3 (3 - 3 + 1))) := by
  refine ⟨serialRun_crossingDay, unrolled_crossingDay, completePass_crossingDay, by decide, ?_⟩
  obtain ⟨first, second⟩ := lands_crossingDay
  have counted : (packageTally "six" (oneDownload.asSegment.buckets + oneDownload.asSegment.buckets)).card ≤
      (packageTally "six" (landed monthly crossingDay (OnDay "downloads" 3) 22)).card := by
    refine Multiset.card_le_card (packageTally_mono "six" ?_)
    calc oneDownload.asSegment.buckets + oneDownload.asSegment.buckets
        ≤ landed monthly crossingDay (OnDay "downloads" 3) 4 + oneDownload.asSegment.buckets := by
          gcongr
          exact le_landed first ⟨rfl, rfl⟩
      _ ≤ landed monthly crossingDay (OnDay "downloads" 3) 10 +
            arrival monthly crossingDay (OnDay "downloads" 3) 10 := by
          rw [arrival_eq second ⟨rfl, rfl⟩]
          gcongr
          exact landed_mono (by decide)
      _ ≤ landed monthly crossingDay (OnDay "downloads" 3) 22 := landed_mono (show 11 ≤ 22 by decide)
  have reported : observe (crossingDay 22).store
    (queryPackage false [true] [false, true] "downloads" "six" 3 3) = .ok [(3, {"1.0"})] := rfl
  rw [reported]
  intro same
  have series := Except.ok.inj same
  rw [show List.range' 3 (3 - 3 + 1) = [3] from rfl, seriesOf_cons] at series
  split at series
  next => cases series
  next =>
    have tally := congrArg (fun entry => entry.2.card) (List.cons.inj series).1
    rw [← tally] at counted
    exact absurd counted (by decide)

end Samples
end Pypiron.Counters
