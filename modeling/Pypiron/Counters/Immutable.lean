import Pypiron.Counters.Query
import Pypiron.Counters.Reseed

/-! Rollups across buckets. A bucket writes its own rollups and summaries and a
pass copies them to the others, which is sound as long as a bucket never writes
one again once another bucket holds it. -/
namespace Pypiron.Counters
open Program ThreadPool
variable {β : Type} [DecidableEq β]

/-- The bucket a rollup was summed from. -/
def Key.author : Key β → Option β
  | seg _ _ _ => none
  | frozen _ bucket => some bucket
  | summary _ _ bucket => some bucket

omit [DecidableEq β] in
theorem isRollup_of_author {key : Key β} (written : key.author = some bucket) : key.isRollup := by
  cases key with
  | seg _ _ _ => cases written
  | frozen _ _ | summary _ _ _ => rfl

section Rules
variable (config : CounterConfig) (run : CountersRun β) (cutoff now : ℕ)

/-- What any bucket holds of a kept day, its author holds. -/
def Anchored : Prop :=
  ∀ holder author key, key.author = some author → cutoff ≤ key.day →
    objectAt run now holder key ≠ none → objectAt run now author key ≠ none

/-- Buckets that hold one rollup hold the same bytes. -/
structure Agreed : Prop where
  copies : ∀ bucket bucket' key body body', key.isRollup → objectAt run now bucket key = some body →
    objectAt run now bucket' key = some body' → body = body'
  anchored : Anchored run (retainFrom config run now) now

/-- What keeps the buckets agreed: a rollup is written as every other holder has
it, by its author or after it, and only pruned days are deleted. -/
def Tidy : CounterOp β → Prop
  | .put dest key body => key.isRollup →
      (∀ bucket body', bucket ≠ dest → objectAt run now bucket key = some body' → body' = body) ∧
      ∀ author, key.author = some author → cutoff ≤ key.day →
        author = dest ∨ objectAt run now author key ≠ none
  | .delete _ keys => ∀ key ∈ keys, key.isRollup → key.day < cutoff
  | _ => True

end Rules

/-- Each time a bucket's day-shard is frozen, its day is inside retention and no
other bucket holds the bucket's summary of the day. -/
def Unmirrored (config : CounterConfig) (run : CountersRun β) : Prop :=
  ∀ now thread pin peers bucket id body answer,
    Performed (counters config) run thread now (.compact pin peers)
      (.put bucket (.frozen id bucket) body) answer →
    retainFrom config run now ≤ id.day ∧
    ∀ other, other ≠ bucket → objectAt run now other (.summary id.metric id.day bucket) = none

section Steps
variable {config : CounterConfig} {run : CountersRun β} {cutoff now : ℕ} {call : CounterCall β}

theorem Anchored.performed (anchored : Anchored run cutoff now)
    (performed : Performed (counters config) run thread now call op answer)
    (tidy : Tidy run cutoff now op) : Anchored run cutoff (now + 1) := by
  intro holder author key written recent there
  obtain same | ⟨dest, key', body, rfl, wrote⟩ | ⟨bucket, keys, gone, inside, rfl, left⟩ :=
    objects_performed performed
  · rw [same] at there ⊢
    exact anchored holder author key written recent there
  · rw [wrote] at there ⊢
    have stays (there : objectAt run now author key ≠ none) :
        (if author = dest ∧ key = key' then some body else objectAt run now author key) ≠ none := by
      split
      · simp
      · exact there
    split at there
    next here =>
      obtain ⟨rfl, rfl⟩ := here
      obtain rfl | there := (tidy (isRollup_of_author written)).2 author written recent
      · rw [if_pos ⟨rfl, rfl⟩]
        simp
      · exact stays there
    next => exact stays (anchored holder author key written recent there)
  · rw [left] at there ⊢
    rw [if_neg]
    · split at there
      next => exact absurd rfl there
      next => exact anchored holder author key written recent there
    · rintro ⟨-, member⟩
      exact absurd (tidy key (inside member) (isRollup_of_author written)) (Nat.not_lt.mpr recent)

theorem Agreed.copies_performed (agreed : Agreed config run now)
    (performed : Performed (counters config) run thread now call op answer)
    (tidy : Tidy run cutoff now op) (bucket bucket' : β) (key : Key β) (body body' : Body)
    (rollup : key.isRollup) (held : objectAt run (now + 1) bucket key = some body)
    (held' : objectAt run (now + 1) bucket' key = some body') : body = body' := by
  obtain same | ⟨dest, key', written, rfl, wrote⟩ | ⟨_, keys, gone, inside, rfl, left⟩ :=
    objects_performed performed
  · rw [same] at held held'
    exact agreed.copies bucket bucket' key body body' rollup held held'
  · by_cases same : key = key'
    · subst same
      -- every other holder already has what is written
      have alike (bucket : β) (body : Body) (held : objectAt run (now + 1) bucket key = some body) :
          body = written := by
        rw [wrote] at held
        split at held
        next => exact (Option.some.inj held).symm
        next apart => exact (tidy rollup).1 bucket body (fun here => apart ⟨here, rfl⟩) held
      rw [alike bucket body held, alike bucket' body' held']
    · rw [wrote, if_neg fun here => same here.2] at held held'
      exact agreed.copies bucket bucket' key body body' rollup held held'
  · rw [left] at held held'
    split at held
    next => cases held
    next =>
      split at held'
      next => cases held'
      next => exact agreed.copies bucket bucket' key body body' rollup held held'

theorem Tidy.mono (tidy : Tidy run cutoff now op) (le : cutoff ≤ cutoff') :
    Tidy run cutoff' now op := by
  cases op with
  | put dest key body =>
      intro rollup
      refine ⟨(tidy rollup).1, fun author written recent => ?_⟩
      exact (tidy rollup).2 author written (le.trans recent)
  | delete bucket keys => exact fun key member rollup => (tidy key member rollup).trans_le le
  | nowUtc | list _ _ | get _ _ | takePending _ | fetchSeq _ => trivial

/-- Tidy operations keep the buckets agreed. -/
theorem Agreed.succ (trace : Trace (counters config) run) (agreed : Agreed config run now)
    (tidy : ∀ thread call op answer, Performed (counters config) run thread now call op answer →
      Tidy run (retainFrom config run now) now op) : Agreed config run (now + 1) := by
  have le := retainFrom_mono trace (Nat.le_succ now)
  have raise (anchored : Anchored run (retainFrom config run now) (now + 1)) :
      Anchored run (retainFrom config run (now + 1)) (now + 1) :=
    fun holder author key written recent => anchored holder author key written (le.trans recent)
  have still (same : ∀ bucket key, objectAt run (now + 1) bucket key = objectAt run now bucket key) :
      Agreed config run (now + 1) := by
    refine ⟨?_, raise ?_⟩
    · simpa only [same] using agreed.copies
    · simpa only [Anchored, same] using agreed.anchored
  have steps (thread : ℕ) (call : CounterCall β) (op : CounterOp β) (answer : op.Ans)
      (performed : Performed (counters config) run thread now call op answer) :
      Agreed config run (now + 1) :=
    ⟨agreed.copies_performed performed (tidy _ _ _ _ performed),
      raise (agreed.anchored.performed performed (tidy _ _ _ _ performed))⟩
  obtain ⟨-, same | ⟨thread, call, _, _, _, answer, performed, -⟩ |
    ⟨thread, call, _, _, answer, _, -, performed, -, -⟩⟩ := objects_step trace now
  · exact still same
  · exact steps thread call _ answer performed
  · exact steps thread call _ answer performed

end Steps

section Passes
variable {config : CounterConfig} {run : CountersRun β} {thread cutoff instant now later since : ℕ}
variable {pin bucket : β} {peers : List β} {keys : List (Key β)} {id : DayShard}

/-- The other buckets' rollups are as they were. -/
def Foreign (run : CountersRun β) (since : ℕ) (bucket : β) (now : ℕ) : Prop :=
  ∀ other key, other ≠ bucket → key.isRollup → objectAt run now other key = objectAt run since other key

/-- The operation writes to no other bucket. -/
def Local (bucket : β) : CounterOp β → Prop
  | .put dest _ _ => dest = bucket
  | .delete dest _ => dest = bucket
  | _ => True

variable (config run thread pin peers cutoff)

/-- Programs of a pass that has read its clock. -/
abbrev Tends {α : Type} (post : ℕ → α → Prop) (instant : ℕ) (program : CounterM β α) : Prop :=
  Secure (counters config) run (fun now => Agreed config run now ∧ Anchored run cutoff now)
    (fun _ _ _ => True) (fun now op _ => Tidy run cutoff now op) thread (.compact pin peers) post
    instant program

variable (since bucket)

/-- Programs of a pass at work on one bucket. -/
abbrev Compacts {α : Type} (post : ℕ → α → Prop) (instant : ℕ) (program : CounterM β α) : Prop :=
  Secure (counters config) run
    (fun now => (Agreed config run now ∧ Anchored run cutoff now) ∧ Foreign run since bucket now)
    (fun _ _ _ => True) (fun now op _ => Tidy run cutoff now op ∧ Local bucket op) thread
    (.compact pin peers) post instant program

variable {config run thread pin peers cutoff since bucket}

/-- No other bucket held the bucket's summary of the day. -/
def Clear (run : CountersRun β) (since : ℕ) (bucket : β) (day : String × ℕ) : Prop :=
  ∀ other, other ≠ bucket → objectAt run since other (.summary day.1 day.2 bucket) = none

theorem compacts_get (serialRun : SerialRun config run) (key : Key β) :
    Compacts config run thread cutoff since pin bucket peers
      (fun later _ => Unmoved run instant later) instant (get bucket key) :=
  Secure.weaken (serialRun.secure_read (.get bucket key) nofun nofun fun _ _ => ⟨trivial, trivial⟩)
    fun _ _ _ told => told.1

theorem compacts_sumSegments (serialRun : SerialRun config run)
    (held : (Agreed config run instant ∧ Anchored run cutoff instant) ∧ Foreign run since bucket instant)
    (acc : BucketMap) :
    Compacts config run thread cutoff since pin bucket peers
      (fun later _ => Unmoved run instant later) instant (sumSegments bucket keys acc) := by
  induction keys generalizing instant acc with
  | nil => exact Secure.pure fun _ _ _ => rfl
  | cons key rest ih =>
      refine Secure.bind held (compacts_get serialRun key) fun middle _ held' answer same => ?_
      split
      next => exact Secure.weaken (ih held' _) fun _ _ _ same' => same.trans same'
      next => exact Secure.weaken (ih held' _) fun _ _ _ same' => same.trans same'
      next => exact Secure.pure same

/-- Deleting segments leaves the rollups alone. -/
theorem compacts_sweep (serialRun : SerialRun config run) (segments : ∀ key ∈ keys, ¬key.isRollup) :
    Compacts config run thread cutoff since pin bucket peers
      (fun later _ => Unmoved run instant later) instant (delete bucket keys) := by
  refine Secure.weaken (serialRun.secure_delete fun _ _ _ _ _ =>
    ⟨fun key member rollup => absurd rollup (segments key member), rfl⟩) fun _ _ _ told => ?_
  obtain ⟨⟨gone, inside, -, erases⟩, -⟩ := told
  exact erases.unmoved fun key member => segments key (inside member)

variable (config run cutoff since bucket) in
/-- What holds while a pass works on one bucket. -/
abbrev Working (now : ℕ) : Prop :=
  (Agreed config run now ∧ Anchored run cutoff now) ∧ Foreign run since bucket now

/-- What freezing one day-shard may add to the bucket. -/
def Adds (run : CountersRun β) (now later : ℕ) (bucket : β) (id : DayShard) : Prop :=
  ∀ key, key.isRollup → objectAt run later bucket key ≠ none →
    objectAt run now bucket key ≠ none ∨ key = .frozen id bucket

theorem Unmoved.adds (same : Unmoved run now later) (bucket : β) (id : DayShard) :
    Adds run now later bucket id := by
  intro key rollup there
  rw [same bucket key rollup] at there
  exact .inl there

theorem compacts_freezeShard (serialRun : SerialRun config run) (unmirrored : Unmirrored config run)
    (past : cutoff ≤ retainFrom config run now) {segKeys : List (Key β)}
    (segments : ∀ key ∈ segKeys, ¬key.isRollup) (held : Working config run cutoff since bucket now)
    (vacant : objectAt run now bucket (.frozen id bucket) = none) (progress : Progress β) :
    Compacts config run thread cutoff since pin bucket peers (fun later (result : Progress β) =>
      Adds run now later bucket id ∧
      ∀ day ∈ result.toSummarize, day ∈ progress.toSummarize ∨ Clear run since bucket day) now
      (freezeShard config bucket id segKeys progress) := by
  have idle (later : ℕ) (same : Unmoved run now later) :
      Adds run now later bucket id ∧ ∀ day ∈ progress.toSummarize,
        day ∈ progress.toSummarize ∨ Clear run since bucket day :=
    ⟨same.adds bucket id, fun day member => .inl member⟩
  refine Secure.bind held (compacts_sumSegments serialRun held 0) fun summed le held' sum same => ?_
  cases sum with
  | none => exact Secure.pure (idle summed same)
  | some buckets =>
      refine Secure.bind held' (serialRun.secure_put (.frozen id bucket)
        (.segment ⟨config.resolutionSecs, buckets⟩) ?_) fun frozen le' held'' answer told => ?_
      · intro instant answer from_ unmoved working performed
        obtain ⟨recent, -⟩ := unmirrored _ _ _ _ _ _ _ _ performed
        refine ⟨fun rollup => ⟨fun other body' apart there => ?_, fun author written _ => ?_⟩, rfl⟩
        · have old : cutoff ≤ id.day := (past.trans (retainFrom_mono serialRun.trace
            (le.trans from_))).trans recent
          have mine := working.1.2 other bucket (.frozen id bucket) rfl old (by rw [there]; simp)
          rw [unmoved bucket _ rollup, same bucket _ rollup, vacant] at mine
          exact absurd rfl mine
        · exact .inl (Option.some.inj written).symm
      · obtain ⟨effect, at_, rfl, from_, working, performed, -⟩ := told
        have clear : Clear run since bucket id.ofDay := by
          intro other apart
          rw [← working.2 other _ apart rfl]
          exact (unmirrored _ _ _ _ _ _ _ _ performed).2 other apart
        have adds : Adds run now (at_ + 1) bucket id := by
          intro key rollup there
          obtain ⟨unmoved, -⟩ | writes := effect
          · exact (same.trans unmoved).adds bucket id key rollup there
          · rw [writes bucket key rollup] at there
            split at there
            next here => exact .inr here.2
            next => exact .inl (by rwa [same bucket key rollup] at there)
        cases answer with
        | error text => exact Secure.pure ⟨adds, fun day member => .inl member⟩
        | ok =>
            refine Secure.bind held'' (compacts_sweep serialRun segments) fun swept _ _ _ same' => ?_
            refine Secure.pure ⟨fun key rollup there => ?_, fun day member => ?_⟩
            · rw [same' bucket key rollup] at there
              exact adds key rollup there
            · obtain rfl | old := List.mem_insert_iff.mp member
              · exact .inr clear
              · exact .inl old

theorem compacts_sweepShard (serialRun : SerialRun config run) {segKeys : List (Key β)}
    (segments : ∀ key ∈ segKeys, ¬key.isRollup) (held : Working config run cutoff since bucket now)
    (progress : Progress β) :
    Compacts config run thread cutoff since pin bucket peers (fun later (result : Progress β) =>
      Unmoved run now later ∧ result.toSummarize = progress.toSummarize) now
      (sweepShard bucket segKeys progress) := by
  refine Secure.bind held (compacts_sweep serialRun segments) fun later _ _ answer same => ?_
  cases answer with
  | ok => exact Secure.pure ⟨same, rfl⟩
  | error text => exact Secure.pure ⟨same, rfl⟩

theorem compacts_freezeShards (serialRun : SerialRun config run) (unmirrored : Unmirrored config run)
    (past : cutoff ≤ retainFrom config run now) (closeCutoff : ℕ) (frozen : List DayShard)
    (groups : List (DayShard × List (Key β))) (distinct : (groups.map (·.1)).Nodup)
    (segments : ∀ group ∈ groups, ∀ key ∈ group.2, ¬key.isRollup)
    (held : Working config run cutoff since bucket now)
    (vacant : ∀ group ∈ groups, group.1 ∉ frozen →
      objectAt run now bucket (.frozen group.1 bucket) = none)
    (progress : Progress β) (clear : ∀ day ∈ progress.toSummarize, Clear run since bucket day) :
    Compacts config run thread cutoff since pin bucket peers (fun _ (result : Progress β) =>
      ∀ day ∈ result.toSummarize, Clear run since bucket day) now
      (freezeShards config bucket closeCutoff frozen groups progress) := by
  induction groups generalizing now progress with
  | nil => exact Secure.pure clear
  | cons group rest ih =>
      obtain ⟨id, segKeys⟩ := group
      obtain ⟨new, distinct⟩ := List.nodup_cons.mp distinct
      have mine := segments _ List.mem_cons_self
      have others : ∀ group ∈ rest, ∀ key ∈ group.2, ¬key.isRollup := fun group member =>
        segments group (List.mem_cons_of_mem _ member)
      have onward (later : ℕ) (le : now ≤ later) (held : Working config run cutoff since bucket later)
          (adds : Adds run now later bucket id) (result : Progress β)
          (clear : ∀ day ∈ result.toSummarize, Clear run since bucket day) :
          Compacts config run thread cutoff since pin bucket peers (fun _ (result : Progress β) =>
            ∀ day ∈ result.toSummarize, Clear run since bucket day) later
            (freezeShards config bucket closeCutoff frozen rest result) := by
        refine ih (past.trans (retainFrom_mono serialRun.trace le)) distinct others held ?_ result clear
        intro group member absent
        by_contra there
        obtain before | same := adds _ rfl there
        · exact before (vacant group (List.mem_cons_of_mem _ member) absent)
        · cases same
          exact new (List.mem_map.mpr ⟨group, member, rfl⟩)
      unfold freezeShards
      dsimp only
      split
      next => exact onward now le_rfl held (fun key _ there => .inl there) progress clear
      next =>
        split
        next =>
          refine Secure.bind held (compacts_sweepShard serialRun mine held progress)
            fun later le held' result told => ?_
          exact onward later le held' (told.1.adds bucket id) result (told.2 ▸ clear)
        next absent =>
          refine Secure.bind held (compacts_freezeShard serialRun unmirrored past mine held
            (vacant _ List.mem_cons_self absent) progress) fun later le held' result told => ?_
          refine onward later le held' told.1 result fun day member => ?_
          exact (told.2 day member).elim (clear day) fun clear => clear

theorem compacts_foldRollups (serialRun : SerialRun config run)
    (held : Working config run cutoff since bucket instant) (totals : Multiset String) :
    Compacts config run thread cutoff since pin bucket peers (fun _ _ => True) instant
      (foldRollups bucket keys totals) := by
  induction keys generalizing instant totals with
  | nil => exact Secure.pure trivial
  | cons key rest ih =>
      cases key with
      | seg _ _ _ | summary _ _ _ => exact ih held totals
      | frozen id owner =>
          unfold foldRollups
          split
          next => exact ih held totals
          next =>
            refine Secure.bind held (compacts_get serialRun (.frozen id owner)) fun _ _ held' answer _ => ?_
            split
            next => exact ih held' _
            next => exact Secure.pure trivial

/-- A summary is written where no other bucket has one. -/
theorem compacts_writeSummary (serialRun : SerialRun config run)
    (held : Working config run cutoff since bucket instant) {metric : String} {day : ℕ}
    (clear : Clear run since bucket (metric, day)) :
    Compacts config run thread cutoff since pin bucket peers (fun _ _ => True) instant
      (writeSummary bucket metric day) := by
  refine Secure.bind held (Secure.weaken (serialRun.secure_read (.list bucket (.day metric day))
    nofun nofun fun _ _ => ⟨trivial, trivial⟩) fun _ _ _ _ => trivial) fun _ _ held' answer _ => ?_
  split
  next => exact Secure.pure trivial
  next =>
    refine Secure.bind held' (compacts_foldRollups serialRun held' 0) fun _ _ held'' folded _ => ?_
    cases folded with
    | none => exact Secure.pure trivial
    | some totals =>
        refine Secure.bind held'' (Secure.weaken (serialRun.secure_put (.summary metric day bucket)
          (.summary (rankSummary totals)) ?_) fun _ _ _ _ => trivial) fun _ _ _ answer _ => ?_
        · intro now answer _ _ working _
          refine ⟨fun rollup => ⟨fun other body' apart there => ?_, fun author written _ => ?_⟩, rfl⟩
          · rw [working.2 other _ apart rollup, clear other apart] at there
            cases there
          · exact .inl (Option.some.inj written).symm
        · cases answer with
          | ok => exact Secure.pure trivial
          | error text => exact Secure.pure trivial

theorem compacts_writeSummaries (serialRun : SerialRun config run) (days : List (String × ℕ))
    (clear : ∀ day ∈ days, Clear run since bucket day)
    (held : Working config run cutoff since bucket instant) :
    Compacts config run thread cutoff since pin bucket peers (fun _ _ => True) instant
      (writeSummaries bucket days keys) := by
  induction days generalizing instant keys with
  | nil => exact Secure.pure trivial
  | cons day rest ih =>
      obtain ⟨metric, day⟩ := day
      have others : ∀ day ∈ rest, Clear run since bucket day := fun day member =>
        clear day (List.mem_cons_of_mem _ member)
      refine Secure.bind held (compacts_writeSummary serialRun held (clear _ List.mem_cons_self))
        fun _ _ held' written _ => ?_
      cases written with
      | none => exact ih others held'
      | some key => exact ih others held'

theorem compacts_compactBucket (serialRun : SerialRun config run) (unmirrored : Unmirrored config run)
    (past : cutoff ≤ retainFrom config run instant) (closeCutoff : ℕ)
    (held : Working config run cutoff instant bucket instant) :
    Compacts config run thread cutoff instant pin bucket peers (fun _ _ => True) instant
      (compactBucket config bucket closeCutoff cutoff) := by
  refine Secure.bind held (serialRun.secure_read (.list bucket .all) (by simp) (by simp)
    fun _ _ => ⟨trivial, trivial⟩) fun listed le held' answer told => ?_
  obtain ⟨unmoved, at_, rfl, quiet, working, performed, -⟩ := told
  obtain ⟨next, task, performs, -⟩ := performed
  obtain ⟨text, rfl⟩ | ⟨keys, rfl, same⟩ := performs_list performs
  · exact Secure.pure trivial
  have present (key : Key β) (rollup : key.isRollup) :
      key ∈ keys ↔ objectAt run instant bucket key ≠ none := by
    rw [same.mem_iff, mem_keysIn,
      ← serialRun.rollups_quiet quiet ⟨pin, peers, _, next, task⟩ bucket rollup]
    exact and_iff_left rfl
  refine Secure.bind held' (compacts_freezeShards serialRun unmirrored
    (past.trans (retainFrom_mono serialRun.trace le)) closeCutoff _ _ ?_ ?_ held' ?_ _ (by simp))
    fun frozen le' held'' progress clear => ?_
  · rw [Layout.parse, List.map_map]
    exact (List.nodup_dedup _).map fun _ _ same => same
  · intro group member key inside
    obtain ⟨id, -, rfl⟩ := List.mem_map.mp member
    have segment : key.segmentOf = some id := by simpa using (List.mem_filter.mp inside).2
    cases key with
    | seg _ _ _ => simp [Key.isRollup]
    | frozen _ _ | summary _ _ _ => cases segment
  · intro group _ absent
    rw [unmoved bucket _ rfl]
    by_contra there
    refine absent (List.mem_filterMap.mpr ⟨_, (present _ rfl).mpr there, ?_⟩)
    simp
  refine Secure.bind held'' (compacts_writeSummaries serialRun _ (fun day member => ?_) held'')
    fun summed le'' held3 rollups _ => ?_
  · obtain member | ⟨id, missing, rfl⟩ := mem_foldl_insert_ofDay.mp (List.mem_filter.mp member).1
    · exact clear day member
    · -- frozen before, but the bucket has no summary, so nobody has
      obtain ⟨recent, unsummarized⟩ := of_decide_eq_true (List.mem_filter.mp missing).2
      intro other apart
      by_contra there
      have mine := held.1.2 other bucket (.summary id.metric id.day bucket) rfl recent there
      refine unsummarized (List.mem_filterMap.mpr ⟨_, (present _ rfl).mpr mine, ?_⟩)
      simp [DayShard.ofDay]
  dsimp only
  split
  next => exact Secure.pure trivial
  next =>
    refine Secure.bind held3 (Secure.weaken (serialRun.secure_delete ?_) fun _ _ _ _ => trivial)
      fun _ _ _ _ _ => Secure.pure trivial
    intro now answer _ _ _
    exact ⟨fun key member _ => of_decide_eq_true (List.mem_filter.mp member).2, rfl⟩

theorem tends_compactBucket (serialRun : SerialRun config run) (unmirrored : Unmirrored config run)
    (past : cutoff ≤ retainFrom config run instant) (closeCutoff : ℕ)
    (held : Agreed config run instant ∧ Anchored run cutoff instant) :
    Tends config run thread cutoff pin peers (fun _ _ => True) instant
      (compactBucket config bucket closeCutoff cutoff) := by
  have start : Foreign run instant bucket instant := fun _ _ _ _ => rfl
  refine Secure.weaken (Secure.localize start ?_ ?_ (fun now op answer _ kept => kept.1)
    (compacts_compactBucket serialRun unmirrored past closeCutoff ⟨held, start⟩))
    fun _ _ _ _ => trivial
  · intro first last op next quiet task foreign other key apart rollup
    rw [serialRun.rollups_quiet quiet ⟨pin, peers, op, next, task⟩ other rollup]
    exact foreign other key apart rollup
  · intro now op answer _ _ foreign performed kept other key apart rollup
    rw [← foreign other key apart rollup]
    obtain same | ⟨dest, key', body, rfl, wrote⟩ | ⟨dest, keys, gone, -, rfl, left⟩ :=
      objects_performed performed
    · exact same other key
    · obtain rfl : dest = bucket := kept.2
      rw [wrote, if_neg fun here => apart here.1]
    · obtain rfl : dest = bucket := kept.2
      rw [left, if_neg fun here => apart here.1]

theorem tends_compactBuckets (serialRun : SerialRun config run) (unmirrored : Unmirrored config run)
    (past : cutoff ≤ retainFrom config run instant) (closeCutoff : ℕ) (buckets : List β)
    (mesh : List (β × List (Key β))) (discarded : ℕ)
    (held : Agreed config run instant ∧ Anchored run cutoff instant) :
    Tends config run thread cutoff pin peers (fun _ _ => True) instant
      (compactBuckets config closeCutoff cutoff buckets mesh discarded) := by
  induction buckets generalizing instant mesh discarded with
  | nil => exact Secure.pure trivial
  | cons bucket rest ih =>
      refine Secure.bind held (tends_compactBucket serialRun unmirrored past closeCutoff held)
        fun later le held' result _ => ?_
      exact ih (past.trans (retainFrom_mono serialRun.trace le)) _ _ held'

variable (run cutoff) in
/-- Every holder of the key has the same bytes, its author among them. -/
def Uniform (key : Key β) (body : Body) (now : ℕ) : Prop :=
  (∀ bucket body', objectAt run now bucket key = some body' → body' = body) ∧
  ∀ author, key.author = some author → cutoff ≤ key.day → objectAt run now author key ≠ none

theorem tends_copyTo (serialRun : SerialRun config run) {key : Key β} {body : Body} (dests : List β)
    (uniform : key.isRollup → Uniform run cutoff key body instant)
    (held : Agreed config run instant ∧ Anchored run cutoff instant) :
    Tends config run thread cutoff pin peers (fun _ _ => True) instant (copyTo key body dests) := by
  induction dests generalizing instant with
  | nil => exact Secure.pure trivial
  | cons dest rest ih =>
      refine Secure.bind held (serialRun.secure_put key body ?_) fun later le held' answer told => ?_
      · intro now answer _ unmoved _ _ rollup
        refine ⟨fun bucket body' _ there => ?_, fun author written recent => .inr ?_⟩
        · rw [unmoved bucket key rollup] at there
          exact (uniform rollup).1 bucket body' there
        · rw [unmoved author key rollup]
          exact (uniform rollup).2 author written recent
      · refine ih (fun rollup => ?_) held'
        have uniform := uniform rollup
        obtain ⟨⟨unmoved, -⟩ | writes, -⟩ := told
        · refine ⟨fun bucket body' there => ?_, fun author written recent => ?_⟩
          · rw [unmoved bucket key rollup] at there
            exact uniform.1 bucket body' there
          · rw [unmoved author key rollup]
            exact uniform.2 author written recent
        · refine ⟨fun bucket body' there => ?_, fun author written recent => ?_⟩
          · rw [writes bucket key rollup] at there
            split at there
            next => exact (Option.some.inj there).symm
            next => exact uniform.1 bucket body' there
          · exact writes.keeps rollup (uniform.2 author written recent)

theorem tends_reseedKeys (serialRun : SerialRun config run) (mesh : List (β × List (Key β)))
    (held : Agreed config run instant ∧ Anchored run cutoff instant) :
    Tends config run thread cutoff pin peers (fun _ _ => True) instant (reseedKeys mesh keys) := by
  induction keys generalizing instant with
  | nil => exact Secure.pure trivial
  | cons key rest ih =>
      unfold reseedKeys
      split
      next => exact ih held
      next =>
        split
        next => exact ih held
        next source _ _ =>
          refine Secure.bind held (serialRun.secure_read (.get source key) nofun nofun
            fun _ _ => trivial) fun later le held' answer told => ?_
          obtain ⟨unmoved, now, rfl, quiet, -, performed, -⟩ := told
          have ⟨next, task, performs, _⟩ := performed
          obtain ⟨text, rfl⟩ | rfl := performs_get performs
          · exact ih held'
          cases found : (run now).store.object source key with
          | none => exact ih held'
          | some body =>
              refine Secure.bind held' (tends_copyTo serialRun _ (fun rollup => ?_) held')
                fun _ _ held'' _ _ => ih held''
              have there : objectAt run (now + 1) source key = some body := by
                rw [unmoved source key rollup,
                  ← serialRun.rollups_quiet quiet ⟨pin, peers, _, next, task⟩ source rollup]
                exact found
              refine ⟨fun bucket body' copy => ?_, fun author written recent => ?_⟩
              · exact held'.1.copies bucket source key body' body rollup copy there
              · exact held'.2 source author key written recent (by rw [there]; simp)

/-- A pass that has read its clock. -/
theorem tends_rest (serialRun : SerialRun config run) (unmirrored : Unmirrored config run)
    (past : cutoff ≤ retainFrom config run instant) (closeCutoff : ℕ)
    (held : Agreed config run instant ∧ Anchored run cutoff instant) :
    Tends config run thread cutoff pin peers (fun _ _ => True) instant (do
      let (mesh, discarded) ← compactBuckets config closeCutoff cutoff
        (pin :: peers).reverse.dedup.reverse [] 0
      reseedRollups mesh cutoff
      return discarded) := by
  refine Secure.bind held (tends_compactBuckets serialRun unmirrored past _ _ [] 0 held)
    fun compacted _ held' result _ => ?_
  obtain ⟨mesh, discarded⟩ := result
  have reseeds : Tends config run thread cutoff pin peers (fun _ _ => True) compacted
      (reseedRollups mesh cutoff) := by
    unfold reseedRollups
    split
    next => exact Secure.pure trivial
    next => exact tends_reseedKeys serialRun mesh held'
  exact Secure.bind held' reseeds fun _ _ _ _ _ => Secure.pure trivial

/-- A whole pass. -/
theorem tidy_compact (serialRun : SerialRun config run) (unmirrored : Unmirrored config run)
    (held : Agreed config run instant) :
    Secure (counters config) run (Agreed config run) (fun _ _ _ => True)
      (fun now op _ => Tidy run (retainFrom config run now) now op) thread (.compact pin peers)
      (fun _ _ => True) instant (compact config pin peers) := by
  refine Secure.bind held (serialRun.secure_read .nowUtc nofun nofun fun _ _ => trivial)
    fun begun le held' today told => ?_
  obtain ⟨-, clock, rfl, -, agreed, performed, -⟩ := told
  have ⟨_, _, performs, _⟩ := performed
  obtain rfl : today = todayAt run clock := performs_nowUtc performs
  -- what was anchored at the clock's reading stays so for the whole pass
  have anchored : Anchored run (retainFrom config run clock) (clock + 1) :=
    agreed.anchored.performed performed trivial
  have past : retainFrom config run clock ≤ retainFrom config run (clock + 1) :=
    retainFrom_mono serialRun.trace (Nat.le_succ _)
  refine Secure.weaken (Secure.localize anchored ?_ ?_ ?_ (tends_rest serialRun unmirrored past
    (todayAt run clock - config.graceDays) ⟨held', anchored⟩)) fun _ _ _ _ => trivial
  · intro first last op next quiet task before holder author key written recent there
    have same := serialRun.rollups_quiet quiet ⟨pin, peers, op, next, task⟩
    rw [same holder (isRollup_of_author written)] at there
    rw [same author (isRollup_of_author written)]
    exact before holder author key written recent there
  · intro now op answer _ _ before performed tidy
    exact before.performed performed tidy
  · intro now op answer after tidy
    exact tidy.mono (retainFrom_mono serialRun.trace ((Nat.le_succ _).trans after))

end Passes

section Runs
variable {config : CounterConfig} {run : CountersRun β}

theorem SerialRun.agreed (serialRun : SerialRun config run) (unmirrored : Unmirrored config run)
    (now : ℕ) : Agreed config run now := by
  refine (serialRun.trace.secure serialRun.idle (Agreed config run) (fun _ _ _ _ _ _ => True)
    (fun _ _ _ now op _ => Tidy run (retainFrom config run now) now op) (fun _ _ _ _ _ => True)
    ⟨?_, ?_⟩ (fun _ _ _ _ _ answer _ performed => ⟨answer, performed, trivial⟩) ?_ ?_ now).1
  · intro bucket _ key _ _ _ held _
    rw [serialRun.bare] at held
    cases held
  · intro holder _ key _ _ there
    exact absurd (serialRun.bare holder key) there
  · intro now agreed tidy
    refine agreed.succ serialRun.trace fun thread call op answer performed => ?_
    obtain ⟨_, _, _, _, _, tidy⟩ := tidy thread call op answer performed
    exact tidy
  · intro thread start call agreed _
    cases call with
    | compact pin peers => exact tidy_compact serialRun unmirrored agreed
    | flush node pin =>
        refine Secure.weaken (Secure.of_issues (issues_program config (.flush node pin)) ?_)
          fun _ _ _ _ => trivial
        intro now op answer orderly
        cases op with
        | put bucket key body =>
            intro rollup
            cases key with
            | seg _ _ _ => cases rollup
            | frozen _ _ | summary _ _ _ => exact orderly.elim
        | delete _ _ => exact orderly.elim
        | nowUtc | list _ _ | get _ _ | takePending _ | fetchSeq _ => trivial

/-- Buckets that a complete pass has left hold the same objects under every rollup
key, as long as no pass runs after it. -/
theorem CompletePass.same_rollups {pin : β} {peers : List β} {finish : ℕ}
    (complete : CompletePass config run thread pin peers finish) (serialRun : SerialRun config run)
    (unmirrored : Unmirrored config run) (le : finish < now)
    (idle : ∀ instant, finish < instant → instant < now → ∀ thread', ¬Running run instant thread')
    {bucket bucket' : β} (visited : bucket ∈ pin :: peers) (visited' : bucket' ∈ pin :: peers)
    {key : Key β} (rollup : key.isRollup) : objectAt run now bucket key = objectAt run now bucket' key := by
  obtain ⟨clock, before, mirrored⟩ := complete.mirrored serialRun
  have still := serialRun.rollups_idle le idle
  have agreed := serialRun.agreed unmirrored now
  -- no day was frozen that the pass would have pruned
  have recent (bucket : β) (visited : bucket ∈ pin :: peers)
      (there : objectAt run (finish + 1) bucket key ≠ none) : retainFrom config run clock ≤ key.day := by
    obtain recent | ⟨instant, id, body, answer, from_, _, same, performed⟩ :=
      mirrored.recent bucket visited key rollup there
    · exact recent
    · obtain ⟨inside, -⟩ := unmirrored _ _ _ _ _ _ _ _ performed
      have day : id.day = key.day := by
        cases key with
        | seg _ _ _ => cases rollup
        | frozen _ _ | summary _ _ _ => exact congrArg Prod.snd same
      rw [← day]
      exact (retainFrom_mono serialRun.trace from_).trans inside
  have spreads (bucket bucket' : β) (visited : bucket ∈ pin :: peers) (visited' : bucket' ∈ pin :: peers)
      (body : Body) (held : objectAt run now bucket key = some body) :
      objectAt run now bucket' key = some body := by
    have there : objectAt run (finish + 1) bucket key ≠ none := by
      rw [← still bucket key rollup, held]
      simp
    have there' := mirrored.spread bucket visited bucket' visited' key rollup
      (recent bucket visited there) there
    rw [← still bucket' key rollup] at there'
    obtain ⟨body', held'⟩ := Option.ne_none_iff_exists'.mp there'
    rw [held', agreed.copies bucket bucket' key body body' rollup held held']
  cases held : objectAt run now bucket key with
  | some body => exact (spreads bucket bucket' visited visited' body held).symm
  | none =>
      by_contra there
      obtain ⟨body, held'⟩ := Option.ne_none_iff_exists'.mp (Ne.symm there)
      rw [spreads bucket' bucket visited' visited body held'] at held
      cases held

/-- As long as a bucket freezes a shard only of a day inside retention whose summary
no other bucket has, two buckets never hold different bytes of one rollup, and
after a complete pass every bucket it visited reports the same summaries. -/
theorem rollups_immutable (serialRun : SerialRun config run) (unmirrored : Unmirrored config run) :
    (∀ now bucket bucket' key body body', key.isRollup → objectAt run now bucket key = some body →
      objectAt run now bucket' key = some body' → body = body') ∧
    ∀ thread pin peers finish now, CompletePass config run thread pin peers finish → finish < now →
      (∀ instant, finish < instant → instant < now → ∀ thread', ¬Running run instant thread') →
      ∀ primary ∈ pin :: peers, ∀ primary' ∈ pin :: peers, ∀ others others',
        (∀ bucket, bucket ∈ primary :: others ↔ bucket ∈ primary' :: others') →
        ∀ tags metric first last,
          observe (run now).store (querySummaries config primary others tags metric first last) =
          observe (run now).store (querySummaries config primary' others' tags metric first last) := by
  refine ⟨fun now => (serialRun.agreed unmirrored now).copies, ?_⟩
  intro thread pin peers finish now complete le idle primary visited primary' visited' others others'
    cover tags metric first last
  refine observe_querySummaries_congr (fun key rollup => ?_) cover config first last
  exact complete.same_rollups serialRun unmirrored le idle visited visited' rollup

end Runs

section Samples

/-- A download counted onto the first of two buckets. -/
def firstFlush : List (Move (@counters Bool _ monthly)) :=
  [.start 0 (.flush 1 false), taking monthly 0 [(sixDay, {("00", "six/1.0")})] (by decide),
    answering monthly 0, answering monthly 0]

/-- A pass that freezes the day there and copies it to the second bucket. -/
def firstPass : List (Move (@counters Bool _ monthly)) :=
  .start 1 (.compact false [true]) :: List.replicate 13 (answering monthly 1)

/-- Downloads of the same day, in another shard, flushed after the pass. -/
def lateFlush : List (Move (@counters Bool _ monthly)) :=
  [.start 2 (.flush 1 false),
    taking monthly 2 [(⟨"downloads", 3, 'r'⟩, {("00", "requests/2.0"), ("00", "requests/2.0")})]
      (by decide),
    answering monthly 2, answering monthly 2]

def secondPass : List (Move (@counters Bool _ monthly)) :=
  .start 3 (.compact false [true]) :: List.replicate 12 (answering monthly 3)

def mirroredDay : CountersRun Bool := replay ⟨emptyBuckets, fun _ => none⟩ (firstFlush ++ firstPass)

def lateDay : CountersRun Bool :=
  replay ⟨emptyBuckets, fun _ => none⟩ (firstFlush ++ firstPass ++ lateFlush ++ secondPass)

def totalOf (body : Option Body) : Option ℕ := body.bind fun body => body.asSummary.map (·.total)

def dayTotals (store : CounterStore Bool) (primary other : Bool) : Except String (List (ℕ × ℕ)) :=
  (observe store (querySummaries monthly primary [other] [false, true] "downloads" 3 3)).map
    (·.map fun day => (day.1, day.2.total))

theorem few_lateMoves (thread : ℕ) (call : CounterCall Bool)
    (member : .start thread call ∈ firstFlush ++ firstPass ++ lateFlush ++ secondPass) :
    thread < 4 := by
  simp only [firstFlush, firstPass, lateFlush, secondPass, taking, answering, List.mem_append,
    List.mem_cons, List.mem_replicate, List.not_mem_nil] at member
  simp at member
  omega

theorem serialRun_lateDay : SerialRun monthly lateDay :=
  serialRun_replay few_lateMoves (by decide +kernel)

/-- The second pass rewrites a summary that the other bucket has a copy of. -/
theorem lateDay_disagrees : SerialRun monthly lateDay ∧ (∀ thread, ¬Running lateDay 35 thread) ∧
    totalOf (objectAt lateDay 35 false (.summary "downloads" 3 false)) = some 3 ∧
    totalOf (objectAt lateDay 35 true (.summary "downloads" 3 false)) = some 1 ∧
    (lateDay 35).threads 3 = some (.compact false [true], .done (.ok 0)) ∧
    dayTotals (lateDay 35).store false true = .ok [(3, 3)] ∧
    dayTotals (lateDay 35).store true false = .ok [(3, 1)] := by
  refine ⟨serialRun_lateDay, fun thread running => ?_, rfl, rfl, rfl, rfl, rfl⟩
  obtain ⟨less, atWork⟩ := busy_replay few_lateMoves running
  have resting : ∀ thread < 4, busy (lateDay 35) thread = false := by decide +kernel
  exact absurd atWork (by rw [show replay _ _ 35 = lateDay 35 from rfl, resting thread less]; nofun)

example : dayTotals (mirroredDay 18).store false true = .ok [(3, 1)] := by decide +kernel

theorem few_firstMoves (thread : ℕ) (call : CounterCall Bool)
    (member : .start thread call ∈ firstFlush ++ firstPass) : thread < 2 := by
  simp only [firstFlush, firstPass, taking, answering, List.mem_append, List.mem_cons,
    List.mem_replicate, List.not_mem_nil] at member
  simp at member
  omega

theorem serialRun_mirroredDay : SerialRun monthly mirroredDay :=
  serialRun_replay few_firstMoves (by decide +kernel)

/-- The thread's next operation freezes nothing, or where the rule allows. -/
def freezesClear (config : Config (CounterStore Bool) (CounterCall Bool) (CounterOp Bool)
    CounterOp.Ans String ℕ) (thread : ℕ) : Bool :=
  match config.threads thread with
  | some (_, .call (.put bucket (.frozen id _) _) _) => config.store.today - 30 ≤ id.day ∧
      config.store.object (!bucket) (.summary id.metric id.day bucket) = none
  | _ => true

theorem unmirrored_mirroredDay : Unmirrored monthly mirroredDay := by
  intro now thread pin peers bucket id body answer performed
  have clear : ∀ now < 18, ∀ thread < 2, freezesClear (mirroredDay now) thread := by decide +kernel
  obtain ⟨server, next⟩ := performed.of_replay
  have inside : now < 18 := (List.getElem?_eq_some_iff.mp next).1
  have ⟨_, task, _⟩ := performed
  have less : thread < 2 :=
    replay_started (P := fun thread _ => thread < 2) (fun _ => rfl) few_firstMoves now thread _ _ task
  have checked := clear now inside thread less
  rw [freezesClear, task] at checked
  obtain ⟨recent, missing⟩ := of_decide_eq_true checked
  refine ⟨recent, fun other apart => ?_⟩
  obtain rfl : other = !bucket := Bool.eq_not_of_ne apart
  exact missing

theorem completePass_mirroredDay : CompletePass monthly mirroredDay 1 false [true] 17 where
  running := ⟨false, [true], _, _, rfl⟩
  finished := ⟨0, rfl⟩
  answered start instant op answer _ _ performed := by
    have ⟨server, next⟩ := performed.of_replay
    have ⟨_, task, _⟩ := performed
    have moved := List.mem_of_getElem? next
    simp only [firstFlush, firstPass, taking, answering, List.mem_append, List.mem_cons,
      List.mem_replicate, List.not_mem_nil] at moved
    simp at moved
    obtain rfl := moved
    exact ⟨_, performed_replay next task, (serveAll_sound _ _).2⟩

/-- Both buckets report the day's download after the pass. -/
theorem mirroredDay_agrees : dayTotals (mirroredDay 18).store true false = .ok [(3, 1)] ∧
    observe (mirroredDay 18).store
        (querySummaries monthly false [true] [false, true] "downloads" 3 3) =
      observe (mirroredDay 18).store
        (querySummaries monthly true [false] [false, true] "downloads" 3 3) := by
  refine ⟨rfl, (rollups_immutable serialRun_mirroredDay unmirrored_mirroredDay).2 1 false [true] 17 18
    completePass_mirroredDay (by decide) ?_ false (by decide) true (by decide) [true] [false]
    (by decide) [false, true] "downloads" 3 3⟩
  intro instant after before
  omega

end Samples
end Pypiron.Counters
