import Pypiron.Counters.Serial

/-! A pass all of whose requests are answered leaves every bucket it visits with
the same rollups: it knows exactly what each of them holds, since nobody else
writes rollups meanwhile, and copies what is missing. -/
namespace Pypiron.Counters
open Program ThreadPool
variable {β : Type} [DecidableEq β]

section Complete
variable {config : CounterConfig} {run : CountersRun β} {thread instant now later cutoff : ℕ}
variable {pin bucket : β} {peers : List β} {keys : List (Key β)}

variable (config run thread pin peers)

/-- Programs of a pass whose requests are all answered. -/
abbrev Finishes {α : Type} (post : ℕ → α → Prop) (instant : ℕ) (program : CounterM β α) : Prop :=
  Secure (counters config) run (fun _ => True) (fun _ op answer => ¬op.Failed answer)
    (fun _ _ _ => True) thread (.compact pin peers) post instant program

variable {config run thread pin peers}

omit [DecidableEq β] in
theorem ok_of_answered {answer : Except String Unit} (answered : ¬∃ text, answer = .error text) :
    answer = .ok () := by
  cases answer with
  | ok => rfl
  | error text => exact absurd ⟨text, rfl⟩ answered

theorem finishes_op (op : CounterOp β) :
    Finishes config run thread pin peers (fun later answer => ∃ now, later = now + 1 ∧
      Quiet run thread instant now ∧
      Performed (counters config) run thread now (.compact pin peers) op answer ∧
      ¬op.Failed answer) instant (perform op) := by
  refine Secure.weaken (Secure.perform op fun _ _ _ _ _ _ => trivial) fun later le answer told => ?_
  obtain ⟨now, rfl, quiet, -, performed, answered⟩ := told
  exact ⟨now, rfl, quiet, performed, answered⟩

theorem finishes_get (serialRun : SerialRun config run) (key : Key β) :
    Finishes config run thread pin peers (fun later answer => Unmoved run instant later ∧
      ∃ found, answer = .ok found ∧ (key.isRollup → found = objectAt run instant bucket key)) instant
      (get bucket key) := by
  refine Secure.weaken (finishes_op (.get bucket key)) fun later le answer told => ?_
  obtain ⟨now, rfl, quiet, performed, answered⟩ := told
  have ⟨next, task, performs, _⟩ := performed
  refine ⟨fun bucket' key' rollup => serialRun.rollups_other quiet performed nofun nofun bucket' rollup, ?_⟩
  obtain failed | rfl := performs_get performs
  · exact absurd failed answered
  · refine ⟨_, rfl, fun rollup => ?_⟩
    exact serialRun.rollups_quiet quiet ⟨pin, peers, _, next, task⟩ bucket rollup

theorem finishes_list (serialRun : SerialRun config run) (scope : Scope) :
    Finishes config run thread pin peers (fun later answer => Unmoved run instant later ∧
      ∃ keys, answer = .ok keys ∧ ∀ key, key.isRollup →
        (key ∈ keys ↔ objectAt run instant bucket key ≠ none ∧ scope.covers key)) instant
      (list bucket scope) := by
  refine Secure.weaken (finishes_op (.list bucket scope)) fun later le answer told => ?_
  obtain ⟨now, rfl, quiet, performed, answered⟩ := told
  have ⟨next, task, performs, _⟩ := performed
  refine ⟨fun bucket' key' rollup => serialRun.rollups_other quiet performed nofun nofun bucket' rollup, ?_⟩
  obtain failed | ⟨keys, rfl, same⟩ := performs_list performs
  · exact absurd failed answered
  · refine ⟨keys, rfl, fun key rollup => ?_⟩
    rw [same.mem_iff, mem_keysIn,
      ← serialRun.rollups_quiet quiet ⟨pin, peers, _, next, task⟩ bucket rollup]
    rfl

theorem finishes_put (serialRun : SerialRun config run) (key : Key β) (body : Body) :
    Finishes config run thread pin peers (fun later answer => answer = .ok () ∧
      Writes run instant later bucket key body ∧ ∃ now, instant ≤ now ∧ now < later ∧
      Performed (counters config) run thread now (.compact pin peers) (.put bucket key body) answer)
      instant (put bucket key body) := by
  refine Secure.weaken (finishes_op (.put bucket key body)) fun later le answer told => ?_
  obtain ⟨now, rfl, quiet, performed, answered⟩ := told
  have ok : answer = .ok () := ok_of_answered answered
  obtain ⟨-, failed⟩ | wrote := serialRun.rollups_put quiet performed
  · exact absurd ok failed
  · exact ⟨ok, wrote, now, quiet.1, Nat.lt_succ_self _, performed⟩

theorem finishes_delete (serialRun : SerialRun config run) :
    Finishes config run thread pin peers (fun later answer => answer = .ok () ∧
      Erases run instant later bucket keys) instant (delete bucket keys) := by
  refine Secure.weaken (finishes_op (.delete bucket keys)) fun later le answer told => ?_
  obtain ⟨now, rfl, quiet, performed, answered⟩ := told
  have ok : answer = .ok () := ok_of_answered answered
  obtain ⟨gone, -, exact_, left⟩ := serialRun.rollups_delete quiet performed
  obtain rfl := exact_ ok
  exact ⟨ok, left⟩

theorem finishes_sumSegments (serialRun : SerialRun config run) (acc : BucketMap) :
    Finishes config run thread pin peers (fun later sum => Unmoved run instant later ∧ sum ≠ none)
      instant (sumSegments bucket keys acc) := by
  induction keys generalizing instant acc with
  | nil => exact Secure.pure ⟨fun _ _ _ => rfl, nofun⟩
  | cons key rest ih =>
      refine Secure.bind trivial (finishes_get serialRun key) fun middle _ _ answer told => ?_
      obtain ⟨same, found, rfl, -⟩ := told
      cases found with
      | none => exact Secure.weaken (ih acc) fun _ _ _ told => ⟨same.trans told.1, told.2⟩
      | some body => exact Secure.weaken (ih _) fun _ _ _ told => ⟨same.trans told.1, told.2⟩

/-- The metric and day a key is about. -/
def Key.ofDay : Key β → String × ℕ
  | seg id _ _ => id.ofDay
  | frozen id _ => id.ofDay
  | summary metric day _ => (metric, day)

variable (config run thread pin peers) in
/-- The pass froze a shard of the day on the bucket. -/
def Froze (from_ now : ℕ) (bucket : β) (day : String × ℕ) : Prop :=
  ∃ instant id body answer, from_ ≤ instant ∧ instant < now ∧ id.ofDay = day ∧
    Performed (counters config) run thread instant (.compact pin peers)
      (.put bucket (.frozen id bucket) body) answer

theorem Froze.mono (froze : Froze config run thread pin peers from_ now bucket day)
    (le : now ≤ later) : Froze config run thread pin peers from_ later bucket day := by
  obtain ⟨instant, id, body, answer, after, before, same, performed⟩ := froze
  exact ⟨instant, id, body, answer, after, before.trans_le le, same, performed⟩

variable (config run thread pin peers cutoff) in
/-- What a pass knows of the bucket it is compacting: its rollups, and why each of
them is there. -/
structure Tracks (from_ now : ℕ) (bucket : β) (rollups : List (Key β)) : Prop where
  only : Rollups rollups
  elsewhere : ∀ bucket' key, bucket' ≠ bucket → key.isRollup →
    objectAt run now bucket' key = objectAt run from_ bucket' key
  present : ∀ key, key.isRollup → (key ∈ rollups ↔ objectAt run now bucket key ≠ none)
  fresh : ∀ key ∈ rollups, key.isRollup → objectAt run from_ bucket key ≠ none ∨ cutoff ≤ key.day ∨
    Froze config run thread pin peers from_ now bucket key.ofDay

namespace Tracks
variable {rollups : List (Key β)}

theorem unmoved (tracks : Tracks config run thread cutoff pin peers instant now bucket rollups)
    (le : now ≤ later) (same : Unmoved run now later) :
    Tracks config run thread cutoff pin peers instant later bucket rollups where
  only := tracks.only
  elsewhere bucket' key apart rollup :=
    (same bucket' key rollup).trans (tracks.elsewhere bucket' key apart rollup)
  present key rollup := by rw [tracks.present key rollup, same bucket key rollup]
  fresh key member rollup := (tracks.fresh key member rollup).imp_right (Or.imp_right (Froze.mono · le))

theorem wrote (tracks : Tracks config run thread cutoff pin peers instant now bucket rollups)
    (le : now ≤ later) {key : Key β} {body : Body} (writes : Writes run now later bucket key body)
    (rollup : key.isRollup)
    (reason : cutoff ≤ key.day ∨ Froze config run thread pin peers instant later bucket key.ofDay) :
    Tracks config run thread cutoff pin peers instant later bucket (rollups.insert key) where
  only := tracks.only.insert rollup
  elsewhere bucket' key' apart rollup := by
    rw [writes bucket' key' rollup, if_neg fun here => apart here.1]
    exact tracks.elsewhere bucket' key' apart rollup
  present key' rollup := by
    rw [List.mem_insert_iff, writes bucket key' rollup]
    by_cases same : key' = key
    · simp [same]
    · simp [same, tracks.present key' rollup]
  fresh key' member rollup := by
    obtain rfl | old := List.mem_insert_iff.mp member
    · exact .inr reason
    · exact (tracks.fresh key' old rollup).imp_right (Or.imp_right (Froze.mono · le))

end Tracks

variable (config run thread pin peers cutoff) in
/-- What freezing has come to. -/
structure Freezing (from_ now : ℕ) (bucket : β) (progress : Progress β) : Prop where
  tracks : Tracks config run thread cutoff pin peers from_ now bucket progress.rollups
  days : ∀ day ∈ progress.toSummarize, Froze config run thread pin peers from_ now bucket day

theorem Freezing.unmoved {progress progress' : Progress β}
    (freezing : Freezing config run thread cutoff pin peers instant now bucket progress)
    (le : now ≤ later) (same : Unmoved run now later) (rollups : progress'.rollups = progress.rollups)
    (days : progress'.toSummarize = progress.toSummarize) :
    Freezing config run thread cutoff pin peers instant later bucket progress' where
  tracks := rollups ▸ freezing.tracks.unmoved le same
  days day member := (freezing.days day (days ▸ member)).mono le

/-- Sweeping segments leaves the rollups alone. -/
theorem Erases.unmoved (erases : Erases run now later bucket keys)
    (segments : ∀ key ∈ keys, ¬key.isRollup) : Unmoved run now later := by
  intro bucket' key rollup
  rw [erases bucket' key rollup, if_neg]
  exact fun here => segments key here.2 rollup

section Groups
variable {segKeys : List (Key β)}

theorem finishes_sweepShard (serialRun : SerialRun config run) {progress : Progress β}
    (segments : ∀ key ∈ segKeys, ¬key.isRollup)
    (freezing : Freezing config run thread cutoff pin peers instant now bucket progress) :
    Finishes config run thread pin peers
      (fun later => Freezing config run thread cutoff pin peers instant later bucket) now
      (sweepShard bucket segKeys progress) := by
  refine Secure.bind trivial (finishes_delete serialRun) fun later le _ answer told => ?_
  obtain ⟨rfl, erases⟩ := told
  exact Secure.pure (freezing.unmoved le (erases.unmoved segments) rfl rfl)

theorem finishes_freezeShard (serialRun : SerialRun config run) {progress : Progress β}
    {id : DayShard} (segments : ∀ key ∈ segKeys, ¬key.isRollup) (since : instant ≤ now)
    (freezing : Freezing config run thread cutoff pin peers instant now bucket progress) :
    Finishes config run thread pin peers
      (fun later => Freezing config run thread cutoff pin peers instant later bucket) now
      (freezeShard config bucket id segKeys progress) := by
  refine Secure.bind trivial (finishes_sumSegments serialRun 0) fun summed le _ sum told => ?_
  obtain ⟨same, some_⟩ := told
  obtain ⟨buckets, rfl⟩ := Option.ne_none_iff_exists'.mp some_
  refine Secure.bind trivial (finishes_put serialRun _ _) fun frozen le' _ answer told => ?_
  obtain ⟨rfl, writes, at_, from_, before, performed⟩ := told
  have froze : Froze config run thread pin peers instant frozen bucket id.ofDay :=
    ⟨at_, id, _, _, since.trans (le.trans from_), before, rfl, performed⟩
  refine Secure.bind trivial (finishes_delete serialRun) fun last le'' _ answer told => ?_
  refine Secure.pure ⟨?_, fun day member => ?_⟩
  · exact ((freezing.tracks.unmoved le same).wrote le' writes rfl (.inr froze)).unmoved le''
      (told.2.unmoved segments)
  · obtain rfl | old := List.mem_insert_iff.mp member
    · exact froze.mono le''
    · exact (freezing.days day old).mono (le.trans (le'.trans le''))

theorem finishes_freezeShards (serialRun : SerialRun config run) (closeCutoff : ℕ)
    (frozen : List DayShard) (groups : List (DayShard × List (Key β))) {progress : Progress β}
    (segments : ∀ group ∈ groups, ∀ key ∈ group.2, ¬key.isRollup) (since : instant ≤ now)
    (freezing : Freezing config run thread cutoff pin peers instant now bucket progress) :
    Finishes config run thread pin peers
      (fun later => Freezing config run thread cutoff pin peers instant later bucket) now
      (freezeShards config bucket closeCutoff frozen groups progress) := by
  induction groups generalizing now progress with
  | nil => exact Secure.pure freezing
  | cons group rest ih =>
      obtain ⟨id, segKeys⟩ := group
      have mine := segments _ List.mem_cons_self
      have others : ∀ group ∈ rest, ∀ key ∈ group.2, ¬key.isRollup := fun group member =>
        segments group (List.mem_cons_of_mem _ member)
      unfold freezeShards
      dsimp only
      split
      next => exact ih others since freezing
      next =>
        split
        next =>
          exact Secure.bind trivial (finishes_sweepShard serialRun mine freezing)
            fun later le _ result told => ih others (since.trans le) told
        next =>
          exact Secure.bind trivial (finishes_freezeShard serialRun mine since freezing)
            fun later le _ result told => ih others (since.trans le) told

end Groups

theorem finishes_foldRollups (serialRun : SerialRun config run) (totals : Multiset String) :
    Finishes config run thread pin peers (fun later _ => Unmoved run instant later) instant
      (foldRollups bucket keys totals) := by
  induction keys generalizing instant totals with
  | nil => exact Secure.pure fun _ _ _ => rfl
  | cons key rest ih =>
      cases key with
      | seg _ _ _ | summary _ _ _ => exact ih totals
      | frozen id owner =>
          unfold foldRollups
          split
          next => exact ih totals
          next =>
            refine Secure.bind trivial (finishes_get serialRun (.frozen id owner))
              fun middle _ _ answer told => ?_
            obtain ⟨same, found, rfl, -⟩ := told
            cases found with
            | none => exact Secure.pure same
            | some body => exact Secure.weaken (ih _) fun _ _ _ told => same.trans told

theorem finishes_writeSummary (serialRun : SerialRun config run) (metric : String) (day : ℕ) :
    Finishes config run thread pin peers (fun later written =>
      (written = none ∧ Unmoved run instant later) ∨
      (written = some (.summary metric day bucket) ∧ ∃ now body, instant ≤ now ∧ now ≤ later ∧
        Unmoved run instant now ∧ Writes run now later bucket (.summary metric day bucket) body))
      instant (writeSummary bucket metric day) := by
  refine Secure.bind trivial (finishes_list serialRun (.day metric day)) fun listed le _ answer told => ?_
  obtain ⟨same, keys, rfl, -⟩ := told
  refine Secure.bind trivial (finishes_foldRollups serialRun 0) fun folded le' _ totals same' => ?_
  cases totals with
  | none => exact Secure.pure (.inl ⟨rfl, same.trans same'⟩)
  | some totals =>
      refine Secure.bind trivial (finishes_put serialRun _ _) fun put le'' _ answer told => ?_
      obtain ⟨rfl, writes, -⟩ := told
      exact Secure.pure (.inr ⟨rfl, folded, _, le.trans le', le'', same.trans same', writes⟩)

theorem finishes_writeSummaries (serialRun : SerialRun config run) (days : List (String × ℕ))
    (pending : ∀ day ∈ days, cutoff ≤ day.2 ∨ Froze config run thread pin peers instant now bucket day)
    (tracks : Tracks config run thread cutoff pin peers instant now bucket keys) :
    Finishes config run thread pin peers
      (fun later => Tracks config run thread cutoff pin peers instant later bucket) now
      (writeSummaries bucket days keys) := by
  induction days generalizing now keys with
  | nil => exact Secure.pure tracks
  | cons day rest ih =>
      obtain ⟨metric, day⟩ := day
      have due := pending _ List.mem_cons_self
      have others (later : ℕ) (le : now ≤ later) (day : String × ℕ) (member : day ∈ rest) :
          cutoff ≤ day.2 ∨ Froze config run thread pin peers instant later bucket day :=
        (pending day (List.mem_cons_of_mem _ member)).imp_right (Froze.mono · le)
      refine Secure.bind trivial (finishes_writeSummary serialRun metric day)
        fun later le _ written told => ?_
      obtain ⟨rfl, same⟩ | ⟨rfl, middle, body, le', le'', same, writes⟩ := told
      · exact ih (others later le) (tracks.unmoved le same)
      · refine ih (others later le) ((tracks.unmoved le' same).wrote le'' writes rfl ?_)
        exact due.imp_right (Froze.mono · le)

theorem mem_foldl_insert_ofDay {missing : List DayShard} {days : List (String × ℕ)} :
    day ∈ missing.foldl (fun days id => days.insert id.ofDay) days ↔
      day ∈ days ∨ ∃ id ∈ missing, id.ofDay = day := by
  induction missing generalizing days with
  | nil => simp
  | cons id rest ih =>
      rw [List.foldl_cons, ih, List.mem_insert_iff]
      simp only [List.mem_cons, exists_eq_or_imp]
      constructor
      · rintro ((rfl | old) | later)
        · exact .inr (.inl rfl)
        · exact .inl old
        · exact .inr (.inr later)
      · rintro (old | rfl | later)
        · exact .inl (.inr old)
        · exact .inl (.inl rfl)
        · exact .inr later

theorem finishes_compactBucket (serialRun : SerialRun config run) (closeCutoff : ℕ) :
    Finishes config run thread pin peers (fun later (result : Option (List (Key β)) × ℕ) =>
      ∃ rollups, result.1 = some rollups ∧
        Tracks config run thread cutoff pin peers instant later bucket rollups ∧
        ∀ key ∈ rollups, key.isRollup → cutoff ≤ key.day ∨
          Froze config run thread pin peers instant later bucket key.ofDay) instant
      (compactBucket config bucket closeCutoff cutoff) := by
  refine Secure.bind trivial (finishes_list serialRun .all) fun listed le _ answer told => ?_
  obtain ⟨same, keys, rfl, present⟩ := told
  have start : Freezing config run thread cutoff pin peers instant listed bucket
      ⟨keys.filter (·.isRollup), [], [], 0⟩ := by
    refine ⟨⟨fun key member => (List.mem_filter.mp member).2,
      fun bucket' key _ rollup => same bucket' key rollup, fun key rollup => ?_,
      fun key member rollup => .inl ?_⟩, by simp⟩
    · rw [List.mem_filter, present key rollup, same bucket key rollup]
      simp [rollup, Scope.covers]
    · exact ((present key rollup).mp (List.mem_filter.mp member).1).1
  have segments : ∀ group ∈ (Layout.parse keys bucket).segments, ∀ key ∈ group.2, ¬key.isRollup := by
    intro group member key inside
    obtain ⟨id, -, rfl⟩ := List.mem_map.mp member
    have segment : key.segmentOf = some id := by simpa using (List.mem_filter.mp inside).2
    cases key with
    | seg _ _ _ => simp [Key.isRollup]
    | frozen _ _ | summary _ _ _ => cases segment
  refine Secure.bind trivial (finishes_freezeShards serialRun closeCutoff _ _ segments le start)
    fun frozen le' _ progress freezing => ?_
  refine Secure.bind trivial (finishes_writeSummaries serialRun _ (fun day member => ?_) freezing.tracks)
    fun summed le'' _ rollups tracks => ?_
  · obtain member | ⟨id, missing, rfl⟩ := mem_foldl_insert_ofDay.mp (List.mem_filter.mp member).1
    · exact .inr (freezing.days day member)
    · exact .inl (of_decide_eq_true (List.mem_filter.mp missing).2).1
  -- what was there before and is not stale is recent
  have kept (key : Key β) (member : key ∈ rollups) (rollup : key.isRollup)
      (fresh : key ∉ keys.filter (·.day < cutoff)) : cutoff ≤ key.day ∨
        Froze config run thread pin peers instant summed bucket key.ofDay := by
    obtain there | reason := tracks.fresh key member rollup
    · left
      by_contra old
      refine fresh (List.mem_filter.mpr ⟨(present key rollup).mpr ⟨there, rfl⟩, ?_⟩)
      exact decide_eq_true (Nat.not_le.mp old)
    · exact reason
  dsimp only
  split
  next nothing =>
    refine Secure.pure ⟨rollups, rfl, tracks, fun key member rollup => kept key member rollup ?_⟩
    rw [List.isEmpty_iff.mp nothing]
    exact List.not_mem_nil
  next =>
    refine Secure.bind trivial (finishes_delete serialRun) fun swept le3 _ answer told => ?_
    obtain ⟨rfl, erases⟩ := told
    refine Secure.pure ⟨_, rfl, ⟨fun key member => tracks.only key (List.mem_filter.mp member).1,
      fun bucket' key apart rollup => ?_, fun key rollup => ?_,
      fun key member rollup => ?_⟩, fun key member rollup => ?_⟩
    · rw [erases bucket' key rollup, if_neg fun here => apart here.1]
      exact tracks.elsewhere bucket' key apart rollup
    · rw [erases bucket key rollup, List.mem_filter, tracks.present key rollup]
      by_cases stale : key ∈ keys.filter (·.day < cutoff)
      · simp [stale]
      · simp [stale]
    · obtain ⟨member, -⟩ := List.mem_filter.mp member
      exact (tracks.fresh key member rollup).imp_right (Or.imp_right (Froze.mono · le3))
    · obtain ⟨member, fresh⟩ := List.mem_filter.mp member
      exact (kept key member rollup (of_decide_eq_true fresh)).imp_right (Froze.mono · le3)

variable (config run thread pin peers cutoff) in
/-- What a pass knows of a bucket it has compacted. -/
structure Compacted (from_ now : ℕ) (held : β × List (Key β)) : Prop where
  only : Rollups held.2
  present : ∀ key, key.isRollup → (key ∈ held.2 ↔ objectAt run now held.1 key ≠ none)
  recent : ∀ key ∈ held.2, key.isRollup → cutoff ≤ key.day ∨
    Froze config run thread pin peers from_ now held.1 key.ofDay

theorem finishes_compactBuckets (serialRun : SerialRun config run) (closeCutoff : ℕ)
    (buckets : List β) (mesh : List (β × List (Key β))) (discarded : ℕ) (distinct : buckets.Nodup)
    (since : instant ≤ now) (apart : ∀ held ∈ mesh, held.1 ∉ buckets)
    (compacted : ∀ held ∈ mesh, Compacted config run thread cutoff pin peers instant now held) :
    Finishes config run thread pin peers (fun later (result : List (β × List (Key β)) × ℕ) =>
      (∀ held ∈ result.1, Compacted config run thread cutoff pin peers instant later held) ∧
      ∀ bucket, bucket ∈ buckets ∨ bucket ∈ mesh.map (·.1) → bucket ∈ result.1.map (·.1)) now
      (compactBuckets config closeCutoff cutoff buckets mesh discarded) := by
  induction buckets generalizing now mesh discarded with
  | nil => exact Secure.pure ⟨compacted, fun bucket member => member.resolve_left List.not_mem_nil⟩
  | cons bucket rest ih =>
      obtain ⟨new, distinct⟩ := List.nodup_cons.mp distinct
      refine Secure.bind trivial (finishes_compactBucket serialRun closeCutoff)
        fun later le _ result told => ?_
      obtain ⟨listed, swept⟩ := result
      obtain ⟨rollups, same, tracks, recent⟩ := told
      obtain rfl : listed = some rollups := same
      have froze {bucket : β} {day : String × ℕ}
          (froze : Froze config run thread pin peers now later bucket day) :
          Froze config run thread pin peers instant later bucket day := by
        obtain ⟨at_, id, body, answer, from_, before, same, performed⟩ := froze
        exact ⟨at_, id, body, answer, since.trans from_, before, same, performed⟩
      refine Secure.weaken (ih (mesh ++ [(bucket, rollups)]) _ distinct (since.trans le) ?_ ?_)
        fun last le' final told => ⟨told.1, fun bucket' member => told.2 bucket' ?_⟩
      · intro held member
        obtain old | added := List.mem_append.mp member
        · exact fun member => apart held old (List.mem_cons_of_mem _ member)
        · rw [List.mem_singleton.mp added]
          exact new
      · intro held member
        obtain old | added := List.mem_append.mp member
        · have other : held.1 ≠ bucket := fun same => apart held old (same ▸ List.mem_cons_self)
          refine ⟨(compacted held old).only, fun key rollup => ?_, fun key member rollup => ?_⟩
          · rw [(compacted held old).present key rollup, tracks.elsewhere held.1 key other rollup]
          · exact ((compacted held old).recent key member rollup).imp_right (Froze.mono · le)
        · rw [List.mem_singleton.mp added]
          exact ⟨tracks.only, tracks.present, fun key member rollup => (recent key member rollup).imp_right froze⟩
      · rw [List.map_append, List.mem_append]
        obtain member | old := member
        · obtain rfl | member := List.mem_cons.mp member
          · exact .inr (.inr List.mem_cons_self)
          · exact .inl member
        · exact .inr (.inl old)

theorem finishes_copyTo (serialRun : SerialRun config run) {key : Key β} (body : Body)
    (rollup : key.isRollup) (dests : List β) :
    Finishes config run thread pin peers (fun later _ =>
      (∀ dest ∈ dests, objectAt run later dest key ≠ none) ∧
      (∀ bucket, objectAt run instant bucket key ≠ none → objectAt run later bucket key ≠ none) ∧
      ∀ bucket key', key'.isRollup → key' ≠ key →
        objectAt run later bucket key' = objectAt run instant bucket key') instant
      (copyTo key body dests) := by
  induction dests generalizing instant with
  | nil => exact Secure.pure ⟨nofun, fun _ there => there, fun _ _ _ _ => rfl⟩
  | cons dest rest ih =>
      refine Secure.bind trivial (finishes_put serialRun key body) fun middle _ _ answer told => ?_
      obtain ⟨-, writes, -⟩ := told
      refine Secure.weaken ih fun later _ _ told => ?_
      obtain ⟨copied, kept, others⟩ := told
      refine ⟨fun dest' member => ?_, fun bucket there => kept bucket ?_, fun bucket key' rollup' apart => ?_⟩
      · obtain rfl | member := List.mem_cons.mp member
        · refine kept dest' ?_
          rw [writes dest' key rollup, if_pos ⟨rfl, rfl⟩]
          simp
        · exact copied dest' member
      · rw [writes bucket key rollup]
        split
        · simp
        · exact there
      · rw [others bucket key' rollup' apart, writes bucket key' rollup', if_neg fun here => apart here.2]

theorem finishes_reseedKeys (serialRun : SerialRun config run) (mesh : List (β × List (Key β)))
    (rollups : Rollups keys) (distinct : keys.Nodup)
    (present : ∀ key ∈ keys, ∀ held ∈ mesh, key ∈ held.2 ↔ objectAt run instant held.1 key ≠ none)
    (somewhere : ∀ key ∈ keys, ∃ held ∈ mesh, key ∈ held.2) :
    Finishes config run thread pin peers (fun later _ =>
      (∀ key ∈ keys, ∀ held ∈ mesh, objectAt run later held.1 key ≠ none) ∧
      ∀ bucket key, key.isRollup → key ∉ keys →
        objectAt run later bucket key = objectAt run instant bucket key) instant
      (reseedKeys mesh keys) := by
  induction keys generalizing instant with
  | nil => exact Secure.pure ⟨nofun, fun _ _ _ _ => rfl⟩
  | cons key rest ih =>
      obtain ⟨new, distinct⟩ := List.nodup_cons.mp distinct
      have rollup := rollups key List.mem_cons_self
      have rollups' : Rollups rest := fun key member => rollups key (List.mem_cons_of_mem _ member)
      -- once this key is everywhere and nothing else has changed, the rest follows
      have onward (middle : ℕ)
          (copied : ∀ held ∈ mesh, objectAt run middle held.1 key ≠ none)
          (others : ∀ bucket key', key'.isRollup → key' ≠ key →
            objectAt run middle bucket key' = objectAt run instant bucket key') :
          Finishes config run thread pin peers (fun later _ =>
            (∀ key' ∈ key :: rest, ∀ held ∈ mesh, objectAt run later held.1 key' ≠ none) ∧
            ∀ bucket key', key'.isRollup → key' ∉ key :: rest →
              objectAt run later bucket key' = objectAt run instant bucket key') middle
            (reseedKeys mesh rest) := by
        refine Secure.weaken (ih rollups' distinct ?_ ?_) fun later _ _ told => ?_
        · intro key' member held inside
          have apart : key' ≠ key := fun same => new (same ▸ member)
          rw [present key' (List.mem_cons_of_mem _ member) held inside,
            others held.1 key' (rollups' key' member) apart]
        · exact fun key' member => somewhere key' (List.mem_cons_of_mem _ member)
        · obtain ⟨reseeded, same⟩ := told
          refine ⟨fun key' member held inside => ?_, fun bucket key' rollup' absent => ?_⟩
          · obtain rfl | member := List.mem_cons.mp member
            · rw [same held.1 key' rollup new]
              exact copied held inside
            · exact reseeded key' member held inside
          · rw [same bucket key' rollup' fun member => absent (List.mem_cons_of_mem _ member),
              others bucket key' rollup' fun here => absent (here ▸ List.mem_cons_self)]
      have here := present key List.mem_cons_self
      unfold reseedKeys
      split
      next everywhere =>
        refine onward instant (fun held inside => (here held inside).mp ?_) fun _ _ _ _ => rfl
        exact of_decide_eq_true (List.all_eq_true.mp everywhere held inside)
      next =>
        split
        next nowhere =>
          obtain ⟨held, inside, member⟩ := somewhere key List.mem_cons_self
          exact absurd (decide_eq_true member) (List.find?_eq_none.mp nowhere held inside)
        next source sourceKeys found =>
          have inside := List.mem_of_find?_eq_some found
          have member : key ∈ sourceKeys := by simpa using List.find?_some found
          refine Secure.bind trivial (finishes_get serialRun key) fun read _ _ answer told => ?_
          obtain ⟨same, object, rfl, held⟩ := told
          obtain ⟨body, stored⟩ := Option.ne_none_iff_exists'.mp ((here _ inside).mp member)
          rw [held rollup, stored]
          refine Secure.bind trivial (finishes_copyTo serialRun body rollup _) fun copied _ _ _ told => ?_
          obtain ⟨arrived, kept, others⟩ := told
          refine onward copied (fun entry inside => ?_) fun bucket key' rollup' apart => ?_
          · by_cases held : key ∈ entry.2
            · refine kept entry.1 ?_
              rw [same entry.1 key rollup]
              exact (here entry inside).mp held
            · exact arrived entry.1 (List.mem_map.mpr ⟨entry, List.mem_filter.mpr
                ⟨inside, decide_eq_true held⟩, rfl⟩)
          · exact (others bucket key' rollup' apart).trans (same bucket key' rollup')

variable (config run thread pin peers) in
/-- What a complete pass leaves: the buckets hold the same rollups, all of days the
pass has kept or frozen. -/
structure Mirrored (from_ cutoff now : ℕ) : Prop where
  spread : ∀ bucket ∈ pin :: peers, ∀ bucket' ∈ pin :: peers, ∀ key, key.isRollup → cutoff ≤ key.day →
    objectAt run now bucket key ≠ none → objectAt run now bucket' key ≠ none
  recent : ∀ bucket ∈ pin :: peers, ∀ key, key.isRollup → objectAt run now bucket key ≠ none →
    cutoff ≤ key.day ∨ Froze config run thread pin peers from_ now bucket key.ofDay

theorem finishes_reseedRollups (serialRun : SerialRun config run) (mesh : List (β × List (Key β)))
    (known : ∀ held ∈ mesh, Compacted config run thread cutoff pin peers instant now held)
    (visited : ∀ bucket ∈ pin :: peers, ∃ keys, (bucket, keys) ∈ mesh) :
    Finishes config run thread pin peers
      (fun later _ => Mirrored config run thread pin peers instant cutoff later) now
      (reseedRollups mesh cutoff) := by
  unfold reseedRollups
  split
  next few =>
    refine Secure.pure ⟨fun bucket member bucket' member' key rollup recent there => ?_,
      fun bucket member key rollup there => ?_⟩
    · obtain ⟨keys, inside⟩ := visited bucket member
      obtain ⟨keys', inside'⟩ := visited bucket' member'
      have same : (bucket, keys) = (bucket', keys') := by
        cases mesh with
        | nil => cases inside
        | cons held rest =>
            obtain rfl : rest = [] := List.eq_nil_of_length_eq_zero (by
              rw [List.length_cons] at few
              omega)
            rw [List.mem_singleton.mp inside, List.mem_singleton.mp inside']
      cases same
      exact there
    · obtain ⟨keys, inside⟩ := visited bucket member
      have present := (known _ inside).present key rollup
      exact (known _ inside).recent key (present.mpr there) rollup
  next =>
    have union (key : Key β) :
        key ∈ ((mesh.flatMap (·.2)).filter (cutoff ≤ ·.day)).dedup ↔
          (∃ held ∈ mesh, key ∈ held.2) ∧ cutoff ≤ key.day := by
      rw [List.mem_dedup, List.mem_filter, List.mem_flatMap, decide_eq_true_eq]
    refine Secure.weaken (finishes_reseedKeys serialRun mesh (fun key member => ?_)
      (List.nodup_dedup _) (fun key member held inside => ?_)
      fun key member => ((union key).mp member).1) fun later le _ told => ?_
    · obtain ⟨⟨held, inside, member⟩, -⟩ := (union key).mp member
      exact (known held inside).only key member
    · obtain ⟨⟨other, inside', member⟩, -⟩ := (union key).mp member
      exact (known held inside).present key ((known other inside').only key member)
    · obtain ⟨reseeded, same⟩ := told
      refine ⟨fun bucket member bucket' member' key rollup recent there => ?_,
        fun bucket member key rollup there => ?_⟩
      · obtain ⟨keys, inside⟩ := visited bucket member
        obtain ⟨keys', inside'⟩ := visited bucket' member'
        refine reseeded key ?_ _ inside'
        by_contra outside
        rw [same bucket key rollup outside, ← (known _ inside).present key rollup] at there
        exact outside ((union key).mpr ⟨⟨_, inside, there⟩, recent⟩)
      · obtain ⟨keys, inside⟩ := visited bucket member
        by_cases outside : key ∈ ((mesh.flatMap (·.2)).filter (cutoff ≤ ·.day)).dedup
        · exact .inl ((union key).mp outside).2
        · rw [same bucket key rollup outside, ← (known _ inside).present key rollup] at there
          exact ((known _ inside).recent key there rollup).imp_right (Froze.mono · le)

theorem finishes_compact (serialRun : SerialRun config run) :
    Finishes config run thread pin peers (fun later _ => ∃ clock, instant ≤ clock ∧ clock < later ∧
      Mirrored config run thread pin peers clock (retainFrom config run clock) later)
      instant (compact config pin peers) := by
  refine Secure.bind trivial (finishes_op .nowUtc) fun begun le _ today told => ?_
  obtain ⟨clock, rfl, quiet, performed, -⟩ := told
  have ⟨_, _, performs, _⟩ := performed
  obtain rfl : today = todayAt run clock := performs_nowUtc performs
  have distinct : ((pin :: peers).reverse.dedup.reverse).Nodup :=
    List.nodup_reverse.mpr (List.nodup_dedup _)
  refine Secure.bind trivial (finishes_compactBuckets serialRun _ _ [] 0 distinct (Nat.le_succ clock) nofun nofun)
    fun compacted le' _ result told => ?_
  obtain ⟨mesh, discarded⟩ := result
  obtain ⟨known, visited⟩ := told
  refine Secure.bind trivial (finishes_reseedRollups serialRun mesh known fun bucket member => ?_)
    fun last le'' _ _ mirrored => ?_
  · have there : bucket ∈ mesh.map (·.1) := by
      refine visited bucket (.inl ?_)
      rw [List.mem_reverse, List.mem_dedup, List.mem_reverse]
      exact member
    obtain ⟨held, inside, rfl⟩ := List.mem_map.mp there
    exact ⟨held.2, inside⟩
  · exact Secure.pure ⟨clock, quiet.1, (Nat.lt_succ_self _).trans_le (le'.trans le''), mirrored⟩

variable (config run thread pin peers) in
/-- A pass that comes to its end between `now` and `now + 1` and whose every request
was answered. -/
structure CompletePass (now : ℕ) : Prop where
  running : Running run now thread
  finished : ∃ discarded,
    (run (now + 1)).threads thread = some (.compact pin peers, .done (.ok discarded))
  answered : ∀ start instant op answer,
    Underway (counters config) run thread (.compact pin peers) start (now + 1) →
    Underway (counters config) run thread (.compact pin peers) start instant →
    Performed (counters config) run thread instant (.compact pin peers) op answer →
    ∃ answer', Performed (counters config) run thread instant (.compact pin peers) op answer' ∧
      ¬op.Failed answer'

/-- After a complete pass its buckets hold the same rollups. -/
theorem CompletePass.mirrored (complete : CompletePass config run thread pin peers now)
    (serialRun : SerialRun config run) : ∃ clock ≤ now,
      Mirrored config run thread pin peers clock (retainFrom config run clock) (now + 1) := by
  obtain ⟨discarded, finished⟩ := complete.finished
  have secured := (serialRun.trace.secure serialRun.idle (fun _ => True)
    (fun thread' call start _ op answer => thread' = thread ∧ call = .compact pin peers ∧
      Underway (counters config) run thread call start (now + 1) → ¬op.Failed answer)
    (fun _ _ _ _ _ _ => True)
    (fun thread' call start later _ => thread' = thread ∧ call = .compact pin peers ∧
      Underway (counters config) run thread call start (now + 1) →
      ∃ clock, start ≤ clock ∧ clock < later ∧
        Mirrored config run thread pin peers clock (retainFrom config run clock) later)
    trivial ?_ (fun _ _ _ => trivial) ?_ (now + 1)).2 thread _ _ finished
  · obtain ⟨start, since, underway, _, quiet, -, done⟩ := secured
    obtain ⟨clock, from_, before, mirrored⟩ := done ⟨rfl, rfl, underway⟩
    -- the pass was still running an instant ago
    obtain rfl : since = now + 1 := by
      obtain earlier | same := Nat.lt_or_eq_of_le quiet.1
      · obtain ⟨_, _, _, _, task⟩ := complete.running
        rw [quiet.2 now (Nat.le_of_lt_succ earlier) (Nat.le_succ now),
          ← quiet.2 (now + 1) quiet.1 le_rfl, finished] at task
        cases task
      · exact same
    exact ⟨clock, Nat.le_of_lt_succ before, mirrored⟩
  · intro thread' call start instant op answer underway performed
    by_cases mine : thread' = thread ∧ call = .compact pin peers ∧
        Underway (counters config) run thread call start (now + 1)
    · obtain ⟨rfl, rfl, whole⟩ := mine
      obtain ⟨answer', performed', answered⟩ :=
        complete.answered start instant op answer whole underway performed
      exact ⟨answer', performed', fun _ => answered⟩
    · exact ⟨answer, performed, fun same => absurd same mine⟩
  · intro thread' start call _ task
    by_cases mine : thread' = thread ∧ call = .compact pin peers ∧
        Underway (counters config) run thread call start (now + 1)
    · obtain ⟨rfl, rfl, whole⟩ := mine
      refine Secure.restrict (Secure.weaken (finishes_compact serialRun) fun later _ _ told _ => told)
        fun _ _ _ answered => answered ⟨rfl, rfl, whole⟩
    · exact Secure.anything (fun _ _ _ => trivial) fun _ _ same => absurd same mine

end Complete

/-- While no pass is running the rollups stand still. -/
theorem SerialRun.rollups_idle {config : CounterConfig} {run : CountersRun β}
    (serialRun : SerialRun config run) (le : now ≤ later)
    (idle : ∀ instant, now ≤ instant → instant < later → ∀ thread, ¬Running run instant thread) :
    Unmoved run now later := by
  induction later, le using Nat.le_induction with
  | base => exact fun _ _ _ => rfl
  | succ later le ih =>
      refine (ih fun instant from_ before => idle instant from_ (Nat.lt_succ_of_lt before)).trans ?_
      intro bucket key rollup
      obtain ⟨-, unchanged | ⟨thread, call, bucket', key', body, answer, performed, wrote⟩ |
        ⟨thread, call, bucket', keys, answer, gone, -, performed, -, -⟩⟩ :=
        objects_step serialRun.trace later
      · exact unchanged bucket key
      · cases call with
        | compact pin peers =>
            obtain ⟨next, task, _⟩ := performed
            exact absurd ⟨pin, peers, _, next, task⟩ (idle later le (Nat.lt_succ_self _) thread)
        | flush node pin =>
            have orderly := serialRun.orderly performed
            rw [wrote, if_neg]
            rintro ⟨-, rfl⟩
            cases key with
            | seg _ _ _ => cases rollup
            | frozen _ _ | summary _ _ _ => exact orderly
      · cases call with
        | compact pin peers =>
            obtain ⟨next, task, _⟩ := performed
            exact absurd ⟨pin, peers, _, next, task⟩ (idle later le (Nat.lt_succ_self _) thread)
        | flush node pin => exact (serialRun.orderly performed).elim

end Pypiron.Counters
