import Pypiron.Counters

/-! Passes of one leader at a time. Nodes flush segments whenever they like, but
everything under `_counters/day/` is written by passes alone, so to a pass that
is not overlapped its rollups stand still between two of its operations. -/
namespace Pypiron.Counters
open Program ThreadPool
variable {β : Type} [DecidableEq β]

section Issued

/-- What each kind of call writes. -/
def Orderly : CounterCall β → CounterOp β → Prop
  | .flush node pin, .put bucket (.seg _ node' _) _ => bucket = pin ∧ node' = node
  | .flush _ _, .put _ _ _ => False
  | .flush _ _, .delete _ _ => False
  | .compact _ _, .put _ key _ => key.isRollup
  | .compact _ _, .fetchSeq _ => False
  | _, _ => True

variable {config : CounterConfig} {pin : β} {peers : List β} {bucket : β} {keys : List (Key β)}

omit [DecidableEq β] in
theorem issues_flushSegments (node : ℕ) (taken : List (DayShard × BucketMap)) :
    Issues (Orderly (.flush node pin)) (fun _ => True) (flushSegments config node pin taken) := by
  induction taken with
  | nil => trivial
  | cons first rest ih =>
      obtain ⟨id, buckets⟩ := first
      unfold flushSegments
      split
      next => exact ih
      next =>
        refine (Issues.perform trivial).bind fun seq _ => ?_
        exact (Issues.perform ⟨rfl, rfl⟩).bind fun _ _ => ih

variable (pin peers)

/-- The operations of a pass. -/
abbrev Passes {α : Type} (post : α → Prop) (program : CounterM β α) : Prop :=
  Issues (Orderly (.compact pin peers)) post program

variable {pin peers}

omit [DecidableEq β] in
theorem passes_get (key : Key β) : Passes pin peers (fun _ => True) (get bucket key) :=
  Issues.perform trivial

omit [DecidableEq β] in
theorem passes_list (scope : Scope) : Passes pin peers (fun _ => True) (list bucket scope) :=
  Issues.perform trivial

omit [DecidableEq β] in
theorem passes_put {key : Key β} (rollup : key.isRollup) (body : Body) :
    Passes pin peers (fun _ => True) (put bucket key body) :=
  Issues.perform rollup

omit [DecidableEq β] in
theorem passes_delete : Passes pin peers (fun _ => True) (delete bucket keys) :=
  Issues.perform trivial

omit [DecidableEq β] in
theorem passes_sumSegments (acc : BucketMap) :
    Passes pin peers (fun _ => True) (sumSegments bucket keys acc) := by
  induction keys generalizing acc with
  | nil => trivial
  | cons key rest ih =>
      refine (passes_get key).bind fun answer _ => ?_
      split
      next => exact ih _
      next => exact ih _
      next => trivial

/-- All the keys are rollups. -/
def Rollups (keys : List (Key β)) : Prop := ∀ key ∈ keys, key.isRollup

theorem Rollups.insert (rollups : Rollups keys) {key : Key β} (rollup : key.isRollup) :
    Rollups (keys.insert key) := by
  intro key' member
  obtain rfl | old := List.mem_insert_iff.mp member
  · exact rollup
  · exact rollups key' old

theorem passes_freezeShards (closeCutoff : ℕ) (frozen : List DayShard)
    (groups : List (DayShard × List (Key β))) (progress : Progress β)
    (rollups : Rollups progress.rollups) :
    Passes pin peers (fun result : Progress β => Rollups result.rollups)
      (freezeShards config bucket closeCutoff frozen groups progress) := by
  induction groups generalizing progress with
  | nil => exact rollups
  | cons group rest ih =>
      obtain ⟨id, segKeys⟩ := group
      unfold freezeShards
      dsimp only
      split
      next => exact ih progress rollups
      next =>
        split
        next =>
          refine Issues.bind (P := fun result : Progress β => Rollups result.rollups) ?_ ih
          refine passes_delete.bind fun answer _ => ?_
          split
          next => exact rollups
          next => exact rollups
        next =>
          refine Issues.bind (P := fun result : Progress β => Rollups result.rollups) ?_ ih
          refine (passes_sumSegments 0).bind fun summed _ => ?_
          cases summed with
          | none => exact rollups
          | some buckets =>
              refine (passes_put rfl _).bind fun answer _ => ?_
              cases answer with
              | error text => exact rollups
              | ok => exact passes_delete.bind fun _ _ => rollups.insert rfl

theorem passes_foldRollups (totals : Multiset String) :
    Passes pin peers (fun _ => True) (foldRollups bucket keys totals) := by
  induction keys generalizing totals with
  | nil => trivial
  | cons key rest ih =>
      cases key with
      | seg _ _ _ | summary _ _ _ => exact ih totals
      | frozen id owner =>
          unfold foldRollups
          split
          next => exact ih totals
          next =>
            refine (passes_get _).bind fun answer _ => ?_
            split
            next => exact ih _
            next => trivial

theorem passes_writeSummaries (days : List (String × ℕ)) (rollups : Rollups keys) :
    Passes pin peers Rollups (writeSummaries bucket days keys) := by
  induction days generalizing keys with
  | nil => exact rollups
  | cons day rest ih =>
      obtain ⟨metric, day⟩ := day
      have summary : Passes pin peers (fun key : Option (Key β) => ∀ key', key = some key' → key'.isRollup)
          (writeSummary bucket metric day) := by
        refine (passes_list _).bind fun answer _ => ?_
        split
        next => exact nofun
        next =>
          refine (passes_foldRollups 0).bind fun folded _ => ?_
          cases folded with
          | none => exact nofun
          | some totals =>
              refine (passes_put rfl _).bind fun answer _ => ?_
              cases answer with
              | error text => exact nofun
              | ok => exact fun key' same => by cases same; rfl
      refine summary.bind fun written told => ?_
      cases written with
      | none => exact ih rollups
      | some key => exact ih (rollups.insert (told key rfl))

theorem passes_compactBucket (closeCutoff retainCutoff : ℕ) :
    Passes pin peers (fun result : Option (List (Key β)) × ℕ => ∀ keys, result.1 = some keys → Rollups keys)
      (compactBucket config bucket closeCutoff retainCutoff) := by
  refine (passes_list .all).bind fun answer _ => ?_
  cases answer with
  | error text => exact nofun
  | ok keys =>
      refine (passes_freezeShards closeCutoff _ _ _ fun key member => (List.mem_filter.mp member).2).bind
        fun progress rollups => ?_
      refine (passes_writeSummaries _ rollups).bind fun written rollups' => ?_
      dsimp only
      split
      next => exact fun _ same => by cases same; exact rollups'
      next =>
        refine passes_delete.bind fun _ _ => ?_
        intro _ same
        cases same
        exact fun key member => rollups' key (List.mem_filter.mp member).1

theorem passes_compactBuckets (closeCutoff retainCutoff : ℕ) (buckets : List β)
    (mesh : List (β × List (Key β))) (discarded : ℕ) (rollups : ∀ entry ∈ mesh, Rollups entry.2) :
    Passes pin peers (fun result : List (β × List (Key β)) × ℕ => ∀ entry ∈ result.1, Rollups entry.2)
      (compactBuckets config closeCutoff retainCutoff buckets mesh discarded) := by
  induction buckets generalizing mesh discarded with
  | nil => exact rollups
  | cons bucket rest ih =>
      refine (passes_compactBucket closeCutoff retainCutoff).bind fun result told => ?_
      obtain ⟨compacted, swept⟩ := result
      refine ih _ _ fun entry member => ?_
      obtain old | new := List.mem_append.mp member
      · exact rollups entry old
      · obtain ⟨keys, same, rfl⟩ := List.mem_map.mp new
        exact told keys (Option.mem_toList.mp same)

theorem passes_reseedKeys (mesh : List (β × List (Key β))) (rollups : Rollups keys) :
    Passes pin peers (fun _ => True) (reseedKeys mesh keys) := by
  induction keys with
  | nil => trivial
  | cons key rest ih =>
      have ih := ih fun key member => rollups key (List.mem_cons_of_mem _ member)
      unfold reseedKeys
      split
      next => exact ih
      next =>
        split
        next => exact ih
        next =>
          refine (passes_get key).bind fun answer _ => ?_
          split
          next body =>
            refine Issues.bind (P := fun _ => True) ?_ fun _ _ => ih
            generalize (mesh.filter fun held => key ∉ held.2).map (·.1) = dests
            induction dests with
            | nil => trivial
            | cons dest others ih =>
                exact (passes_put (rollups key List.mem_cons_self) body).bind fun _ _ => ih
          next => exact ih

/-- Every call keeps to its kind. -/
theorem issues_program (config : CounterConfig) (call : CounterCall β) :
    Issues (Orderly call) (fun _ => True) (call.program config) := by
  cases call with
  | flush node pin =>
      refine Issues.bind (P := fun _ => True) ?_ fun _ _ => trivial
      exact (Issues.perform trivial).bind fun taken _ => issues_flushSegments node taken
  | compact pin peers =>
      refine (Issues.perform trivial).bind fun today _ => ?_
      refine (passes_compactBuckets _ _ _ [] 0 nofun).bind fun result rollups => ?_
      obtain ⟨mesh, discarded⟩ := result
      refine Issues.bind (P := fun _ => True) ?_ fun _ _ => trivial
      unfold reseedRollups
      split
      next => trivial
      next =>
        refine passes_reseedKeys mesh fun key member => ?_
        obtain ⟨member, -⟩ := List.mem_filter.mp (List.mem_dedup.mp member)
        obtain ⟨entry, there, member⟩ := List.mem_flatMap.mp member
        exact rollups entry there key member

end Issued

/-- A pass that has not come to its end. -/
def Running (run : CountersRun β) (now thread : ℕ) : Prop :=
  ∃ pin peers op next, (run now).threads thread = some (.compact pin peers, .call op next)

/-- Flushes and passes from empty buckets on, no two passes at once. A crashed
pass is dropped before the next begins. -/
structure SerialRun (config : CounterConfig) (run : CountersRun β) : Prop where
  trace : Trace (counters config) run
  idle : ∀ thread, (run 0).threads thread = none
  bare : ∀ bucket key, objectAt run 0 bucket key = none
  serial : ∀ now thread thread', Running run now thread → Running run now thread' → thread = thread'

section Serial
variable {config : CounterConfig} {run : CountersRun β} {thread now later instant : ℕ}
variable {call : CounterCall β} {pin bucket : β} {peers : List β} {keys : List (Key β)}

theorem SerialRun.orderly (serialRun : SerialRun config run)
    (performed : Performed (counters config) run thread now call op answer) : Orderly call op :=
  serialRun.trace.issues serialRun.idle (issues_program config) performed

/-- While a pass is quiet only flushes are at work. -/
theorem SerialRun.flushes (serialRun : SerialRun config run) (running : Running run now thread)
    (unmoved : (run (now + 1)).threads thread = (run now).threads thread)
    (performed : Performed (counters config) run thread' now call op answer) :
    ∃ node pin, call = .flush node pin := by
  cases call with
  | flush node pin => exact ⟨node, pin, rfl⟩
  | compact pin peers =>
      have ⟨next, task, _⟩ := performed
      obtain rfl := serialRun.serial now thread' thread ⟨pin, peers, op, next, task⟩ running
      exact absurd unmoved performed.changes

/-- While a pass is quiet its rollups stand still. -/
theorem SerialRun.rollups_quiet (serialRun : SerialRun config run) (quiet : Quiet run thread now later)
    (running : Running run later thread) (bucket : β) {key : Key β} (rollup : key.isRollup) :
    objectAt run later bucket key = objectAt run now bucket key := by
  have ⟨le, same⟩ := quiet
  obtain ⟨pin, peers, op, next, task⟩ := running
  refine Quiet.induction (fun first last =>
    objectAt run last bucket key = objectAt run first bucket key) quiet rfl ?_
  intro instant from_ before unmoved still
  rw [← still]
  have busy : Running run instant thread := ⟨pin, peers, op, next, unmoved.trans task⟩
  have stays : (run (instant + 1)).threads thread = (run instant).threads thread := by
    rw [same instant from_ before.le, same (instant + 1) (Nat.le_succ_of_le from_) before]
  obtain ⟨-, unchanged | ⟨thread', call', bucket', key', body, answer, performed, wrote⟩ |
    ⟨thread', call', bucket', keys, answer, gone, -, performed, -, -⟩⟩ :=
    objects_step serialRun.trace instant
  · exact unchanged bucket key
  · obtain ⟨node, pin', rfl⟩ := serialRun.flushes busy stays performed
    have orderly := serialRun.orderly performed
    rw [wrote, if_neg]
    rintro ⟨-, rfl⟩
    cases key with
    | seg _ _ _ => cases rollup
    | frozen _ _ | summary _ _ _ => exact orderly
  · obtain ⟨node, pin', rfl⟩ := serialRun.flushes busy stays performed
    exact (serialRun.orderly performed).elim

/-- What a pass's operation does to the rollups, since it last moved. -/
theorem SerialRun.rollups_put (serialRun : SerialRun config run) (quiet : Quiet run thread instant now)
    {key : Key β} {body : Body} {answer : Except String Unit}
    (performed : Performed (counters config) run thread now (.compact pin peers) (.put bucket key body) answer) :
    ((∀ bucket' key', key'.isRollup →
      objectAt run (now + 1) bucket' key' = objectAt run instant bucket' key') ∧ answer ≠ .ok ()) ∨
    ∀ bucket' key', key'.isRollup → objectAt run (now + 1) bucket' key' =
      if bucket' = bucket ∧ key' = key then some body else objectAt run instant bucket' key' := by
  have ⟨next, task, performs, _⟩ := performed
  have running : Running run now thread := ⟨pin, peers, _, next, task⟩
  obtain ⟨-, ⟨same, failed⟩ | wrote⟩ := performs_put performs
  · exact .inl ⟨fun bucket' key' rollup =>
      (same bucket' key').trans (serialRun.rollups_quiet quiet running bucket' rollup), failed⟩
  · refine .inr fun bucket' key' rollup => ?_
    rw [← serialRun.rollups_quiet quiet running bucket' rollup]
    exact wrote bucket' key'

theorem SerialRun.rollups_delete (serialRun : SerialRun config run)
    (quiet : Quiet run thread instant now) {answer : Except String Unit}
    (performed : Performed (counters config) run thread now (.compact pin peers) (.delete bucket keys) answer) :
    ∃ gone ⊆ keys, (answer = .ok () → gone = keys) ∧
      ∀ bucket' key, key.isRollup → objectAt run (now + 1) bucket' key =
        if bucket' = bucket ∧ key ∈ gone then none else objectAt run instant bucket' key := by
  have ⟨next, task, performs, _⟩ := performed
  have running : Running run now thread := ⟨pin, peers, _, next, task⟩
  obtain ⟨-, gone, inside, exact_, left⟩ := performs_delete performs
  refine ⟨gone, inside, exact_, fun bucket' key rollup => ?_⟩
  rw [← serialRun.rollups_quiet quiet running bucket' rollup]
  exact left bucket' key

theorem SerialRun.rollups_other (serialRun : SerialRun config run) (quiet : Quiet run thread instant now)
    (performed : Performed (counters config) run thread now (.compact pin peers) op answer)
    (notPut : ∀ bucket key body, op ≠ .put bucket key body)
    (notDelete : ∀ bucket keys, op ≠ .delete bucket keys) (bucket : β) {key : Key β}
    (rollup : key.isRollup) :
    objectAt run (now + 1) bucket key = objectAt run instant bucket key := by
  have ⟨next, task, performs, _⟩ := performed
  have running : Running run now thread := ⟨pin, peers, _, next, task⟩
  rw [← serialRun.rollups_quiet quiet running bucket rollup, objectAt, objectAt, CounterStore.object,
    CounterStore.object, (performs_other performs notPut notDelete).2]

end Serial

section Effects
variable {config : CounterConfig} {run : CountersRun β} {thread now instant later : ℕ}
variable {pin bucket : β} {peers : List β} {keys : List (Key β)}

variable (run instant later)

/-- No rollup changes. -/
def Unmoved : Prop :=
  ∀ bucket key, key.isRollup → objectAt run later bucket key = objectAt run instant bucket key

/-- The rollups change by one put. -/
def Writes (bucket : β) (key : Key β) (body : Body) : Prop :=
  ∀ bucket' key', key'.isRollup → objectAt run later bucket' key' =
    if bucket' = bucket ∧ key' = key then some body else objectAt run instant bucket' key'

/-- The rollups change by one batch delete. -/
def Erases (bucket : β) (keys : List (Key β)) : Prop :=
  ∀ bucket' key, key.isRollup → objectAt run later bucket' key =
    if bucket' = bucket ∧ key ∈ keys then none else objectAt run instant bucket' key

variable {run instant later}

theorem Unmoved.trans (first : Unmoved run instant now) (second : Unmoved run now later) :
    Unmoved run instant later :=
  fun bucket key rollup => (second bucket key rollup).trans (first bucket key rollup)

theorem Writes.keeps {key : Key β} {body : Body} (writes : Writes run instant later bucket key body)
    {bucket' : β} {key' : Key β} (rollup : key'.isRollup) (there : objectAt run instant bucket' key' ≠ none) :
    objectAt run later bucket' key' ≠ none := by
  rw [writes bucket' key' rollup]
  split
  · simp
  · exact there

variable {holds : ℕ → Prop} {admits guarantee : ℕ → (op : CounterOp β) → op.Ans → Prop}

/-- A read of a pass leaves the rollups as they were when it last moved. -/
theorem SerialRun.secure_read (serialRun : SerialRun config run) (op : CounterOp β)
    (notPut : ∀ bucket key body, op ≠ .put bucket key body)
    (notDelete : ∀ bucket keys, op ≠ .delete bucket keys)
    (allowed : ∀ now answer, guarantee now op answer) :
    Secure (counters config) run holds admits guarantee thread (.compact pin peers)
      (fun later answer => Unmoved run instant later ∧ ∃ now, later = now + 1 ∧
        Quiet run thread instant now ∧ holds now ∧
        Performed (counters config) run thread now (.compact pin peers) op answer ∧
        admits now op answer) instant (perform op) := by
  refine Secure.weaken (Secure.perform op fun now _ _ answer _ _ => allowed now answer)
    fun later le answer told => ?_
  obtain ⟨now, rfl, quiet, held, performed, admitted⟩ := told
  refine ⟨fun bucket key rollup => ?_, now, rfl, quiet, held, performed, admitted⟩
  exact serialRun.rollups_other quiet performed notPut notDelete bucket rollup

/-- A put of a pass writes its key, unless it failed. -/
theorem SerialRun.secure_put (serialRun : SerialRun config run) (key : Key β) (body : Body)
    (allowed : ∀ now answer, instant ≤ now → Unmoved run instant now → holds now →
      Performed (counters config) run thread now (.compact pin peers) (.put bucket key body) answer →
      guarantee now (.put bucket key body) answer) :
    Secure (counters config) run holds admits guarantee thread (.compact pin peers)
      (fun later answer => ((Unmoved run instant later ∧ answer ≠ .ok ()) ∨
          Writes run instant later bucket key body) ∧ ∃ now, later = now + 1 ∧ instant ≤ now ∧ holds now ∧
        Performed (counters config) run thread now (.compact pin peers) (.put bucket key body) answer ∧
        admits now (.put bucket key body) answer) instant (put bucket key body) := by
  refine Secure.weaken (Secure.perform (CounterOp.put bucket key body) fun now quiet held answer performed _ => ?_)
    fun later le answer told => ?_
  · have ⟨next, task, _⟩ := performed
    refine allowed now answer quiet.1 (fun bucket' key' rollup => ?_) held performed
    exact serialRun.rollups_quiet quiet ⟨pin, peers, _, next, task⟩ bucket' rollup
  · obtain ⟨now, rfl, quiet, held, performed, admitted⟩ := told
    exact ⟨serialRun.rollups_put quiet performed, now, rfl, quiet.1, held, performed, admitted⟩

/-- A batch delete of a pass erases its keys, or some of them if it failed. -/
theorem SerialRun.secure_delete (serialRun : SerialRun config run)
    (allowed : ∀ now answer, instant ≤ now → holds now →
      Performed (counters config) run thread now (.compact pin peers) (.delete bucket keys) answer →
      guarantee now (.delete bucket keys) answer) :
    Secure (counters config) run holds admits guarantee thread (.compact pin peers)
      (fun later answer => (∃ gone ⊆ keys, (answer = .ok () → gone = keys) ∧
          Erases run instant later bucket gone) ∧ ∃ now, later = now + 1 ∧ instant ≤ now ∧ holds now ∧
        admits now (.delete bucket keys) answer) instant (delete bucket keys) := by
  refine Secure.weaken (Secure.perform (CounterOp.delete bucket keys) fun now quiet held answer performed _ =>
    allowed now answer quiet.1 held performed) fun later le answer told => ?_
  obtain ⟨now, rfl, quiet, held, performed, admitted⟩ := told
  exact ⟨serialRun.rollups_delete quiet performed, now, rfl, quiet.1, held, admitted⟩

end Effects

section Samples
variable {config : CounterConfig}

/-- The node's buffer is as given, and every request is answered. -/
def serveTaking (taken : List (DayShard × BucketMap)) (store : CounterStore β) :
    (op : CounterOp β) → op.Ans × CounterStore β
  | .takePending _ => (taken, store)
  | op => serveAll store op

/-- The flush takes this from its buffer. -/
def taking (config : CounterConfig) (thread : ℕ) (taken : List (DayShard × BucketMap))
    (sharded : Sharded taken) : Move (@counters β _ config) :=
  .perform thread ⟨fun _ => serveTaking taken, by
    intro thread store op
    cases op with
    | takePending node => exact .takePending sharded
    | nowUtc | list _ _ | get _ _ | put _ _ _ | delete _ _ | fetchSeq _ =>
        exact (serveAll_sound store _).1⟩

def emptyBuckets : CounterStore β := ⟨10, fun _ => ∅, fun _ => 0⟩

def busy (config : Config (CounterStore β) (CounterCall β) (CounterOp β) CounterOp.Ans String ℕ)
    (thread : ℕ) : Bool :=
  match config.threads thread with
  | some (.compact _ _, .call _ _) => true
  | _ => false

section Replays
variable {moves : List (Move (@counters β _ config))} {bound : ℕ}

theorem busy_replay (few : ∀ thread call, .start thread call ∈ moves → thread < bound)
    (running : Running (replay ⟨emptyBuckets, fun _ => none⟩ moves) now thread) :
    thread < bound ∧ busy (replay ⟨emptyBuckets, fun _ => none⟩ moves now) thread := by
  obtain ⟨pin, peers, op, next, task⟩ := running
  refine ⟨replay_started (P := fun thread _ => thread < bound) (fun _ => rfl) few now thread _ _ task, ?_⟩
  rw [busy, task]

/-- A replay with few threads is serial when it can be seen to be. -/
theorem serialRun_replay (few : ∀ thread call, .start thread call ∈ moves → thread < bound)
    (alone : ∀ now ≤ moves.length, ∀ thread < bound, ∀ thread' < bound,
      busy (replay ⟨emptyBuckets, fun _ => none⟩ moves now) thread →
      busy (replay ⟨emptyBuckets, fun _ => none⟩ moves now) thread' → thread = thread') :
    SerialRun config (replay ⟨emptyBuckets, fun _ => none⟩ moves) where
  trace := trace_replay _ _
  idle _ := rfl
  bare _ _ := rfl
  serial now thread thread' running running' := by
    obtain ⟨instant, inside, same⟩ := replay_bounded ⟨emptyBuckets, fun _ => none⟩ moves now
    obtain ⟨less, busy₁⟩ := busy_replay few running
    obtain ⟨less', busy₂⟩ := busy_replay few running'
    rw [same] at busy₁ busy₂
    exact alone instant inside thread less thread' less' busy₁ busy₂

end Replays

end Samples
end Pypiron.Counters
