import Mathlib
import Pypiron.Secure

/-! Download counters kept as objects. Every node flushes what it counted as
immutable segments onto the bucket it has pinned; the leader sums each bucket's
own segments of a finished day into a frozen rollup, sweeps them, writes the
day's summary, and copies rollups and summaries to the buckets that lack them. -/
namespace Pypiron.Counters
open Program

/-- Tallies by intra-day bucket and key: the count of a pair is its tally. The source
adds them up in `u64`s, which is exact below 2^64 events (`tallies_exact`). -/
abbrev BucketMap := Multiset (String × String)

/-- Sums of fewer than 2^64 events do not wrap. -/
theorem tallies_exact (parts : List BucketMap) (few : parts.sum.card < 2 ^ 64) (tally : String × String) :
    (parts.map fun buckets => buckets.count tally % 2 ^ 64).sum % 2 ^ 64 = parts.sum.count tally := by
  have bound : parts.sum.count tally < 2 ^ 64 := (Multiset.count_le_card tally _).trans_lt few
  have sums : parts.sum.count tally = (parts.map (Multiset.count tally)).sum :=
    map_list_sum (Multiset.countAddMonoidHom tally) parts
  rw [← Nat.mod_eq_of_lt bound, sums, List.sum_nat_mod, List.map_map]
  conv_rhs => rw [List.sum_nat_mod, List.map_map]
  simp only [Function.comp_def, Nat.mod_mod]

structure Segment where
  resolutionSecs : ℕ
  buckets : BucketMap
  deriving DecidableEq

structure DaySummary where
  total : ℕ
  top : Multiset String
  deriving DecidableEq

/-- What a segment or a frozen rollup is about. Days are numbered. -/
structure DayShard where
  metric : String
  day : ℕ
  shard : Char
  deriving DecidableEq, Repr

/-- `seg/<metric>/<day>/<shard>/<node>-<seq>`, `day/<metric>/<day>/<shard>@<bucket>`
and `day/<metric>/<day>/_summary@<bucket>`. -/
inductive Key (β : Type) where
  | seg (id : DayShard) (node seq : ℕ)
  | frozen (id : DayShard) (bucket : β)
  | summary (metric : String) (day : ℕ) (bucket : β)
  deriving DecidableEq, Repr

instance [DecidableEq β] : LawfulBEq (Key β) := inferInstance

inductive Body where
  | segment (segment : Segment)
  | summary (summary : DaySummary)
  deriving DecidableEq

/-- Every field of a segment has a default, so a summary decodes as an empty one. -/
def Body.asSegment : Body → Segment
  | .segment stored => stored
  | .summary _ => ⟨0, 0⟩

def Body.asSummary : Body → Option DaySummary
  | .segment _ => none
  | .summary stored => some stored

/-- The key prefixes the code lists. -/
inductive Scope where
  | all
  | day (metric : String) (day : ℕ)
  | openDay (metric : String) (day : ℕ)
  | openShard (id : DayShard)
  deriving DecidableEq, Repr

section Keys
variable {β : Type}

/-- `day_of`, for retention. -/
def Key.day : Key β → ℕ
  | seg id _ _ => id.day
  | frozen id _ => id.day
  | summary _ day _ => day

/-- Whether a key is under `_counters/day/`. -/
def Key.isRollup : Key β → Bool
  | seg _ _ _ => false
  | frozen _ _ => true
  | summary _ _ _ => true

def Scope.covers : Scope → Key β → Bool
  | .all, _ => true
  | .day metric date, .frozen id _ => id.metric = metric ∧ id.day = date
  | .day metric date, .summary metric' date' _ => metric' = metric ∧ date' = date
  | .openDay metric date, .seg id _ _ => id.metric = metric ∧ id.day = date
  | .openShard id, .seg id' _ _ => id' = id
  | _, _ => false

end Keys

structure CounterConfig where
  resolutionSecs : ℕ
  retentionDays : ℕ
  graceDays : ℕ

inductive CounterOp (β : Type) where
  | nowUtc
  | list (bucket : β) (scope : Scope)
  | get (bucket : β) (key : Key β)
  | put (bucket : β) (key : Key β) (body : Body)
  | delete (bucket : β) (keys : List (Key β))
  | takePending (node : ℕ)
  | fetchSeq (node : ℕ)

def CounterOp.Ans {β : Type} : CounterOp β → Type
  | nowUtc => ℕ
  | list _ _ => Except String (List (Key β))
  | get _ _ => Except String (Option Body)
  | put _ _ _ => Except String Unit
  | delete _ _ => Except String Unit
  | takePending _ => List (DayShard × BucketMap)
  | fetchSeq _ => ℕ

abbrev CounterM (β : Type) := Program (CounterOp β) CounterOp.Ans String

section Code
variable {β : Type}

def nowUtc : CounterM β ℕ := call .nowUtc fun answer => done (.ok answer)

def list (bucket : β) (scope : Scope) : CounterM β (Except String (List (Key β))) :=
  call (.list bucket scope) fun answer => done (.ok answer)

def get (bucket : β) (key : Key β) : CounterM β (Except String (Option Body)) :=
  call (.get bucket key) fun answer => done (.ok answer)

def put (bucket : β) (key : Key β) (body : Body) : CounterM β (Except String Unit) :=
  call (.put bucket key body) fun answer => done (.ok answer)

def delete (bucket : β) (keys : List (Key β)) : CounterM β (Except String Unit) :=
  call (.delete bucket keys) fun answer => done (.ok answer)

def takePending (node : ℕ) : CounterM β (List (DayShard × BucketMap)) :=
  call (.takePending node) fun answer => done (.ok answer)

def fetchSeq (node : ℕ) : CounterM β ℕ := call (.fetchSeq node) fun answer => done (.ok answer)

/-- One attempt per taken segment, each under a key of its own. -/
def flushSegments (config : CounterConfig) (node : ℕ) (pin : β) :
    List (DayShard × BucketMap) → CounterM β Unit
  | [] => return ()
  | (id, buckets) :: rest =>
    if buckets = 0 then flushSegments config node pin rest
    else do
      let seq ← fetchSeq node
      let _ ← put pin (.seg id node seq) (.segment ⟨config.resolutionSecs, buckets⟩)
      flushSegments config node pin rest

def flush (config : CounterConfig) (node : ℕ) (pin : β) : CounterM β Unit := do
  let taken ← takePending node
  flushSegments config node pin taken

/-- A segment that vanished since it was listed counts as zero. -/
def sumSegments (bucket : β) : List (Key β) → BucketMap → CounterM β (Option BucketMap)
  | [], acc => return some acc
  | key :: rest, acc => do
    match ← get bucket key with
    | .ok (some body) => sumSegments bucket rest (acc + body.asSegment.buckets)
    | .ok none => sumSegments bucket rest acc
    | .error _ => return none

/-- One bucket's keys as a compaction sees them. -/
structure Layout (β : Type) where
  segments : List (DayShard × List (Key β))
  frozen : List DayShard
  summaries : List (String × ℕ)

def Key.segmentOf : Key β → Option DayShard
  | seg id _ _ => some id
  | _ => none

/-- `fold_buckets`: the intra-day bucket is dropped. -/
def foldBuckets (buckets : BucketMap) : Multiset String := buckets.map (·.2)

/-- The fifty keys with the highest counts, ties by name. -/
def rankSummary (totals : Multiset String) : DaySummary where
  total := totals.card
  top := totals.filter fun key => (totals.dedup.filter fun other =>
    totals.count key < totals.count other ∨
      (totals.count other = totals.count key ∧ other < key)).card < 50

variable [DecidableEq β]

/-- Only the bucket's own rollups count: a peer's copy says nothing about whether
these segments were summed. -/
def Layout.parse (keys : List (Key β)) (bucket : β) : Layout β where
  segments := (keys.filterMap Key.segmentOf).dedup.map fun id =>
    (id, keys.filter fun key => key.segmentOf = some id)
  frozen := keys.filterMap fun
    | .frozen id owner => if owner = bucket then some id else none
    | _ => none
  summaries := keys.filterMap fun
    | .summary metric day owner => if owner = bucket then some (metric, day) else none
    | _ => none

/-- What one bucket's compaction has done so far. -/
structure Progress (β : Type) where
  rollups : List (Key β)
  toSummarize : List (String × ℕ)
  unfinished : List (String × ℕ)
  discarded : ℕ

def DayShard.ofDay (id : DayShard) : String × ℕ := (id.metric, id.day)

/-- Segments of a day-shard already frozen here are swept, never summed. -/
def sweepShard (bucket : β) (segKeys : List (Key β)) (progress : Progress β) :
    CounterM β (Progress β) := do
  match ← delete bucket segKeys with
  | .ok () => return { progress with discarded := progress.discarded + segKeys.length }
  | .error _ => return progress

/-- Sum a day-shard's segments, freeze the sum, then sweep them. -/
def freezeShard (config : CounterConfig) (bucket : β) (id : DayShard) (segKeys : List (Key β))
    (progress : Progress β) : CounterM β (Progress β) := do
  let unfrozen := { progress with unfinished := progress.unfinished.insert id.ofDay }
  match ← sumSegments bucket segKeys 0 with
  | none => return unfrozen
  | some buckets =>
    match ← put bucket (.frozen id bucket) (.segment ⟨config.resolutionSecs, buckets⟩) with
    | .error _ => return unfrozen
    | .ok () =>
      let _ ← delete bucket segKeys
      return { progress with
        rollups := progress.rollups.insert (.frozen id bucket)
        toSummarize := progress.toSummarize.insert id.ofDay }

/-- Every closeable day-shard is frozen or, when it already is, swept. -/
def freezeShards (config : CounterConfig) (bucket : β) (closeCutoff : ℕ) (frozen : List DayShard) :
    List (DayShard × List (Key β)) → Progress β → CounterM β (Progress β)
  | [], progress => return progress
  | (id, segKeys) :: rest, progress =>
    if closeCutoff ≤ id.day then freezeShards config bucket closeCutoff frozen rest progress
    else do
      let progress ← if id ∈ frozen then sweepShard bucket segKeys progress
        else freezeShard config bucket id segKeys progress
      freezeShards config bucket closeCutoff frozen rest progress

/-- Fold the bucket's own rollups among the listed keys. -/
def foldRollups (bucket : β) : List (Key β) → Multiset String → CounterM β (Option (Multiset String))
  | [], totals => return some totals
  | .frozen id owner :: rest, totals =>
    if owner ≠ bucket then foldRollups bucket rest totals
    else do
      match ← get bucket (.frozen id owner) with
      | .ok (some body) => foldRollups bucket rest (totals + foldBuckets body.asSegment.buckets)
      | _ => return none
  | _ :: rest, totals => foldRollups bucket rest totals

def writeSummary (bucket : β) (metric : String) (day : ℕ) : CounterM β (Option (Key β)) := do
  match ← list bucket (.day metric day) with
  | .error _ => return none
  | .ok keys =>
    match ← foldRollups bucket keys 0 with
    | none => return none
    | some totals =>
      match ← put bucket (.summary metric day bucket) (.summary (rankSummary totals)) with
      | .ok () => return some (.summary metric day bucket)
      | .error _ => return none

def writeSummaries (bucket : β) : List (String × ℕ) → List (Key β) → CounterM β (List (Key β))
  | [], rollups => return rollups
  | (metric, day) :: rest, rollups => do
    match ← writeSummary bucket metric day with
    | some key => writeSummaries bucket rest (rollups.insert key)
    | none => writeSummaries bucket rest rollups

/-- The days to summarize: those frozen now, and those frozen before that still
lack a summary, unless one of their shards was left unfrozen. -/
def pendingSummaries (layout : Layout β) (retainCutoff : ℕ) (progress : Progress β) :
    List (String × ℕ) :=
  let missing := layout.frozen.filter fun id => retainCutoff ≤ id.day ∧ id.ofDay ∉ layout.summaries
  (missing.foldl (fun days id => days.insert id.ofDay) progress.toSummarize).filter
    fun day => day ∉ progress.unfinished

/-- The rollup keys the bucket holds afterwards, or none when it could not be
listed, and how many segments were discarded. -/
def compactBucket (config : CounterConfig) (bucket : β) (closeCutoff retainCutoff : ℕ) :
    CounterM β (Option (List (Key β)) × ℕ) := do
  match ← list bucket .all with
  | .error _ => return (none, 0)
  | .ok keys =>
    let layout := Layout.parse keys bucket
    let progress ← freezeShards config bucket closeCutoff layout.frozen layout.segments
      ⟨keys.filter (·.isRollup), [], [], 0⟩
    let rollups ← writeSummaries bucket (pendingSummaries layout retainCutoff progress)
      progress.rollups
    let stale := keys.filter (·.day < retainCutoff)
    if stale.isEmpty then return (some rollups, progress.discarded)
    else
      let _ ← delete bucket stale
      return (some (rollups.filter (· ∉ stale)), progress.discarded)

def compactBuckets (config : CounterConfig) (closeCutoff retainCutoff : ℕ) :
    List β → List (β × List (Key β)) → ℕ → CounterM β (List (β × List (Key β)) × ℕ)
  | [], mesh, discarded => return (mesh, discarded)
  | bucket :: rest, mesh, discarded => do
    let (rollups, swept) ← compactBucket config bucket closeCutoff retainCutoff
    compactBuckets config closeCutoff retainCutoff rest
      (mesh ++ rollups.toList.map fun rollups => (bucket, rollups)) (discarded + swept)

def copyTo (key : Key β) (body : Body) : List β → CounterM β Unit
  | [] => return ()
  | dest :: rest => do
    let _ ← put dest key body
    copyTo key body rest

/-- Copy each rollup to the buckets that lack it, from the first that has it. -/
def reseedKeys (mesh : List (β × List (Key β))) : List (Key β) → CounterM β Unit
  | [] => return ()
  | key :: rest =>
    if mesh.all fun held => key ∈ held.2 then reseedKeys mesh rest
    else match mesh.find? fun held => key ∈ held.2 with
      | none => reseedKeys mesh rest
      | some (source, _) => do
        match ← get source key with
        | .ok (some body) =>
          copyTo key body ((mesh.filter fun held => key ∉ held.2).map (·.1))
          reseedKeys mesh rest
        | _ => reseedKeys mesh rest

def reseedRollups (mesh : List (β × List (Key β))) (retainCutoff : ℕ) : CounterM β Unit :=
  if mesh.length < 2 then return ()
  else reseedKeys mesh ((mesh.flatMap (·.2)).filter (retainCutoff ≤ ·.day)).dedup

/-- One pass over the pinned bucket and its peers, each bucket once. -/
def compact (config : CounterConfig) (pin : β) (peers : List β) : CounterM β ℕ := do
  let today ← nowUtc
  let closeCutoff := today - config.graceDays
  let retainCutoff := today - config.retentionDays
  let (mesh, discarded) ← compactBuckets config closeCutoff retainCutoff
    (pin :: peers).reverse.dedup.reverse [] 0
  reseedRollups mesh retainCutoff
  return discarded

/-- The frozen variants of a day-shard, all read from the primary: the buckets
found frozen and their sum. -/
def readFrozen (primary : β) (id : DayShard) : List β → List β → BucketMap →
    CounterM β (List β × BucketMap)
  | [], frozen, acc => return (frozen, acc)
  | tag :: rest, frozen, acc => do
    match ← get primary (.frozen id tag) with
    | .ok (some body) => readFrozen primary id rest (tag :: frozen) (acc + body.asSegment.buckets)
    | _ => readFrozen primary id rest frozen acc

/-- Live segments of the buckets without a frozen variant. -/
def readOpen (id : DayShard) (frozen : List β) : List β → BucketMap → Bool →
    CounterM β (BucketMap × Bool)
  | [], acc, any => return (acc, any)
  | bucket :: rest, acc, any =>
    if bucket ∈ frozen then readOpen id frozen rest acc any
    else do
      match ← list bucket (.openShard id) with
      | .error _ => readOpen id frozen rest acc any
      | .ok [] => readOpen id frozen rest acc any
      | .ok segKeys =>
        match ← sumSegments bucket segKeys 0 with
        | some buckets => readOpen id frozen rest (acc + buckets) true
        | none => readOpen id frozen rest acc any

def readDayShard (primary : β) (peers tags : List β) (id : DayShard) :
    CounterM β (Option BucketMap) := do
  let (frozen, acc) ← readFrozen primary id tags [] 0
  let (acc, any) ← readOpen id frozen (primary :: peers).reverse.dedup.reverse acc (frozen ≠ [])
  return if any then some acc else none

def shardOf (key : String) : Char :=
  match key.toList.head? with
  | some first => if first.isAlphanum then first.toLower else '_'
  | none => '_'

/-- `strip_prefix` with the package and a slash. -/
def subKey (pkg key : String) : Option String :=
  if (pkg ++ "/").toList <+: key.toList then
    some (String.ofList (key.toList.drop (pkg ++ "/").length))
  else none

/-- One day of a package's series. -/
def queryPackageDay (primary : β) (peers tags : List β) (metric pkg : String) (day : ℕ) :
    CounterM β (Multiset String) := do
  match ← readDayShard primary peers tags ⟨metric, day, shardOf pkg⟩ with
  | some buckets => return (foldBuckets buckets).filterMap (subKey pkg)
  | none => return 0

def queryPackageOn (primary : β) (peers tags : List β) (metric pkg : String) :
    List ℕ → CounterM β (List (ℕ × Multiset String))
  | [] => return []
  | day :: rest => do
    let perKey ← queryPackageDay primary peers tags metric pkg day
    let later ← queryPackageOn primary peers tags metric pkg rest
    return if perKey = 0 then later else (day, perKey) :: later

/-- A package's daily series by sub-key; the first day is always asked for. -/
def queryPackage (primary : β) (peers tags : List β) (metric pkg : String) (first last : ℕ) :
    CounterM β (List (ℕ × Multiset String)) :=
  queryPackageOn primary peers tags metric pkg (List.range' first (last - first + 1))

/-- Every rollup of the day that the primary lists and can read: which shards of
which buckets, and their sum. -/
def foldFrozen (primary : β) : List (Key β) → List (Char × β) → Multiset String →
    CounterM β (List (Char × β) × Multiset String)
  | [], frozen, totals => return (frozen, totals)
  | .frozen id owner :: rest, frozen, totals => do
    match ← get primary (.frozen id owner) with
    | .ok (some body) =>
      foldFrozen primary rest ((id.shard, owner) :: frozen)
        (totals + foldBuckets body.asSegment.buckets)
    | .ok none => foldFrozen primary rest frozen totals
    | .error _ => foldFrozen primary rest frozen totals
  | .seg _ _ _ :: rest, frozen, totals => foldFrozen primary rest frozen totals
  | .summary _ _ _ :: rest, frozen, totals => foldFrozen primary rest frozen totals

/-- Whether a segment of the bucket is not covered by a rollup read so far. -/
def Key.isOpen (bucket : β) (frozen : List (Char × β)) : Key β → Bool
  | seg id _ _ => (id.shard, bucket) ∉ frozen
  | _ => false

/-- Live segments of the shards that are not frozen, bucket by bucket. -/
def foldOpen (metric : String) (day : ℕ) (frozen : List (Char × β)) : List β → Multiset String →
    Bool → CounterM β (Multiset String × Bool)
  | [], totals, any => return (totals, any)
  | bucket :: rest, totals, any => do
    match ← list bucket (.openDay metric day) with
    | .error _ => foldOpen metric day frozen rest totals any
    | .ok listed =>
      let unfrozen := listed.filter (·.isOpen bucket frozen)
      if unfrozen.isEmpty then foldOpen metric day frozen rest totals any
      else
        match ← sumSegments bucket unfrozen 0 with
        | some buckets => foldOpen metric day frozen rest (totals + foldBuckets buckets) true
        | none => foldOpen metric day frozen rest totals any

def summarizeOpenDay (primary : β) (peers : List β) (metric : String) (day : ℕ) :
    CounterM β (Option DaySummary) := do
  match ← list primary (.day metric day) with
  | .error _ => return none
  | .ok keys =>
    let (frozen, totals) ← foldFrozen primary keys [] 0
    let (totals, any) ← foldOpen metric day frozen (primary :: peers).reverse.dedup.reverse totals
      (frozen ≠ [])
    return if any then some (rankSummary totals) else none

/-- Every bucket's summary of a day, all read from the primary. -/
def readSummaries (primary : β) (metric : String) (day : ℕ) : List β → ℕ → Multiset String →
    Bool → CounterM β (ℕ × Multiset String × Bool)
  | [], total, tops, frozen => return (total, tops, frozen)
  | tag :: rest, total, tops, frozen => do
    match ← get primary (.summary metric day tag) with
    | .ok (some body) =>
      match body.asSummary with
      | some summary =>
        readSummaries primary metric day rest (total + summary.total) (tops + summary.top) true
      | none => readSummaries primary metric day rest total tops frozen
    | _ => readSummaries primary metric day rest total tops frozen

/-- A day's merged summary: frozen summaries win, and only a day that cannot be
frozen yet is summed live. -/
def querySummary (primary : β) (peers tags : List β) (metric : String) (closeCutoff day : ℕ) :
    CounterM β (Option DaySummary) := do
  let (total, tops, frozen) ← readSummaries primary metric day tags 0 0 false
  if frozen then return some { rankSummary tops with total }
  else if closeCutoff ≤ day then summarizeOpenDay primary peers metric day
  else return none

def querySummariesOn (primary : β) (peers tags : List β) (metric : String) (closeCutoff : ℕ) :
    List ℕ → CounterM β (List (ℕ × DaySummary))
  | [] => return []
  | day :: rest => do
    let summary ← querySummary primary peers tags metric closeCutoff day
    let later ← querySummariesOn primary peers tags metric closeCutoff rest
    return (summary.toList.map fun summary => (day, summary)) ++ later

/-- Recent per-day summaries; the first day is always asked for. -/
def querySummaries (config : CounterConfig) (primary : β) (peers tags : List β) (metric : String)
    (first last : ℕ) : CounterM β (List (ℕ × DaySummary)) := do
  let today ← nowUtc
  querySummariesOn primary peers tags metric (today - config.graceDays)
    (List.range' first (last - first + 1))

end Code
/-- A node's flush onto the bucket it has pinned, or a leader's pass. -/
inductive CounterCall (β : Type) where
  | flush (node : ℕ) (pin : β)
  | compact (pin : β) (peers : List β)

/-- Today, every bucket's objects, and the sequence number each node is at. -/
structure CounterStore (β : Type) where
  today : ℕ
  objects : β → AList fun _ : Key β => Body
  seqs : ℕ → ℕ

/-- A request that was not answered. -/
def CounterOp.Failed {β : Type} : (op : CounterOp β) → op.Ans → Prop
  | .list _ _, answer => ∃ text, answer = .error text
  | .get _ _, answer => ∃ text, answer = .error text
  | .put _ _ _, answer => ∃ text, answer = .error text
  | .delete _ _, answer => ∃ text, answer = .error text
  | .nowUtc, _ => False
  | .takePending _, _ => False
  | .fetchSeq _, _ => False

section System
variable {β : Type} [DecidableEq β]

namespace CounterStore
variable (store : CounterStore β)

def object (bucket : β) (key : Key β) : Option Body := (store.objects bucket).lookup key

def put (bucket : β) (key : Key β) (body : Body) : CounterStore β :=
  let written := (store.objects bucket).insert key body
  { store with objects := Function.update store.objects bucket written }

def delete (bucket : β) (keys : List (Key β)) : CounterStore β :=
  let left := keys.foldr AList.erase (store.objects bucket)
  { store with objects := Function.update store.objects bucket left }

def keysIn (bucket : β) (scope : Scope) : List (Key β) :=
  (store.objects bucket).keys.filter scope.covers

end CounterStore

section Tallies
variable (store : CounterStore β)

/-- What an object counts, nothing when it is missing. -/
def tallyOf (bucket : β) (key : Key β) : BucketMap :=
  (store.object bucket key).elim 0 (·.asSegment.buckets)

def segmentSum (bucket : β) (id : DayShard) : BucketMap :=
  ((store.keysIn bucket (.openShard id)).map (tallyOf store bucket)).sum

end Tallies

/-- Where names past the cap are folded. -/
def overflowKey : String := "_overflow"

/-- Counts are buffered under the shard of their key, or under the overflow key. -/
def Sharded (taken : List (DayShard × BucketMap)) : Prop :=
  ∀ entry ∈ taken, ∀ tally ∈ entry.2, tally.2 = overflowKey ∨ shardOf tally.2 = entry.1.shard

instance (taken : List (DayShard × BucketMap)) : Decidable (Sharded taken) :=
  inferInstanceAs (Decidable (∀ entry ∈ taken, ∀ tally ∈ entry.2, _))

/-- A request is answered, fails outright, or takes effect and is reported as
failed; a failed batch delete may have removed any part of its keys. Listings
come in any order, and a node may have buffered anything. -/
inductive CounterPerforms (store : CounterStore β) :
    (op : CounterOp β) → op.Ans → CounterStore β → Prop where
  | nowUtc : CounterPerforms store .nowUtc store.today store
  | listed : keys.Perm (store.keysIn bucket scope) →
      CounterPerforms store (.list bucket scope) (.ok keys) store
  | listFailed : CounterPerforms store (.list bucket scope) (.error text) store
  | got : CounterPerforms store (.get bucket key) (.ok (store.object bucket key)) store
  | getFailed : CounterPerforms store (.get bucket key) (.error text) store
  | put : CounterPerforms store (.put bucket key body) (.ok ()) (store.put bucket key body)
  | putFailed : CounterPerforms store (.put bucket key body) (.error text) store
  | putLost : CounterPerforms store (.put bucket key body) (.error text) (store.put bucket key body)
  | deleted : CounterPerforms store (.delete bucket keys) (.ok ()) (store.delete bucket keys)
  | deleteFailed : gone ⊆ keys →
      CounterPerforms store (.delete bucket keys) (.error text) (store.delete bucket gone)
  | takePending : Sharded taken → CounterPerforms store (.takePending node) taken store
  | fetchSeq : CounterPerforms store (.fetchSeq node) (store.seqs node)
      { store with seqs := Function.update store.seqs node (store.seqs node + 1) }

def CounterCall.program (config : CounterConfig) : CounterCall β → CounterM β ℕ
  | flush node pin => do
    Counters.flush config node pin
    return 0
  | compact pin peers => Counters.compact config pin peers

/-- Nodes that flush and leaders that compact, over shared buckets. Days pass. -/
def counters (config : CounterConfig) : ThreadPool.System (CounterStore β) (CounterCall β)
    (CounterOp β) CounterOp.Ans String ℕ where
  program := CounterCall.program config
  performs _ := CounterPerforms
  drifts store store' := ∃ later, store.today ≤ later ∧ store' = { store with today := later }
  drops _ store store' := store' = store

/-- Every request is answered. -/
def serveAll (store : CounterStore β) : (op : CounterOp β) → op.Ans × CounterStore β
  | .nowUtc => (store.today, store)
  | .list bucket scope => (Except.ok (store.keysIn bucket scope), store)
  | .get bucket key => (Except.ok (store.object bucket key), store)
  | .put bucket key body => (Except.ok (), store.put bucket key body)
  | .delete bucket keys => (Except.ok (), store.delete bucket keys)
  | .takePending _ => ([], store)
  | .fetchSeq node => (store.seqs node,
      { store with seqs := Function.update store.seqs node (store.seqs node + 1) })

theorem serveAll_sound (store : CounterStore β) (op : CounterOp β) :
    CounterPerforms store op (serveAll store op).1 (serveAll store op).2 ∧
      ¬op.Failed (serveAll store op).1 := by
  cases op with
  | nowUtc => exact ⟨.nowUtc, nofun⟩
  | list bucket scope => exact ⟨.listed (.refl _), nofun⟩
  | get bucket key => exact ⟨.got, nofun⟩
  | put bucket key body => exact ⟨.put, nofun⟩
  | delete bucket keys => exact ⟨.deleted, nofun⟩
  | takePending node => exact ⟨.takePending nofun, nofun⟩
  | fetchSeq node => exact ⟨.fetchSeq, nofun⟩

/-- What a query reports when the buckets stand still and every read is answered. -/
def observe {α : Type} (store : CounterStore β) : CounterM β α → Except String α
  | .done result => result
  | .call op next => observe store (next (serveAll store op).1)

end System

section Samples
variable {β : Type} [DecidableEq β]

/-- The thread's next request is answered. -/
def answering (config : CounterConfig) (thread : ℕ) : ThreadPool.Move (@counters β _ config) :=
  .perform thread ⟨fun _ => serveAll, fun _ store op => (serveAll_sound store op).1⟩

/-- Rollups close after a day and are kept for thirty. -/
def monthly : CounterConfig := ⟨3600, 30, 1⟩

def sixDay : DayShard := ⟨"downloads", 3, 's'⟩

def oneDownload : Body := .segment ⟨3600, {("00", "six/1.0")}⟩

end Samples

abbrev CountersRun (β : Type) := ℕ → ThreadPool.Config (CounterStore β) (CounterCall β)
  (CounterOp β) CounterOp.Ans String ℕ

section Objects
variable {β : Type} [DecidableEq β] {store : CounterStore β} {bucket : β} {key : Key β}

theorem object_put (store : CounterStore β) (bucket bucket' : β) (key key' : Key β) (body : Body) :
    (store.put bucket key body).object bucket' key' =
      if bucket' = bucket ∧ key' = key then some body else store.object bucket' key' := by
  unfold CounterStore.object CounterStore.put
  by_cases here : bucket' = bucket
  · subst here
    by_cases same : key' = key
    · subst same
      simp
    · simp [same, AList.lookup_insert_ne same]
  · simp [here]

theorem lookup_foldr_erase (keys : List (Key β)) (objects : AList fun _ : Key β => Body) :
    (keys.foldr AList.erase objects).lookup key = if key ∈ keys then none else objects.lookup key := by
  induction keys with
  | nil => simp
  | cons first rest ih =>
      rw [List.foldr_cons]
      by_cases same : key = first
      · subst same
        simp
      · rw [AList.lookup_erase_ne same, ih]
        simp [same]

theorem object_delete (store : CounterStore β) (bucket bucket' : β) (keys : List (Key β)) (key : Key β) :
    (store.delete bucket keys).object bucket' key =
      if bucket' = bucket ∧ key ∈ keys then none else store.object bucket' key := by
  unfold CounterStore.object CounterStore.delete
  by_cases here : bucket' = bucket
  · subst here
    simp [lookup_foldr_erase]
  · simp [here]

theorem mem_keysIn : key ∈ store.keysIn bucket scope ↔
    store.object bucket key ≠ none ∧ scope.covers key := by
  rw [CounterStore.keysIn, List.mem_filter, CounterStore.object, ne_eq, AList.lookup_eq_none,
    not_not, AList.mem_keys]

omit [DecidableEq β] in
theorem keysIn_nodup (store : CounterStore β) (bucket : β) (scope : Scope) :
    (store.keysIn bucket scope).Nodup :=
  (store.objects bucket).keys_nodup.filter _

end Objects

section Run
variable {β : Type} [DecidableEq β] {config : CounterConfig} {run : CountersRun β}

/-- The object a bucket holds at an instant of the run. -/
def objectAt (run : CountersRun β) (now : ℕ) (bucket : β) (key : Key β) : Option Body :=
  (run now).store.object bucket key

def todayAt (run : CountersRun β) (now : ℕ) : ℕ := (run now).store.today

/-- What one request does to the objects. -/
theorem performs_delete {store store' : CounterStore β} {bucket : β} {keys : List (Key β)}
    {answer : Except String Unit} (performs : CounterPerforms store (.delete bucket keys) answer store') :
    store'.today = store.today ∧ ∃ gone ⊆ keys, (answer = .ok () → gone = keys) ∧
      ∀ bucket' key, store'.object bucket' key =
        if bucket' = bucket ∧ key ∈ gone then none else store.object bucket' key := by
  cases performs with
  | deleted =>
      exact ⟨rfl, keys, List.Subset.refl _, fun _ => rfl, fun _ _ => object_delete _ _ _ _ _⟩
  | deleteFailed inside =>
      exact ⟨rfl, _, inside, nofun, fun _ _ => object_delete _ _ _ _ _⟩

theorem performs_put {store store' : CounterStore β} {bucket : β} {key : Key β} {body : Body}
    {answer : Except String Unit} (performs : CounterPerforms store (.put bucket key body) answer store') :
    store'.today = store.today ∧
    (((∀ bucket' key', store'.object bucket' key' = store.object bucket' key') ∧ answer ≠ .ok ()) ∨
    ∀ bucket' key', store'.object bucket' key' =
      if bucket' = bucket ∧ key' = key then some body else store.object bucket' key') := by
  cases performs with
  | putFailed => exact ⟨rfl, .inl ⟨fun _ _ => rfl, nofun⟩⟩
  | put | putLost => exact ⟨rfl, .inr fun _ _ => object_put _ _ _ _ _ _⟩

theorem performs_get {store store' : CounterStore β} {bucket : β} {key : Key β}
    {answer : Except String (Option Body)}
    (performs : CounterPerforms store (.get bucket key) answer store') :
    (∃ text, answer = .error text) ∨ answer = .ok (store.object bucket key) := by
  cases performs with
  | got => exact .inr rfl
  | getFailed => exact .inl ⟨_, rfl⟩

theorem performs_list {store store' : CounterStore β} {bucket : β} {scope : Scope}
    {answer : Except String (List (Key β))}
    (performs : CounterPerforms store (.list bucket scope) answer store') :
    (∃ text, answer = .error text) ∨ ∃ keys, answer = .ok keys ∧
      keys.Perm (store.keysIn bucket scope) := by
  cases performs with
  | listed same => exact .inr ⟨_, rfl, same⟩
  | listFailed => exact .inl ⟨_, rfl⟩

theorem performs_nowUtc {store store' : CounterStore β} {answer : ℕ}
    (performs : CounterPerforms store .nowUtc answer store') : answer = store.today := by
  cases performs
  rfl

theorem performs_other {store store' : CounterStore β} {op : CounterOp β} {answer : op.Ans}
    (performs : CounterPerforms store op answer store')
    (notPut : ∀ bucket key body, op ≠ .put bucket key body)
    (notDelete : ∀ bucket keys, op ≠ .delete bucket keys) :
    store'.today = store.today ∧ store'.objects = store.objects := by
  cases performs with
  | nowUtc | listed _ | listFailed | got | getFailed | takePending _ | fetchSeq => exact ⟨rfl, rfl⟩
  | put | putFailed | putLost => exact absurd rfl (notPut _ _ _)
  | deleted | deleteFailed _ => exact absurd rfl (notDelete _ _)

/-- What one operation does to the objects. -/
theorem objects_performed {call : CounterCall β}
    (performed : ThreadPool.Performed (counters config) run thread now call op answer) :
    (∀ bucket key, objectAt run (now + 1) bucket key = objectAt run now bucket key) ∨
    (∃ bucket key body, op = .put bucket key body ∧ ∀ bucket' key', objectAt run (now + 1) bucket' key' =
      if bucket' = bucket ∧ key' = key then some body else objectAt run now bucket' key') ∨
    ∃ bucket keys, ∃ gone ⊆ keys, op = .delete bucket keys ∧
      ∀ bucket' key, objectAt run (now + 1) bucket' key =
        if bucket' = bucket ∧ key ∈ gone then none else objectAt run now bucket' key := by
  obtain ⟨_, _, performs, _⟩ := performed
  cases op with
  | put bucket key body =>
      obtain ⟨-, ⟨same, -⟩ | wrote⟩ := performs_put performs
      · exact .inl same
      · exact .inr (.inl ⟨bucket, key, body, rfl, wrote⟩)
  | delete bucket keys =>
      obtain ⟨-, gone, inside, -, left⟩ := performs_delete performs
      exact .inr (.inr ⟨bucket, keys, gone, inside, rfl, left⟩)
  | nowUtc | list _ _ | get _ _ | takePending _ | fetchSeq _ =>
      refine .inl fun bucket key => ?_
      rw [objectAt, objectAt, CounterStore.object, CounterStore.object,
        (performs_other performs nofun nofun).2]

/-- What one instant does to the objects. -/
theorem objects_step (trace : ThreadPool.Trace (counters config) run) (now : ℕ) :
    todayAt run now ≤ todayAt run (now + 1) ∧
    ((∀ bucket key, objectAt run (now + 1) bucket key = objectAt run now bucket key) ∨
    (∃ thread call bucket key body answer,
      ThreadPool.Performed (counters config) run thread now call (.put bucket key body) answer ∧
      ∀ bucket' key', objectAt run (now + 1) bucket' key' =
        if bucket' = bucket ∧ key' = key then some body else objectAt run now bucket' key') ∨
    ∃ thread call bucket keys answer, ∃ gone ⊆ keys,
      ThreadPool.Performed (counters config) run thread now call (.delete bucket keys) answer ∧
      (answer = .ok () → gone = keys) ∧ ∀ bucket' key, objectAt run (now + 1) bucket' key =
        if bucket' = bucket ∧ key ∈ gone then none else objectAt run now bucket' key) := by
  have still (same : (run (now + 1)).store.objects = (run now).store.objects) (bucket : β)
      (key : Key β) : objectAt run (now + 1) bucket key = objectAt run now bucket key := by
    rw [objectAt, objectAt, CounterStore.object, CounterStore.object, same]
  obtain ⟨thread, call, op, answer, performed⟩ | ⟨_, _, _, next⟩ | ⟨⟨later, le, next⟩, _⟩ |
    ⟨_, _, _, next, _⟩ | next := trace.cases now
  · have ⟨_, _, performs, _⟩ := performed
    cases op with
    | put bucket key body =>
        obtain ⟨today, ⟨same, -⟩ | wrote⟩ := performs_put performs
        · exact ⟨today.ge, .inl same⟩
        · exact ⟨today.ge, .inr (.inl ⟨thread, call, bucket, key, body, answer, performed, wrote⟩)⟩
    | delete bucket keys =>
        obtain ⟨today, gone, inside, exact_, left⟩ := performs_delete performs
        exact ⟨today.ge, .inr (.inr ⟨thread, call, bucket, keys, answer, gone, inside, performed,
          exact_, left⟩)⟩
    | nowUtc | list _ _ | get _ _ | takePending _ | fetchSeq _ =>
        obtain ⟨today, same⟩ := performs_other performs nofun nofun
        exact ⟨today.ge, .inl (still same)⟩
  · exact ⟨by rw [todayAt, todayAt, next, ThreadPool.Config.setThread_store],
      .inl (still (by rw [next, ThreadPool.Config.setThread_store]))⟩
  · exact ⟨by rw [todayAt, todayAt, next]; exact le, .inl (still (by rw [next]))⟩
  · have same : (run (now + 1)).store = (run now).store := next
    exact ⟨by rw [todayAt, todayAt, same], .inl (still (by rw [same]))⟩
  · exact ⟨by rw [todayAt, todayAt, next], .inl (still (by rw [next]))⟩

theorem today_mono (trace : ThreadPool.Trace (counters config) run) : Monotone (todayAt run) :=
  monotone_nat_of_le_succ fun now => (objects_step trace now).1

/-- The first day inside retention. -/
def retainFrom (config : CounterConfig) (run : CountersRun β) (now : ℕ) : ℕ :=
  todayAt run now - config.retentionDays

theorem retainFrom_mono (trace : ThreadPool.Trace (counters config) run) {now later : ℕ}
    (le : now ≤ later) : retainFrom config run now ≤ retainFrom config run later :=
  Nat.sub_le_sub_right (today_mono trace le) _

end Run

section Listings
variable {β : Type} [DecidableEq β] {run : CountersRun β} {instant : ℕ} {bucket : β} {id : DayShard}
variable {keys segKeys : List (Key β)}

/-- A pass's view of a bucket: its keys at one instant. -/
def Listed (run : CountersRun β) (instant : ℕ) (bucket : β) (scope : Scope) (keys : List (Key β)) :
    Prop :=
  keys.Nodup ∧ ∀ key, key ∈ keys ↔ objectAt run instant bucket key ≠ none ∧ scope.covers key

theorem listed_of_perm (same : keys.Perm ((run instant).store.keysIn bucket scope)) :
    Listed run instant bucket scope keys := by
  refine ⟨same.nodup_iff.mpr (keysIn_nodup _ _ _), fun key => ?_⟩
  rw [same.mem_iff, mem_keysIn]
  rfl

/-- A pass's view of one day-shard's segments, taken at `instant`. -/
structure Group (run : CountersRun β) (instant : ℕ) (bucket : β) (id : DayShard)
    (segKeys : List (Key β)) : Prop where
  nodup : segKeys.Nodup
  mem : ∀ key, key ∈ segKeys ↔ key.segmentOf = some id ∧ objectAt run instant bucket key ≠ none
  nonempty : segKeys ≠ []

omit [DecidableEq β] in
theorem segmentOf_eq_some {key : Key β} (segment : key.segmentOf = some id) :
    ∃ node seq, key = .seg id node seq := by
  cases key with
  | seg id' node seq =>
      cases segment
      exact ⟨node, seq, rfl⟩
  | frozen _ _ => cases segment
  | summary _ _ _ => cases segment

/-- A listing grouped by day-shard. -/
theorem group_parse (listed : Listed run instant bucket .all keys)
    (member : (id, segKeys) ∈ (Layout.parse keys bucket).segments) :
    Group run instant bucket id segKeys := by
  obtain ⟨id', found, same⟩ := List.mem_map.mp member
  cases same
  obtain ⟨key, there, segment⟩ := List.mem_filterMap.mp (List.mem_dedup.mp found)
  refine ⟨listed.1.filter _, fun key' => ?_, ?_⟩
  · rw [List.mem_filter, listed.2 key']
    simp [Scope.covers, and_comm]
  · exact List.ne_nil_of_mem (List.mem_filter.mpr ⟨there, by simpa using segment⟩)

theorem frozen_parse (listed : Listed run instant bucket .all keys) (id : DayShard) :
    id ∈ (Layout.parse keys bucket).frozen ↔ objectAt run instant bucket (.frozen id bucket) ≠ none := by
  rw [Layout.parse, List.mem_filterMap]
  constructor
  · rintro ⟨key, member, same⟩
    cases key with
    | seg _ _ _ | summary _ _ _ => cases same
    | frozen id' owner =>
        simp only [Option.ite_none_right_eq_some, Option.some.injEq] at same
        obtain ⟨rfl, rfl⟩ := same
        exact ((listed.2 _).mp member).1
  · intro there
    exact ⟨_, (listed.2 _).mpr ⟨there, rfl⟩, by simp⟩

end Listings

end Pypiron.Counters
