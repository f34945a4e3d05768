import Pypiron.Counters

/-! What the queries report of buckets that stand still. -/
namespace Pypiron.Counters
open Program
variable {β : Type} [DecidableEq β] {α γ : Type} {store : CounterStore β}
variable {bucket primary : β} {keys : List (Key β)} {metric : String} {day : ℕ}

theorem observe_bind {program : CounterM β α} {value : α} {rest : α → CounterM β γ}
    (first : observe store program = .ok value) :
    observe store (program >>= rest) = observe store (rest value) := by
  induction program with
  | done result =>
      obtain rfl : result = .ok value := first
      rfl
  | call op next ih => exact ih _ first

/-- Programs observed alike go on alike. -/
theorem observe_bind_congr {program program' : CounterM β α} {rest rest' : α → CounterM β γ}
    (first : observe store program = observe store program')
    (second : ∀ value, observe store (rest value) = observe store (rest' value)) :
    observe store (program >>= rest) = observe store (program' >>= rest') := by
  have split (program : CounterM β α) (rest : α → CounterM β γ) :
      observe store (program >>= rest) =
        (observe store program).bind fun value => observe store (rest value) := by
    induction program with
    | done result =>
        cases result with
        | ok value => rfl
        | error error => rfl
    | call op next ih => exact ih _
  rw [split, split, first]
  exact congrArg _ (funext second)

theorem observe_sumSegments (acc : BucketMap) :
    observe store (sumSegments bucket keys acc) =
      .ok (some (acc + (keys.map (tallyOf store bucket)).sum)) := by
  induction keys generalizing acc with
  | nil => exact congrArg (Except.ok ∘ some) (Multiset.add_zero acc).symm
  | cons key rest ih =>
      have reads : observe store (get bucket key) = .ok (Except.ok (store.object bucket key)) := rfl
      rw [sumSegments, observe_bind reads, List.map_cons, List.sum_cons, tallyOf]
      cases store.object bucket key with
      | none => exact (ih acc).trans (by rw [Option.elim_none, Multiset.zero_add])
      | some body => exact (ih _).trans (by rw [Option.elim_some, Multiset.add_assoc])

/-- The rollups among some keys, as a summary sums them. -/
def rolledTally (store : CounterStore β) (primary : β) : Key β → Multiset String
  | .frozen id owner => foldBuckets (tallyOf store primary (.frozen id owner))
  | .seg _ _ _ => 0
  | .summary _ _ _ => 0

theorem observe_foldFrozen (store : CounterStore β) (primary : β) (keys : List (Key β))
    (frozen : List (Char × β)) (totals : Multiset String) :
    ∃ found, observe store (foldFrozen primary keys frozen totals) =
      .ok (found, totals + (keys.map (rolledTally store primary)).sum) ∧
      ∀ entry, entry ∈ found ↔ entry ∈ frozen ∨ ∃ id owner, .frozen id owner ∈ keys ∧
        store.object primary (.frozen id owner) ≠ none ∧ (id.shard, owner) = entry := by
  induction keys generalizing frozen totals with
  | nil => exact ⟨frozen, congrArg (fun totals => Except.ok (frozen, totals)) (Multiset.add_zero _).symm,
      fun entry => by simp⟩
  | cons key rest ih =>
      cases key with
      | seg id node seq =>
          obtain ⟨found, same, mem⟩ := ih frozen totals
          refine ⟨found, ?_, fun entry => by simp [mem entry]⟩
          rw [List.map_cons, List.sum_cons, rolledTally, Multiset.zero_add]
          exact same
      | summary metric day owner =>
          obtain ⟨found, same, mem⟩ := ih frozen totals
          refine ⟨found, ?_, fun entry => by simp [mem entry]⟩
          rw [List.map_cons, List.sum_cons, rolledTally, Multiset.zero_add]
          exact same
      | frozen id owner =>
          have reads : observe store (get primary (.frozen id owner)) =
            .ok (Except.ok (store.object primary (.frozen id owner))) := rfl
          rw [foldFrozen, observe_bind reads, List.map_cons, List.sum_cons, rolledTally, tallyOf]
          cases held : store.object primary (.frozen id owner) with
          | none =>
              obtain ⟨found, same, mem⟩ := ih frozen totals
              refine ⟨found, same.trans ?_, fun entry => ?_⟩
              · rw [Option.elim_none, foldBuckets, Multiset.map_zero, Multiset.zero_add]
              · rw [mem entry]
                refine or_congr_right ⟨?_, ?_⟩
                · rintro ⟨id', owner', member, there⟩
                  exact ⟨id', owner', List.mem_cons_of_mem _ member, there⟩
                · rintro ⟨id', owner', member, there, same⟩
                  obtain here | member := List.mem_cons.mp member
                  · cases here
                    exact absurd held there
                  · exact ⟨id', owner', member, there, same⟩
          | some body =>
              obtain ⟨found, same, mem⟩ := ih ((id.shard, owner) :: frozen)
                (totals + foldBuckets body.asSegment.buckets)
              refine ⟨found, same.trans ?_, fun entry => ?_⟩
              · rw [Option.elim_some, Multiset.add_assoc]
              · rw [mem entry, List.mem_cons]
                constructor
                · rintro ((rfl | old) | ⟨id', owner', member, there, rfl⟩)
                  · exact .inr ⟨id, owner, List.mem_cons_self, by simp [held], rfl⟩
                  · exact .inl old
                  · exact .inr ⟨id', owner', List.mem_cons_of_mem _ member, there, rfl⟩
                · rintro (old | ⟨id', owner', member, there, rfl⟩)
                  · exact .inl (.inr old)
                  · obtain here | member := List.mem_cons.mp member
                    · cases here
                      exact .inl (.inl rfl)
                    · exact .inr ⟨id', owner', member, there, rfl⟩

section Open
variable (store) (metric) (day)

/-- A bucket's live segments of the shards that are not frozen. -/
def openKeys (frozen : List (Char × β)) (bucket : β) : List (Key β) :=
  (store.keysIn bucket (.openDay metric day)).filter (·.isOpen bucket frozen)

def openTally (frozen : List (Char × β)) (bucket : β) : Multiset String :=
  foldBuckets ((openKeys store metric day frozen bucket).map (tallyOf store bucket)).sum

end Open

theorem observe_foldOpen (frozen : List (Char × β)) (buckets : List β) (totals : Multiset String)
    (any : Bool) :
    observe store (foldOpen metric day frozen buckets totals any) =
      .ok (totals + (buckets.map (openTally store metric day frozen)).sum,
        any || buckets.any fun bucket => !(openKeys store metric day frozen bucket).isEmpty) := by
  induction buckets generalizing totals any with
  | nil =>
      rw [List.any_nil, Bool.or_false]
      exact congrArg (fun totals => Except.ok (totals, any)) (Multiset.add_zero _).symm
  | cons bucket rest ih =>
      have lists : observe store (list bucket (.openDay metric day)) =
        .ok (Except.ok (store.keysIn bucket (.openDay metric day))) := rfl
      rw [foldOpen, observe_bind lists, List.map_cons, List.sum_cons, List.any_cons]
      have same : (store.keysIn bucket (.openDay metric day)).filter (·.isOpen bucket frozen) =
        openKeys store metric day frozen bucket := rfl
      dsimp only
      rw [same]
      cases nothing : (openKeys store metric day frozen bucket).isEmpty with
      | true =>
          rw [if_pos rfl, ih, Bool.not_true, Bool.false_or, openTally, List.isEmpty_iff.mp nothing,
            List.map_nil, List.sum_nil, foldBuckets, Multiset.map_zero, Multiset.zero_add]
      | false =>
          rw [if_neg Bool.false_ne_true, observe_bind (observe_sumSegments 0), Multiset.zero_add]
          refine (ih _ _).trans ?_
          rw [Bool.true_or, Bool.not_false, Bool.true_or, Bool.or_true, Multiset.add_assoc]
          rfl

section Congr
variable {left right : β} {peers peers' tags : List β}

/-- Two buckets with the same rollups list the same ones of a day. -/
theorem keysIn_perm (same : ∀ key, key.isRollup → store.object left key = store.object right key) :
    (store.keysIn left (.day metric day)).Perm (store.keysIn right (.day metric day)) := by
  refine (List.perm_ext_iff_of_nodup (keysIn_nodup _ _ _) (keysIn_nodup _ _ _)).mpr fun key => ?_
  rw [mem_keysIn, mem_keysIn]
  refine and_congr_left fun covered => ?_
  have rollup : key.isRollup := by
    cases key with
    | seg _ _ _ => cases covered
    | frozen _ _ | summary _ _ _ => rfl
  rw [same key rollup]

theorem openKeys_congr {frozen frozen' : List (Char × β)}
    (same : ∀ entry, entry ∈ frozen ↔ entry ∈ frozen') (bucket : β) :
    openKeys store metric day frozen bucket = openKeys store metric day frozen' bucket := by
  refine List.filter_congr fun key _ => ?_
  cases key with
  | seg id node seq => exact decide_eq_decide.mpr (not_congr (same _))
  | frozen _ _ | summary _ _ _ => rfl

theorem visited_perm (cover : ∀ bucket, bucket ∈ left :: peers ↔ bucket ∈ right :: peers') :
    (left :: peers).reverse.dedup.reverse.Perm (right :: peers').reverse.dedup.reverse := by
  refine (List.perm_ext_iff_of_nodup (List.nodup_reverse.mpr (List.nodup_dedup _))
    (List.nodup_reverse.mpr (List.nodup_dedup _))).mpr fun bucket => ?_
  simp only [List.mem_reverse, List.mem_dedup]
  exact cover bucket

theorem observe_summarizeOpenDay_congr
    (same : ∀ key, key.isRollup → store.object left key = store.object right key)
    (cover : ∀ bucket, bucket ∈ left :: peers ↔ bucket ∈ right :: peers') :
    observe store (summarizeOpenDay left peers metric day) =
      observe store (summarizeOpenDay right peers' metric day) := by
  have lists (primary : β) : observe store (list primary (.day metric day)) =
    .ok (Except.ok (store.keysIn primary (.day metric day))) := rfl
  have keys := @keysIn_perm β _ store metric day left right same
  obtain ⟨frozen, folds, mem⟩ :=
    observe_foldFrozen store left (store.keysIn left (.day metric day)) [] 0
  obtain ⟨frozen', folds', mem'⟩ :=
    observe_foldFrozen store right (store.keysIn right (.day metric day)) [] 0
  have frozenSame (entry : Char × β) : entry ∈ frozen ↔ entry ∈ frozen' := by
    rw [mem entry, mem' entry]
    refine or_congr_right (exists_congr fun id => exists_congr fun owner => ?_)
    rw [keys.mem_iff, same (.frozen id owner) rfl]
  have totals : (((store.keysIn left (.day metric day)).map (rolledTally store left)).sum) =
      ((store.keysIn right (.day metric day)).map (rolledTally store right)).sum := by
    have tallies : rolledTally store left = rolledTally store right := by
      funext key
      cases key with
      | seg _ _ _ | summary _ _ _ => rfl
      | frozen id owner => simp only [rolledTally, tallyOf, same (.frozen id owner) rfl]
    rw [tallies]
    exact (keys.map _).sum_eq
  rw [summarizeOpenDay, summarizeOpenDay, observe_bind (lists left), observe_bind (lists right)]
  dsimp only
  rw [observe_bind folds, observe_bind folds']
  dsimp only
  rw [observe_bind (observe_foldOpen _ _ _ _), observe_bind (observe_foldOpen _ _ _ _)]
  have visited := visited_perm cover
  have opens := @openKeys_congr β _ store metric day frozen frozen' frozenSame
  have tallies : openTally store metric day frozen = openTally store metric day frozen' :=
    funext fun bucket => by rw [openTally, openTally, opens bucket]
  have empty : (frozen ≠ []) = (frozen' ≠ []) := by
    rw [ne_eq, ne_eq, List.eq_nil_iff_forall_not_mem, List.eq_nil_iff_forall_not_mem]
    simp only [frozenSame]
  rw [totals, tallies, (visited.map _).sum_eq, visited.any_eq]
  simp only [empty, opens]

theorem observe_readSummaries_congr
    (same : ∀ key, key.isRollup → store.object left key = store.object right key)
    (total : ℕ) (tops : Multiset String) (frozen : Bool) :
    observe store (readSummaries left metric day tags total tops frozen) =
      observe store (readSummaries right metric day tags total tops frozen) := by
  induction tags generalizing total tops frozen with
  | nil => rfl
  | cons tag rest ih =>
      have reads (primary : β) : observe store (get primary (.summary metric day tag)) =
        .ok (Except.ok (store.object primary (.summary metric day tag))) := rfl
      rw [readSummaries, readSummaries, observe_bind (reads left), observe_bind (reads right),
        same (.summary metric day tag) rfl]
      cases store.object right (.summary metric day tag) with
      | none => exact ih _ _ _
      | some body =>
          cases body with
          | segment segment => exact ih _ _ _
          | summary summary => exact ih _ _ _

/-- Summaries do not depend on the bucket they are read from, once its rollups are
the same. -/
theorem observe_querySummaries_congr
    (same : ∀ key, key.isRollup → store.object left key = store.object right key)
    (cover : ∀ bucket, bucket ∈ left :: peers ↔ bucket ∈ right :: peers') (config : CounterConfig)
    (first last : ℕ) :
    observe store (querySummaries config left peers tags metric first last) =
      observe store (querySummaries config right peers' tags metric first last) := by
  refine observe_bind_congr rfl fun today => ?_
  generalize List.range' first (last - first + 1) = days
  induction days with
  | nil => rfl
  | cons day rest ih =>
      refine observe_bind_congr ?_ fun summary => observe_bind_congr ih fun later => rfl
      refine observe_bind_congr (observe_readSummaries_congr same 0 0 false) fun read => ?_
      obtain ⟨total, tops, frozen⟩ := read
      dsimp only
      split
      next => rfl
      next =>
        split
        next => exact observe_summarizeOpenDay_congr same cover
        next => rfl

end Congr

section Packages
variable {id : DayShard}

/-- What is read of a day-shard: the rollups the primary has, and the segments of
the buckets it has none of. -/
def shardTotal (store : CounterStore β) (primary : β) (tags buckets : List β) (id : DayShard) :
    BucketMap :=
  (tags.map fun tag => tallyOf store primary (.frozen id tag)).sum +
    ((buckets.filter fun bucket => bucket ∉ tags ∨ store.object primary (.frozen id bucket) = none).map
      fun bucket => segmentSum store bucket id).sum

theorem observe_readFrozen (store : CounterStore β) (primary : β) (id : DayShard) (tags frozen : List β)
    (acc : BucketMap) :
    ∃ found, observe store (readFrozen primary id tags frozen acc) =
      .ok (found, acc + (tags.map fun tag => tallyOf store primary (.frozen id tag)).sum) ∧
      ∀ tag, tag ∈ found ↔ tag ∈ frozen ∨
        (tag ∈ tags ∧ store.object primary (.frozen id tag) ≠ none) := by
  induction tags generalizing frozen acc with
  | nil => exact ⟨frozen, congrArg (fun total => Except.ok (frozen, total)) (Multiset.add_zero _).symm,
      fun tag => by simp⟩
  | cons tag rest ih =>
      have reads : observe store (get primary (.frozen id tag)) =
        .ok (Except.ok (store.object primary (.frozen id tag))) := rfl
      rw [readFrozen, observe_bind reads, List.map_cons, List.sum_cons, tallyOf]
      cases held : store.object primary (.frozen id tag) with
      | none =>
          obtain ⟨found, same, mem⟩ := ih frozen acc
          refine ⟨found, same.trans (by rw [Option.elim_none, Multiset.zero_add]), fun tag' => ?_⟩
          rw [mem tag', List.mem_cons]
          by_cases here : tag' = tag
          · simp [here, held]
          · simp [here]
      | some body =>
          obtain ⟨found, same, mem⟩ := ih (tag :: frozen) (acc + body.asSegment.buckets)
          refine ⟨found, same.trans (by rw [Option.elim_some, Multiset.add_assoc]), fun tag' => ?_⟩
          rw [mem tag', List.mem_cons, List.mem_cons]
          by_cases here : tag' = tag
          · simp [here, held]
          · simp [here]

theorem observe_readOpen (frozen buckets : List β) (acc : BucketMap) (any : Bool) :
    observe store (readOpen id frozen buckets acc any) =
      .ok (acc + ((buckets.filter (· ∉ frozen)).map fun bucket => segmentSum store bucket id).sum,
        any || (buckets.filter (· ∉ frozen)).any fun bucket =>
          !(store.keysIn bucket (.openShard id)).isEmpty) := by
  induction buckets generalizing acc any with
  | nil =>
      rw [List.filter_nil, List.any_nil, Bool.or_false]
      exact congrArg (fun total => Except.ok (total, any)) (Multiset.add_zero _).symm
  | cons bucket rest ih =>
      rw [readOpen]
      by_cases rolled : bucket ∈ frozen
      · rw [if_pos rolled, ih, List.filter_cons_of_neg (by simpa using rolled)]
      · have lists : observe store (list bucket (.openShard id)) =
          .ok (Except.ok (store.keysIn bucket (.openShard id))) := rfl
        rw [if_neg rolled, observe_bind lists, List.filter_cons_of_pos (by simpa using rolled),
          List.map_cons, List.sum_cons, List.any_cons, segmentSum]
        cases store.keysIn bucket (.openShard id) with
        | nil =>
            rw [List.map_nil, List.sum_nil, Multiset.zero_add]
            exact ih acc any
        | cons key keys =>
            dsimp only
            rw [observe_bind (observe_sumSegments 0), Multiset.zero_add]
            refine (ih _ _).trans ?_
            rw [Bool.true_or, List.isEmpty_cons, Bool.not_false, Bool.true_or, Bool.or_true,
              Multiset.add_assoc]

/-- A day-shard is read as its total, none when there is nothing to count. -/
theorem observe_readDayShard (store : CounterStore β) (primary : β) (peers tags : List β)
    (id : DayShard) :
    ∃ read, observe store (readDayShard primary peers tags id) = .ok read ∧
      read.getD 0 = shardTotal store primary tags (primary :: peers).reverse.dedup.reverse id := by
  obtain ⟨found, reads, mem⟩ := observe_readFrozen store primary id tags [] 0
  rw [readDayShard, observe_bind reads]
  dsimp only
  rw [observe_bind (observe_readOpen _ _ _ _), Multiset.zero_add]
  have unread (bucket : β) : bucket ∉ found ↔
      bucket ∉ tags ∨ store.object primary (.frozen id bucket) = none := by
    rw [mem bucket, or_iff_right List.not_mem_nil]
    by_cases held : store.object primary (.frozen id bucket) = none
    · simp [held]
    · simp [held]
  have same : (primary :: peers).reverse.dedup.reverse.filter (fun bucket => bucket ∉ found) =
      (primary :: peers).reverse.dedup.reverse.filter fun bucket =>
        bucket ∉ tags ∨ store.object primary (.frozen id bucket) = none :=
    List.filter_congr fun bucket _ => decide_eq_decide.mpr (unread bucket)
  rw [same]
  refine ⟨_, rfl, ?_⟩
  dsimp only
  split
  next => rfl
  next nothing =>
    -- nothing was read, so there is nothing to count
    rw [Bool.or_eq_true, not_or, decide_eq_true_eq, ne_eq, not_not] at nothing
    obtain ⟨unrolled, empty⟩ := nothing
    rw [shardTotal, Option.getD_none]
    have rollups : ∀ tag ∈ tags, tallyOf store primary (.frozen id tag) = 0 := by
      intro tag member
      by_cases held : store.object primary (.frozen id tag) = none
      · rw [tallyOf, held, Option.elim_none]
      · have there := (mem tag).mpr (.inr ⟨member, held⟩)
        rw [unrolled] at there
        cases there
    have segments : ∀ bucket ∈ (primary :: peers).reverse.dedup.reverse.filter (fun bucket =>
        bucket ∉ tags ∨ store.object primary (.frozen id bucket) = none),
        segmentSum store bucket id = 0 := by
      intro bucket member
      rw [List.any_eq_true, not_exists] at empty
      have none_ := empty bucket
      rw [not_and, Bool.not_eq_true, Bool.not_eq_false', List.isEmpty_iff] at none_
      rw [segmentSum, none_ member, List.map_nil, List.sum_nil]
    rw [List.map_congr_left rollups, List.map_congr_left segments]
    simp

/-- What a package's series reports of a day's counts. -/
def packageTally (pkg : String) (buckets : BucketMap) : Multiset String :=
  (foldBuckets buckets).filterMap (subKey pkg)

theorem packageTally_zero (pkg : String) : packageTally pkg 0 = 0 := rfl

theorem packageTally_add (pkg : String) (left right : BucketMap) :
    packageTally pkg (left + right) = packageTally pkg left + packageTally pkg right := by
  rw [packageTally, foldBuckets, Multiset.map_add, Multiset.filterMap_add]
  rfl

theorem observe_queryPackageDay (store : CounterStore β) (primary : β) (peers tags : List β)
    (metric pkg : String) (day : ℕ) :
    observe store (queryPackageDay primary peers tags metric pkg day) =
      .ok (packageTally pkg (shardTotal store primary tags (primary :: peers).reverse.dedup.reverse
        ⟨metric, day, shardOf pkg⟩)) := by
  obtain ⟨read, reads, total⟩ :=
    observe_readDayShard store primary peers tags ⟨metric, day, shardOf pkg⟩
  rw [queryPackageDay, observe_bind reads, ← total]
  cases read with
  | none => rfl
  | some buckets => rfl

/-- A series of the days something was counted on. -/
def seriesOf (tally : ℕ → Multiset String) (days : List ℕ) : List (ℕ × Multiset String) :=
  days.filterMap fun day => if tally day = 0 then none else some (day, tally day)

theorem seriesOf_cons (tally : ℕ → Multiset String) (day : ℕ) (rest : List ℕ) :
    seriesOf tally (day :: rest) =
      if tally day = 0 then seriesOf tally rest else (day, tally day) :: seriesOf tally rest := by
  by_cases nothing : tally day = 0
  · simp [seriesOf, nothing]
  · simp [seriesOf, nothing]

theorem observe_queryPackage (store : CounterStore β) (primary : β) (peers tags : List β)
    (metric pkg : String) (first last : ℕ) :
    observe store (queryPackage primary peers tags metric pkg first last) =
      .ok (seriesOf (fun day => packageTally pkg (shardTotal store primary tags
        (primary :: peers).reverse.dedup.reverse ⟨metric, day, shardOf pkg⟩))
        (List.range' first (last - first + 1))) := by
  rw [queryPackage]
  generalize List.range' first (last - first + 1) = days
  induction days with
  | nil => rfl
  | cons day rest ih =>
      rw [queryPackageOn, observe_bind (observe_queryPackageDay _ _ _ _ _ _ _), observe_bind ih,
        seriesOf_cons]
      rfl

end Packages

end Pypiron.Counters
