import Mathlib.Algebra.GroupWithZero.Nat
import Pypiron.Status

/-! Order independence of status reconciliation over a fleet of any size. One
specification of a reconcile call yields the step facts; the run facts follow by
induction on the run. -/
namespace Pypiron.Status
open RankedMerge

variable {ι : Type*} [DecidableEq ι] {sha256 : Bytes → String}
variable {encode : StoredProjectStatus → Bytes} {pkg : String} {left right : ι}
variable {fleet next last : ι → StatusCell}

/-- The event a bucket stores, without its etag. -/
def events (fleet : ι → StatusCell) (i : ι) : Option StoredProjectStatus := (fleet i).value

/-- The document a reader of the bucket is shown. -/
def effective (fleet : ι → StatusCell) (i : ι) : ProjectStatusDoc :=
  ((events fleet i).map (·.doc)).getD default

def stored (fleet : ι → StatusCell) : Set StoredProjectStatus := {e | ∃ i, events fleet i = some e}

theorem readStatusVersioned_value (cell : StatusCell) :
    (readStatusVersioned cell).map (·.toStoredProjectStatus) = cell.value := by
  simp only [readStatusVersioned, VersionedCell.value, VersionedCell.get, Option.map_map]
  rfl

theorem putStatusIfVersion_read (cell : StatusCell) (event : StoredProjectStatus) :
    putStatusIfVersion cell ((readStatusVersioned cell).map (·.etag)) event =
      (true, cell.write event) := by
  cases found : cell.get with
  | none =>
      simp [putStatusIfVersion, readStatusVersioned, found,
        VersionedCell.putIfNoneMatch_of_get found]
  | some version =>
      simp [putStatusIfVersion, readStatusVersioned, found,
        VersionedCell.putIfMatch_of_get found]

theorem events_update (fleet : ι → StatusCell) (i : ι) (event : StoredProjectStatus) :
    events (Function.update fleet i ((fleet i).write event)) =
      Function.update (events fleet) i (some event) := by
  funext k
  by_cases here : k = i
  · subst here
    simp [events]
  · simp [events, here]

theorem statusMerge_a_some {b : Option StoredProjectStatus}
    (chosen : statusMerge sha256 encode a b = .a) : ∃ winner, a = some winner := by
  rcases a with _ | a
  · rcases b with _ | b <;> simp only [statusMerge] at chosen
    · cases chosen
    · split at chosen <;> cases chosen
  · exact ⟨a, rfl⟩

theorem statusMerge_b_some {a : Option StoredProjectStatus}
    (chosen : statusMerge sha256 encode a b = .b) : ∃ winner, b = some winner := by
  rcases b with _ | b
  · rcases a with _ | a <;> simp only [statusMerge] at chosen
    · cases chosen
    · split at chosen <;> cases chosen
  · exact ⟨b, rfl⟩

/-- Everything one call can do: without a concurrent writer the first attempt
decides, so the error branches are not taken. -/
theorem reconcileStatusPair_spec (sha256 : Bytes → String)
    (encode : StoredProjectStatus → Bytes) (pkg : String) (left right : ι)
    (fleet : ι → StatusCell) :
    (statusMerge sha256 encode (events fleet left) (events fleet right) = .equal ∧
      reconcileStatusPair sha256 encode pkg left right fleet = (.ok .inSync, fleet)) ∨
    (∃ winner, statusMerge sha256 encode (events fleet left) (events fleet right) = .a ∧
      events fleet left = some winner ∧
      reconcileStatusPair sha256 encode pkg left right fleet =
        (.ok .updatedRight, Function.update fleet right ((fleet right).write winner))) ∨
    (∃ winner, statusMerge sha256 encode (events fleet left) (events fleet right) = .b ∧
      events fleet right = some winner ∧
      reconcileStatusPair sha256 encode pkg left right fleet =
        (.ok .updatedLeft, Function.update fleet left ((fleet left).write winner))) := by
  have readLeft := readStatusVersioned_value (fleet left)
  have readRight := readStatusVersioned_value (fleet right)
  rw [reconcileStatusPair, show statusCasAttempts = 7 + 1 from rfl]
  generalize 7 = attempts
  rw [reconcileStatusLoop]
  simp only [events, readLeft, readRight]
  cases chosen : statusMerge sha256 encode (fleet left).value (fleet right).value with
  | equal => exact .inl ⟨rfl, rfl⟩
  | a =>
      obtain ⟨winner, present⟩ := statusMerge_a_some chosen
      rw [present, Option.map_eq_some_iff] at readLeft
      obtain ⟨observed, read, rfl⟩ := readLeft
      refine .inr (.inl ⟨_, rfl, present, ?_⟩)
      simp [read, putStatusIfVersion_read]
  | b =>
      obtain ⟨winner, present⟩ := statusMerge_b_some chosen
      rw [present, Option.map_eq_some_iff] at readRight
      obtain ⟨observed, read, rfl⟩ := readRight
      refine .inr (.inr ⟨_, rfl, present, ?_⟩)
      simp [read, putStatusIfVersion_read]

/-- A completed reconcile call on some pair. -/
def Step (sha256 : Bytes → String) (encode : StoredProjectStatus → Bytes) (pkg : String)
    (fleet next : ι → StatusCell) : Prop :=
  ∃ left right outcome,
    reconcileStatusPair sha256 encode pkg left right fleet = (.ok outcome, next)

abbrev Reaches (sha256 : Bytes → String) (encode : StoredProjectStatus → Bytes) (pkg : String) :
    (ι → StatusCell) → (ι → StatusCell) → Prop :=
  Relation.ReflTransGen (Step sha256 encode pkg)

def AllInSync (sha256 : Bytes → String) (encode : StoredProjectStatus → Bytes) (pkg : String)
    (fleet : ι → StatusCell) : Prop :=
  ∀ left right, (reconcileStatusPair sha256 encode pkg left right fleet).1 = .ok .inSync

/-- Distinct events of the fleet have distinct encodings, and distinct encodings
distinct digests. -/
structure Separated (sha256 : Bytes → String) (encode : StoredProjectStatus → Bytes)
    (events : Set StoredProjectStatus) : Prop where
  encode_injOn : Set.InjOn encode events
  collisionFree : Set.InjOn sha256 (encode '' events)

theorem Separated.mono {events more : Set StoredProjectStatus}
    (separated : Separated sha256 encode more) (subset : events ⊆ more) :
    Separated sha256 encode events :=
  ⟨separated.encode_injOn.mono subset, separated.collisionFree.mono (Set.image_mono subset)⟩

theorem Separated.digest {events : Set StoredProjectStatus}
    (separated : Separated sha256 encode events) (ha : a ∈ events) (hb : b ∈ events) :
    sha256 (encode a) = sha256 (encode b) → encode a = encode b :=
  separated.collisionFree ⟨a, ha, rfl⟩ ⟨b, hb, rfl⟩

def statusRank (sha256 : Bytes → String) (encode : StoredProjectStatus → Bytes)
    (event : StoredProjectStatus) : (Bool ×ₗ Nat ×ₗ Nat ×ₗ Bool) ×ₗ Stringᵒᵈ :=
  rank sha256 (statusKey event) (encode event)

theorem Separated.statusRank_injOn {events : Set StoredProjectStatus}
    (separated : Separated sha256 encode events) :
    Set.InjOn (statusRank sha256 encode) events := by
  intro a ha b hb same
  exact separated.encode_injOn ha hb (separated.digest ha hb (rank_eq.mp same).2)

/-- The choice is the same whichever side is named first. -/
theorem statusMerge_of_b {a : Option StoredProjectStatus} {winner : StoredProjectStatus}
    (separated : ∀ loser, a = some loser →
      sha256 (encode winner) = sha256 (encode loser) → encode winner = encode loser)
    (chosen : statusMerge sha256 encode a (some winner) = .b) :
    statusMerge sha256 encode (some winner) a = .a := by
  rcases a with _ | loser
  · simp only [statusMerge] at chosen ⊢
    split at chosen <;> simp_all
  · exact (rankedMerge_eq_a (separated loser rfl)).mpr (rankedMerge_eq_b.mp chosen)

/-- A winning event lies above whatever event it replaces. -/
theorem statusMerge_a_rank {winner loser : StoredProjectStatus}
    (separated : sha256 (encode winner) = sha256 (encode loser) → encode winner = encode loser)
    (chosen : statusMerge sha256 encode (some winner) (some loser) = .a) :
    statusRank sha256 encode loser < statusRank sha256 encode winner :=
  (rankedMerge_eq_a separated).mp chosen

/-- One step in the terms of the merge alone: nothing changed, or one bucket
adopted an event stored elsewhere that beats what the bucket held. -/
theorem step_adopts (separated : Separated sha256 encode (stored fleet))
    (step : Step sha256 encode pkg fleet next) :
    next = fleet ∨ ∃ source target winner, events fleet source = some winner ∧
      statusMerge sha256 encode (some winner) (events fleet target) = .a ∧
      events next = Function.update (events fleet) target (some winner) := by
  obtain ⟨left, right, outcome, called⟩ := step
  obtain ⟨-, result⟩ | ⟨winner, chosen, present, result⟩ | ⟨winner, chosen, present, result⟩ :=
    reconcileStatusPair_spec sha256 encode pkg left right fleet
  · rw [result, Prod.mk.injEq] at called
    exact .inl called.2.symm
  · rw [result, Prod.mk.injEq] at called
    refine .inr ⟨left, right, winner, present, present ▸ chosen, ?_⟩
    rw [← called.2, events_update]
  · rw [result, Prod.mk.injEq] at called
    refine .inr ⟨right, left, winner, present, ?_, ?_⟩
    · refine statusMerge_of_b (fun loser held => ?_) (present ▸ chosen)
      exact separated.digest ⟨right, present⟩ ⟨left, held⟩
    · rw [← called.2, events_update]

theorem step_stored (separated : Separated sha256 encode (stored fleet))
    (step : Step sha256 encode pkg fleet next) : stored next ⊆ stored fleet := by
  obtain rfl | ⟨source, target, winner, present, -, adopted⟩ := step_adopts separated step
  · exact subset_rfl
  · rintro event ⟨k, held⟩
    rw [adopted] at held
    by_cases here : k = target
    · subst here
      obtain rfl : winner = event := by simpa using held
      exact ⟨source, present⟩
    · exact ⟨k, by simpa [here] using held⟩

theorem step_upperBounds (separated : Separated sha256 encode (stored fleet))
    (step : Step sha256 encode pkg fleet next) :
    upperBounds (storedRanks (statusRank sha256 encode) (events next)) =
      upperBounds (storedRanks (statusRank sha256 encode) (events fleet)) := by
  obtain rfl | ⟨source, target, winner, present, chosen, adopted⟩ := step_adopts separated step
  · rfl
  · rw [adopted]
    refine upperBounds_storedRanks_update present fun loser held => ?_
    rw [held] at chosen
    exact (statusMerge_a_rank (separated.digest ⟨source, present⟩ ⟨target, held⟩) chosen).le

theorem reaches_stored (separated : Separated sha256 encode (stored fleet))
    (run : Reaches sha256 encode pkg fleet last) : stored last ⊆ stored fleet := by
  induction run with
  | refl => exact subset_rfl
  | tail _ step ih => exact (step_stored (separated.mono ih) step).trans ih

theorem reaches_upperBounds (separated : Separated sha256 encode (stored fleet))
    (run : Reaches sha256 encode pkg fleet last) :
    upperBounds (storedRanks (statusRank sha256 encode) (events last)) =
      upperBounds (storedRanks (statusRank sha256 encode) (events fleet)) := by
  induction run with
  | refl => rfl
  | tail run step ih =>
      exact (step_upperBounds (separated.mono (reaches_stored separated run)) step).trans ih

theorem reaches_nonempty (separated : Separated sha256 encode (stored fleet))
    (run : Reaches sha256 encode pkg fleet last) (initial : (stored fleet).Nonempty) :
    (stored last).Nonempty := by
  induction run with
  | refl => exact initial
  | tail run step ih =>
      obtain rfl | ⟨source, target, winner, -, -, adopted⟩ :=
        step_adopts (separated.mono (reaches_stored separated run)) step
      · exact ih
      · exact ⟨winner, target, by simp [adopted]⟩

theorem AllInSync.merge (settled : AllInSync sha256 encode pkg fleet) (left right : ι) :
    statusMerge sha256 encode (events fleet left) (events fleet right) = .equal := by
  have outcome := settled left right
  obtain ⟨equal, -⟩ | ⟨winner, -, -, result⟩ | ⟨winner, -, -, result⟩ :=
    reconcileStatusPair_spec sha256 encode pkg left right fleet
  · exact equal
  · simp [result] at outcome
  · simp [result] at outcome

/-- Two stored events in sync are the same event. -/
theorem AllInSync.unique (separated : Separated sha256 encode (stored fleet))
    (settled : AllInSync sha256 encode pkg fleet) (left : events fleet i = some a)
    (right : events fleet j = some b) : a = b := by
  have equal := settled.merge i j
  rw [left, right] at equal
  exact separated.encode_injOn ⟨i, left⟩ ⟨j, right⟩ (rankedMerge_eq_equal.mp equal).2

/-- A bucket with no marker in sync with a stored event shows that event's
document, because the event is a default one. -/
theorem AllInSync.effective (separated : Separated sha256 encode (stored fleet))
    (settled : AllInSync sha256 encode pkg fleet) (held : events fleet i = some event) (j : ι) :
    effective fleet j = event.doc := by
  unfold Status.effective
  cases other : events fleet j with
  | none =>
      have equal := settled.merge i j
      simp only [held, other, statusMerge] at equal
      split at equal
      · rename_i fallback
        simp only [isDefault, Bool.and_eq_true, beq_iff_eq] at fallback
        simp [fallback.2]
      · cases equal
  | some document => simp [settled.unique separated held other]

theorem AllInSync.upperBounds (separated : Separated sha256 encode (stored fleet))
    (settled : AllInSync sha256 encode pkg fleet) (held : events fleet i = some event) :
    upperBounds (storedRanks (statusRank sha256 encode) (events fleet)) =
      Set.Ici (statusRank sha256 encode event) := by
  have only : storedRanks (statusRank sha256 encode) (events fleet) =
      {statusRank sha256 encode event} := by
    ext r
    constructor
    · rintro ⟨k, document, found, rfl⟩
      rw [settled.unique separated held found, Set.mem_singleton_iff]
    · rintro rfl
      exact ⟨i, event, held, rfl⟩
  rw [only, upperBounds_singleton]

/-- Two settled ends of runs from one fleet store the same event, if any. -/
theorem settled_event (separated : Separated sha256 encode (stored fleet))
    (first : Reaches sha256 encode pkg fleet next) (second : Reaches sha256 encode pkg fleet last)
    (firstSettled : AllInSync sha256 encode pkg next)
    (secondSettled : AllInSync sha256 encode pkg last) (held : events next i = some a)
    (found : events last j = some b) : a = b := by
  have firstStored := reaches_stored separated first
  have secondStored := reaches_stored separated second
  have bounds := (reaches_upperBounds separated first).trans
    (reaches_upperBounds separated second).symm
  rw [firstSettled.upperBounds (separated.mono firstStored) held,
    secondSettled.upperBounds (separated.mono secondStored) found, Set.Ici_inj] at bounds
  exact separated.statusRank_injOn (firstStored ⟨i, held⟩) (secondStored ⟨j, found⟩) bounds

theorem settled_effective (separated : Separated sha256 encode (stored fleet))
    (first : Reaches sha256 encode pkg fleet next) (second : Reaches sha256 encode pkg fleet last)
    (firstSettled : AllInSync sha256 encode pkg next)
    (secondSettled : AllInSync sha256 encode pkg last) (i j : ι) :
    effective next i = effective last j := by
  have firstSeparated := separated.mono (reaches_stored separated first)
  have secondSeparated := separated.mono (reaches_stored separated second)
  by_cases empty : (stored fleet).Nonempty
  · obtain ⟨a, k, held⟩ := reaches_nonempty separated first empty
    obtain ⟨b, l, found⟩ := reaches_nonempty separated second empty
    rw [firstSettled.effective firstSeparated held, secondSettled.effective secondSeparated found,
      settled_event separated first second firstSettled secondSettled held found]
  · have none_of : ∀ {fleet' : ι → StatusCell} (k : ι), stored fleet' ⊆ stored fleet →
        events fleet' k = none := by
      intro fleet' k subset
      by_contra present
      obtain ⟨event, held⟩ := Option.ne_none_iff_exists'.mp present
      exact empty ⟨event, subset ⟨k, held⟩⟩
    simp only [effective, none_of i (reaches_stored separated first),
      none_of j (reaches_stored separated second)]

/-- A relayed event never beats one an operator wrote. -/
theorem statusMerge_operator {winner loser : StoredProjectStatus}
    (separated : sha256 (encode winner) = sha256 (encode loser) → encode winner = encode loser)
    (chosen : statusMerge sha256 encode (some winner) (some loser) = .a)
    (operator : loser.origin ≠ some .mirror) : winner.origin ≠ some .mirror := by
  intro relayed
  have raised := statusMerge_a_rank separated chosen
  rw [statusRank, statusRank, rank_lt] at raised
  have below : statusKey winner < statusKey loser := by
    have authored : (loser.origin != some .mirror) = true := by simpa using operator
    simp [statusKey, Prod.Lex.toLex_lt_toLex, relayed, authored]
  rcases raised with above | ⟨same, -⟩
  · exact absurd above (not_lt_of_gt below)
  · exact absurd same (ne_of_gt below)

theorem reconcileStatusPair_ok (sha256 : Bytes → String) (encode : StoredProjectStatus → Bytes)
    (pkg : String) (left right : ι) (fleet : ι → StatusCell) : ∃ outcome next,
      reconcileStatusPair sha256 encode pkg left right fleet = (.ok outcome, next) := by
  obtain ⟨-, result⟩ | ⟨winner, -, -, result⟩ | ⟨winner, -, -, result⟩ :=
    reconcileStatusPair_spec sha256 encode pkg left right fleet
  all_goals exact ⟨_, _, result⟩

/-- Status reconciliation over any number of buckets, absence included. Settled
ends of any two schedules show one document on every bucket. Along a run every
call completes, a bucket is only ever raised in the merge order, and an
operator's event is never replaced by a relayed one. -/
theorem status_convergence {ι : Type*} [DecidableEq ι] (sha256 : Bytes → String)
    (encode : StoredProjectStatus → Bytes) (pkg : String) (fleet : ι → StatusCell)
    (separated : Separated sha256 encode (stored fleet)) :
    (∀ next last, Reaches sha256 encode pkg fleet next → Reaches sha256 encode pkg fleet last →
      AllInSync sha256 encode pkg next → AllInSync sha256 encode pkg last →
      ∀ i j, effective next i = effective last j) ∧
    (∀ reached, Reaches sha256 encode pkg fleet reached → ∀ left right,
      ∃ outcome next, reconcileStatusPair sha256 encode pkg left right reached =
          (.ok outcome, next) ∧
        (∀ k, events next k = events reached k ∨
          statusMerge sha256 encode (events next k) (events reached k) = .a) ∧
        ∀ k event, events reached k = some event → event.origin ≠ some .mirror →
          ∃ kept, events next k = some kept ∧ kept.origin ≠ some .mirror) := by
  refine ⟨fun next last first second => settled_effective separated first second, ?_⟩
  intro reached run left right
  have reachedSeparated := separated.mono (reaches_stored separated run)
  obtain ⟨outcome, next, called⟩ := reconcileStatusPair_ok sha256 encode pkg left right reached
  refine ⟨outcome, next, called, ?_⟩
  obtain rfl | ⟨source, target, winner, present, chosen, adopted⟩ :=
    step_adopts reachedSeparated ⟨left, right, outcome, called⟩
  · exact ⟨fun k => .inl rfl, fun k event held operator => ⟨event, held, operator⟩⟩
  · refine ⟨fun k => ?_, fun k event held operator => ?_⟩
    · by_cases here : k = target
      · subst here
        exact .inr (by simpa [adopted] using chosen)
      · exact .inl (by simp [adopted, here])
    · by_cases here : k = target
      · subst here
        rw [held] at chosen
        exact ⟨winner, by simp [adopted], statusMerge_operator
          (reachedSeparated.digest ⟨source, present⟩ ⟨k, held⟩) chosen operator⟩
      · exact ⟨event, by simpa [adopted, here] using held, operator⟩

def ascii (text : String) : Bytes := text.toList.map fun c => UInt8.ofNat c.toNat

def relayedQuarantine : StoredProjectStatus :=
  ⟨⟨.quarantined, some "malware"⟩, 5, some .mirror⟩

def operatorArchive : StoredProjectStatus := ⟨⟨.archived, none⟩, 1, some .priv⟩

/-- The stored form of the two events above. -/
def statusJson (event : StoredProjectStatus) : Bytes :=
  if event = relayedQuarantine then
    ascii ("\x7b\"status\":\"quarantined\",\"reason\":\"malware\"," ++
      "\"pypiron-epoch\":5,\"pypiron-origin\":\"mirror\"\x7d")
  else ascii "\x7b\"status\":\"archived\",\"pypiron-epoch\":1,\"pypiron-origin\":\"private\"\x7d"

def statusDigest (bytes : Bytes) : String :=
  if bytes = statusJson relayedQuarantine then
    "a191de3bd843e5f6620a33b95697d323c876697ca10a5c9bf03d4dafc0b2941d"
  else "3c2fef60fb6de771431b20eabff610503dfa9e0acf14f9660cabd8f2ac9ab7ef"

/-- Three buckets: no marker, a relayed quarantine, an operator's archive. -/
local instance buckets_neZero : NeZero 3 := ⟨by decide⟩

def splitStatus : Fin 3 → StatusCell
  | 0 => .empty
  | 1 => VersionedCell.empty.write relayedQuarantine
  | 2 => VersionedCell.empty.write operatorArchive

theorem splitStatus_separated : Separated statusDigest statusJson (stored splitStatus) := by
  have only : stored splitStatus ⊆ {relayedQuarantine, operatorArchive} := by
    rintro event ⟨i, held⟩
    match i with
    | 0 => cases held
    | 1 => exact .inl (Option.some.inj held).symm
    | 2 => exact .inr (Option.some.inj held).symm
  have apart : statusDigest (statusJson relayedQuarantine) ≠
      statusDigest (statusJson operatorArchive) := by decide
  refine Separated.mono ⟨?_, ?_⟩ only
  · rintro a (rfl | rfl) b (rfl | rfl) same
    · rfl
    · exact absurd (congrArg statusDigest same) apart
    · exact absurd (congrArg statusDigest same.symm) apart
    · rfl
  · rintro _ ⟨a, rfl | rfl, rfl⟩ _ ⟨b, rfl | rfl, rfl⟩ same
    · rfl
    · exact absurd same apart
    · exact absurd same.symm apart
    · rfl

/-- One schedule of the three buckets: the relayed event meets the operator's,
then the empty bucket adopts the winner. -/
def settledStatus : Fin 3 → StatusCell :=
  (reconcileStatusPair statusDigest statusJson "demo" 0 2
    (reconcileStatusPair statusDigest statusJson "demo" 1 2 splitStatus).2).2

theorem splitStatus_settles : Reaches statusDigest statusJson "demo" splitStatus settledStatus ∧
    AllInSync statusDigest statusJson "demo" settledStatus ∧
    effective settledStatus 0 = operatorArchive.doc := by
  refine ⟨?_, ?_, by decide⟩
  · exact .tail (.single ⟨1, 2, .updatedLeft, by rfl⟩) ⟨0, 2, .updatedLeft, by rfl⟩
  · unfold AllInSync
    decide

/-- The operator's archive outlives the relayed quarantine on every schedule. -/
theorem splitStatus_convergence :
    Separated statusDigest statusJson (stored splitStatus) ∧
      ∀ last, Reaches statusDigest statusJson "demo" splitStatus last →
        AllInSync statusDigest statusJson "demo" last →
        ∀ j, effective last j = operatorArchive.doc := by
  refine ⟨splitStatus_separated, fun last run settled j => ?_⟩
  obtain ⟨reached, inSync, archived⟩ := splitStatus_settles
  rw [← archived]
  exact (status_convergence statusDigest statusJson "demo" splitStatus
    splitStatus_separated).1 last settledStatus run reached settled inSync j 0

end Pypiron.Status
