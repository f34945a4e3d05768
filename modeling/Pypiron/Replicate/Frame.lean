import Pypiron.Replicate.Footprint

/-! What storage calls answer and change. A run leaves every object outside its
program's footprint as it was. -/
namespace Pypiron.Replicate
open Program StoreM
variable {ι : Type} [DecidableEq ι] {site : Site ι} {s t : Fleet ι} {i j : ι} {f g : String}
variable {k k' : Kind}

/-! ### Reads and writes -/

@[simp] theorem read_write_self (content : Option k.Content) :
    (s.write i f k content).read i f k = content := by
  simp [Fleet.read, Fleet.write, Package.set]

@[simp] theorem read_write_kind (other : k' ≠ k) (content : Option k.Content) :
    (s.write i f k content).read j g k' = s.read j g k' := by
  unfold Fleet.read Fleet.write
  by_cases bucket : j = i
  · subst bucket
    by_cases file : g = f
    · subst file
      simp [Package.set, other]
    · simp [Package.set, file]
  · simp [bucket]

theorem read_write_bucket (other : j ≠ i) (content : Option k.Content) :
    (s.write i f k content).read j g k' = s.read j g k' := by
  simp [Fleet.read, Fleet.write, other]

theorem read_write_file (other : g ≠ f) (content : Option k.Content) :
    (s.write i f k content).read j g k' = s.read j g k' := by
  unfold Fleet.read Fleet.write
  by_cases bucket : j = i
  · subst bucket
    simp [Package.set, other]
  · simp [bucket]

theorem read_write_of_ne {content : Option k.Content} (other : ¬(j = i ∧ g = f ∧ k' = k)) :
    (s.write i f k content).read j g k' = s.read j g k' := by
  by_cases kind : k' = k
  · by_cases bucket : j = i
    · apply read_write_file
      intro file
      exact other ⟨bucket, file, kind⟩
    · exact read_write_bucket bucket content
  · exact read_write_kind kind content

@[simp] theorem claim_write (content : Option k.Content) :
    ((s.write i f k content) j).claim = (s j).claim := by
  unfold Fleet.write
  by_cases bucket : j = i
  · subst bucket
    simp [Package.set]
  · simp [bucket]

@[simp] theorem read_setClaim (claim : OriginObservation) :
    (s.setClaim i claim).read j g k = s.read j g k := by
  unfold Fleet.read Fleet.setClaim
  by_cases bucket : j = i
  · subst bucket
    simp
  · simp [bucket]

theorem read_applyClaim (op : ClaimOp) : (applyClaim s i op).2.read j g k = s.read j g k := by
  unfold applyClaim
  split <;> (try split) <;> (try split) <;> simp

/-! ### Calls that are served -/

@[simp] theorem ends_get {content : Option k.Content} :
    Ends (apply site) (get i f k) s (.ok content) t ↔ content = s.read i f k ∧ t = s := by
  rw [StoreM.get, ends_request_ok, apply, Prod.mk.injEq, Except.ok.injEq]
  constructor
  · rintro ⟨rfl, rfl⟩
    exact ⟨rfl, rfl⟩
  · rintro ⟨rfl, rfl⟩
    exact ⟨rfl, rfl⟩

@[simp] theorem ends_headExists {found : Bool} :
    Ends (apply site) (headExists i f k) s (.ok found) t ↔
      found = (s.read i f k).isSome ∧ t = s := by
  simp [headExists, and_assoc]

@[simp] theorem ends_put {content : k.Content} {u : Unit} :
    Ends (apply site) (put i f k content) s (.ok u) t ↔ t = s.write i f k (some content) := by
  rw [StoreM.put, ends_request_ok, apply, Prod.mk.injEq]
  constructor
  · rintro ⟨-, rfl⟩
    rfl
  · rintro rfl
    exact ⟨rfl, rfl⟩

@[simp] theorem ends_delete {u : Unit} :
    Ends (apply site) (delete i f k) s (.ok u) t ↔ t = s.write i f k none := by
  rw [StoreM.delete, ends_request_ok, apply, Prod.mk.injEq]
  constructor
  · rintro ⟨-, rfl⟩
    rfl
  · rintro rfl
    exact ⟨rfl, rfl⟩

theorem ends_putIfAbsent {content : k.Content} {created : Bool} :
    Ends (apply site) (putIfAbsent i f k content) s (.ok created) t ↔
      (created = true ∧ s.read i f k = none ∧ t = s.write i f k (some content)) ∨
        (created = false ∧ (s.read i f k).isSome ∧ t = s) := by
  rw [StoreM.putIfAbsent, ends_request_ok, apply]
  cases found : s.read i f k <;> simp [eq_comm]

theorem ends_putIfMatch {expected content : k.Content} {replaced : Bool} :
    Ends (apply site) (putIfMatch i f k expected content) s (.ok replaced) t ↔
      (replaced = true ∧ s.read i f k = some expected ∧ t = s.write i f k (some content)) ∨
        (replaced = false ∧ s.read i f k ≠ some expected ∧ t = s) := by
  rw [StoreM.putIfMatch, ends_request_ok, apply]
  by_cases found : s.read i f k = some expected <;> simp [found, eq_comm]

@[simp] theorem ends_markCommit {u : Unit} :
    Ends (apply site) (markCommit i) s (.ok u) t ↔ t = s := by
  rw [StoreM.markCommit, ends_request_ok, apply, Prod.mk.injEq]
  constructor
  · rintro ⟨-, rfl⟩
    rfl
  · rintro rfl
    exact ⟨rfl, rfl⟩

/-! ### What a footprint leaves alone -/

section Footprints
variable {fp : Footprint ι} {α : Type} {program : StoreM ι α}

/-- An object outside the footprint is as it was. -/
theorem Within.read (within : Within fp program) (run : Cut (apply site) program s t)
    (create : ¬ fp.creates j g k) (replace : ¬ fp.replaces j g k) :
    t.read j g k = s.read j g k := by
  apply Only.cut within (fun later => later.read j g k = s.read j g k) _ rfl run
  intro op now allowed same
  rw [← same]
  cases op with
  | claim i op => exact read_applyClaim op
  | list i => rfl
  | get i f k' => rfl
  | put i f k' content =>
      apply read_write_of_ne
      rintro ⟨rfl, rfl, rfl⟩
      exact replace allowed
  | putIfAbsent i f k' content =>
      simp only [apply]
      split
      · rfl
      · apply read_write_of_ne
        rintro ⟨rfl, rfl, rfl⟩
        exact create allowed
  | putIfMatch i f k' expected content =>
      simp only [apply]
      split
      · apply read_write_of_ne
        rintro ⟨rfl, rfl, rfl⟩
        exact replace allowed
      · rfl
  | delete i f k' =>
      apply read_write_of_ne
      rintro ⟨rfl, rfl, rfl⟩
      exact replace allowed
  | serverSideCopy src dst f size =>
      simp only [apply]
      split
      · rfl
      · rfl
      · apply read_write_of_ne
        rintro ⟨rfl, rfl, rfl⟩
        exact replace allowed
  | mark i mark => rfl
  | reconcileStatus a b => rfl

/-- An object that may only be created stays once it is there. -/
theorem Within.stays (within : Within fp program) (run : Cut (apply site) program s t)
    (replace : ¬ fp.replaces j g k) {content : k.Content} (found : s.read j g k = some content) :
    t.read j g k = some content := by
  apply Only.cut within (fun later => later.read j g k = some content) _ found run
  intro op now allowed same
  by_cases creating : ∃ i f k' content, op = .putIfAbsent i f k' content
  · obtain ⟨i, f, k', content, rfl⟩ := creating
    simp only [apply]
    split
    · exact same
    · rename_i vacant
      rw [read_write_of_ne, same]
      rintro ⟨rfl, rfl, rfl⟩
      simp [same] at vacant
  · let narrow : Footprint ι := ⟨fun _ _ _ => False, fp.replaces⟩
    have permitted : narrow.permits op := by
      cases op <;> first | exact allowed | trivial | exact absurd ⟨_, _, _, _, rfl⟩ creating
    have program : Within narrow (request op) := ⟨permitted, fun _ => trivial⟩
    rw [← same]
    exact program.read (cut_request.mpr (Or.inr rfl)) id replace

end Footprints
/-! ### Records -/

def claimOf (s : Fleet ι) (i : ι) : Option Origin :=
  (s i).claim.bind fun observed => Origin.ofState observed.state

/-- What a bucket's objects under a filename read as. -/
def recordOf (s : Fleet ι) (i : ι) (f : String) : Record :=
  Record.fromListing (fun suffix => (s.read i f (Suffix.kind suffix)).isSome) (s.read i f .sidecar)
    (claimOf s i)

section Fields
omit [DecidableEq ι]

@[simp] theorem recordOf_sidecar : (recordOf s i f).sidecar = s.read i f .sidecar := rfl

@[simp] theorem recordOf_hasArtifact : (recordOf s i f).hasArtifact = (s.read i f .body).isSome := rfl

@[simp] theorem recordOf_frozen : (recordOf s i f).frozen = (s.read i f (.fence .frozen)).isSome :=
  rfl

@[simp] theorem recordOf_tombstoned :
    (recordOf s i f).tombstoned = (s.read i f (.fence .tombstone)).isSome := rfl

@[simp] theorem recordOf_mirrorQuarantined :
    (recordOf s i f).mirrorQuarantined = (s.read i f (.fence .mirrorQuarantined)).isSome := rfl

@[simp] theorem recordOf_leftovers :
    (recordOf s i f).leftovers = ((s.read i f .body).isSome || (s.read i f .sidecar).isSome ||
      (s.read i f (.companion .metadata)).isSome || (s.read i f (.companion .provenance)).isSome) :=
  rfl

end Fields

@[simp] theorem ends_readPkgOrigin {origin : Option Origin} :
    Ends (apply site) (readPkgOrigin i) s (.ok origin) t ↔ origin = claimOf s i ∧ t = s := by
  have read : onClaim i ClaimM.readOriginObservation = request (StoreOp.claim i .readObservation) :=
    rfl
  rw [readPkgOrigin, read, ends_bind_ok]
  simp only [ends_request_ok, apply, applyClaim, Prod.mk.injEq, Except.ok.injEq, pure_eq, ends_done,
    claimOf]
  constructor
  · rintro ⟨observed, u, ⟨rfl, rfl⟩, rfl, rfl⟩
    exact ⟨rfl, rfl⟩
  · rintro ⟨rfl, rfl⟩
    exact ⟨_, _, ⟨rfl, rfl⟩, rfl, rfl⟩

omit [DecidableEq ι] in
theorem has_listing : ((s i).listing).has f k = (s.read i f k).isSome := by
  simp [Listing.has, Package.listing, Fleet.read]

theorem ends_recordFromNames {pkg : String} {record : Record} {origin : Option Origin}
    (ended : Ends (apply site) (recordFromNames i pkg f (s i).listing origin) s (.ok record) t) :
    record = Record.fromListing (fun suffix => (s.read i f (Suffix.kind suffix)).isSome)
      (s.read i f .sidecar) origin ∧ t = s := by
  simp only [recordFromNames, has_listing, ends_bind_ok, pure_eq, ends_done, Except.ok.injEq] at ended
  obtain ⟨sidecar, u, read, rfl, rfl⟩ := ended
  unfold readListedSidecar at read
  split at read
  · rw [ends_bind_ok] at read
    obtain ⟨stored, v, got, rest⟩ := read
    obtain ⟨rfl, rfl⟩ := ends_get.mp got
    split at rest
    · exact absurd rest ends_bail
    · rename_i sc found
      split at rest
      · exact absurd rest ends_bail
      · obtain ⟨same, rfl⟩ := ends_done.mp rest
        cases same
        rw [found]
        exact ⟨rfl, rfl⟩
  · rename_i absent
    obtain ⟨same, rfl⟩ := ends_done.mp read
    cases same
    rw [Bool.not_eq_true, Option.isSome_eq_false_iff, Option.isNone_iff_eq_none] at absent
    rw [absent]
    exact ⟨rfl, rfl⟩

theorem ends_readRecord {pkg : String} {record : Record}
    (ended : Ends (apply site) (readRecord i pkg f) s (.ok record) t) :
    record = recordOf s i f ∧ t = s := by
  simp only [readRecord, ends_bind_ok, ends_readPkgOrigin] at ended
  obtain ⟨names, u, listed, origin, v, ⟨rfl, rfl⟩, read⟩ := ended
  rw [StoreM.list, ends_request_ok, apply, Prod.mk.injEq, Except.ok.injEq] at listed
  obtain ⟨rfl, rfl⟩ := listed
  exact ends_recordFromNames read

/-! ### The intent and commit brackets -/

theorem ends_requireReplicationUnfenced {u : Unit}
    (ended : Ends (apply site) (requireReplicationUnfenced site) s (.ok u) t) : t = s := by
  unfold requireReplicationUnfenced at ended
  split at ended
  · exact absurd ended ends_bail
  · exact (ends_done.mp ended).2

theorem cut_mark {mark : Mark}
    (cut : Cut (apply site) (request (StoreOp.mark i mark)) s t) : t = s := by
  rcases cut_request.mp cut with same | same
  · exact same
  · exact same

theorem cut_markIntentIf {bracket : Bool}
    (cut : Cut (apply site) (markIntentIf bracket i) s t) : t = s := by
  unfold markIntentIf at cut
  split at cut
  · exact cut_mark cut
  · exact cut_done.mp cut

theorem cut_pairIntent {bracket : Bool} {α : Type} {program : StoreM ι α}
    (cut : Cut (apply site) (pairIntent bracket i program) s t) : Cut (apply site) program s t := by
  unfold pairIntent at cut
  split at cut
  · rcases cut_attempt.mp cut with marking | ⟨result, u, marked, rest⟩
    · rw [cut_mark marking]
      exact .here _ _
    · rwa [cut_mark marked.cut] at rest
  · exact cut

theorem ends_pairIntent {bracket : Bool} {α : Type} {program : StoreM ι α} {result : Except String α}
    (ended : Ends (apply site) (pairIntent bracket i program) s result t) :
    Ends (apply site) program s result t := by
  unfold pairIntent at ended
  split at ended
  · obtain ⟨_, u, marked, rest⟩ := ends_attempt.mp ended
    rwa [cut_mark marked.cut] at rest
  · exact ended

section Brackets
variable {a b : ι} {pkg : String} {ra rb : Record} {verdict : Verdict} {source : ArtifactSource}

/-- The brackets change no object: a cut executor leaves what its body leaves. -/
theorem cut_execute
    (cut : Cut (apply site) (execute site a b pkg f ra rb verdict source) s t) :
    Cut (apply site) (verdictBody site a b pkg f ra rb verdict source) s t := by
  have started : Cut (apply site) (verdictBody site a b pkg f ra rb verdict source) s s := .here _ _
  unfold execute at cut
  rcases cut_bind.mp cut with fenced | ⟨_, u, unfenced, opened⟩
  · unfold requireReplicationUnfenced at fenced
    split at fenced
    · rw [cut_done.mp fenced]
      exact started
    · rw [cut_done.mp fenced]
      exact started
  obtain rfl := ends_requireReplicationUnfenced unfenced
  rcases cut_bind.mp opened with marking | ⟨_, v, marked, first⟩
  · rw [cut_markIntentIf marking]
    exact started
  obtain rfl := cut_markIntentIf marked.cut
  rcases cut_attempt.mp first with marking | ⟨result, w, remarked, second⟩
  · rw [cut_markIntentIf marking]
    exact started
  obtain rfl := cut_markIntentIf remarked.cut
  split at second
  · rw [cut_done.mp (cut_pairIntent second)]
    exact started
  · rcases cut_attempt.mp second with running | ⟨result, x, ended, closing⟩
    · exact running
    · rw [cut_done.mp (cut_pairIntent (cut_pairIntent closing))]
      exact ended.cut

theorem ends_execute {outcome : Convergence}
    (ended : Ends (apply site) (execute site a b pkg f ra rb verdict source) s (.ok outcome) t) :
    Ends (apply site) (verdictBody site a b pkg f ra rb verdict source) s (.ok outcome) t := by
  unfold execute at ended
  obtain ⟨_, u, unfenced, opened⟩ := ends_bind_ok.mp ended
  obtain rfl := ends_requireReplicationUnfenced unfenced
  obtain ⟨_, v, marked, first⟩ := ends_bind_ok.mp opened
  obtain rfl := cut_markIntentIf marked.cut
  obtain ⟨result, w, remarked, second⟩ := ends_attempt.mp first
  obtain rfl := cut_markIntentIf remarked.cut
  split at second
  · exact absurd (ends_pairIntent second) ends_bail
  · obtain ⟨result, x, body, closing⟩ := ends_attempt.mp second
    obtain ⟨rfl, rfl⟩ := ends_done.mp (ends_pairIntent (ends_pairIntent closing))
    exact body

end Brackets
end Pypiron.Replicate
