import Pypiron.MalwareProbe.Scan

/-! While a snapshot stays loaded, every malware advisory that a walk found above
its floor is overlaid, waits for a retry or was given up. -/
namespace Pypiron.MalwareProbe
open KeyedMap

variable {σ : Type}

/-! ### What is due, and what covers it -/

/-- Advisories given up, each with the modification it was given up at. -/
abbrev Skips := String → ℕ → Prop

/-- A malware advisory that the feed still lists as a walk held it. -/
structure Due (csv held : List Line) (line : Line) : Prop where
  listed : line ∈ csv
  held : line ∈ held
  safe : isProbeAdvisoryId line.id = true
  mal : isMal line.id = true

/-- The advisory was withdrawn, waits for a retry or was given up. -/
def Excused (s : State σ) (skips : Skips) (line : Line) : Prop :=
  (s.upstream.records line.id).withdrawn = true ∨ line.id ∈ s.memo.malRetries ∨
    skips line.id line.modified

def Overlaid (s : State σ) (line : Line) : Prop :=
  ∀ entry ∈ malRules (s.upstream.records line.id), entry.2 ∈ s.slot.overlay entry.1

/-- The cycle has read the advisory as it still is. -/
def Added (up : Upstream σ) (delta : ProbeDelta σ) (line : Line) : Prop :=
  ∀ entry ∈ malRules (up.records line.id), entry ∈ delta.added

def Covered (s : State σ) (held : List Line) (skips : Skips) : Prop :=
  ∀ line, Due s.upstream.csv held line → Excused s skips line ∨ Overlaid s line

/-- What the delta says of an advisory that is still as a walk held it is what its
record says. -/
structure ProbeDelta.Current (delta : ProbeDelta σ) (up : Upstream σ) (held : List Line) :
    Prop where
  withdrawn : ∀ line ∈ up.csv, line ∈ held → line.id ∈ delta.withdrawn →
    (up.records line.id).withdrawn = true
  added : ∀ line ∈ up.csv, line ∈ held → ∀ entry ∈ delta.added, entry.2.id = line.id →
    Added up delta line

theorem ProbeDelta.Current.empty (up : Upstream σ) (held : List Line) :
    (⟨[], []⟩ : ProbeDelta σ).Current up held where
  withdrawn := fun _ _ _ member => by cases member
  added := fun _ _ _ _ member => by cases member

/-! ### The invariant -/

/-- The CSV is sorted, and changes only by lines that are newer than all before. -/
structure Listing (up : Upstream σ) : Prop where
  sorted : Sorted up.csv
  latest : ∀ line ∈ up.csv, line.modified ≤ up.latest
  named : ∀ id, (up.records id).id = id

/-- What each phase of a cycle owes to what was held. -/
def Owes (s : State σ) (held : List Line) (skips : Skips) : Phase σ → Prop
  | .reading _ _ _ pending delta _ _ => delta.Current s.upstream held ∧
      ∀ line, Due s.upstream.csv held line →
        line.id ∈ pending ∨ Excused s skips line ∨ Added s.upstream delta line ∨ Overlaid s line
  | _ => Covered s held skips

/-- The snapshot a cycle began on, until its delta is merged. -/
def Phase.sha : Phase σ → Option String
  | walking sha .. | reading sha .. => some sha
  | _ => none

/-- While a cycle goes on that began on a snapshot that is no longer loaded, nothing
is held. -/
structure Kept (s : State σ) (held : List Line) (skips : Skips) : Prop where
  bounded : ∀ line ∈ held, line.modified ≤ s.upstream.latest
  loaded : ∀ sha, s.phase.sha = some sha → s.slot.zipSha256 = some sha ∨ held = []
  phase : Owes s held skips s.phase

/-! ### What a walk holds -/

/-- Another snapshot is swapped in. -/
def swaps (s : State σ) (event : Event σ) : Bool :=
  match event with
  | .reload sha => s.slot.zipSha256 ≠ some sha
  | _ => false

/-- The lines of the first bytes that are above the floor. -/
def State.fresh (s : State σ) (range : ℕ) : List Line :=
  (fetchCsv range s.upstream.csv).1.filter fun line => s.memo.watermark.getD 0 < line.modified

/-- The fresh lines of a walk that ends with a CSV, and not with an answer that nothing
changed, while the snapshot it began on is loaded. -/
def finds (s : State σ) (event : Event σ) : List Line :=
  match event, s.phase with
  | .csv (.answered honoured _ horizon), .walking sha conditional range =>
    if (honoured ∧ conditional = some s.upstream.version) ∨ s.slot.zipSha256 ≠ some sha then []
    else if (parseCsvHead s.upstream.csv (s.memo.watermark.getD 0) range horizon).complete ∨
        maxFeedBytes ≤ range then s.fresh range
    else []
  | _, _ => []

/-- What the walks have found since the loaded snapshot was swapped in. -/
def holds (s : State σ) (held : List Line) (event : Event σ) : List Line :=
  if swaps s event then [] else held ++ finds s event

/-- The fifth unreadable answer gives an advisory up as it is listed. -/
def givesUp (s : State σ) (event : Event σ) (id : String) (ts : ℕ) : Prop :=
  match event, s.phase with
  | .advisory .unreadable, .reading _ _ _ (first :: _) _ _ _ =>
    first = id ∧ probeMalFetchAttempts ≤ (s.memo.malRetries.lookup id).getD 0 + 1 ∧
      ∃ line ∈ s.upstream.csv, line.id = id ∧ line.modified = ts
  | _, _ => False

/-! ### Modifications upstream -/

section
variable {content : String → Snapshot σ} {s : State σ} {held : List Line} {skips : Skips}
  {sha : String}

theorem Listing.modify {up : Upstream σ} (listing : Listing up) (ts : ℕ) (id : String)
    (withdrawn : Bool) (clauses : List (String × σ)) (bytes : ℕ) :
    Listing (up.modify ts id withdrawn clauses bytes) := by
  unfold Upstream.modify
  split
  next later =>
    have old : ∀ line ∈ up.csv.filter (fun line => line.id ≠ id), line ∈ up.csv :=
      fun line member => (List.mem_filter.mp member).1
    constructor
    · refine List.pairwise_cons.mpr ⟨fun line member => ?_, listing.sorted.filter _⟩
      have := listing.latest line (old line member)
      exact Nat.lt_of_le_of_lt this later
    · intro line member
      obtain rfl | before := List.mem_cons.mp member
      · exact Nat.le_refl ts
      · exact (listing.latest line (old line before)).trans later.le
    · intro other
      dsimp only
      split
      next same => exact same.symm
      next => exact listing.named other
  next => exact listing

/-- A line no newer than the feed was that is still listed was listed before, and its
record is the same. -/
theorem Upstream.modify_kept {up : Upstream σ} {ts : ℕ} {id : String} {withdrawn : Bool}
    {clauses : List (String × σ)} {bytes : ℕ} {line : Line}
    (listed : line ∈ (up.modify ts id withdrawn clauses bytes).csv)
    (old : line.modified ≤ up.latest) : line ∈ up.csv ∧
      (up.modify ts id withdrawn clauses bytes).records line.id = up.records line.id := by
  unfold Upstream.modify at listed ⊢
  split at listed
  next later =>
    rw [if_pos later]
    obtain rfl | before := List.mem_cons.mp listed
    · exact absurd old (Nat.not_le.mpr later)
    · simp only [List.mem_filter, decide_eq_true_eq] at before
      exact ⟨before.1, if_neg before.2⟩
  next stays =>
    rw [if_neg stays]
    exact ⟨listed, rfl⟩

theorem Upstream.modify_latest {up : Upstream σ} {ts : ℕ} {id : String} {withdrawn : Bool}
    {clauses : List (String × σ)} {bytes : ℕ} :
    up.latest ≤ (up.modify ts id withdrawn clauses bytes).latest := by
  unfold Upstream.modify
  split
  next later => exact later.le
  next => exact Nat.le_refl _

theorem Kept.modify (kept : Kept s held skips) (ts : ℕ) (id : String) (withdrawn : Bool)
    (clauses : List (String × σ)) (bytes : ℕ) :
    Kept { s with upstream := s.upstream.modify ts id withdrawn clauses bytes } held skips := by
  have before {line : Line} (listed : line ∈ (s.upstream.modify ts id withdrawn clauses bytes).csv)
      (member : line ∈ held) := Upstream.modify_kept listed (kept.bounded line member)
  refine ⟨fun line member => (kept.bounded line member).trans Upstream.modify_latest, kept.loaded, ?_⟩
  have phase := kept.phase
  dsimp only
  cases at_phase : s.phase with
  | reading sha scan etag pending delta readAny outage =>
      rw [at_phase] at phase
      obtain ⟨current, owed⟩ := phase
      refine ⟨⟨?_, ?_⟩, ?_⟩
      · intro line listed member named
        obtain ⟨there, record⟩ := before listed member
        dsimp only
        rw [record]
        exact current.withdrawn line there member named
      · intro line listed member entry added named
        obtain ⟨there, record⟩ := before listed member
        unfold Added
        dsimp only
        rw [record]
        exact current.added line there member entry added named
      · intro line due
        obtain ⟨there, record⟩ := before due.listed due.held
        have owes := owed line ⟨there, due.held, due.safe, due.mal⟩
        unfold Excused Added Overlaid at owes ⊢
        dsimp only
        rw [record]
        exact owes
  | _ =>
      rw [at_phase] at phase
      intro line due
      obtain ⟨there, record⟩ := before due.listed due.held
      have covered := phase line ⟨there, due.held, due.safe, due.mal⟩
      unfold Excused Overlaid at covered ⊢
      dsimp only
      rw [record]
      exact covered

/-! ### Steps of a cycle -/

theorem Excused.mono {later : Skips} (grows : ∀ id ts, skips id ts → later id ts) {line : Line}
    (excused : Excused s skips line) : Excused s later line := by
  obtain withdrawn | retried | skipped := excused
  · exact .inl withdrawn
  · exact .inr (.inl retried)
  · exact .inr (.inr (grows _ _ skipped))

theorem Kept.mono {later : Skips} (grows : ∀ id ts, skips id ts → later id ts)
    (kept : Kept s held skips) : Kept s held later := by
  refine ⟨kept.bounded, kept.loaded, ?_⟩
  have phase := kept.phase
  generalize s.phase = phase' at phase ⊢
  cases phase' with
  | reading sha scan etag pending delta readAny outage =>
      exact ⟨phase.1, fun line due =>
        (phase.2 line due).imp_right fun rest => rest.imp_left (Excused.mono grows)⟩
  | _ => exact fun line due => (phase line due).imp_left (Excused.mono grows)

/-- Nothing is held of a snapshot that has just been swapped in. -/
theorem Kept.empty (s : State σ) (skips : Skips) : Kept s [] skips := by
  refine ⟨fun line member => (by cases member), fun _ _ => .inr rfl, ?_⟩
  have none (line : Line) (due : Due s.upstream.csv [] line) : False := by cases due.held
  cases s.phase with
  | reading sha scan etag pending delta readAny outage =>
      exact ⟨⟨fun _ _ member => (by cases member), fun _ _ member => (by cases member)⟩,
        fun line due => (none line due).elim⟩
  | _ => exact fun line due => (none line due).elim

/-- A walk holds what it found, and reads all of it. -/
theorem Kept.walk (listing : Listing s.upstream) (kept : Kept s held skips) {sha : String}
    {conditional : Option ℕ} {range : ℕ} (at_phase : s.phase = .walking sha conditional range)
    (answer : CsvAnswer) : Kept (MalwareProbe.walk s sha conditional range answer).1
      (held ++ finds s (.csv answer)) skips := by
  have covered : Covered s held skips := by
    have phase := kept.phase
    rwa [at_phase] at phase
  have loaded := kept.loaded sha (by rw [at_phase]; rfl)
  cases answer with
  | failed =>
      simp only [finds, List.append_nil]
      exact ⟨kept.bounded, fun _ none => (by cases none), covered⟩
  | answered honoured tagged horizon =>
      unfold MalwareProbe.walk finds
      rw [at_phase]
      dsimp only
      by_cases unchanged : honoured ∧ conditional = some s.upstream.version
      · have unread : (honoured ∧ conditional = some s.upstream.version) ∨
            s.slot.zipSha256 ≠ some sha := .inl unchanged
        rw [if_pos unchanged, if_pos unread, List.append_nil]
        split
        · exact ⟨kept.bounded, fun _ none => (by cases none), covered⟩
        · refine ⟨kept.bounded, ?_, .empty _ _, fun line due => .inr ?_⟩
          · rintro _ ⟨⟩
            exact loaded
          · exact (covered line due).imp_right .inr
      rw [if_neg unchanged]
      by_cases ended : (parseCsvHead s.upstream.csv (s.memo.watermark.getD 0) range horizon).complete ∨
          maxFeedBytes ≤ range
      · rw [if_pos ended, if_pos ended]
        by_cases same : s.slot.zipSha256 = some sha
        · have began : ¬((honoured ∧ conditional = some s.upstream.version) ∨
              s.slot.zipSha256 ≠ some sha) := by
            simp only [unchanged, same, ne_eq, not_true_eq_false, or_self, not_false_eq_true]
          rw [if_neg began]
          refine ⟨?_, ?_, .empty _ _, fun line due => ?_⟩
          · intro line member
            obtain before | found := List.mem_append.mp member
            · exact kept.bounded line before
            · exact listing.latest line ((fetchCsv_starts range _).subset (List.mem_filter.mp found).1)
          · rintro _ ⟨⟩
            exact .inl same
          · obtain before | found := List.mem_append.mp due.held
            · exact .inr ((covered line ⟨due.listed, before, due.safe, due.mal⟩).imp_right .inr)
            · left
              obtain ⟨read, above⟩ := List.mem_filter.mp found
              exact List.mem_append_left _ (parseCsvHead_fresh listing.sorted read (by simpa using above)
                due.safe due.mal)
        · have swapped : (honoured ∧ conditional = some s.upstream.version) ∨
              s.slot.zipSha256 ≠ some sha := .inr same
          rw [if_pos swapped, List.append_nil]
          refine ⟨kept.bounded, ?_, .empty _ _, fun line due => .inr ?_⟩
          · rintro _ ⟨⟩
            exact loaded
          · exact (covered line due).imp_right .inr
      · rw [if_neg ended, if_neg ended, ite_self, List.append_nil]
        refine ⟨kept.bounded, ?_, covered⟩
        rintro _ ⟨⟩
        exact loaded

/-! ### Reads -/

theorem mem_noteMalFailure {retries : KeyedMap String ℕ} {id other : String} (apart : other ≠ id) :
    other ∈ noteMalFailure retries id ↔ other ∈ retries := by
  unfold noteMalFailure
  dsimp only
  split
  · simp [AList.mem_insert, apart]
  · simp [AList.mem_erase, apart]

theorem noteMalFailure_spent {retries : KeyedMap String ℕ} {id : String}
    (dropped : id ∉ noteMalFailure retries id) :
    probeMalFetchAttempts ≤ (retries.lookup id).getD 0 + 1 := by
  unfold noteMalFailure at dropped
  dsimp only at dropped
  split at dropped
  next => exact absurd (AList.mem_insert _ |>.mpr (.inl rfl)) dropped
  next spent => exact Nat.le_of_not_lt spent

/-- A read leaves the other advisories as they were, so only its own has to be settled. -/
theorem Kept.settle (kept : Kept s held skips) {scan : CsvScan} {etag : Option ℕ} {id : String}
    {pending : List String} {delta delta' : ProbeDelta σ} {readAny outage readAny' outage' : Bool}
    (at_phase : s.phase = .reading sha scan etag (id :: pending) delta readAny outage)
    {retries : KeyedMap String ℕ} {skips' : Skips}
    (others : ∀ other ≠ id, other ∈ s.memo.malRetries → other ∈ retries)
    (skipped : ∀ other ts, skips other ts → skips' other ts)
    (grows : delta.added ⊆ delta'.added) (current : delta'.Current s.upstream held)
    (here : ∀ line ∈ s.upstream.csv, line.id = id →
      ((s.upstream.records id).withdrawn = true ∨ id ∈ retries ∨ skips' id line.modified) ∨
        Added s.upstream delta' line) :
    Kept { s with
      memo := { s.memo with malRetries := retries }
      phase := .reading sha scan etag pending delta' readAny' outage' } held skips' := by
  have phase := kept.phase
  rw [at_phase] at phase
  obtain ⟨_, owed⟩ := phase
  refine ⟨kept.bounded, ?_, current, fun line due => ?_⟩
  · rintro _ ⟨⟩
    exact kept.loaded sha (by rw [at_phase]; rfl)
  by_cases this : line.id = id
  · right
    obtain excused | added := here line due.listed this
    · left
      unfold Excused
      rw [this]
      exact excused
    · exact .inr (.inl added)
  · obtain waiting | excused | added | overlaid := owed line due
    · obtain first | later := List.mem_cons.mp waiting
      · exact absurd first this
      · exact .inl later
    · right
      left
      obtain withdrawn | retried | gone := excused
      · exact .inl withdrawn
      · exact .inr (.inl (others _ this retried))
      · exact .inr (.inr (skipped _ _ gone))
    · exact .inr (.inr (.inl fun entry member => grows (added entry member)))
    · exact .inr (.inr (.inr overlaid))

/-- What a read record adds is what it says. -/
theorem ProbeDelta.Current.read {up : Upstream σ} {delta : ProbeDelta σ} (listing : Listing up)
    (current : delta.Current up held) (id : String) :
    (⟨delta.added ++ malRules (up.records id), delta.withdrawn⟩ : ProbeDelta σ).Current up held where
  withdrawn := current.withdrawn
  added := by
    intro line listed there entry member named own mine
    obtain before | read := List.mem_append.mp member
    · exact List.mem_append_left _ (current.added line listed there entry before named own mine)
    · obtain rfl : line.id = id := named.symm.trans ((malRules_id read).trans (listing.named id))
      exact List.mem_append_right _ mine

theorem ProbeDelta.Current.withdraw {up : Upstream σ} {delta : ProbeDelta σ}
    (current : delta.Current up held) {id : String} (withdrawn : (up.records id).withdrawn = true) :
    (⟨delta.added, id :: delta.withdrawn⟩ : ProbeDelta σ).Current up held where
  withdrawn := by
    intro line listed there member
    obtain same | before := List.mem_cons.mp member
    · rw [same]
      exact withdrawn
    · exact current.withdrawn line listed there before
  added := current.added

theorem Kept.read (listing : Listing s.upstream) (kept : Kept s held skips) {scan : CsvScan}
    {etag : Option ℕ} {id : String} {pending : List String} {delta : ProbeDelta σ}
    {readAny outage : Bool}
    (at_phase : s.phase = .reading sha scan etag (id :: pending) delta readAny outage)
    (answer : AdvisoryAnswer) :
    Kept (readAdvisory s sha scan etag id pending delta readAny outage answer) held
      (fun other ts => skips other ts ∨ givesUp s (.advisory answer) other ts) := by
  have phase := kept.phase
  rw [at_phase] at phase
  obtain ⟨current, _⟩ := phase
  cases answer with
  | unavailable =>
      refine kept.settle at_phase ?_ (fun _ _ => .inl) (List.Subset.refl _) current
        fun line listed named => .inl (.inr (.inl ?_))
      · intro other apart member
        split
        next => exact member
        next => exact AList.mem_insert _ |>.mpr (.inr member)
      · split
        next waiting => exact waiting
        next => exact AList.mem_insert _ |>.mpr (.inl rfl)
  | unreadable =>
      refine kept.settle at_phase (fun other apart => (mem_noteMalFailure apart).mpr)
        (fun _ _ => .inl) (List.Subset.refl _) current fun line listed named => .inl (.inr ?_)
      by_cases waiting : id ∈ noteMalFailure s.memo.malRetries id
      · exact .inl waiting
      · right
        right
        unfold givesUp
        rw [at_phase]
        exact ⟨rfl, noteMalFailure_spent waiting, line, listed, named, rfl⟩
  | read =>
      have erased : ∀ other ≠ id, other ∈ s.memo.malRetries → other ∈ s.memo.malRetries.erase id :=
        fun other apart member => AList.mem_erase.mpr ⟨apart, member⟩
      have own : (if (s.upstream.records id).id = "" then id else (s.upstream.records id).id) = id := by
        rw [listing.named id]
        split <;> rfl
      unfold readAdvisory
      dsimp only
      rw [own]
      split
      next withdrawn =>
        exact kept.settle at_phase erased (fun _ _ => .inl) (List.Subset.refl _)
          (current.withdraw withdrawn) fun line listed named => .inl (.inl withdrawn)
      next =>
        refine kept.settle at_phase erased (fun _ _ => .inl) (List.subset_append_left _ _)
          (current.read listing id) fun line listed named => .inr fun entry mine => ?_
        rw [named] at mine
        exact List.mem_append_right _ mine

/-! ### The overlay -/

theorem Slot.applyProbeOverlay_of_loaded {slot : Slot σ} (loaded : slot.zipSha256 = some sha)
    (delta : ProbeDelta σ) : slot.applyProbeOverlay sha delta =
      ⟨slot.zipSha256, mergeOverlay slot.overlay delta.added delta.withdrawn⟩ := by
  unfold Slot.applyProbeOverlay
  split
  next skipped =>
    obtain empty | other := skipped
    · unfold ProbeDelta.isEmpty at empty
      simp only [Bool.and_eq_true, List.isEmpty_iff] at empty
      rw [empty.1, empty.2, mergeOverlay_nil]
    · exact absurd loaded other
  next => rfl

/-- The delta is merged on the snapshot it was computed for, and then what was
added is overlaid. -/
theorem Kept.apply (listing : Listing s.upstream) (kept : Kept s held skips) {scan : CsvScan}
    {etag : Option ℕ} {delta : ProbeDelta σ} {readAny outage : Bool}
    (at_phase : s.phase = .reading sha scan etag [] delta readAny outage) :
    Kept { s with
      slot := s.slot.applyProbeOverlay sha delta
      phase := .applied scan etag readAny outage } held skips := by
  obtain loaded | rfl := kept.loaded sha (by rw [at_phase]; rfl)
  case inr => exact .empty _ _
  have phase := kept.phase
  rw [at_phase] at phase
  obtain ⟨current, owed⟩ := phase
  rw [Slot.applyProbeOverlay_of_loaded loaded delta]
  refine ⟨kept.bounded, fun _ none => (by cases none), fun line due => ?_⟩
  have added (all : Added s.upstream delta line) : ∀ entry ∈ malRules (s.upstream.records line.id),
      entry.2 ∈ mergeOverlay s.slot.overlay delta.added delta.withdrawn entry.1 :=
    fun entry member => mem_mergeOverlay.mpr (.inl (all entry member))
  obtain waiting | excused | all | overlaid := owed line due
  · cases waiting
  · exact .inl excused
  · exact .inr (added all)
  · by_cases withdrawn : line.id ∈ delta.withdrawn
    · exact .inl (.inl (current.withdrawn line due.listed due.held withdrawn))
    by_cases replaced : ∃ entry ∈ delta.added, entry.2.id = line.id
    · obtain ⟨entry, member, named⟩ := replaced
      exact .inr (added (current.added line due.listed due.held entry member named))
    · right
      intro entry member
      have named : entry.2.id = line.id := (malRules_id member).trans (listing.named line.id)
      refine mem_mergeOverlay.mpr (.inr ⟨overlaid entry member, ?_, fun other there same => ?_⟩)
      · rw [named]
        exact withdrawn
      · exact replaced ⟨other, there, same.trans named⟩

/-! ### One event -/

/-- Each event keeps what was held covered. -/
theorem Kept.steps (listing : Listing s.upstream) (kept : Kept s held skips) (event : Event σ) :
    Kept (step content s event).1 (holds s held event)
      (fun id ts => skips id ts ∨ givesUp s event id ts) := by
  have idles : Kept s held (fun id ts => skips id ts ∨ givesUp s event id ts) :=
    kept.mono fun _ _ => .inl
  unfold holds
  cases event with
  | modify ts id withdrawn clauses bytes =>
      simp only [swaps, Bool.false_eq_true, if_false, finds, List.append_nil]
      exact idles.modify ts id withdrawn clauses bytes
  | reload sha =>
      split
      next => exact .empty _ _
      next stays =>
        have same : s.slot.reload sha = s.slot := if_pos (by simpa [swaps] using stays)
        simp only [step, same, finds, List.append_nil]
        exact idles
  | begin =>
      simp only [swaps, Bool.false_eq_true, if_false, finds, List.append_nil]
      have retries (sha : String) (watermark : Option ℕ) :
          (s.memo.align sha watermark).malRetries = s.memo.malRetries := by
        unfold ProbeMemo.align
        split <;> rfl
      unfold step
      dsimp only
      split
      next => exact idles
      next sha idle loaded =>
        have covered := idles.phase
        rw [idle] at covered
        split
        next =>
          refine ⟨idles.bounded, fun _ none => by simp [idle, Phase.sha] at none, ?_⟩
          dsimp only
          rw [idle]
          intro line due
          have before := covered line due
          unfold Excused Overlaid at before ⊢
          rw [retries]
          exact before
        next =>
          refine ⟨idles.bounded, ?_, fun line due => ?_⟩
          · rintro _ ⟨⟩
            exact .inl loaded
          · have before := covered line due
            unfold Excused Overlaid at before ⊢
            rw [retries]
            exact before
      next => exact idles
  | csv answer =>
      simp only [swaps, Bool.false_eq_true, if_false]
      cases at_phase : s.phase with
      | walking sha conditional range =>
          have walked := idles.walk listing at_phase answer
          simpa only [step, at_phase] using walked
      | _ =>
          have unread : finds s (.csv answer) = [] := by
            unfold finds
            rw [at_phase]
            cases answer <;> rfl
          rw [unread, List.append_nil]
          simpa only [step, at_phase] using idles
  | advisory answer =>
      simp only [swaps, Bool.false_eq_true, if_false, finds, List.append_nil]
      unfold step
      dsimp only
      split
      next at_phase => exact kept.read listing at_phase answer
      next => exact idles
  | apply =>
      simp only [swaps, Bool.false_eq_true, if_false, finds, List.append_nil]
      unfold step
      dsimp only
      split
      next at_phase => exact idles.apply listing at_phase
      next => exact idles
  | finish =>
      simp only [swaps, Bool.false_eq_true, if_false, finds, List.append_nil]
      unfold step
      dsimp only
      split
      next at_phase =>
        have covered := idles.phase
        rw [at_phase] at covered
        exact ⟨idles.bounded, fun _ none => (by cases none), covered⟩
      next => exact idles

end

end Pypiron.MalwareProbe
