import Pypiron.MalwareProbe.Coverage

/-! While the snapshot a cycle was aligned to stays loaded, the floor passes no line
above the snapshot's watermark that a walk has not held. -/
namespace Pypiron.MalwareProbe
open KeyedMap

variable {σ : Type}

/-! ### The invariant -/

/-- Of the lines that a walk read, those that are gone are replaced by newer ones. -/
structure Trail (up : Upstream σ) (seen : List Line) : Prop where
  latest : ∀ line ∈ seen, line.modified ≤ up.latest
  newer : ∀ line ∈ up.csv, line ∈ seen ∨ ∀ old ∈ seen, old.modified < line.modified

/-- The tag is that of the CSV that was walked. -/
def Tagged (s : State σ) (seen : List Line) (etag : Option ℕ) : Prop :=
  ∀ v, etag = some v → v ≤ s.upstream.version ∧ (v = s.upstream.version → s.upstream.csv = seen)

/-- The newest modification a scan found is that of a walked line above the floor. -/
def CsvScan.Above (scan : CsvScan) (floor : ℕ) (seen : List Line) : Prop :=
  ∀ m, scan.maxModified = some m → floor < m ∧ ∃ line ∈ seen, line.modified = m

/-- What each phase of a cycle has established of the walk. -/
def PhaseSound (s : State σ) (seen : List Line) (sha : String) (floor : ℕ) : Phase σ → Prop
  | .idle => Tagged s seen s.memo.csvEtag
  | .walking sha' conditional range => sha' = sha ∧ range ≤ maxFeedBytes ∧
      (conditional = none ∨ conditional = s.memo.csvEtag) ∧ Tagged s seen s.memo.csvEtag
  | .reading sha' scan etag _ _ _ _ => sha' = sha ∧ Tagged s seen etag ∧ scan.Above floor seen
  | .applied scan etag _ _ => Tagged s seen etag ∧ scan.Above floor seen

/-- The cycle is aligned to the loaded snapshot, which has a watermark. -/
structure Followed (content : String → Snapshot σ) (s : State σ) (seen held : List Line)
    (sha : String) (watermark floor : ℕ) : Prop where
  loaded : s.slot.zipSha256 = some sha
  aligned : s.memo.alignedSha = some sha
  snapshot : (content sha).watermark = some watermark
  floor_eq : s.memo.watermark = some floor
  above : watermark ≤ floor
  reached : floor = watermark ∨ floor ≤ s.upstream.latest
  below : ∀ line ∈ s.upstream.csv, line.modified ≤ floor →
    line.modified ≤ watermark ∨ line ∈ seen
  all : ∀ line ∈ s.upstream.csv, line ∈ seen → watermark < line.modified → line ∈ held
  phase : PhaseSound s seen sha floor s.phase

/-- The loaded snapshot carries no times, and there is no floor to walk to. -/
structure Unfloored (content : String → Snapshot σ) (s : State σ) (sha : String) : Prop where
  loaded : s.slot.zipSha256 = some sha
  aligned : s.memo.alignedSha = some sha
  snapshot : (content sha).watermark = none
  floor_eq : s.memo.watermark = none
  phase : s.phase = .idle

/-! ### What an event does to the walk -/

/-- The cycle starts over from the loaded snapshot. -/
def rebaselines (s : State σ) (event : Event σ) : Bool :=
  match event, s.phase, s.slot.zipSha256 with
  | .begin, .idle, some sha => s.memo.alignedSha ≠ some sha
  | _, _, _ => false

def Phase.isWalking : Phase σ → Bool
  | walking .. => true
  | _ => false

/-- The walk of the CSV ends with an answer. -/
def readsCsv (content : String → Snapshot σ) (s : State σ) (event : Event σ) : Bool :=
  match event with
  | .csv (.answered ..) => s.phase.isWalking && !(step content s event).1.phase.isWalking
  | _ => false

/-- The CSV as the cycles last read it, since they last started over. -/
def walksTo (content : String → Snapshot σ) (s : State σ) (seen : List Line) (event : Event σ) :
    List Line :=
  if rebaselines s event then []
  else if readsCsv content s event then s.upstream.csv
  else seen

/-- The lines above the loaded snapshot's watermark fit in the largest range. -/
def fits (content : String → Snapshot σ) (s : State σ) : Bool :=
  s.slot.zipSha256.all fun sha => (content sha).watermark.all fun watermark =>
    (parseCsvHead s.upstream.csv watermark maxFeedBytes 0).complete

/-! ### Modifications upstream -/

section
variable {content : String → Snapshot σ} {s : State σ} {seen held : List Line}
  {sha : String} {watermark floor : ℕ}

theorem Trail.modify {up : Upstream σ} (trail : Trail up seen) (ts : ℕ) (id : String)
    (withdrawn : Bool) (clauses : List (String × σ)) (bytes : ℕ) :
    Trail (up.modify ts id withdrawn clauses bytes) seen := by
  refine ⟨fun line member => (trail.latest line member).trans Upstream.modify_latest, ?_⟩
  intro line member
  unfold Upstream.modify at member
  split at member
  next later =>
    obtain rfl | before := List.mem_cons.mp member
    · exact .inr fun other there => Nat.lt_of_le_of_lt (trail.latest other there) later
    · exact trail.newer line (List.mem_filter.mp before).1
  next => exact trail.newer line member

theorem Trail.walk {up : Upstream σ} (listing : Listing up) : Trail up up.csv :=
  ⟨listing.latest, fun _ member => .inl member⟩

theorem Trail.reset (up : Upstream σ) : Trail up [] :=
  ⟨fun _ member => (by cases member), fun _ _ => .inr fun _ member => (by cases member)⟩

theorem Tagged.modify {etag : Option ℕ} (tagged : Tagged s seen etag) (ts : ℕ) (id : String)
    (withdrawn : Bool) (clauses : List (String × σ)) (bytes : ℕ) :
    Tagged { s with upstream := s.upstream.modify ts id withdrawn clauses bytes } seen etag := by
  intro v same
  obtain ⟨bounded, walked⟩ := tagged v same
  unfold Upstream.modify
  split
  · exact ⟨bounded.trans (Nat.le_succ _), fun now => absurd now (Nat.lt_succ_of_le bounded).ne⟩
  · exact ⟨bounded, walked⟩

theorem PhaseSound.modify {phase : Phase σ} (sound : PhaseSound s seen sha floor phase) (ts : ℕ)
    (id : String) (withdrawn : Bool) (clauses : List (String × σ)) (bytes : ℕ) :
    PhaseSound { s with upstream := s.upstream.modify ts id withdrawn clauses bytes } seen sha floor
      phase := by
  cases phase with
  | idle => exact Tagged.modify sound ts id withdrawn clauses bytes
  | walking sha' conditional range =>
      obtain ⟨same, small, conditional, tagged⟩ := sound
      exact ⟨same, small, conditional, tagged.modify ts id withdrawn clauses bytes⟩
  | reading sha' scan etag pending delta readAny outage =>
      obtain ⟨same, tagged, above⟩ := sound
      exact ⟨same, tagged.modify ts id withdrawn clauses bytes, above⟩
  | applied scan etag readAny outage =>
      exact ⟨sound.1.modify ts id withdrawn clauses bytes, sound.2⟩

theorem Followed.modify (trail : Trail s.upstream seen)
    (followed : Followed content s seen held sha watermark floor) (ts : ℕ) (id : String)
    (withdrawn : Bool) (clauses : List (String × σ)) (bytes : ℕ) :
    Followed content { s with upstream := s.upstream.modify ts id withdrawn clauses bytes } seen
      held sha watermark floor := by
  refine ⟨followed.loaded, followed.aligned, followed.snapshot, followed.floor_eq, followed.above,
    followed.reached.imp_right fun bounded => bounded.trans Upstream.modify_latest, ?_, ?_, ?_⟩
  · intro line member within
    dsimp only at member
    unfold Upstream.modify at member
    split at member
    next later =>
      obtain rfl | before := List.mem_cons.mp member
      · dsimp only at within ⊢
        obtain same | bounded := followed.reached
        · exact .inl (same ▸ within)
        · omega
      · exact followed.below line (List.mem_filter.mp before).1 within
    next => exact followed.below line member within
  · intro line member walked newer
    exact followed.all line (Upstream.modify_kept member (trail.latest line walked)).1 walked newer
  · exact PhaseSound.modify followed.phase ts id withdrawn clauses bytes

/-! ### Steps of a cycle -/

/-- A cycle that finds another snapshot starts over from its watermark. -/
theorem Followed.start (loaded : s.slot.zipSha256 = some sha)
    (snapshot : (content sha).watermark = some watermark) :
    Followed content { s with
      memo := ⟨some sha, some watermark, none, s.memo.malRetries⟩
      phase := .walking sha none probeCsvStartBytes } [] held sha watermark watermark where
  loaded := loaded
  aligned := rfl
  snapshot := snapshot
  floor_eq := rfl
  above := Nat.le_refl watermark
  reached := .inl rfl
  below := fun _ _ within => .inl within
  all := fun _ _ walked => (by cases walked)
  phase := ⟨rfl, by decide, .inl rfl, fun _ none => (by cases none)⟩

/-- Only the phase changes. -/
theorem Followed.at (followed : Followed content s seen held sha watermark floor) {phase : Phase σ}
    (sound : PhaseSound s seen sha floor phase) :
    Followed content { s with phase := phase } seen held sha watermark floor :=
  ⟨followed.loaded, followed.aligned, followed.snapshot, followed.floor_eq, followed.above,
    followed.reached, followed.below, followed.all, sound⟩

theorem Followed.retrying (followed : Followed content s seen held sha watermark floor)
    (retries : KeyedMap String ℕ) {phase : Phase σ} (sound : PhaseSound s seen sha floor phase) :
    Followed content { s with memo := { s.memo with malRetries := retries }, phase := phase } seen
      held sha watermark floor :=
  ⟨followed.loaded, followed.aligned, followed.snapshot, followed.floor_eq, followed.above,
    followed.reached, followed.below, followed.all, by cases phase <;> exact sound⟩

/-- The same snapshot leaves the floor and the tag where they were. -/
theorem Followed.begin (followed : Followed content s seen held sha watermark floor)
    (idle : s.phase = .idle) :
    Followed content { s with phase := .walking sha s.memo.csvEtag probeCsvStartBytes } seen held
      sha watermark floor := by
  have sound := followed.phase
  rw [idle] at sound
  exact followed.at ⟨rfl, by decide, .inr rfl, sound⟩

/-- The walk finds every line above the floor, and every line below is held already. -/
theorem Followed.startReading (listing : Listing s.upstream)
    (followed : Followed content s seen held sha watermark floor) {range horizon : ℕ}
    (complete : (parseCsvHead s.upstream.csv floor range horizon).complete = true) (tagged : Bool) :
    Followed content (startReading s sha (parseCsvHead s.upstream.csv floor range horizon)
      (if tagged then some s.upstream.version else none)) s.upstream.csv (held ++ s.fresh range) sha
      watermark floor := by
  refine ⟨followed.loaded, followed.aligned, followed.snapshot, followed.floor_eq, followed.above,
    followed.reached, fun _ member _ => .inr member, ?_, rfl, ?_, fun m max => parseCsvHead_max max⟩
  · intro line listed _ newer
    by_cases fresh : floor < line.modified
    · apply List.mem_append_right
      apply List.mem_filter.mpr
      exact ⟨fetchCsv_reads listing.sorted complete listed fresh, by simpa [followed.floor_eq] using fresh⟩
    · apply List.mem_append_left
      obtain old | walked := followed.below line listed (by omega)
      · omega
      · exact followed.all line listed walked newer
  · intro v same
    split at same
    · cases same
      exact ⟨Nat.le_refl _, fun _ => rfl⟩
    · cases same

/-- What a complete or failed walk, or a wider one to come, leaves. The walk of a
feed whose fresh lines fit the largest range always ends. -/
theorem Followed.walk (listing : Listing s.upstream)
    (followed : Followed content s seen held sha watermark floor) {sha' : String}
    {conditional : Option ℕ} {range : ℕ} (at_phase : s.phase = .walking sha' conditional range)
    (fits : ∀ horizon, (parseCsvHead s.upstream.csv watermark maxFeedBytes horizon).complete = true)
    (answer : CsvAnswer) :
    Followed content (MalwareProbe.walk s sha' conditional range answer).1
      (if readsCsv content s (.csv answer) then s.upstream.csv else seen)
      (held ++ finds s (.csv answer)) sha watermark floor := by
  have sound := followed.phase
  rw [at_phase] at sound
  obtain ⟨rfl, small, same, tagged⟩ := sound
  cases answer with
  | failed =>
      simp only [finds, List.append_nil]
      exact followed.at tagged
  | answered honoured tagged' horizon =>
      have reads : readsCsv content s (.csv (.answered honoured tagged' horizon)) =
          !(MalwareProbe.walk s sha' conditional range
            (.answered honoured tagged' horizon)).1.phase.isWalking := by
        simp only [readsCsv, step, at_phase, Phase.isWalking, Bool.true_and]
      have found : finds s (.csv (.answered honoured tagged' horizon)) =
          if honoured ∧ conditional = some s.upstream.version then []
          else if (parseCsvHead s.upstream.csv (s.memo.watermark.getD 0) range horizon).complete ∨
              maxFeedBytes ≤ range then s.fresh range
          else [] := by
        unfold finds
        rw [at_phase]
        simp only [followed.loaded, ne_eq, not_true_eq_false, or_false]
      rw [reads, found]
      unfold MalwareProbe.walk
      dsimp only
      split
      next unchanged =>
        -- The tag is that of the walked CSV, so it is what the feed still lists.
        have tag : s.memo.csvEtag = some s.upstream.version := by
          obtain none | memo := same
          · cases none.symm.trans unchanged.2
          · exact memo.symm.trans unchanged.2
        obtain rfl := (tagged _ tag).2 rfl
        rw [List.append_nil]
        split
        · exact followed.at tagged
        · refine followed.at ⟨rfl, tagged, ?_⟩
          rintro m ⟨⟩
      next =>
        rw [followed.floor_eq]
        dsimp only [Option.getD_some]
        split
        next ends =>
          have complete : (parseCsvHead s.upstream.csv floor range horizon).complete = true := by
            obtain complete | widest := ends
            · exact complete
            · obtain rfl : range = maxFeedBytes := Nat.le_antisymm small widest
              exact parseCsvHead_complete_mono followed.above (fits horizon)
          exact followed.startReading listing complete tagged'
        next =>
          rw [List.append_nil]
          have sound : PhaseSound s seen sha' floor (.walking sha' none (min (range * 2) maxFeedBytes)) :=
            ⟨rfl, Nat.min_le_right _ _, .inl rfl, tagged⟩
          exact followed.at sound

/-- The floor moves to the newest line that was walked. -/
theorem Followed.finish (trail : Trail s.upstream seen)
    (followed : Followed content s seen held sha watermark floor) {scan : CsvScan}
    {etag : Option ℕ} {readAny outage : Bool}
    (at_phase : s.phase = .applied scan etag readAny outage) :
    ∃ floor', Followed content { s with
      memo := { s.memo with
        watermark := scan.maxModified.or s.memo.watermark
        csvEtag := etag }
      phase := .idle } seen held sha watermark floor' := by
  have sound := followed.phase
  rw [at_phase] at sound
  obtain ⟨tagged, above⟩ := sound
  cases newest : scan.maxModified with
  | none =>
      refine ⟨floor, followed.loaded, followed.aligned, followed.snapshot, ?_, followed.above,
        followed.reached, followed.below, followed.all, tagged⟩
      exact followed.floor_eq
  | some m =>
      obtain ⟨higher, last, walked, rfl⟩ := above m newest
      refine ⟨last.modified, followed.loaded, followed.aligned, followed.snapshot, rfl,
        followed.above.trans higher.le, .inr (trail.latest last walked), ?_, followed.all, tagged⟩
      intro line listed within
      obtain walked' | newer := trail.newer line listed
      · exact .inr walked'
      · exact absurd (newer last walked) (Nat.not_lt.mpr within)

/-! ### One event -/

theorem Followed.steps (listing : Listing s.upstream) (trail : Trail s.upstream seen)
    (small : fits content s = true)
    (followed : Followed content s seen held sha watermark floor) {event : Event σ}
    (stays : swaps s event = false) :
    ∃ floor', Followed content (step content s event).1 (walksTo content s seen event)
      (holds s held event) sha watermark floor' := by
  have keeps : rebaselines s event = false := by
    unfold rebaselines
    split
    next loaded =>
      obtain rfl : sha = _ := Option.some.inj (followed.loaded.symm.trans loaded)
      simp [followed.aligned]
    next => rfl
  unfold walksTo holds
  rw [keeps, if_neg Bool.false_ne_true, stays, if_neg Bool.false_ne_true]
  cases event with
  | modify ts id withdrawn clauses bytes =>
      simp only [readsCsv, Bool.false_eq_true, if_false, finds, List.append_nil]
      exact ⟨floor, followed.modify trail ts id withdrawn clauses bytes⟩
  | reload sha' =>
      have kept : s.slot.reload sha' = s.slot := if_pos (by simpa [swaps] using stays)
      simp only [readsCsv, Bool.false_eq_true, if_false, finds, List.append_nil, step, kept]
      exact ⟨floor, followed⟩
  | begin =>
      simp only [readsCsv, Bool.false_eq_true, if_false, finds, List.append_nil]
      refine ⟨floor, ?_⟩
      unfold step
      dsimp only
      split
      next => exact followed
      next sha' idle loaded =>
        obtain rfl : sha = sha' := Option.some.inj (followed.loaded.symm.trans loaded)
        have kept : s.memo.align sha (content sha).watermark = s.memo :=
          if_neg fun apart => apart followed.aligned
        rw [kept]
        split
        next none => cases none.symm.trans followed.floor_eq
        next => exact followed.begin idle
      next => exact followed
  | csv answer =>
      refine ⟨floor, ?_⟩
      cases at_phase : s.phase with
      | walking sha' conditional range =>
          have complete : (parseCsvHead s.upstream.csv watermark maxFeedBytes 0).complete = true := by
            simpa [fits, followed.loaded, followed.snapshot] using small
          have walked := followed.walk listing at_phase
            (fun _ => parseCsvHead_complete_mono (Nat.le_refl watermark) complete) answer
          simpa only [step, at_phase] using walked
      | _ =>
          have unread : readsCsv content s (.csv answer) = false := by
            unfold readsCsv
            cases answer <;> simp [at_phase, Phase.isWalking]
          have unfound : finds s (.csv answer) = [] := by
            unfold finds
            rw [at_phase]
            cases answer <;> rfl
          rw [unread, unfound, List.append_nil, if_neg Bool.false_ne_true]
          simpa only [step, at_phase] using followed
  | advisory answer =>
      simp only [readsCsv, Bool.false_eq_true, if_false, finds, List.append_nil]
      refine ⟨floor, ?_⟩
      unfold step
      dsimp only
      split
      next at_phase =>
        have sound := followed.phase
        rw [at_phase] at sound
        cases answer with
        | unavailable => exact followed.retrying _ sound
        | unreadable => exact followed.retrying _ sound
        | read => exact followed.retrying _ sound
      next => exact followed
  | apply =>
      simp only [readsCsv, Bool.false_eq_true, if_false, finds, List.append_nil]
      refine ⟨floor, ?_⟩
      unfold step
      dsimp only
      split
      next at_phase =>
        have sound := followed.phase
        rw [at_phase] at sound
        obtain ⟨rfl, tagged, above⟩ := sound
        rw [Slot.applyProbeOverlay_of_loaded followed.loaded]
        exact ⟨followed.loaded, followed.aligned, followed.snapshot, followed.floor_eq, followed.above,
          followed.reached, followed.below, followed.all, tagged, above⟩
      next => exact followed
  | finish =>
      simp only [readsCsv, Bool.false_eq_true, if_false, finds, List.append_nil]
      unfold step
      dsimp only
      split
      next at_phase => exact followed.finish trail at_phase
      next => exact ⟨floor, followed⟩

end

end Pypiron.MalwareProbe
