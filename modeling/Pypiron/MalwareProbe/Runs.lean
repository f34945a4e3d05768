import Pypiron.MalwareProbe.Floor

/-! Coverage over whole runs: a cycle that returns well with nothing left to
retry leaves every malware advisory it walked in force, or given up. -/
namespace Pypiron.MalwareProbe
open KeyedMap

variable {σ : Type}

/-! ### One event -/

section
variable {content : String → Snapshot σ} {s : State σ} {seen held : List Line} {sha : String}

/-- An event that does not modify the feed leaves it alone. -/
theorem upstream_steps (event : Event σ) :
    (∃ ts id withdrawn clauses bytes, event = .modify ts id withdrawn clauses bytes) ∨
      (step content s event).1.upstream = s.upstream := by
  cases event with
  | modify ts id withdrawn clauses bytes => exact .inl ⟨ts, id, withdrawn, clauses, bytes, rfl⟩
  | reload sha => exact .inr rfl
  | begin =>
      right
      unfold step
      dsimp only
      split
      next => rfl
      next => split <;> rfl
      next => rfl
  | csv answer =>
      right
      unfold step
      dsimp only
      split
      next =>
        cases answer with
        | failed => rfl
        | answered honoured tagged horizon =>
            unfold MalwareProbe.walk
            dsimp only
            split
            next => split <;> rfl
            next => split <;> rfl
      next => rfl
  | advisory answer =>
      right
      unfold step
      dsimp only
      split
      next => cases answer <;> rfl
      next => rfl
  | apply =>
      right
      unfold step
      dsimp only
      split <;> rfl
  | finish =>
      right
      unfold step
      dsimp only
      split <;> rfl

theorem Listing.steps (listing : Listing s.upstream) (event : Event σ) :
    Listing (step content s event).1.upstream := by
  obtain ⟨ts, id, withdrawn, clauses, bytes, rfl⟩ | same := upstream_steps event
  · exact listing.modify ts id withdrawn clauses bytes
  · rw [same]
    exact listing

theorem Trail.steps (listing : Listing s.upstream) (trail : Trail s.upstream seen) (event : Event σ) :
    Trail (step content s event).1.upstream (walksTo content s seen event) := by
  obtain ⟨ts, id, withdrawn, clauses, bytes, rfl⟩ | same := upstream_steps event
  · exact trail.modify ts id withdrawn clauses bytes
  · rw [same]
    unfold walksTo
    split
    next => exact .reset _
    next =>
      split
      next => exact .walk listing
      next => exact trail

theorem Unfloored.steps (unfloored : Unfloored content s sha) {event : Event σ}
    (stays : swaps s event = false) : Unfloored content (step content s event).1 sha := by
  have ⟨loaded, aligned, snapshot, floor_eq, idle⟩ := unfloored
  cases event with
  | modify ts id withdrawn clauses bytes => exact ⟨loaded, aligned, snapshot, floor_eq, idle⟩
  | reload sha' =>
      have kept : s.slot.reload sha' = s.slot := if_pos (by simpa [swaps] using stays)
      simp only [step, kept]
      exact unfloored
  | begin =>
      have kept : s.memo.align sha (content sha).watermark = s.memo :=
        if_neg fun apart => apart aligned
      simp only [step, idle, loaded, kept, floor_eq]
      exact ⟨loaded, aligned, snapshot, floor_eq, rfl⟩
  | csv answer => simpa only [step, idle] using unfloored
  | advisory answer => simpa only [step, idle] using unfloored
  | apply => simpa only [step, idle] using unfloored
  | finish => simpa only [step, idle] using unfloored

/-- The cycles are aligned to the loaded snapshot. -/
def Tracked (content : String → Snapshot σ) (s : State σ) (seen held : List Line) : Prop :=
  ∃ sha, Unfloored content s sha ∨
    ∃ watermark floor, Followed content s seen held sha watermark floor

theorem Tracked.start {event : Event σ} (starts : rebaselines s event = true) :
    Tracked content (step content s event).1 (walksTo content s seen event) held := by
  unfold walksTo
  rw [if_pos starts]
  unfold rebaselines at starts
  split at starts
  next sha idle loaded =>
    have apart : s.memo.alignedSha ≠ some sha := by simpa using starts
    have aligns : s.memo.align sha (content sha).watermark =
        ⟨some sha, (content sha).watermark, none, s.memo.malRetries⟩ := if_pos apart
    simp only [step, idle, loaded, aligns]
    refine ⟨sha, ?_⟩
    cases snapshot : (content sha).watermark with
    | none => exact .inl ⟨loaded, rfl, snapshot, rfl, rfl⟩
    | some watermark => exact .inr ⟨watermark, watermark, Followed.start loaded snapshot⟩
  next => cases starts

theorem Tracked.steps (listing : Listing s.upstream) (trail : Trail s.upstream seen)
    (small : fits content s = true) (tracked : Tracked content s seen held) {event : Event σ}
    (stays : swaps s event = false) :
    Tracked content (step content s event).1 (walksTo content s seen event) (holds s held event) := by
  obtain ⟨sha, unfloored | ⟨watermark, floor, followed⟩⟩ := tracked
  · exact ⟨sha, .inl (unfloored.steps stays)⟩
  · obtain ⟨floor', after⟩ := followed.steps listing trail small stays
    exact ⟨sha, .inr ⟨watermark, floor', after⟩⟩

/-- A cycle that returns well is at rest. -/
theorem ended_idle {s' : State σ} {event : Event σ} {ran : Bool}
    (returned : step content s event = (s', some (.ok ran))) : s'.phase = .idle := by
  cases event with
  | modify ts id withdrawn clauses bytes => cases returned
  | reload sha => cases returned
  | begin =>
      unfold step at returned
      dsimp only at returned
      split at returned
      next idle _ =>
        cases returned
        exact idle
      next idle _ =>
        split at returned
        next =>
          cases returned
          exact idle
        next => cases returned
      next => cases returned
  | csv answer =>
      unfold step at returned
      dsimp only at returned
      split at returned
      next =>
        cases answer with
        | failed => cases returned
        | answered honoured tagged horizon =>
            unfold MalwareProbe.walk at returned
            dsimp only at returned
            split at returned
            next =>
              split at returned
              next =>
                cases returned
                rfl
              next => cases returned
            next => split at returned <;> cases returned
      next => cases returned
  | advisory answer =>
      unfold step at returned
      dsimp only at returned
      split at returned <;> cases returned
  | apply =>
      unfold step at returned
      dsimp only at returned
      split at returned <;> cases returned
  | finish =>
      unfold step at returned
      dsimp only at returned
      split at returned
      next =>
        obtain ⟨rfl, _⟩ := Prod.mk.inj returned
        rfl
      next => cases returned

end

/-! ### Runs -/

section
variable (content : String → Snapshot σ) (floor : Overlay σ) (events : ℕ → Event σ)

/-- The rules that block a package's files. -/
def rulesInForce (s : State σ) (name : String) : List (MalRule σ) :=
  (s.slot.zipSha256.elim [] fun sha => (content sha).blocks name) ++ s.slot.overlay name

def InForce (s : State σ) (line : Line) : Prop :=
  ∀ entry ∈ malRules (s.upstream.records line.id), entry.2 ∈ rulesInForce content s entry.1

instance [DecidableEq σ] (s : State σ) (line : Line) : Decidable (InForce content s line) :=
  inferInstanceAs (Decidable (∀ entry ∈ malRules (s.upstream.records line.id),
    entry.2 ∈ rulesInForce content s entry.1))

/-- The CSV as the cycles last read it, since they last started over. -/
def walked : ℕ → List Line
  | 0 => []
  | n + 1 => walksTo content (states content floor events n) (walked n) (events n)

/-- What the walks have found since the loaded snapshot was last swapped in. -/
def held : ℕ → List Line
  | 0 => []
  | n + 1 => holds (states content floor events n) (held n) (events n)

/-- No reload has swapped the loaded snapshot since a cycle started over from it. -/
def steady : ℕ → Bool
  | 0 => false
  | n + 1 => rebaselines (states content floor events n) (events n) ||
      (steady n && !swaps (states content floor events n) (events n))

/-- An advisory was given up as it was then listed. -/
def GivenUp (n : ℕ) (id : String) (ts : ℕ) : Prop :=
  ∃ m < n, givesUp (states content floor events m) (events m) id ts

theorem listing_run (n : ℕ) : Listing (states content floor events n).upstream := by
  induction n with
  | zero => constructor <;> simp [states, boot, Sorted]
  | succ n ih => exact ih.steps (events n)

theorem trail_run (n : ℕ) :
    Trail (states content floor events n).upstream (walked content floor events n) := by
  induction n with
  | zero => exact .reset _
  | succ n ih => exact ih.steps (listing_run content floor events n) (events n)

theorem kept_run (n : ℕ) : Kept (states content floor events n) (held content floor events n)
    (GivenUp content floor events n) := by
  induction n with
  | zero => exact .empty _ _
  | succ n ih =>
      apply (ih.steps (listing_run content floor events n) (events n)).mono
      rintro id ts (⟨m, earlier, gone⟩ | now)
      · exact ⟨m, by omega, gone⟩
      · exact ⟨n, by omega, now⟩

theorem tracked_run (n : ℕ) (small : ∀ m < n, fits content (states content floor events m) = true)
    (holds : steady content floor events n = true) :
    Tracked content (states content floor events n) (walked content floor events n)
      (held content floor events n) := by
  induction n with
  | zero => cases holds
  | succ n ih =>
      unfold steady at holds
      simp only [Bool.or_eq_true, Bool.and_eq_true, Bool.not_eq_true'] at holds
      obtain starts | ⟨before, stays⟩ := holds
      · exact Tracked.start starts
      · exact (ih (fun m earlier => small m (by omega)) before).steps
          (listing_run content floor events n) (trail_run content floor events n) (small n (by omega))
          stays

end

/-! ### Scripted runs -/

/-- A list of events, and then none that a resting cycle takes. -/
def script (events : List (Event Unit)) (n : ℕ) : Event Unit := events[n]?.getD .finish

/-- Snapshots that know no malware, of which `A` is older than `B`. -/
def twoSnapshots (sha : String) : Snapshot Unit := ⟨some (if sha = "A" then 10 else 20), fun _ => []⟩

def after (events : List (Event Unit)) : State Unit :=
  states twoSnapshots (fun _ => []) (script events) events.length

def publish (ts : ℕ) (id : String) (bytes : ℕ) : Event Unit :=
  .modify ts id false [("pkg", ())] bytes

def answer : Event Unit := .csv (.answered true true 100)

def Event.isUnreadable : Event σ → Bool
  | advisory .unreadable => true
  | _ => false

theorem not_givenUp {content : String → Snapshot Unit} {floor : Overlay Unit}
    {events : List (Event Unit)} (readable : ∀ event ∈ events, event.isUnreadable = false) (n : ℕ)
    (id : String) (ts : ℕ) : ¬ GivenUp content floor (script events) n id ts := by
  rintro ⟨m, _, gone⟩
  have unreadable : (script events m).isUnreadable = true := by
    unfold givesUp at gone
    split at gone
    next same _ =>
      rw [same]
      rfl
    next => cases gone
  unfold script at unreadable
  cases here : events[m]? with
  | none =>
      rw [here] at unreadable
      cases unreadable
  | some event =>
      rw [here, Option.getD_some, readable event (List.mem_of_getElem? here)] at unreadable
      cases unreadable

/-- One cycle over a new advisory, that reads it. -/
def oneCycle : List (Event Unit) := [.begin, answer, .advisory .read, .apply, .finish]

/-- An advisory is overlaid on a snapshot; another is loaded, and then the first again. -/
def reloadedBack : List (Event Unit) :=
  [publish 25 "MAL-2" 30, .reload "A"] ++ oneCycle ++ [.reload "B", .reload "A"]

def publishedAfter : List (Event Unit) := reloadedBack ++ [publish 40 "MAL-3" 30] ++ oneCycle

/-! ### Coverage -/

/-- A line that a cycle answers for: a walk found it above the floor since the loaded
snapshot was swapped in, or the CSV listed it when it was last read and none was swapped
in since a cycle started over. -/
def Answered (content : String → Snapshot σ) (floor : Overlay σ) (events : ℕ → Event σ) (n : ℕ)
    (line : Line) : Prop :=
  line ∈ held content floor events n ∨
    steady content floor events n = true ∧ line ∈ walked content floor events n ∧
      (∀ m < n, fits content (states content floor events m) = true) ∧
      ∃ sha watermark, (states content floor events n).slot.zipSha256 = some sha ∧
        (content sha).watermark = some watermark ∧ watermark < line.modified

/-- After a cycle that returns well with nothing left to retry, every malware advisory
that is answered for has its rules in force, unless it was withdrawn or given up. -/
theorem probe_covers (content : String → Snapshot σ) (floor : Overlay σ) (events : ℕ → Event σ)
    {n : ℕ} {ran : Bool} (returned : ends content floor events n = some (.ok ran))
    (settled : (states content floor events (n + 1)).memo.malRetries.keys = []) {line : Line}
    (listed : line ∈ (states content floor events (n + 1)).upstream.csv)
    (answered : Answered content floor events (n + 1) line)
    (safe : isProbeAdvisoryId line.id = true) (mal : isMal line.id = true)
    (published : ((states content floor events (n + 1)).upstream.records line.id).withdrawn = false)
    (wanted : ¬ GivenUp content floor events (n + 1) line.id line.modified) :
    InForce content (states content floor events (n + 1)) line := by
  have there : line ∈ held content floor events (n + 1) := by
    obtain found | ⟨steadily, seen, small, sha, watermark, loaded, snapshot, newer⟩ := answered
    · exact found
    obtain ⟨sha', unfloored | ⟨watermark', low, followed⟩⟩ :=
      tracked_run content floor events (n + 1) small steadily
    · obtain rfl : sha = sha' := Option.some.inj (loaded.symm.trans unfloored.loaded)
      cases unfloored.snapshot.symm.trans snapshot
    · obtain rfl : sha = sha' := Option.some.inj (loaded.symm.trans followed.loaded)
      obtain rfl : watermark = watermark' := Option.some.inj (snapshot.symm.trans followed.snapshot)
      exact followed.all line listed seen newer
  have idle : (states content floor events (n + 1)).phase = .idle := ended_idle
    (show step content _ (events n) = (states content floor events (n + 1), _) from
      Prod.ext rfl returned)
  have covered := (kept_run content floor events (n + 1)).phase
  rw [idle] at covered
  obtain (withdrawn | waiting | gone) | overlaid := covered line ⟨listed, there, safe, mal⟩
  · cases published.symm.trans withdrawn
  · rw [AList.mem_keys, settled] at waiting
    cases waiting
  · exact absurd gone wanted
  · exact fun entry member => List.mem_append_right _ (overlaid entry member)

/-- A later advisory is in force on the snapshot that was loaded again. -/
theorem covers_later : InForce twoSnapshots (after publishedAfter) ⟨40, "MAL-3", 30⟩ := by
  have returned : ends twoSnapshots (fun _ => []) (script publishedAfter) 14 = some (.ok true) := by
    decide +kernel
  exact probe_covers twoSnapshots (fun _ => []) (script publishedAfter) returned
    (by decide +kernel) (by decide +kernel) (.inl (by decide +kernel)) (by decide +kernel)
    (by decide +kernel) (by decide +kernel) (not_givenUp (by decide) _ _ _)

/-- The run's last event returns well with nothing left to retry, and yet a malware
advisory above the watermark of the loaded snapshot is not in force. -/
structure Missed (events : List (Event Unit)) (line : Line) : Prop where
  returned : ends twoSnapshots (fun _ => []) (script events) (events.length - 1) = some (.ok true)
  settled : (after events).memo.malRetries.keys = []
  listed : line ∈ (after events).upstream.csv
  newer : ((after events).slot.zipSha256.bind fun sha => (twoSnapshots sha).watermark).any
    (· < line.modified) = true
  mal : isMal line.id = true
  published : ((after events).upstream.records line.id).withdrawn = false
  wanted : ¬ GivenUp twoSnapshots (fun _ => []) (script events) events.length line.id line.modified
  missing : ¬ InForce twoSnapshots (after events) line

/-- The source answers that nothing changed, and the overlay is gone. -/
def unchangedAfter : List (Event Unit) := reloadedBack ++ [.begin, answer]

/-- The merge is refused once another snapshot is loaded. -/
def reloadedMidway : List (Event Unit) :=
  [publish 25 "MAL-2" 30, .reload "A", .begin, answer, .advisory .read, .reload "B", .apply, .finish]

def publishedBehind : List (Event Unit) :=
  [.reload "A", .begin, answer, publish 25 "MAL-2" 30, .apply, .finish]

def namedUnsafely : List (Event Unit) :=
  [publish 25 "MAL-/2" 30, .reload "A", .begin, answer, .apply, .finish]

/-- Each range is twice the last, from the first to the largest. -/
def oversized : List (Event Unit) :=
  [publish 25 "MAL-2" (maxFeedBytes + 1), .reload "A", .begin] ++ List.replicate 17 answer ++
    [.apply, .finish]

theorem probe_misses : Missed unchangedAfter ⟨25, "MAL-2", 30⟩ ∧ Missed reloadedMidway ⟨25, "MAL-2", 30⟩ ∧
    Missed publishedBehind ⟨25, "MAL-2", 30⟩ ∧ Missed namedUnsafely ⟨25, "MAL-/2", 30⟩ ∧
    Missed oversized ⟨25, "MAL-2", maxFeedBytes + 1⟩ := by
  refine ⟨?_, ?_, ?_, ?_, ?_⟩
  all_goals
    constructor
    case wanted => exact not_givenUp (by decide) _ _ _
    all_goals decide +kernel

end Pypiron.MalwareProbe
