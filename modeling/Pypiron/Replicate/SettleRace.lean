import Pypiron.Replicate.Outcomes
import Pypiron.ThreadPool

/-! One demotion settle among any number of private publishes of the filename,
interleaved at every storage call. The demotion fence leaves the key writable, and
a delete names no version, so what the settle may drop rests on its evidence. -/
namespace Pypiron.Replicate.SettleRace
open Program StoreM ThreadPool
variable {ι : Type}

/-- The body and the private sidecar of an upload. -/
structure Upload where
  body : Bytes
  sidecar : Sidecar
  typed : sidecar.origin = some Origin.priv.asStr

inductive Call where
  | settle
  | publish (upload : Upload)

/-- The writes of a private publish under the filename: the conditional create
that wins the immutable name, then the sidecar. -/
def publish (i : ι) (f : String) (upload : Upload) : StoreM ι Bool := do
  if ← putIfAbsent i f .body upload.body then
    put i f .sidecar upload.sidecar
    pure true
  else pure false

variable [DecidableEq ι]

/-- Every call answers or fails, before or after its effect; nothing else happens
to the buckets. -/
def race (site : Site ι) (i : ι) (pkg f : String) :
    System (Fleet ι) Call (StoreOp ι) (fun op => Except String op.Val) String Bool where
  program
    | .settle => settleMirrorQuarantine site i pkg f
    | .publish upload => publish i f upload
  performs _ s op answer t := Answers (apply site) op s answer t
  drifts _ _ := False
  drops _ _ _ := False

abbrev RaceRun (ι : Type) :=
  ℕ → Config (Fleet ι) Call (StoreOp ι) (fun op => Except String op.Val) String Bool

/-- A run with one settle at most. -/
structure Race (site : Site ι) (i : ι) (pkg f : String) (run : RaceRun ι) : Prop where
  trace : Trace (race site i pkg f) run
  idle : ∀ thread, (run 0).threads thread = none
  single : ∀ now now' thread thread' program program',
    (run now).threads thread = some (.settle, program) →
      (run now').threads thread' = some (.settle, program') → thread = thread'

variable {site : Site ι} {i : ι} {pkg f : String} {run : RaceRun ι}
variable {thread now later : ℕ} {call : Call} {k : Kind}

/-! ### What the calls issue -/

/-- A settle writes its fence and its evidence before it drops anything. -/
def evidence (i : ι) (f : String) : Footprint ι where
  creates j g k := j = i ∧ g = f ∧ (k = .fence .mirrorQuarantined ∨ ∃ h, k = .quarantine h)
  replaces _ _ _ := False

def Issued (i : ι) (f : String) : Call → StoreOp ι → Prop
  | .settle, op => (evidence i f).permits op ∨ ∃ k ∈ recordObjectKeys, op = .delete i f k
  | .publish upload, op =>
    op = .putIfAbsent i f .body upload.body ∨ op = .put i f .sidecar upload.sidecar

/-- The one operation that removes a body. -/
def DropsBody (i : ι) (f : String) (op : StoreOp ι) : Prop := op = .delete i f .body

section Settle
omit [DecidableEq ι]

/-- What holds of the steps before the drop and of the drop holds of the settle. -/
theorem settle_induction (holds : StoreM ι Bool → Prop)
    (bind : ∀ {α : Type} (program : StoreM ι α) (rest : α → StoreM ι Bool),
      Within (evidence i f) program → (∀ value, holds (rest value)) → holds (program >>= rest))
    (finish : ∀ value, holds (pure value))
    (drop : ∀ (ours : Bool) value, holds (deleteKeys i f (if ours then recordObjectKeys else
      recordObjectKeys.tail) >>= fun _ => pure value)) :
    holds (settleMirrorQuarantine site i pkg f) := by
  apply bind _ _ within_ensurePrivate
  intro _
  apply bind _ _ within_demotionResolvedByPrivateTruth
  intro resolved
  split
  · exact finish _
  apply bind _ _ (within_putIfAbsent ⟨rfl, rfl, Or.inl rfl⟩)
  intro created
  apply bind _ _ (within_quarantine fun h => ⟨rfl, rfl, Or.inr ⟨h, rfl⟩⟩)
  intro preserved
  apply bind _ _ within_headExists
  intro left
  apply bind _ _ within_settleableBody
  intro settleable
  split
  · exact finish _
  · exact drop _ _

theorem never_dropsBody {α : Type} {program : StoreM ι α} (within : Within (evidence i f) program) :
    Issues (fun op => ¬DropsBody i f op) (fun _ => True) program := by
  apply Only.issues
  apply Only.mono within
  rintro op permitted rfl
  exact permitted

theorem deleteKeys_never {kinds : List Kind} (kept : .body ∉ kinds) :
    Issues (fun op => ¬DropsBody i f op) (fun _ => True) (deleteKeys i f kinds) := by
  let others : Footprint ι := ⟨fun _ _ _ => False, fun _ _ k => k ≠ .body⟩
  have within : Within others (deleteKeys i f kinds) := by
    apply within_deleteKeys
    rintro k member rfl
    exact kept member
  apply Only.issues
  apply Only.mono within
  rintro op permitted rfl
  exact permitted rfl

theorem settle_once : Once (DropsBody i f) (settleMirrorQuarantine site i pkg f) := by
  apply settle_induction (Once (DropsBody i f))
  · exact fun program rest within once => Once.never_bind (never_dropsBody within) once
  · exact fun value => trivial
  · intro ours value
    apply Once.bind
    · cases ours with
      | true =>
          refine fun answer => ⟨?_, fun _ => ?_⟩
          · cases answer with
            | ok _ => exact Once.of_never (deleteKeys_never (by simp))
            | error _ => trivial
          · cases answer with
            | ok _ => exact deleteKeys_never (by simp)
            | error _ => trivial
      | false => exact Once.of_never (deleteKeys_never (by simp [recordObjectKeys]))
    · exact fun _ => trivial

theorem deleteKeys_issues {kinds : List Kind} (records : ∀ k ∈ kinds, k ∈ recordObjectKeys) :
    Issues (Issued i f .settle) (fun _ => True) (deleteKeys i f kinds) := by
  induction kinds with
  | nil => trivial
  | cons k rest ih =>
      refine Issues.bind (P := fun _ => True) ⟨?_, fun answer => ?_⟩ fun _ _ => ih ?_
      · exact Or.inr ⟨k, records k (by simp), rfl⟩
      · cases answer <;> trivial
      · exact fun k member => records k (by simp [member])

theorem settle_issues :
    Issues (Issued i f .settle) (fun _ => True) (settleMirrorQuarantine site i pkg f) := by
  apply settle_induction (Issues (Issued i f .settle) fun _ => True)
  · intro α program rest within issues
    apply Issues.bind (P := fun _ => True)
    · exact Only.issues (Only.mono within fun op permitted => Or.inl permitted)
    · exact fun value _ => issues value
  · exact fun value => trivial
  · intro ours value
    refine Issues.bind (P := fun _ => True) (deleteKeys_issues ?_) fun _ _ => trivial
    intro k member
    split at member
    · exact member
    · exact List.mem_of_mem_tail member

theorem publish_issues (upload : Upload) :
    Issues (Issued i f (.publish upload)) (fun _ => True) (publish i f upload) := by
  refine Issues.bind (P := fun _ => True) ⟨Or.inl rfl, fun answer => ?_⟩ fun created _ => ?_
  · cases answer <;> trivial
  · split
    · refine Issues.bind (P := fun _ => True) ⟨Or.inr rfl, fun answer => ?_⟩ fun _ _ => trivial
      cases answer <;> trivial
    · trivial

theorem publish_never (upload : Upload) :
    Issues (fun op => ¬DropsBody i f op) (fun _ => True) (publish i f upload) := by
  have narrower (op : StoreOp ι) (issued : Issued i f (.publish upload) op) : ¬DropsBody i f op := by
    rintro rfl
    rcases issued with same | same <;> cases same
  exact (publish_issues upload).mono narrower

end Settle

/-! ### What a run does to the body and to the evidence -/

namespace Race

theorem permitted (race : Race site i pkg f run)
    (performed : Performed (SettleRace.race site i pkg f) run thread now call op answer) :
    Issued i f call op := by
  have issues (call : Call) : Issues (Issued i f call) (fun _ => True)
      ((SettleRace.race site i pkg f).program call) := by
    cases call with
    | settle => exact settle_issues
    | publish upload => exact publish_issues upload
  exact race.trace.issues race.idle issues performed

theorem stays (race : Race site i pkg f run) (now thread : ℕ)
    (busy : (run now).threads thread ≠ none) : (run (now + 1)).threads thread ≠ none := by
  obtain ⟨mover, call, op, answer, next, task, _, after⟩ | ⟨mover, call, free, next⟩ |
    ⟨drifted, _⟩ | ⟨_, _, _, dropped, _⟩ | paused := race.trace.cases now
  · by_cases mine : thread = mover
    · rw [after, mine, Config.setThread_self]
      simp
    · rwa [after, Config.setThread_other _ mine]
  · by_cases mine : thread = mover
    · rw [next, mine, Config.setThread_self]
      simp
    · rwa [next, Config.setThread_other _ mine]
  · exact drifted.elim
  · exact dropped.elim
  · rwa [paused]

/-- The bucket is as it was, or a call has taken effect. -/
theorem store_step (race : Race site i pkg f run) (now : ℕ) :
    (run (now + 1)).store = (run now).store ∨ ∃ thread call op answer,
      Performed (SettleRace.race site i pkg f) run thread now call op answer ∧
        (run (now + 1)).store = (apply site op (run now).store).2 := by
  obtain ⟨thread, call, op, answer, performed⟩ | ⟨_, _, _, next⟩ | ⟨drifted, _⟩ |
    ⟨_, _, _, dropped, _⟩ | paused := race.trace.cases now
  · have ⟨_, _, answers, _⟩ := performed
    generalize after : (run (now + 1)).store = store at answers
    cases answers with
    | served => exact Or.inr ⟨thread, call, op, _, performed, rfl⟩
    | refused => exact Or.inl rfl
    | lost => exact Or.inr ⟨thread, call, op, _, performed, rfl⟩
  · exact Or.inl (by rw [next, Config.setThread_store])
  · exact drifted.elim
  · exact dropped.elim
  · exact Or.inl (by rw [paused])

/-- Nobody replaces a preserved body. -/
def preserving : Footprint ι := ⟨fun _ _ _ => True, fun _ _ k => ∀ h, k ≠ .quarantine h⟩

omit [DecidableEq ι] in
theorem preserving_permits {op : StoreOp ι} (issued : Issued i f call op) :
    (preserving : Footprint ι).permits op := by
  cases call with
  | settle =>
      rcases issued with permitted | ⟨k, record, rfl⟩
      · cases op <;> first | exact trivial | exact permitted.elim
      · rintro h rfl
        simp [recordObjectKeys] at record
  | publish upload =>
      rcases issued with rfl | rfl
      · trivial
      · exact fun h => by simp

theorem evidence_step (race : Race site i pkg f run) {h : String} {bytes : Bytes}
    (found : (run now).store.read i f (.quarantine h) = some bytes) :
    (run (now + 1)).store.read i f (.quarantine h) = some bytes := by
  rcases race.store_step now with same | ⟨thread, call, op, answer, performed, after⟩
  · rw [same, found]
  · have within : Within preserving (request op) :=
      ⟨preserving_permits (race.permitted performed), fun _ => trivial⟩
    rw [after]
    exact within.stays (cut_request.mpr (Or.inr rfl)) (fun free => free h rfl) found

theorem evidence_stays (race : Race site i pkg f run) {h : String} {bytes : Bytes}
    (found : (run now).store.read i f (.quarantine h) = some bytes) (le : now ≤ later) :
    (run later).store.read i f (.quarantine h) = some bytes := by
  induction later, le using Nat.le_induction with
  | base => exact found
  | succ later _ ih => exact race.evidence_step ih

/-- A body stands until the settle drops it. -/
theorem body_step (race : Race site i pkg f run) {bytes : Bytes}
    (found : (run now).store.read i f .body = some bytes) :
    (run (now + 1)).store.read i f .body = some bytes ∨ ∃ thread answer,
      Performed (SettleRace.race site i pkg f) run thread now .settle (.delete i f .body) answer := by
  rcases race.store_step now with same | ⟨thread, call, op, answer, performed, after⟩
  · rw [same]
    exact Or.inl found
  rw [after]
  have issued := race.permitted performed
  cases call with
  | settle =>
      rcases issued with permitted | ⟨k, -, rfl⟩
      · have within : Within (evidence i f) (request op) := ⟨permitted, fun _ => trivial⟩
        exact Or.inl (within.stays (cut_request.mpr (Or.inr rfl)) id found)
      · by_cases body : k = .body
        · subst body
          exact Or.inr ⟨thread, answer, performed⟩
        · exact Or.inl (by rw [apply, read_write_kind (Ne.symm body), found])
  | publish upload =>
      rcases issued with rfl | rfl
      · exact Or.inl (by simp [apply, found])
      · exact Or.inl (by rw [apply, read_write_kind (by simp), found])

theorem body_stays (race : Race site i pkg f run) {bytes : Bytes}
    (found : (run now).store.read i f .body = some bytes) (le : now ≤ later)
    (spared : ∀ instant thread answer, instant < later →
      ¬Performed (SettleRace.race site i pkg f) run thread instant .settle (.delete i f .body) answer) :
    (run later).store.read i f .body = some bytes := by
  induction later, le using Nat.le_induction with
  | base => exact found
  | succ later _ ih =>
      have standing := ih fun instant thread answer less => spared instant thread answer (by omega)
      rcases race.body_step standing with stands | ⟨thread, answer, dropped⟩
      · exact stands
      · exact absurd dropped (spared later thread answer (by omega))

theorem drops_once (race : Race site i pkg f run) {thread' : ℕ}
    (first : Performed (SettleRace.race site i pkg f) run thread now .settle (.delete i f .body) answer)
    (second : Performed (SettleRace.race site i pkg f) run thread' later .settle (.delete i f .body)
      answer') : ¬now < later := by
  intro less
  have once (call : Call) : Once (DropsBody i f) ((SettleRace.race site i pkg f).program call) := by
    cases call with
    | settle => exact settle_once
    | publish upload => exact Once.of_never (publish_never upload)
  have ⟨_, task, _⟩ := first
  have ⟨_, task', _⟩ := second
  obtain rfl := race.single _ _ _ _ _ _ task task'
  exact race.trace.once race.stays race.idle once first rfl second less rfl

/-- An answer is what the bucket held, and what it became. -/
theorem served (performed : Performed (SettleRace.race site i pkg f) run thread now call op (.ok value)) :
    apply site op (run now).store = (.ok value, (run (now + 1)).store) := by
  obtain ⟨_, _, answers, _⟩ := performed
  generalize told : (Except.ok value : Except String op.Val) = answer at answers
  generalize after : (run (now + 1)).store = store at answers
  cases answers with
  | served => rfl
  | refused => cases told
  | lost => cases told

end Race

/-! ### What the settle may drop -/

/-- The settle has read these bytes under the key, copied them aside after that,
and the copy stands. -/
def SetAside (site : Site ι) (i : ι) (pkg f : String) (run : RaceRun ι) (thread now : ℕ)
    (bytes : Bytes) : Prop :=
  ∃ read copied answer, read < copied ∧ copied < now ∧
    (run read).store.read i f .body = some bytes ∧
    Performed (race site i pkg f) run thread copied .settle
      (.putIfAbsent i f (.quarantine (sha12 (site.encoding.sha256 bytes))) bytes) answer ∧
    (run now).store.read i f (.quarantine (sha12 (site.encoding.sha256 bytes))) = some bytes

theorem SetAside.mono (race : Race site i pkg f run) {bytes : Bytes}
    (aside : SetAside site i pkg f run thread now bytes) (le : now ≤ later) :
    SetAside site i pkg f run thread later bytes := by
  obtain ⟨read, copied, answer, before, less, found, performed, stands⟩ := aside
  exact ⟨read, copied, answer, before, by omega, found, performed, race.evidence_stays stands le⟩

/-- The first drop of a body takes what was set aside. -/
def settling (site : Site ι) (i : ι) (pkg f : String) (run : RaceRun ι) :
    Contract Call (StoreOp ι) String Bool where
  permits thread call _ now op := call = .settle → DropsBody i f op →
    (∀ instant thread' answer, instant < now →
      ¬Performed (race site i pkg f) run thread' instant .settle (.delete i f .body) answer) →
    ∀ bytes, (run now).store.read i f .body = some bytes →
      SetAside site i pkg f run thread now bytes
  post _ _ _ _ _ := True

/-- What the settle owes from an instant of the run on. -/
abbrev Settles (site : Site ι) (i : ι) (pkg f : String) (run : RaceRun ι) (thread : ℕ) {α : Type}
    (holds : ℕ → α → Prop) (world : ℕ) (program : StoreM ι α) : Prop :=
  Lawful ((settling site i pkg f run).permits thread .settle 0)
    (Answered (race site i pkg f) run (fun _ => True) thread .settle) (Lawful.Yields holds) world
    program

section Settles
variable {α : Type} {holds : ℕ → α → Prop} {world : ℕ}

theorem settles_issues {program : StoreM ι α} {P : α → Prop}
    (never : Issues (fun op => ¬DropsBody i f op) P program)
    (yields : ∀ later value, world ≤ later → P value → holds later value) :
    Settles site i pkg f run thread holds world program := by
  apply Lawful.of_issues never
  · exact fun now op le other _ drops => absurd drops other
  · exact fun later error le value same => by cases same
  · intro later value le told value' same
    cases same
    exact yields later value le told

theorem settles_within {program : StoreM ι α} (within : Within (evidence i f) program) :
    Settles site i pkg f run thread (fun _ _ => True) world program :=
  settles_issues (never_dropsBody within) fun _ _ _ _ => trivial

theorem settles_request {op : StoreOp ι} {holds : ℕ → op.Val → Prop}
    (permitted : ∀ now, world ≤ now → (settling site i pkg f run).permits thread .settle 0 now op)
    (yields : ∀ instant value later, world ≤ instant → instant < later →
      Performed (race site i pkg f) run thread instant .settle op (.ok value) → holds later value) :
    Settles site i pkg f run thread holds world (request op) := by
  intro now le
  refine ⟨permitted now le, fun later answer grows told last beyond value same => ?_⟩
  obtain ⟨-, instant, from_, rfl, performed⟩ := told
  cases same
  exact yields instant value last (le.trans from_) (by omega) performed

theorem settles_quarantineBytes (race : Race site i pkg f run) {bytes : Bytes} {read : ℕ}
    (before : read < world) (found : (run read).store.read i f .body = some bytes) :
    Settles site i pkg f run thread (fun later _ => SetAside site i pkg f run thread later bytes)
      world (quarantineBytes site i pkg f bytes) := by
  let key := Kind.quarantine (sha12 (site.encoding.sha256 bytes))
  have creating : Settles site i pkg f run thread (fun later created => ∃ copied < later,
      read < copied ∧ Performed (SettleRace.race site i pkg f) run thread copied .settle
        (.putIfAbsent i f key bytes) (.ok created) ∧
      (created = true → (run later).store.read i f key = some bytes)) world
      (putIfAbsent i f key bytes) := by
    apply settles_request
    · exact fun now le _ drops => by cases drops
    · intro instant created later le less performed
      refine ⟨instant, less, by omega, performed, ?_⟩
      rintro rfl
      have served := Race.served performed
      rw [apply] at served
      split at served
      · cases served
      · have after : (run instant).store.write i f key (some bytes) = (run (instant + 1)).store :=
          congrArg Prod.snd served
        apply race.evidence_stays _ less
        rw [Nat.succ_eq_add_one, ← after]
        exact read_write_self _
  refine creating.yield_bind fun middle le created told => ?_
  obtain ⟨copied, less, after, performed, stands⟩ := told
  split
  · rename_i stored
    refine Lawful.yield_pure fun later beyond => ?_
    refine ⟨read, copied, _, after, by omega, found, performed, ?_⟩
    exact race.evidence_stays (stands stored) beyond
  · have reading : Settles site i pkg f run thread
        (fun later stored => ∀ existing, stored = some existing →
          (run later).store.read i f key = some existing) middle (get i f key) := by
      apply settles_request
      · exact fun now le _ drops => by cases drops
      · rintro instant _ later le less performed existing rfl
        have served := Race.served performed
        rw [apply, Prod.mk.injEq, Except.ok.injEq] at served
        exact race.evidence_stays served.1 (by omega)
    refine reading.yield_bind fun checked le' stored told => ?_
    split
    · exact Lawful.yield_bail
    · rename_i existing
      split
      · rename_i same
        have stands := told existing rfl
        rw [same] at stands
        refine Lawful.yield_pure fun later beyond => ?_
        exact ⟨read, copied, _, after, by omega, found, performed, race.evidence_stays stands beyond⟩
      · exact Lawful.yield_bail

/-- Whatever digest comes back, its bytes are set aside. -/
theorem settles_quarantine (race : Race site i pkg f run) :
    Settles site i pkg f run thread (fun later preserved => preserved.isSome →
      ∃ bytes, SetAside site i pkg f run thread later bytes) world (quarantine site i pkg f) := by
  have reading : Settles site i pkg f run thread (fun later stored => ∀ bytes, stored = some bytes →
      ∃ read < later, (run read).store.read i f .body = some bytes) world (get i f .body) := by
    apply settles_request
    · exact fun now le _ drops => by cases drops
    · rintro instant _ later le less performed bytes rfl
      have served := Race.served performed
      rw [apply, Prod.mk.injEq, Except.ok.injEq] at served
      exact ⟨instant, less, served.1⟩
  refine reading.yield_bind fun middle le stored told => ?_
  split
  · exact Lawful.yield_pure fun later beyond preserved => by cases preserved
  · rename_i bytes
    obtain ⟨read, before, found⟩ := told bytes rfl
    refine (settles_quarantineBytes race before found).yield_bind fun copied le' sha aside => ?_
    exact Lawful.yield_pure fun later beyond _ => ⟨bytes, aside.mono race beyond⟩

omit [DecidableEq ι] in
/-- A body is dropped only on the strength of a copy. -/
theorem settleableBody_issues {preserved : Option String} :
    Issues (fun op => ¬DropsBody i f op) (fun settleable => settleable = some true →
      preserved.isSome) (settleableBody site i f preserved) := by
  refine Issues.bind (never_dropsBody within_get) fun stored _ => ?_
  split
  · exact fun same => by cases same
  · rename_i standing
    split
    · exact fun same => by cases same
    · rename_i named
      rw [ne_eq, not_not] at named
      refine Issues.bind (never_dropsBody within_headExists) fun superseding _ => ?_
      split
      · exact fun same => by cases same
      · exact fun _ => by simp [named]

/-- With no drop before it, the drop finds the bytes that were set aside. -/
theorem settles_drop (race : Race site i pkg f run) {bytes : Bytes}
    (aside : SetAside site i pkg f run thread world bytes) :
    Settles site i pkg f run thread (fun _ _ => True) world (delete i f .body) := by
  apply settles_request
  · intro now le _ _ spared standing found
    have ⟨read, copied, _, before, less, seen, _⟩ := aside
    have stands := race.body_stays seen (by omega) spared
    rw [found, Option.some.injEq] at stands
    exact stands ▸ aside.mono race le
  · exact fun _ _ _ _ _ _ => trivial

theorem settles_settle (race : Race site i pkg f run) :
    Settles site i pkg f run thread (fun _ _ => True) world (settleMirrorQuarantine site i pkg f) := by
  refine (settles_within within_ensurePrivate).yield_bind fun _ _ _ _ => ?_
  refine (settles_within within_demotionResolvedByPrivateTruth).yield_bind fun _ _ resolved _ => ?_
  split
  · exact Lawful.yield_pure fun _ _ => trivial
  refine (settles_within (within_putIfAbsent ⟨rfl, rfl, Or.inl rfl⟩)).yield_bind fun _ _ _ _ => ?_
  refine (settles_quarantine race).yield_bind fun _ _ preserved copied => ?_
  refine (settles_within within_headExists).yield_bind fun headed le _ _ => ?_
  have settling : Settles site i pkg f run thread (fun _ settleable => settleable = some true →
      preserved.isSome) headed (settleableBody site i f preserved) :=
    settles_issues settleableBody_issues fun _ _ _ told => told
  refine settling.yield_bind fun checked le' settleable told => ?_
  split
  · exact Lawful.yield_pure fun _ _ => trivial
  · rename_i ours
    have dropping : Settles site i pkg f run thread (fun _ _ => True) checked
        (deleteKeys i f (if ours then recordObjectKeys else recordObjectKeys.tail)) := by
      cases ours with
      | true =>
          obtain ⟨bytes, aside⟩ := copied (told rfl)
          have aside := aside.mono race (le.trans le')
          refine (settles_drop race aside).yield_bind fun _ _ _ _ => ?_
          exact settles_issues (deleteKeys_never (by simp)) fun _ _ _ _ => trivial
      | false =>
          exact settles_issues (deleteKeys_never (by simp [recordObjectKeys])) fun _ _ _ _ => trivial
    exact dropping.yield_bind fun _ _ _ _ => Lawful.yield_pure fun _ _ => trivial

end Settles

/-- What the settle drops, it has set aside. -/
theorem Race.dropped_aside (race : Race site i pkg f run) {bytes : Bytes}
    (dropped : Performed (SettleRace.race site i pkg f) run thread now .settle (.delete i f .body)
      answer) (found : (run now).store.read i f .body = some bytes) :
    SetAside site i pkg f run thread now bytes := by
  have rules (thread start : ℕ) (call : Call) :
      (settling site i pkg f run).Kept (SettleRace.race site i pkg f) run (fun _ => True) thread call
        start start ((SettleRace.race site i pkg f).program call) := by
    cases call with
    | settle => exact (settles_settle race).weaken fun _ _ _ _ => trivial
    | publish upload =>
        apply Lawful.of_issues (publish_never upload)
        · exact fun now op _ other _ drops => absurd drops other
        · exact fun _ _ _ => trivial
        · exact fun _ _ _ _ => trivial
  obtain ⟨start, -, permits⟩ := race.trace.permitted race.idle (settling site i pkg f run) trivial
    (fun _ _ _ => trivial) (fun thread start call _ _ => rules thread start call) dropped
  apply permits rfl rfl _ bytes found
  exact fun instant thread' answer' less earlier => race.drops_once earlier dropped less

/-- The upload's create is the one that lands under the key. -/
def Created (site : Site ι) (i : ι) (pkg f : String) (run : RaceRun ι) (thread now : ℕ)
    (upload : Upload) : Prop :=
  (∃ answer, Performed (race site i pkg f) run thread now (.publish upload)
    (.putIfAbsent i f .body upload.body) answer) ∧
  (run now).store.read i f .body = none ∧
  (run (now + 1)).store.read i f .body = some upload.body

/-- A created body stands under its key, unless the settle copied it aside after
the create, and then the copy stands. A body is removed only behind its copy. -/
theorem settle_spares_uploads (race : Race site i pkg f run) :
    (∀ thread now upload, Created site i pkg f run thread now upload → ∀ later, now < later →
      (run later).store.read i f .body = some upload.body ∨
      (run later).store.read i f (.quarantine (sha12 (site.encoding.sha256 upload.body))) =
          some upload.body ∧
        ∃ settler copied answer, now < copied ∧ copied < later ∧
          Performed (SettleRace.race site i pkg f) run settler copied .settle (.putIfAbsent i f
            (.quarantine (sha12 (site.encoding.sha256 upload.body))) upload.body) answer) ∧
    ∀ now bytes, (run now).store.read i f .body = some bytes →
      (run (now + 1)).store.read i f .body ≠ some bytes →
      (run now).store.read i f (.quarantine (sha12 (site.encoding.sha256 bytes))) = some bytes := by
  constructor
  · intro thread now upload ⟨_, vacant, landed⟩ later less
    induction later, less using Nat.le_induction with
    | base => exact Or.inl landed
    | succ later less ih =>
        rcases ih with stands | ⟨copy, settler, copied, answer, after, before, performed⟩
        · rcases race.body_step stands with still | ⟨settler, _, dropped⟩
          · exact Or.inl still
          · have aside := race.dropped_aside dropped stands
            have ⟨_, _, _, _, _, _, _, copy⟩ := aside
            obtain ⟨read, copied, answer, before, until_, seen, performed, _⟩ := aside
            refine Or.inr ⟨race.evidence_step copy, settler, copied, answer, ?_, by omega, performed⟩
            -- Read before the create, the body would have had to be dropped twice.
            by_contra early
            have spared (instant thread : ℕ) (answer : Except String Unit) (less : instant < now) :
                ¬Performed (SettleRace.race site i pkg f) run thread instant .settle
                  (.delete i f .body) answer :=
              fun earlier => race.drops_once earlier dropped (by omega)
            have standing := race.body_stays seen (by omega) spared
            rw [vacant] at standing
            cases standing
        · exact Or.inr ⟨race.evidence_step copy, settler, copied, answer, after, by omega, performed⟩
  · intro now bytes found removed
    rcases race.body_step found with stands | ⟨settler, _, dropped⟩
    · exact absurd stands removed
    · obtain ⟨_, _, _, _, _, _, _, copy⟩ := race.dropped_aside dropped found
      exact copy

/-! ### Two interleavings -/

abbrev sampleRace : System (Fleet Unit) Call (StoreOp Unit) (fun op => Except String op.Val) String Bool :=
  race (streamingSite Unit) () "pkg" "pkg-1.whl"

/-- Every call is served. -/
def server : Server sampleRace where
  serve _ s op := apply (streamingSite Unit) op s
  sound _ _ _ := .served

def sampleUpload : Upload := ⟨[121], sampleSidecar 121 none .priv, rfl⟩

/-- No thread but the first settles. -/
def OnlyFirstSettles (moves : List (Move sampleRace)) : Prop :=
  ∀ thread call, Move.start thread call ∈ moves → call = .settle → thread = 0

theorem race_replay {s : Fleet Unit} {moves : List (Move sampleRace)} (settles : OnlyFirstSettles moves) :
    Race (streamingSite Unit) () "pkg" "pkg-1.whl" (replay ⟨s, fun _ => none⟩ moves) where
  trace := trace_replay _ _
  idle _ := rfl
  single now now' thread thread' program program' task task' := by
    have first := replay_started (fun _ => rfl) settles now thread .settle program task rfl
    have second := replay_started (fun _ => rfl) settles now' thread' .settle program' task' rfl
    rw [first, second]

/-- The upload takes the key between the drop of the mirror body and the rest. -/
def lateUpload : List (Move sampleRace) :=
  .start 0 .settle :: List.replicate 9 (.perform 0 server) ++
    [.start 1 (.publish sampleUpload), .perform 1 server] ++ List.replicate 3 (.perform 0 server) ++
    [.perform 1 server]

def lateUploadRun : RaceRun Unit :=
  replay ⟨fun _ => uploaded 120 .priv (sampleSidecar 120 none .mirror), fun _ => none⟩ lateUpload

theorem lateUpload_race : Race (streamingSite Unit) () "pkg" "pkg-1.whl" lateUploadRun := by
  apply race_replay
  intro thread call started settle
  subst settle
  simpa [lateUpload] using started

theorem lateUpload_spared :
    (lateUploadRun 9).store.read () "pkg-1.whl" (.quarantine "2d711642b726") = some [120] ∧
      (lateUploadRun 16).store.read () "pkg-1.whl" .body = some [121] := by
  obtain ⟨spares, removes⟩ := settle_spares_uploads lateUpload_race
  constructor
  · exact removes 9 [120] (by decide +kernel) (by decide +kernel)
  · have idle : ((lateUploadRun 10).threads 1).isNone := by decide +kernel
    have started : (lateUploadRun 11).threads 1 =
        some (.publish sampleUpload, sampleRace.program (.publish sampleUpload)) :=
      replay_starts rfl (Option.isNone_iff_eq_none.mp idle)
    have created : Created (streamingSite Unit) () "pkg" "pkg-1.whl" lateUploadRun 1 11 sampleUpload :=
      ⟨⟨_, performed_replay rfl started⟩, by decide +kernel, by decide +kernel⟩
    rcases spares 1 11 sampleUpload created 16 (by omega) with stands | ⟨copy, -⟩
    · exact stands
    · exact absurd copy (by decide +kernel)

/-- The upload takes the key of a torn mirror record, and the settle runs to its
end before the sidecar is written. -/
def earlyUpload : List (Move sampleRace) :=
  [.start 1 (.publish sampleUpload), .perform 1 server, .start 0 .settle] ++
    List.replicate 12 (.perform 0 server) ++ [.perform 1 server]

def earlyUploadRun : RaceRun Unit :=
  replay ⟨fun _ => { emptyPackage.set "pkg-1.whl" .sidecar (some (sampleSidecar 120 none .mirror)) with
    claim := some ⟨.priv, 0⟩ }, fun _ => none⟩ earlyUpload

/-- Both calls succeed, and the created body is no longer under its key. -/
theorem earlyUpload_moved :
    Race (streamingSite Unit) () "pkg" "pkg-1.whl" earlyUploadRun ∧
      Created (streamingSite Unit) () "pkg" "pkg-1.whl" earlyUploadRun 1 1 sampleUpload ∧
      (earlyUploadRun 15).threads 0 = some (.settle, .done (.ok true)) ∧
      (earlyUploadRun 16).threads 1 = some (.publish sampleUpload, .done (.ok true)) ∧
      (earlyUploadRun 15).store.read () "pkg-1.whl" .body = none := by
  refine ⟨race_replay ?_, ⟨⟨_, performed_replay rfl rfl⟩, ?_, ?_⟩, rfl, rfl, ?_⟩
  · intro thread call started settle
    subst settle
    simpa [earlyUpload] using started
  · decide +kernel
  · decide +kernel
  · decide +kernel

end Pypiron.Replicate.SettleRace
