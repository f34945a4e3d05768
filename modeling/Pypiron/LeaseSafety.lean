import Pypiron.Lease

/-! What holds across every interleaving of lease checks and releases. A check
reads the clock, then the lease, then writes conditionally on the version it
read; the clock reading it carries is the only thing that goes stale. -/
namespace Pypiron.Leader
open Program ThreadPool

/-- What `try_hold` does after its clock reading. -/
def holdFrom (manager : LeaseManager) (now : ℤ) : LeaseM LeaseOutcome := do
  return .held (← manager.readLease now)

/-- `call` writes `lease` between `now` and `now + 1`. -/
def Landed (run : ℕ → LeaseConfig) (now : ℕ) (call : LeaseCall) (lease : Lease) : Prop :=
  ∃ thread asked answer, Performed leases run thread now call (.storage asked) answer ∧
    (run (now + 1)).store.cell = (run now).store.cell.write (.lease lease)

def stored (config : LeaseConfig) : Option LeaseBody := config.store.cell.value

/-- Managers of one TTL over a lease that is absent or well formed. -/
structure LeaseRun (ttl : ℤ) (run : ℕ → LeaseConfig) : Prop where
  trace : Trace leases run
  idle : ∀ thread, (run 0).threads thread = none
  decoded : stored (run 0) ≠ some .malformed
  oneTtl : ∀ now thread call program, (run now).threads thread = some (call, program) →
    call.manager.ttlSecs = ttl

/-- A manager runs one check at a time, reads the lease within two TTLs of the
clock, and the term counter has not run out. -/
structure Orderly (run : ℕ → LeaseConfig) : Prop where
  single : ∀ now thread thread' manager op next op' next',
    (run now).threads thread = some (.tryHold manager, .call op next) →
    (run now).threads thread' = some (.tryHold manager, .call op' next') → thread = thread'
  prompt : ∀ now thread manager clock,
    (run now).threads thread = some (.tryHold manager, holdFrom manager clock) →
    (run now).store.clock ≤ clock + 2 * manager.ttlSecs
  terms : ∀ now lease, stored (run now) = some (.lease lease) → lease.term + 1 < 2 ^ 64

/-- Every answer to the last request of a check ends it, and a check that reports
success had its write accepted. -/
def Concludes (next : Except String (Option ℕ) → LeaseM LeaseOutcome) : Prop :=
  ∀ answer, ∃ result, next answer = .done result ∧
    (result = .ok (.held true) → ∃ etag, answer = .ok (some etag))

section Stages
variable (run : ℕ → LeaseConfig) (instant : ℕ) (manager : LeaseManager)

/-- The clock reading a check carries is no older than any lease its manager has
written so far. -/
def Fresh (now : ℤ) : Prop :=
  now ≤ (run instant).store.clock ∧ ∀ earlier < instant, ∀ lease,
    Landed run earlier (.tryHold manager) lease → lease.expiresAt ≤ now + manager.ttlSecs

/-- What a check read: its own lease, or one it may take over. The last two
alternatives are what the far-future branch comes to. -/
def Over (now : ℤ) (seen : ℕ) (current : Lease) (term : ℕ) : Prop :=
  (current.holder = manager.holder ∧ term = current.term) ∨
  (current.holder ≠ manager.holder ∧ term = nextTerm current.term ∧
    (current.expiresAt < now ∨ current.holder = "" ∨
      (run seen).store.cell = (run 0).store.cell))

inductive HoldStage (program : LeaseM LeaseOutcome) : Prop where
  | start (here : program = .call .nowUtc (holdFrom manager))
  | read (now : ℤ) (fresh : Fresh run instant manager now) (here : program = holdFrom manager now)
  | create (now : ℤ) (fresh : Fresh run instant manager now)
      (next : Except String (Option ℕ) → LeaseM LeaseOutcome)
      (here : program =
        .call (.storage (.putIfNoneMatch (.lease (manager.leaseJson 1 now)))) next)
      (last : Concludes next)
  | replace (now : ℤ) (fresh : Fresh run instant manager now) (etag seen : ℕ) (current : Lease)
      (term : ℕ) (before : seen ≤ instant)
      (found : (run seen).store.cell.get = some (.lease current, etag))
      (finished : Over run manager now seen current term)
      (next : Except String (Option ℕ) → LeaseM LeaseOutcome)
      (here : program =
        .call (.storage (.putIfMatch etag (.lease (manager.leaseJson term now)))) next)
      (last : Concludes next)
  | finished (result) (here : program = .done result)
      (landed : result = .ok (.held true) → ∃ earlier < instant, ∃ lease,
        Landed run earlier (.tryHold manager) lease)

inductive ReleaseStage (program : LeaseM LeaseOutcome) : Prop where
  | start (here : program = LeaseCall.program (.release manager))
  | replace (etag seen : ℕ) (current : Lease) (before : seen ≤ instant)
      (found : (run seen).store.cell.get = some (.lease current, etag))
      (own : current.holder = manager.holder)
      (next : Except String (Option ℕ) → LeaseM LeaseOutcome)
      (here : program = .call (.storage (.putIfMatch etag (.lease ⟨"", current.term, 0⟩))) next)
      (last : ∀ answer, ∃ result, next answer = .done result)
  | finished (result) (here : program = .done result)

def Stage : LeaseCall → LeaseM LeaseOutcome → Prop
  | .tryHold manager => HoldStage run instant manager
  | .release manager => ReleaseStage run instant manager

/-- A landed check has been released by its manager, has expired, or the lease
still names its manager and expires no earlier. -/
def Ended (earlier : ℕ) (manager : LeaseManager) (lease : Lease) : Prop :=
  (∃ between, earlier < between ∧ between < instant ∧
    ∃ released, Landed run between (.release manager) released) ∨
  lease.expiresAt < (run instant).store.clock ∨
  ∃ current, stored (run instant) = some (.lease current) ∧ current.holder = manager.holder ∧
    lease.expiresAt ≤ current.expiresAt

structure Sound (ttl : ℤ) : Prop where
  stages : ∀ thread call program, (run instant).threads thread = some (call, program) →
    Stage run instant call program
  decoded : stored (run instant) ≠ some .malformed
  bounded : (run instant).store.cell = (run 0).store.cell ∨ ∀ lease,
    stored (run instant) = some (.lease lease) → lease.holder ≠ "" →
    lease.expiresAt ≤ (run instant).store.clock + ttl
  holds : ∀ earlier < instant, ∀ manager lease, Landed run earlier (.tryHold manager) lease →
    lease.holder = manager.holder ∧ manager.ttlSecs = ttl ∧
      lease.expiresAt ≤ (run earlier).store.clock + ttl ∧ Ended run instant earlier manager lease

end Stages

section Run
variable {ttl : ℤ} {run : ℕ → LeaseConfig} {instant : ℕ} {manager : LeaseManager}
variable {call : LeaseCall} {lease : Lease}

theorem performs_nowUtc (performs : LeasePerforms store .nowUtc answer store') :
    answer = store.clock ∧ store' = store := by
  cases performs
  exact ⟨rfl, rfl⟩

theorem performs_storage (performs : LeasePerforms store (.storage asked) answer store') :
    store'.clock = store.clock ∧ VersionedCell.Serves store.cell asked answer store'.cell := by
  cases performs with
  | storage serves => exact ⟨rfl, serves⟩

theorem step_clock (step : Step leases config config') :
    config.store.clock ≤ config'.store.clock := by
  cases step with
  | start _ => exact le_rfl
  | @perform thread call op next answer store task performs =>
      cases op with
      | nowUtc =>
          obtain ⟨-, rfl⟩ := performs_nowUtc performs
          exact le_rfl
      | storage asked => exact (performs_storage performs).1.ge
  | drift drifts =>
      obtain ⟨later, le, rfl⟩ := drifts
      exact le
  | drop _ drops =>
      cases drops
      exact le_rfl

theorem step_cell (step : Step leases config config') :
    VersionedCell.Evolves config.store.cell config'.store.cell := by
  cases step with
  | start _ => exact .inl rfl
  | @perform thread call op next answer store task performs =>
      cases op with
      | nowUtc =>
          obtain ⟨-, rfl⟩ := performs_nowUtc performs
          exact .inl rfl
      | storage asked => exact (performs_storage performs).2.evolves
  | drift drifts =>
      obtain ⟨later, le, rfl⟩ := drifts
      exact .inl rfl
  | drop _ drops =>
      cases drops
      exact .inl rfl

namespace LeaseRun

theorem clock_mono (leaseRun : LeaseRun ttl run) {earlier later : ℕ} (le : earlier ≤ later) :
    (run earlier).store.clock ≤ (run later).store.clock :=
  leaseRun.trace.ordered (R := fun config config' => config.store.clock ≤ config'.store.clock)
    (fun _ => Int.le_refl _) (fun _ _ _ => Int.le_trans) (fun _ _ step => step_clock step) le

theorem evolves (leaseRun : LeaseRun ttl run) (now : ℕ) :
    VersionedCell.Evolves (run now).store.cell (run (now + 1)).store.cell := by
  obtain step | paused := leaseRun.trace now
  · exact step_cell step
  · exact .inl (by rw [paused])

end LeaseRun

/-- Whether the last write was accepted is what a check reports. -/
theorem write_concludes :
    Concludes fun answer =>
      ((Program.done answer : LeaseM (Option ℕ)) >>= fun written => pure written.isSome) >>=
        fun held => pure (LeaseOutcome.held held) := by
  intro answer
  cases answer with
  | error text => exact ⟨_, rfl, fun same => by cases same⟩
  | ok written =>
      cases written with
      | none => exact ⟨_, rfl, fun same => by cases same⟩
      | some etag => exact ⟨_, rfl, fun _ => ⟨etag, rfl⟩⟩

/-- What the last request of a check is, for the lease it found. -/
theorem holdOver_cases (manager : LeaseManager) (now : ℤ) (current : Lease) (etag : ℕ) :
    (∃ term next, (do return LeaseOutcome.held (← manager.holdOver now current etag)) =
        Program.call (.storage (.putIfMatch etag (.lease (manager.leaseJson term now)))) next ∧
      Concludes next ∧ ((current.holder = manager.holder ∧ term = current.term) ∨
        (current.holder ≠ manager.holder ∧ term = nextTerm current.term ∧
          manager.mayTake now current))) ∨
    (do return LeaseOutcome.held (← manager.holdOver now current etag)) =
      (Program.done (.ok (.held false)) : LeaseM LeaseOutcome) := by
  unfold LeaseManager.holdOver
  split
  next own => exact .inl ⟨current.term, _, rfl, write_concludes, .inl ⟨own, rfl⟩⟩
  next other =>
    split
    next take =>
      exact .inl ⟨nextTerm current.term, _, rfl, write_concludes, .inr ⟨other, rfl, take⟩⟩
    next => exact .inr rfl

theorem Landed.changes (landed : Landed run instant call lease) :
    (run (instant + 1)).store.cell ≠ (run instant).store.cell := by
  obtain ⟨_, _, _, _, written⟩ := landed
  intro same
  have issued := congrArg VersionedCell.issued (written.symm.trans same)
  rw [VersionedCell.issued_write] at issued
  omega

theorem Landed.stored (landed : Landed run instant call lease) :
    stored (run (instant + 1)) = some (.lease lease) := by
  obtain ⟨_, _, _, _, written⟩ := landed
  rw [Leader.stored, written, VersionedCell.value_write]

theorem stored_of_get (found : (run instant).store.cell.get = some (body, etag)) :
    stored (run instant) = some body := VersionedCell.value_of_get found

theorem stored_of_get_none (missing : (run instant).store.cell.get = none) :
    stored (run instant) = none := VersionedCell.value_of_get_none missing

section Landing
variable (run) (instant) (manager)

/-- What a landed check overwrote. -/
def Takes (ttl : ℤ) (lease : Lease) : Prop :=
  lease.holder = manager.holder ∧ manager.ttlSecs = ttl ∧
  lease.expiresAt ≤ (run instant).store.clock + ttl ∧
  (∀ earlier < instant, ∀ older, Landed run earlier (.tryHold manager) older →
    older.expiresAt ≤ lease.expiresAt) ∧
  (stored (run instant) = none ∨ ∃ current, stored (run instant) = some (.lease current) ∧
    ((current.holder = manager.holder ∧ lease.term = current.term) ∨
      (current.holder ≠ manager.holder ∧ lease.term = nextTerm current.term ∧
        (current.expiresAt < (run instant).store.clock ∨ current.holder = "" ∨
          (run instant).store.cell = (run 0).store.cell))))

end Landing

theorem landed_value (landed : (run (instant + 1)).store.cell =
      (run instant).store.cell.write (.lease lease))
    (written : (run (instant + 1)).store.cell = (run instant).store.cell.write (.lease lease')) :
    lease = lease' := by
  have same := congrArg VersionedCell.value (landed.symm.trans written)
  rw [VersionedCell.value_write, VersionedCell.value_write] at same
  cases same
  rfl

theorem landed_hold (leaseRun : LeaseRun ttl run) (sound : Sound run instant ttl)
    (landed : Landed run instant (.tryHold manager) lease) : Takes run instant manager ttl lease := by
  have moved := landed.changes
  obtain ⟨thread, asked, answer, ⟨next, task, performs, after⟩, written⟩ := landed
  have ttlOf : manager.ttlSecs = ttl := leaseRun.oneTtl instant thread _ _ task
  obtain ⟨-, serves⟩ := performs_storage performs
  have stage : HoldStage run instant manager _ := sound.stages thread _ _ task
  cases stage with
  | start here => cases here
  | read now fresh here =>
      injection here with sameOp
      cases sameOp
      exact absurd serves.read.1 moved
  | create now fresh next' here last =>
      injection here with sameOp
      cases sameOp
      obtain ⟨same, -⟩ | ⟨missing, wrote⟩ := serves.create
      · exact absurd same moved
      · obtain rfl := landed_value written wrote
        refine ⟨rfl, ttlOf, ?_, fun earlier before older hold => fresh.2 earlier before older hold,
          .inl (stored_of_get_none missing)⟩
        have recent := fresh.1
        simp only [LeaseManager.leaseJson, ttlOf]
        omega
  | replace now fresh etag seen current term before found finished next' here last =>
      injection here with sameOp
      cases sameOp
      obtain ⟨same, -⟩ | ⟨overwritten, matched, wrote⟩ := serves.replace
      · exact absurd same moved
      · obtain rfl := landed_value written wrote
        have recent := fresh.1
        have unchanged : (run instant).store.cell = (run seen).store.cell :=
          VersionedCell.unchanged_of_etag leaseRun.evolves found before matched
        refine ⟨rfl, ttlOf, ?_, fun earlier before older hold => fresh.2 earlier before older hold,
          .inr ⟨current, stored_of_get (unchanged ▸ found), ?_⟩⟩
        · simp only [LeaseManager.leaseJson, ttlOf]
          omega
        · obtain own | ⟨other, bumped, late | empty | untouched⟩ := finished
          · exact .inl own
          · exact .inr ⟨other, bumped, .inl (by omega)⟩
          · exact .inr ⟨other, bumped, .inr (.inl empty)⟩
          · exact .inr ⟨other, bumped, .inr (.inr (unchanged.trans untouched))⟩
  | finished result here _ => cases here

theorem landed_release (leaseRun : LeaseRun ttl run) (sound : Sound run instant ttl)
    (landed : Landed run instant (.release manager) lease) :
    ∃ current, stored (run instant) = some (.lease current) ∧ current.holder = manager.holder ∧
      lease = ⟨"", current.term, 0⟩ := by
  have moved := landed.changes
  obtain ⟨thread, asked, answer, ⟨next, task, performs, after⟩, written⟩ := landed
  obtain ⟨-, serves⟩ := performs_storage performs
  have stage : ReleaseStage run instant manager _ := sound.stages thread _ _ task
  cases stage with
  | start here =>
      injection here with sameOp
      cases sameOp
      exact absurd serves.read.1 moved
  | replace etag seen current before found own next' here last =>
      injection here with sameOp
      cases sameOp
      obtain ⟨same, -⟩ | ⟨overwritten, matched, wrote⟩ := serves.replace
      · exact absurd same moved
      · obtain rfl := landed_value written wrote
        have unchanged : (run instant).store.cell = (run seen).store.cell :=
          VersionedCell.unchanged_of_etag leaseRun.evolves found before matched
        exact ⟨current, stored_of_get (unchanged ▸ found), own, rfl⟩
  | finished result here => cases here

/-- A call only ever reads the lease or writes a well-formed one. -/
theorem stage_requests (stage : Stage run instant call (.call (.storage asked) next)) :
    asked = .getWithEtag ∨ (∃ lease, asked = .putIfNoneMatch (.lease lease)) ∨
      ∃ etag lease, asked = .putIfMatch etag (.lease lease) := by
  cases call with
  | tryHold manager =>
      cases stage with
      | start here => cases here
      | read now fresh here =>
          injection here with same
          cases same
          exact .inl rfl
      | create now fresh next here last =>
          injection here with same
          cases same
          exact .inr (.inl ⟨_, rfl⟩)
      | replace now fresh etag seen current term before found finished next here last =>
          injection here with same
          cases same
          exact .inr (.inr ⟨_, _, rfl⟩)
      | finished result here _ => cases here
  | release manager =>
      cases stage with
      | start here =>
          injection here with same
          cases same
          exact .inl rfl
      | replace etag seen current before found own next here last =>
          injection here with same
          cases same
          exact .inr (.inr ⟨_, _, rfl⟩)
      | finished result here => cases here

/-- Nothing but a landed write of a check or a release changes the lease. -/
theorem changed_landed (leaseRun : LeaseRun ttl run) (sound : Sound run instant ttl)
    (changed : (run (instant + 1)).store.cell ≠ (run instant).store.cell) :
    ∃ call lease, Landed run instant call lease := by
  obtain ⟨thread, call, op, answer, performed⟩ | ⟨_, _, _, next⟩ | ⟨⟨_, _, same⟩, _⟩ |
    ⟨_, _, _, same, _⟩ | paused := leaseRun.trace.cases instant
  · have ⟨next, task, performs, after⟩ := performed
    cases op with
    | nowUtc => exact absurd (congrArg LeaseStore.cell (performs_nowUtc performs).2) changed
    | storage asked =>
        have serves := (performs_storage performs).2
        obtain rfl | ⟨lease, rfl⟩ | ⟨etag, lease, rfl⟩ := stage_requests (sound.stages thread call _ task)
        · exact absurd serves.read.1 changed
        · obtain ⟨same, -⟩ | ⟨_, wrote⟩ := serves.create
          · exact absurd same changed
          · exact ⟨call, lease, thread, _, answer, performed, wrote⟩
        · obtain ⟨same, -⟩ | ⟨_, _, wrote⟩ := serves.replace
          · exact absurd same changed
          · exact ⟨call, lease, thread, _, answer, performed, wrote⟩
  · exact absurd (congrArg (fun config => config.store.cell) next) changed
  · exact absurd (congrArg LeaseStore.cell same) changed
  · exact absurd (congrArg LeaseStore.cell same) changed
  · exact absurd (congrArg (fun config => config.store.cell) paused) changed

/-- A write of the run separates its instant from the first. -/
theorem Landed.touched (leaseRun : LeaseRun ttl run) (landed : Landed run earlier call lease)
    (before : earlier < instant) : (run instant).store.cell ≠ (run 0).store.cell := by
  obtain ⟨_, _, _, _, written⟩ := landed
  intro same
  have first := VersionedCell.issued_mono leaseRun.evolves (Nat.zero_le earlier)
  have last := VersionedCell.issued_mono leaseRun.evolves (Nat.succ_le_of_lt before)
  simp only [Nat.succ_eq_add_one, written, VersionedCell.issued_write, same] at first last
  omega

/-- The written lease is over as soon as another manager takes it. -/
theorem Takes.finished (takes : Takes run instant manager ttl lease) (leaseRun : LeaseRun ttl run)
    (hold : Landed run earlier (.tryHold other) older) (before : earlier < instant)
    (apart : other.holder ≠ manager.holder) (ended : Ended run instant earlier other older) :
    (∃ between, earlier < between ∧ between < instant ∧
      ∃ released, Landed run between (.release other) released) ∨
    older.expiresAt < (run instant).store.clock := by
  obtain released | expired | ⟨current, held, named, later⟩ := ended
  · exact .inl released
  · exact .inr expired
  obtain ⟨-, -, -, -, missing | ⟨taken, found, ⟨own, -⟩ | ⟨_, -, late | empty | untouched⟩⟩⟩ := takes
  · rw [held] at missing
    cases missing
  all_goals try (rw [held] at found; cases found)
  · exact absurd (named.symm.trans own) apart
  · exact .inr (lt_of_le_of_lt later late)
  · exact absurd (named.symm.trans empty) other.named
  · exact absurd untouched (hold.touched leaseRun before)

theorem ended_step (leaseRun : LeaseRun ttl run) (sound : Sound run instant ttl)
    (hold : Landed run earlier (.tryHold manager) lease) (before : earlier < instant)
    (ended : Ended run instant earlier manager lease) :
    Ended run (instant + 1) earlier manager lease := by
  have clock : (run instant).store.clock ≤ (run (instant + 1)).store.clock :=
    leaseRun.clock_mono (Nat.le_succ instant)
  have settled (finished : (∃ between, earlier < between ∧ between < instant ∧
      ∃ released, Landed run between (.release manager) released) ∨
      lease.expiresAt < (run instant).store.clock) : Ended run (instant + 1) earlier manager lease := by
    obtain ⟨between, after, inside, released⟩ | expired := finished
    · exact .inl ⟨between, after, by omega, released⟩
    · exact .inr (.inl (lt_of_lt_of_le expired clock))
  by_cases same : (run (instant + 1)).store.cell = (run instant).store.cell
  · obtain released | expired | ⟨current, held, rest⟩ := ended
    · exact settled (.inl released)
    · exact settled (.inr expired)
    · exact .inr (.inr ⟨current, by rw [stored, same]; exact held, rest⟩)
  · have ttlOf : manager.ttlSecs = ttl := (sound.holds earlier before manager lease hold).2.1
    obtain ⟨call, written, landed⟩ := changed_landed leaseRun sound same
    cases call with
    | tryHold other =>
        have takes := landed_hold leaseRun sound landed
        by_cases own : manager.holder = other.holder
        · obtain rfl : manager = other := LeaseManager.ext own (ttlOf.trans takes.2.1.symm)
          exact .inr (.inr ⟨written, landed.stored, takes.1,
            takes.2.2.2.1 earlier before lease hold⟩)
        · exact settled (takes.finished leaseRun hold before own ended)
    | release other =>
        obtain ⟨current, held, named, -⟩ := landed_release leaseRun sound landed
        by_cases own : manager.holder = other.holder
        · have ⟨thread, _, _, ⟨_, task, _⟩, _⟩ := landed
          have ttlOther : other.ttlSecs = ttl := leaseRun.oneTtl instant thread _ _ task
          obtain rfl : manager = other := LeaseManager.ext own (ttlOf.trans ttlOther.symm)
          exact .inl ⟨instant, before, by omega, written, landed⟩
        · obtain released | expired | ⟨found, held', named', -⟩ := ended
          · exact settled (.inl released)
          · exact settled (.inr expired)
          · rw [held] at held'
            cases held'
            exact absurd (named'.symm.trans named) own

theorem decoded_step (leaseRun : LeaseRun ttl run) (sound : Sound run instant ttl) :
    stored (run (instant + 1)) ≠ some .malformed := by
  by_cases same : (run (instant + 1)).store.cell = (run instant).store.cell
  · rw [stored, same]
    exact sound.decoded
  · obtain ⟨call, written, landed⟩ := changed_landed leaseRun sound same
    rw [landed.stored]
    simp

theorem bounded_step (leaseRun : LeaseRun ttl run) (sound : Sound run instant ttl) :
    (run (instant + 1)).store.cell = (run 0).store.cell ∨ ∀ lease,
      stored (run (instant + 1)) = some (.lease lease) → lease.holder ≠ "" →
      lease.expiresAt ≤ (run (instant + 1)).store.clock + ttl := by
  have clock : (run instant).store.clock ≤ (run (instant + 1)).store.clock :=
    leaseRun.clock_mono (Nat.le_succ instant)
  by_cases same : (run (instant + 1)).store.cell = (run instant).store.cell
  · obtain first | bounded := sound.bounded
    · exact .inl (same.trans first)
    · refine .inr fun lease held named => ?_
      rw [stored, same] at held
      have bound := bounded lease held named
      omega
  · obtain ⟨call, written, landed⟩ := changed_landed leaseRun sound same
    refine .inr fun lease held named => ?_
    rw [landed.stored] at held
    cases held
    cases call with
    | tryHold manager =>
        have bound := (landed_hold leaseRun sound landed).2.2.1
        omega
    | release manager =>
        obtain ⟨_, _, _, rfl⟩ := landed_release leaseRun sound landed
        exact absurd rfl named

theorem Fresh.later (fresh : Fresh run instant manager now) (leaseRun : LeaseRun ttl run)
    (quiet : ∀ lease, ¬Landed run instant (.tryHold manager) lease) :
    Fresh run (instant + 1) manager now := by
  refine ⟨fresh.1.trans (leaseRun.clock_mono (Nat.le_succ instant)), fun earlier before lease hold => ?_⟩
  obtain past | rfl := Nat.lt_succ_iff_lt_or_eq.mp before
  · exact fresh.2 earlier past lease hold
  · exact absurd hold (quiet lease)

/-- A call that is not scheduled keeps its stage, as long as its manager lands
nothing while it is under way. -/
theorem stage_later (leaseRun : LeaseRun ttl run) (stage : Stage run instant call program)
    (quiet : ∀ manager op next, call = .tryHold manager → program = .call op next →
      ∀ lease, ¬Landed run instant (.tryHold manager) lease) :
    Stage run (instant + 1) call program := by
  cases call with
  | tryHold manager =>
      cases stage with
      | start here => exact .start here
      | read now fresh here => exact .read now (fresh.later leaseRun (quiet _ _ _ rfl here)) here
      | create now fresh next here last =>
          exact .create now (fresh.later leaseRun (quiet _ _ _ rfl here)) next here last
      | replace now fresh etag seen current term before found finished next here last =>
          exact .replace now (fresh.later leaseRun (quiet _ _ _ rfl here)) etag seen current term
            (Nat.le_succ_of_le before) found finished next here last
      | finished result here landed =>
          refine .finished result here fun won => ?_
          obtain ⟨earlier, before, rest⟩ := landed won
          exact ⟨earlier, Nat.lt_succ_of_lt before, rest⟩
  | release manager =>
      cases stage with
      | start here => exact .start here
      | replace etag seen current before found own next here last =>
          exact .replace etag seen current (Nat.le_succ_of_le before) found own next here last
      | finished result here => exact .finished result here

/-- The check that reads the clock now carries a reading no older than any lease
its manager has written. -/
theorem fresh_now (leaseRun : LeaseRun ttl run) (sound : Sound run instant ttl)
    (same : (run (instant + 1)).store = (run instant).store) :
    Fresh run (instant + 1) manager (run instant).store.clock := by
  refine ⟨by rw [same], fun earlier before lease hold => ?_⟩
  obtain past | rfl := Nat.lt_succ_iff_lt_or_eq.mp before
  · obtain ⟨-, ttlOf, bound, -⟩ := sound.holds earlier past manager lease hold
    have clock : (run earlier).store.clock ≤ (run instant).store.clock :=
      leaseRun.clock_mono past.le
    omega
  · exact absurd (congrArg LeaseStore.cell same) hold.changes

/-- A check that has read the lease renews, takes over, or gives up. -/
theorem stage_read (leaseRun : LeaseRun ttl run) (orderly : Orderly run)
    (sound : Sound run instant ttl) (fresh : Fresh run (instant + 1) manager now)
    (task : (run instant).threads thread = some (.tryHold manager, holdFrom manager now))
    (found : (run instant).store.cell.get = some (body, etag)) :
    HoldStage run (instant + 1) manager
      (do return .held (← manager.holdOver now (LeaseManager.current body) etag)) := by
  cases body with
  | malformed => exact absurd (stored_of_get found) sound.decoded
  | lease current =>
      obtain ⟨term, next, here, last, cause⟩ | here :=
        holdOver_cases manager now (LeaseManager.current (.lease current)) etag
      · refine .replace now fresh etag instant current term (Nat.le_succ instant) found ?_ next here last
        obtain own | ⟨other, bumped, expired | bogus⟩ := cause
        · exact .inl own
        · exact .inr ⟨other, bumped, .inl expired⟩
        · refine .inr ⟨other, bumped, .inr ?_⟩
          by_cases empty : current.holder = ""
          · exact .inl empty
          · right
            obtain first | bounded := sound.bounded
            · exact first
            · -- a lease of this run is at most one TTL ahead of the clock
              exfalso
              have prompt := orderly.prompt instant thread manager now task
              have ttlOf : manager.ttlSecs = ttl := leaseRun.oneTtl instant thread _ _ task
              have bound := bounded current (stored_of_get found) empty
              simp only [LeaseManager.current] at bogus
              omega
      · exact .finished _ here fun won => by cases won

theorem quiet_of_same (same : (run (instant + 1)).store.cell = (run instant).store.cell)
    (lease : Lease) : ¬Landed run instant call lease :=
  fun landed => landed.changes same

theorem created_landed (performed : Performed leases run thread instant call
      (.storage (.putIfNoneMatch (.lease lease))) (Except.ok (some etag))) :
    Landed run instant call lease := by
  have ⟨next, task, performs, after⟩ := performed
  obtain ⟨-, refused⟩ | ⟨_, wrote⟩ := (performs_storage performs).2.create
  · exact absurd rfl (refused etag)
  · exact ⟨thread, _, _, performed, wrote⟩

theorem replaced_landed (performed : Performed leases run thread instant call
      (.storage (.putIfMatch named (.lease lease))) (Except.ok (some etag))) :
    Landed run instant call lease := by
  have ⟨next, task, performs, after⟩ := performed
  obtain ⟨-, refused⟩ | ⟨_, _, wrote⟩ := (performs_storage performs).2.replace
  · exact absurd rfl (refused etag)
  · exact ⟨thread, _, _, performed, wrote⟩

/-- A check that performs its next operation moves to its next stage. -/
theorem hold_moves (leaseRun : LeaseRun ttl run) (orderly : Orderly run)
    (sound : Sound run instant ttl)
    (performed : Performed leases run thread instant (.tryHold manager) op answer)
    (task : (run instant).threads thread = some (.tryHold manager, .call op next)) :
    HoldStage run (instant + 1) manager (next answer) := by
  have ⟨next', task', performs, after⟩ := performed
  obtain rfl : next = next' := by
    rw [task] at task'
    cases task'
    rfl
  have stage : HoldStage run instant manager _ := sound.stages thread _ _ task
  cases stage with
  | start here =>
      cases here
      obtain ⟨rfl, same⟩ := performs_nowUtc performs
      exact .read _ (fresh_now leaseRun sound same) rfl
  | read now fresh here =>
      have task : (run instant).threads thread = some (.tryHold manager, holdFrom manager now) :=
        here ▸ task
      cases here
      obtain ⟨same, ⟨text, rfl⟩ | rfl⟩ := (performs_storage performs).2.read
      · exact .finished (.error text) rfl fun won => by cases won
      · have fresh := fresh.later leaseRun (quiet_of_same same)
        cases found : (run instant).store.cell.get with
        | none => exact .create now fresh _ rfl write_concludes
        | some version =>
            obtain ⟨body, etag⟩ := version
            exact stage_read leaseRun orderly sound fresh task found
  | create now fresh next' here last =>
      cases here
      obtain ⟨result, here, won⟩ := last answer
      refine .finished result here fun held => ?_
      obtain ⟨etag, rfl⟩ := won held
      exact ⟨instant, Nat.lt_succ_self _, _, created_landed performed⟩
  | replace now fresh etag seen current term before found finished next' here last =>
      cases here
      obtain ⟨result, here, won⟩ := last answer
      refine .finished result here fun held => ?_
      obtain ⟨etag, rfl⟩ := won held
      exact ⟨instant, Nat.lt_succ_self _, _, replaced_landed performed⟩
  | finished result here _ => cases here

/-- A release that has read the lease overwrites its own or gives up. -/
theorem release_moves (sound : Sound run instant ttl)
    (performed : Performed leases run thread instant (.release manager) op answer)
    (task : (run instant).threads thread = some (.release manager, .call op next)) :
    ReleaseStage run (instant + 1) manager (next answer) := by
  have ⟨next', task', performs, after⟩ := performed
  obtain rfl : next = next' := by
    rw [task] at task'
    cases task'
    rfl
  have stage : ReleaseStage run instant manager _ := sound.stages thread _ _ task
  cases stage with
  | start here =>
      cases here
      obtain ⟨same, ⟨text, rfl⟩ | rfl⟩ := (performs_storage performs).2.read
      · exact .finished _ rfl
      · cases found : (run instant).store.cell.get with
        | none => exact .finished _ rfl
        | some version =>
            obtain ⟨body, etag⟩ := version
            cases body with
            | malformed => exact .finished _ rfl
            | lease current =>
                by_cases own : current.holder = manager.holder
                · refine .replace etag instant current (Nat.le_succ instant) found own
                    (fun _ => .done (.ok .released)) ?_ fun answer => ⟨_, rfl⟩
                  show ((if current.holder = manager.holder then
                      (putIfMatch etag ⟨"", current.term, 0⟩).attempt fun _ => return ()
                    else return ()) >>= fun _ => return LeaseOutcome.released) = _
                  rw [if_pos own]
                  rfl
                · refine .finished (.ok .released) ?_
                  show ((if current.holder = manager.holder then
                      (putIfMatch etag ⟨"", current.term, 0⟩).attempt fun _ => return ()
                    else return ()) >>= fun _ => return LeaseOutcome.released) = _
                  rw [if_neg own]
                  rfl
  | replace etag seen current before found own next' here last =>
      cases here
      obtain ⟨result, here⟩ := last answer
      exact .finished result here
  | finished result here => cases here

theorem stages_step (leaseRun : LeaseRun ttl run) (orderly : Orderly run)
    (sound : Sound run instant ttl) (thread : ℕ) (call : LeaseCall)
    (program : LeaseM LeaseOutcome)
    (task : (run (instant + 1)).threads thread = some (call, program)) :
    Stage run (instant + 1) call program := by
  -- a call whose thread did not move, while nothing was written
  have idles (same : (run (instant + 1)).threads thread = (run instant).threads thread)
      (still : (run (instant + 1)).store.cell = (run instant).store.cell) :
      Stage run (instant + 1) call program :=
    stage_later leaseRun (sound.stages thread call program (same ▸ task))
      fun _ _ _ _ _ => quiet_of_same still
  obtain ⟨mover, moved, op, answer, performed⟩ | ⟨mover, started, free, next⟩ |
    ⟨⟨_, _, drifted⟩, same⟩ | ⟨mover, dropped, _, left, next⟩ | paused := leaseRun.trace.cases instant
  · have ⟨rest, before, performs, after⟩ := performed
    by_cases mine : thread = mover
    · subst mine
      rw [after, Config.setThread_self, Option.some.injEq, Prod.mk.injEq] at task
      obtain ⟨rfl, rfl⟩ := task
      cases moved with
      | tryHold manager => exact hold_moves leaseRun orderly sound performed before
      | release manager => exact release_moves sound performed before
    · have same : (run (instant + 1)).threads thread = (run instant).threads thread := by
        rw [after, Config.setThread_other _ mine]
      refine stage_later leaseRun (sound.stages thread call program (same ▸ task)) ?_
      rintro manager op' next' rfl rfl lease landed
      have ⟨writer, asked, written, wrote, _⟩ := landed
      obtain rfl : writer = mover := wrote.unique performed
      have ⟨_, writing, _⟩ := wrote
      exact mine (orderly.single instant thread writer manager _ _ _ _ (same ▸ task) writing)
  · by_cases mine : thread = mover
    · subst mine
      rw [next, Config.setThread_self, Option.some.injEq, Prod.mk.injEq] at task
      obtain ⟨rfl, rfl⟩ := task
      cases started with
      | tryHold manager => exact HoldStage.start rfl
      | release manager => exact ReleaseStage.start rfl
    · exact idles (by rw [next, Config.setThread_other _ mine]) (by rw [next]; rfl)
  · exact idles (congrFun same thread) (by rw [drifted])
  · by_cases mine : thread = mover
    · subst mine
      rw [next, Function.update_self] at task
      cases task
    · exact idles (by rw [next, Function.update_of_ne mine]) (congrArg LeaseStore.cell left)
  · exact idles (by rw [paused]) (by rw [paused])

theorem sound_step (leaseRun : LeaseRun ttl run) (orderly : Orderly run)
    (sound : Sound run instant ttl) : Sound run (instant + 1) ttl where
  stages := stages_step leaseRun orderly sound
  decoded := decoded_step leaseRun sound
  bounded := bounded_step leaseRun sound
  holds := by
    intro earlier before manager lease hold
    obtain past | rfl := Nat.lt_succ_iff_lt_or_eq.mp before
    · obtain ⟨named, ttlOf, bound, ended⟩ := sound.holds earlier past manager lease hold
      exact ⟨named, ttlOf, bound, ended_step leaseRun sound hold past ended⟩
    · have takes := landed_hold leaseRun sound hold
      exact ⟨takes.1, takes.2.1, takes.2.2.1, .inr (.inr ⟨lease, hold.stored, takes.1, le_rfl⟩)⟩

theorem sound_all (leaseRun : LeaseRun ttl run) (orderly : Orderly run) (now : ℕ) :
    Sound run now ttl := by
  induction now with
  | zero =>
      refine ⟨fun thread call program task => ?_, leaseRun.decoded, .inl rfl, by simp⟩
      rw [leaseRun.idle thread] at task
      cases task
  | succ now ih => exact sound_step leaseRun orderly ih

/-- Taking the lease from another holder raises its term. -/
theorem takes_term (orderly : Orderly run) (takes : Takes run instant manager ttl lease)
    (held : stored (run instant) = some (.lease current)) : current.term ≤ lease.term ∧
      (current.holder ≠ manager.holder → current.term < lease.term) := by
  have room := orderly.terms instant current held
  obtain ⟨-, -, -, -, missing | ⟨found, held', ⟨own, kept⟩ | ⟨_, bumped, _⟩⟩⟩ := takes
  · rw [held] at missing
    cases missing
  all_goals
    rw [held] at held'
    cases held'
  · exact ⟨kept.ge, fun other => absurd own other⟩
  · rw [bumped, nextTerm, Nat.mod_eq_of_lt room]
    exact ⟨Nat.le_succ _, fun _ => Nat.lt_succ_self _⟩

theorem term_step (leaseRun : LeaseRun ttl run) (orderly : Orderly run)
    (held : stored (run now) = some (.lease current))
    (later : stored (run (now + 1)) = some (.lease lease)) : current.term ≤ lease.term := by
  by_cases same : (run (now + 1)).store.cell = (run now).store.cell
  · rw [stored, same] at later
    rw [stored, later] at held
    cases held
    exact le_rfl
  · have sound := sound_all leaseRun orderly now
    obtain ⟨call, written, landed⟩ := changed_landed leaseRun sound same
    obtain rfl : written = lease := by
      rw [landed.stored] at later
      cases later
      rfl
    cases call with
    | tryHold manager => exact (takes_term orderly (landed_hold leaseRun sound landed) held).1
    | release manager =>
        obtain ⟨found, held', _, rfl⟩ := landed_release leaseRun sound landed
        rw [held] at held'
        cases held'
        exact le_rfl

theorem present_mono (leaseRun : LeaseRun ttl run) (le : now ≤ later)
    (held : stored (run now) ≠ none) : stored (run later) ≠ none := by
  simp only [stored, VersionedCell.value, ne_eq, Option.map_eq_none_iff] at held ⊢
  exact VersionedCell.present_of_present leaseRun.evolves le held

theorem term_mono (leaseRun : LeaseRun ttl run) (orderly : Orderly run) (le : now ≤ later)
    (held : stored (run now) = some (.lease current))
    (after : stored (run later) = some (.lease lease)) : current.term ≤ lease.term := by
  induction later, le using Nat.le_induction generalizing lease with
  | base =>
      rw [held] at after
      cases after
      exact le_rfl
  | succ later le ih =>
      have present : stored (run later) ≠ none := present_mono leaseRun le (by rw [held]; simp)
      obtain ⟨body, between⟩ := Option.ne_none_iff_exists'.mp present
      cases body with
      | malformed => exact absurd between (sound_all leaseRun orderly later).decoded
      | lease middle => exact (ih between).trans (term_step leaseRun orderly between after)

end Run

/-- Across every interleaving of checks and releases by any number of managers: a
check that reports success landed its write; by the time another manager's write
lands, the lease it takes over has expired or was released by its own manager;
the term never falls and rises with every new holder; and a release replaces only
its own manager's lease, which is never removed. -/
theorem lease_safety (ttl : ℤ) (run : ℕ → LeaseConfig) (leaseRun : LeaseRun ttl run)
    (orderly : Orderly run) :
    (∀ now thread manager,
      (run now).threads thread = some (.tryHold manager, .done (.ok (.held true))) →
      ∃ earlier < now, ∃ lease, Landed run earlier (.tryHold manager) lease) ∧
    (∀ first second manager manager' lease lease', first < second →
      Landed run first (.tryHold manager) lease → Landed run second (.tryHold manager') lease' →
      manager.holder ≠ manager'.holder →
      (∃ between, first < between ∧ between < second ∧
        ∃ released, Landed run between (.release manager) released) ∨
      lease.expiresAt < (run second).store.clock) ∧
    (∀ now later current lease, now ≤ later → stored (run now) = some (.lease current) →
      stored (run later) = some (.lease lease) → current.term ≤ lease.term) ∧
    (∀ now manager current lease, Landed run now (.tryHold manager) lease →
      stored (run now) = some (.lease current) → current.holder ≠ manager.holder →
      current.term < lease.term) ∧
    (∀ now manager lease, Landed run now (.release manager) lease →
      ∃ current, stored (run now) = some (.lease current) ∧ current.holder = manager.holder) ∧
    (∀ now later, now ≤ later → stored (run now) ≠ none → stored (run later) ≠ none) := by
  have sound := sound_all leaseRun orderly
  refine ⟨?_, ?_, ?_, ?_, ?_, ?_⟩
  · intro now thread manager task
    have stage : HoldStage run now manager _ := (sound now).stages thread _ _ task
    cases stage with
    | finished result here landed =>
        injection here with same
        exact landed same.symm
    | start here | read _ _ here | create _ _ _ here _ | replace _ _ _ _ _ _ _ _ _ _ here _ =>
        cases here
  · intro first second manager manager' lease lease' before hold hold' apart
    obtain ⟨-, -, -, ended⟩ := (sound second).holds first before manager lease hold
    exact (landed_hold leaseRun (sound second) hold').finished leaseRun hold before apart ended
  · intro now later current lease le held after
    exact term_mono leaseRun orderly le held after
  · intro now manager current lease landed held other
    exact (takes_term orderly (landed_hold leaseRun (sound now) landed) held).2 other
  · intro now manager lease landed
    obtain ⟨current, held, named, _⟩ := landed_release leaseRun (sound now) landed
    exact ⟨current, held, named⟩
  · intro now later le held
    exact present_mono leaseRun le held

section Samples

def serveLease (store : LeaseStore) : (op : LeaseOp) → op.Ans × LeaseStore
  | .nowUtc => (store.clock, store)
  | .storage .getWithEtag => (Except.ok store.cell.get, store)
  | .storage (.putIfNoneMatch body) =>
    match store.cell.get with
    | none => (Except.ok (some store.cell.issued), { store with cell := store.cell.write body })
    | some _ => (Except.ok none, store)
  | .storage (.putIfMatch etag body) =>
    match store.cell.get with
    | some (_, current) =>
      if current = etag then
        (Except.ok (some store.cell.issued), { store with cell := store.cell.write body })
      else (Except.ok none, store)
    | none => (Except.ok none, store)

/-- Every request is answered. -/
def healthy : Server leases where
  serve _ := serveLease
  sound := by
    intro thread store op
    show LeasePerforms _ _ _ _
    cases op with
    | nowUtc => exact .nowUtc
    | storage asked =>
        cases asked with
        | getWithEtag => exact .storage .got
        | putIfNoneMatch body =>
            simp only [serveLease]
            split
            next missing => exact .storage (.created missing)
            next found => exact .storage (.occupied found)
        | putIfMatch etag body =>
            simp only [serveLease]
            split
            next stored current found =>
              split
              next same => exact .storage (.replaced (same ▸ found))
              next moved => exact .storage (.moved (by simpa [found] using moved))
            next missing => exact .storage (.moved (by simp [missing]))

def alice : LeaseManager := ⟨"1-1", 10, by decide, by decide⟩
def bob : LeaseManager := ⟨"2-2", 10, by decide, by decide⟩
def carol : LeaseManager := ⟨"3-3", 10, by decide, by decide⟩

def waits (seconds : ℕ) : Move leases :=
  .drift (fun store => { store with clock := store.clock + seconds })
    fun store => ⟨store.clock + seconds, by omega, rfl⟩

def checks (thread : ℕ) : Move leases := .perform thread healthy

def vacantLease (clock : ℤ) : LeaseConfig := ⟨⟨clock, .empty⟩, fun _ => none⟩

theorem leaseRun_replay {initial : LeaseConfig} {moves : List (Move leases)}
    (idle : ∀ thread, initial.threads thread = none) (decoded : stored initial ≠ some .malformed)
    (starts : ∀ thread call, Move.start thread call ∈ moves → call.manager.ttlSecs = ttl) :
    LeaseRun ttl (replay initial moves) where
  trace := trace_replay initial moves
  idle := idle
  decoded := decoded
  oneTtl := replay_started (P := fun _ call => call.manager.ttlSecs = ttl) idle starts

/-- The last of a check's requests is answered and writes the lease. -/
theorem landed_replay {call : LeaseCall} {initial : LeaseConfig} {moves : List (Move leases)}
    (next : moves[now]? = some (checks thread))
    (task : (replay initial moves now).threads thread = some (call, .call (.storage asked) rest))
    (wrote : (replay initial moves (now + 1)).store.cell =
      (replay initial moves now).store.cell.write (.lease lease)) :
    Landed (replay initial moves) now call lease :=
  ⟨thread, asked, _, performed_replay next task, wrote⟩

def takeoverMoves : List (Move leases) :=
  [.start 0 (.tryHold alice), checks 0, checks 0, checks 0, waits 20,
    .start 1 (.tryHold bob), checks 1, checks 1, checks 1]

/-- Bob takes the lease alice let expire. -/
def takeover : ℕ → LeaseConfig := replay (vacantLease 0) takeoverMoves

/-- The expiry a check that has not read the lease yet would store. -/
def reading : LeaseM LeaseOutcome → Option ℤ
  | .call (.storage .getWithEtag) next =>
    match next (Except.ok none) with
    | .call (.storage (.putIfNoneMatch (.lease lease))) _ => some lease.expiresAt
    | _ => none
  | _ => none

theorem takeover_orderly : Orderly takeover := by
  have started : ∀ now thread call program, (takeover now).threads thread = some (call, program) →
      (thread = 0 ∧ call = .tryHold alice) ∨ (thread = 1 ∧ call = .tryHold bob) := by
    refine replay_started (fun _ => rfl) ?_
    simp only [takeoverMoves, List.mem_cons, List.not_mem_nil, checks, waits, Move.start.injEq,
      reduceCtorEq, or_false, false_or]
    exact fun _ _ started => started
  have apart : alice ≠ bob := fun same => absurd (congrArg LeaseManager.holder same) (by decide)
  refine ⟨?_, ?_, ?_⟩
  · intro now thread thread' manager op next op' next' task task'
    obtain ⟨rfl, same⟩ | ⟨rfl, same⟩ := started now thread _ _ task <;>
      obtain ⟨rfl, same'⟩ | ⟨rfl, same'⟩ := started now thread' _ _ task' <;>
      cases same
    · rfl
    · exact absurd (LeaseCall.tryHold.inj same') apart
    · exact absurd (LeaseCall.tryHold.inj same').symm apart
    · rfl
  · intro now thread manager clock task
    obtain ⟨instant, bound, same⟩ := replay_bounded (vacantLease 0) takeoverMoves now
    have recent : ∀ instant ≤ 9, ∀ thread ≤ 1,
        (((takeover instant).threads thread).bind fun task => reading task.2).all
          (fun expires => (takeover instant).store.clock ≤ expires + 10) = true := by decide
    have ttlOf : manager.ttlSecs = 10 := by
      obtain ⟨-, same⟩ | ⟨-, same⟩ := started now thread _ _ task <;> cases same <;> rfl
    have inside : thread ≤ 1 := by
      obtain ⟨rfl, -⟩ | ⟨rfl, -⟩ := started now thread _ _ task <;> decide
    change takeover now = takeover instant at same
    rw [same] at task ⊢
    have expires := recent instant bound thread inside
    rw [task] at expires
    simp only [Option.bind_some] at expires
    have read : reading (holdFrom manager clock) = some (clock + manager.ttlSecs) := rfl
    rw [read, Option.all_some, decide_eq_true_eq] at expires
    omega
  · intro now lease held
    obtain ⟨instant, bound, same⟩ := replay_bounded (vacantLease 0) takeoverMoves now
    have small : ∀ instant ≤ 9, (stored (takeover instant)).all
        (fun body => (LeaseManager.current body).term + 1 < 2 ^ 64) = true := by decide
    change takeover now = takeover instant at same
    have term := small instant bound
    rw [← same, held, Option.all_some, decide_eq_true_eq] at term
    exact term

/-- Alice's lease ran out before bob's write landed. -/
theorem takeover_safe : Landed takeover 3 (.tryHold alice) ⟨"1-1", 1, 10⟩ ∧
    Landed takeover 8 (.tryHold bob) ⟨"2-2", 2, 30⟩ ∧
    ((∃ between, 3 < between ∧ between < 8 ∧
      ∃ released, Landed takeover between (.release alice) released) ∨
      (10 : ℤ) < (takeover 8).store.clock) := by
  have first : Landed takeover 3 (.tryHold alice) ⟨"1-1", 1, 10⟩ := landed_replay rfl rfl rfl
  have second : Landed takeover 8 (.tryHold bob) ⟨"2-2", 2, 30⟩ := landed_replay rfl rfl rfl
  have leaseRun : LeaseRun 10 takeover := by
    refine leaseRun_replay (fun _ => rfl) ?_ ?_
    · simp [stored, vacantLease, VersionedCell.value, VersionedCell.empty]
    · simp only [takeoverMoves, List.mem_cons, List.not_mem_nil, checks, waits, Move.start.injEq,
        reduceCtorEq, or_false, false_or]
      rintro thread call (⟨_, rfl⟩ | ⟨_, rfl⟩) <;> rfl
  exact ⟨first, second, (lease_safety 10 takeover leaseRun takeover_orderly).2.1 3 8 alice bob _ _
    (by decide) first second (by decide)⟩

/-- Two managers' leases are in force at once: the second lands while neither
has reached the expiry it stored. -/
def Overlap (run : ℕ → LeaseConfig) : Prop :=
  ∃ first second manager manager' lease lease', first < second ∧
    Landed run first (.tryHold manager) lease ∧ Landed run second (.tryHold manager') lease' ∧
    manager.holder ≠ manager'.holder ∧ (run second).store.clock ≤ lease.expiresAt ∧
    (run second).store.clock ≤ lease'.expiresAt

/-- Alice hands her lease over before it expires. -/
def handover : ℕ → LeaseConfig :=
  replay (vacantLease 100) [.start 0 (.tryHold alice), checks 0, checks 0, checks 0,
    .start 1 (.release alice), checks 1, checks 1,
    .start 2 (.tryHold bob), checks 2, checks 2, checks 2]

/-- Alice reads the clock and pauses; bob's lease then looks impossibly far in
the future to her, and what she writes over it has long expired. -/
def stalledCheck : ℕ → LeaseConfig :=
  replay (vacantLease 0) [.start 0 (.tryHold alice), checks 0, waits 100,
    .start 1 (.tryHold bob), checks 1, checks 1, checks 1, checks 0, checks 0,
    .start 2 (.tryHold carol), checks 2, checks 2, checks 2]

/-- Two checks of one manager overlap: the one that read the clock first renews
last, and takes back most of what the other had stored. -/
def doubledCheck : ℕ → LeaseConfig :=
  replay (vacantLease 0) [.start 0 (.tryHold alice), checks 0, checks 0, checks 0,
    .start 1 (.tryHold alice), checks 1, waits 8,
    .start 2 (.tryHold alice), checks 2, checks 2, checks 2, waits 1, checks 1, checks 1, waits 2,
    .start 3 (.tryHold bob), checks 3, checks 3, checks 3]

def lastTerm : LeaseConfig :=
  ⟨⟨100, VersionedCell.empty.write (.lease ⟨"0-0", 2 ^ 64 - 1, 0⟩)⟩, fun _ => none⟩

/-- The largest term is followed by zero. -/
def exhausted : ℕ → LeaseConfig :=
  replay lastTerm [.start 0 (.tryHold alice), checks 0, checks 0, checks 0]

theorem leases_overlap :
    (LeaseRun 10 handover ∧ Overlap handover) ∧
    (LeaseRun 10 stalledCheck ∧ Overlap stalledCheck ∧
      ∀ now manager lease, ¬Landed stalledCheck now (.release manager) lease) ∧
    (LeaseRun 10 doubledCheck ∧ Overlap doubledCheck ∧
      ∀ now manager lease, ¬Landed doubledCheck now (.release manager) lease) ∧
    (LeaseRun 10 exhausted ∧ stored (exhausted 0) = some (.lease ⟨"0-0", 2 ^ 64 - 1, 0⟩) ∧
      stored (exhausted 4) = some (.lease ⟨"1-1", 0, 110⟩)) := by
  have vacant (clock : ℤ) : stored (vacantLease clock) ≠ some .malformed := by
    simp [stored, vacantLease, VersionedCell.value, VersionedCell.empty]
  refine ⟨⟨leaseRun_replay (fun _ => rfl) (vacant 100) ?_, ?_⟩,
    ⟨leaseRun_replay (fun _ => rfl) (vacant 0) ?_, ?_, ?_⟩,
    ⟨leaseRun_replay (fun _ => rfl) (vacant 0) ?_, ?_, ?_⟩,
    leaseRun_replay (fun _ => rfl) (by simp [stored, lastTerm]) ?_, rfl, rfl⟩
  · simp only [List.mem_cons, List.not_mem_nil, checks, Move.start.injEq, reduceCtorEq, or_false,
      false_or]
    rintro thread call (⟨_, rfl⟩ | ⟨_, rfl⟩ | ⟨_, rfl⟩) <;> rfl
  · exact ⟨3, 10, alice, bob, ⟨"1-1", 1, 110⟩, ⟨"2-2", 2, 110⟩, by decide,
      landed_replay rfl rfl rfl, landed_replay rfl rfl rfl, by decide, by decide, by decide⟩
  · simp only [List.mem_cons, List.not_mem_nil, checks, waits, Move.start.injEq, reduceCtorEq,
      or_false, false_or]
    rintro thread call (⟨_, rfl⟩ | ⟨_, rfl⟩ | ⟨_, rfl⟩) <;> rfl
  · exact ⟨6, 12, bob, carol, ⟨"2-2", 1, 110⟩, ⟨"3-3", 3, 110⟩, by decide,
      landed_replay rfl rfl rfl, landed_replay rfl rfl rfl, by decide, by decide, by decide⟩
  · rintro now manager lease ⟨thread, _, _, ⟨_, task, _⟩, _⟩
    refine replay_started (P := fun _ call => call ≠ .release manager) (fun _ => rfl) ?_
      now thread _ _ task rfl
    simp only [List.mem_cons, List.not_mem_nil, checks, waits, Move.start.injEq, reduceCtorEq,
      or_false, false_or]
    rintro thread call (⟨_, rfl⟩ | ⟨_, rfl⟩ | ⟨_, rfl⟩) <;> simp
  · simp only [List.mem_cons, List.not_mem_nil, checks, waits, Move.start.injEq, reduceCtorEq,
      or_false, false_or]
    rintro thread call (⟨_, rfl⟩ | ⟨_, rfl⟩ | ⟨_, rfl⟩ | ⟨_, rfl⟩) <;> rfl
  · exact ⟨10, 18, alice, bob, ⟨"1-1", 1, 18⟩, ⟨"2-2", 2, 21⟩, by decide,
      landed_replay rfl rfl rfl, landed_replay rfl rfl rfl, by decide, by decide, by decide⟩
  · rintro now manager lease ⟨thread, _, _, ⟨_, task, _⟩, _⟩
    refine replay_started (P := fun _ call => call ≠ .release manager) (fun _ => rfl) ?_
      now thread _ _ task rfl
    simp only [List.mem_cons, List.not_mem_nil, checks, waits, Move.start.injEq, reduceCtorEq,
      or_false, false_or]
    rintro thread call (⟨_, rfl⟩ | ⟨_, rfl⟩ | ⟨_, rfl⟩ | ⟨_, rfl⟩) <;> simp
  · simp only [List.mem_cons, List.not_mem_nil, checks, Move.start.injEq, reduceCtorEq, or_false]
    rintro thread call ⟨_, rfl⟩
    rfl

end Samples

end Pypiron.Leader
