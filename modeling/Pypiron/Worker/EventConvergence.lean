import Pypiron.Worker.EventLedger

/-! Convergence of the event protocol. A package is good when it is settled and
no job in its turn can unsettle it; otherwise some standing marker covers it,
and every tick that may delete that marker will first leave the package good. -/
namespace Pypiron.EventProtocol
variable {T V : Type} {site : Site T V} {intentGrace : Nat} {turn : Turn V}
variable {s next : State T V} {tick : Tick V} {job : Job V} {id : Nat} {pkg key nonce : String}

/-- The job of tick `id` holds the package's turn. -/
def InTurn (turn : Turn V) (s : State T V) (pkg : String) (id : Nat) (job : Job V) : Prop :=
  ∃ tick, s.ticks id = some tick ∧ tick.jobs pkg = some job ∧ turn tick.stage job.phase = true

def Serialized (turn : Turn V) (s : State T V) : Prop :=
  ∀ pkg id job other otherJob, InTurn turn s pkg id job → InTurn turn s pkg other otherJob →
    id = other

/-- What the job has read or written so far is what a fresh rebuild would give. -/
def Current (site : Site T V) (s : State T V) (pkg : String) (job : Job V) : Prop :=
  match job.phase with
  | .queued => True
  | .reading clean => clean = true
  | .writing view live todo => view = site.render (s.truth pkg) ∧
      live = site.live (s.truth pkg) ∧ ∀ part, part ∉ todo → s.view pkg part = view part
  | .rebuilt live => live = site.live (s.truth pkg) ∧ s.view pkg = site.render (s.truth pkg)
  | .failed => True

def Good (site : Site T V) (s : State T V) (pkg : String) : Prop :=
  Settled site s pkg ∧ ∀ id job, InTurn tickTurn s pkg id job → Current site s pkg job

/-- The marker stands, no tick is deleting it, and whoever holds it is current. -/
structure Covers (site : Site T V) (s : State T V) (pkg key : String) : Prop where
  marked : Marked s pkg key
  current : ∀ id tick job, s.ticks id = some tick → tick.stage = .running →
    tick.jobs pkg = some job → key ∈ job.keys → Current site s pkg job
  undeleted : ∀ id tick consumed, s.ticks id = some tick → tick.stage = .deleting consumed →
    key ∉ consumed

def Covered (site : Site T V) (s : State T V) (pkg : String) : Prop :=
  Good site s pkg ∨ ∃ key, Covers site s pkg key

/-- The job is only queued, and the tick deletes nothing. -/
def Harmless (tick : Tick V) (pkg : String) : Prop :=
  (∀ job, tick.jobs pkg = some job → job.phase = .queued) ∧
    ∀ consumed, tick.stage ≠ .deleting consumed

/-- The tick does for the package what it did before, or was cancelled. -/
def Follows (after tick : Tick V) (pkg : String) : Prop :=
  (∀ job, after.jobs pkg = some job → ∃ before, tick.jobs pkg = some before ∧
    job.phase = before.phase ∧ job.keys = before.keys) ∧
  (after.stage = tick.stage ∨ after.stage = .cancelled ∧ tick.stage = .running)

theorem Current.congr {before : Job V} (current : Current site s pkg before)
    (phase : job.phase = before.phase) (truth : next.truth pkg = s.truth pkg)
    (view : next.view pkg = s.view pkg) : Current site next pkg job := by
  unfold Current at current ⊢
  rw [phase]
  cases shape : before.phase <;> simp_all

theorem tickTurn_cancelled {phase : Phase V} (held : tickTurn .cancelled phase = true) :
    tickTurn .running phase = true := by
  cases phase <;> simp_all [tickTurn]

theorem Follows.inTurn {after : Tick V} (follows : Follows after tick pkg)
    (found : s.ticks id = some tick) (working : after.jobs pkg = some job)
    (held : tickTurn after.stage job.phase = true) :
    ∃ before, InTurn tickTurn s pkg id before ∧ job.phase = before.phase := by
  obtain ⟨before, present, phase, -⟩ := follows.1 job working
  refine ⟨before, ⟨tick, found, present, ?_⟩, phase⟩
  rw [← phase]
  rcases follows.2 with same | ⟨cancelled, running⟩
  · rwa [← same]
  · rw [cancelled] at held
    rw [running]
    exact tickTurn_cancelled held

/-- A step that leaves one package's truth and views alone, and whose ticks do
for it what they did before or nothing yet, keeps the package covered. -/
theorem Covered.frame (covered : Covered site s pkg) (truth : next.truth pkg = s.truth pkg)
    (view : next.view pkg = s.view pkg) (listed : next.globalIndex pkg = s.globalIndex pkg)
    (markers : ∀ entry ∈ s.markers, entry ∈ next.markers)
    (ticks : ∀ id after, next.ticks id = some after → Harmless after pkg ∨
      ∃ tick, s.ticks id = some tick ∧ Follows after tick pkg) : Covered site next pkg := by
  rcases covered with ⟨settled, turns⟩ | ⟨key, covers⟩
  · refine .inl ⟨?_, fun id job ⟨after, found, working, held⟩ => ?_⟩
    · rw [Settled, truth, view, listed]
      exact settled
    · rcases ticks id after found with harmless | ⟨tick, before, follows⟩
      · rw [harmless.1 job working] at held
        cases stage : after.stage <;> simp [tickTurn, stage] at held
      · obtain ⟨original, inTurn, phase⟩ := follows.inTurn before working held
        exact (turns id original inTurn).congr phase truth view
  · refine .inr ⟨key, ?_, fun id after job found running working member => ?_,
      fun id after consumed found deleting => ?_⟩
    · obtain ⟨entry, standing, rest⟩ := covers.marked
      exact ⟨entry, markers entry standing, rest⟩
    · rcases ticks id after found with harmless | ⟨tick, before, follows⟩
      · rw [Current, harmless.1 job working]
        trivial
      · obtain ⟨original, present, phase, keys⟩ := follows.1 job working
        have stage : tick.stage = .running := by
          rcases follows.2 with same | ⟨cancelled, -⟩
          · rw [← same, running]
          · rw [cancelled] at running
            cases running
        exact (covers.current id tick original before stage present (keys ▸ member)).congr
          phase truth view
    · rcases ticks id after found with harmless | ⟨tick, before, follows⟩
      · exact absurd deleting (harmless.2 consumed)
      · rcases follows.2 with same | ⟨cancelled, -⟩
        · exact covers.undeleted id tick consumed before (same ▸ deleting)
        · rw [cancelled] at deleting
          cases deleting

theorem follows_refl (tick : Tick V) (pkg : String) : Follows tick tick pkg :=
  ⟨fun job working => ⟨job, working, rfl, rfl⟩, .inl rfl⟩

/-- Ticks after one of them was replaced. -/
theorem ticks_setTick {after : Tick V} {P : Nat → Tick V → Prop} (here : P id after)
    (there : ∀ other tick, s.ticks other = some tick → other ≠ id → P other tick)
    (other : Nat) (tick : Tick V)
    (found : Function.update s.ticks id (some after) other = some tick) : P other tick := by
  by_cases same : other = id
  · subst same
    rw [Function.update_self, Option.some.injEq] at found
    exact found ▸ here
  · rw [Function.update_of_ne same] at found
    exact there other tick found same

/-- A live writer's truth change is covered by its own intent. -/
theorem Covered.mutate (books : Books intentGrace s) (covered : ∀ p, Covered site s p)
    (writing : s.writers (pkg, nonce) = some started) (truth : T) (view : Part → Option V)
    (p : String) : Covered site (s.mutate pkg truth view) p := by
  by_cases here : p = pkg
  · subst here
    have writer := books.writers p nonce started writing
    have unheld := ((narrows_mutate s p truth view).liveWriters books.writers p nonce started
      writing).unheld
    refine .inr ⟨intentKey p nonce, ?_, ?_, ?_⟩
    · exact ⟨_, writer.standing, rfl, _, parseMarker_intentKey writer.clean nonce _⟩
    · intro id tick job found _ working member
      exact absurd (.inl ⟨p, job, working, member⟩) (unheld id tick found)
    · intro id tick consumed found deleting member
      exact unheld id tick found (.inr ⟨consumed, deleting, member⟩)
  · refine (covered p).frame ?_ ?_ rfl (fun _ member => member) fun id after found => ?_
    · simp [State.mutate, here]
    · simp [State.mutate, here]
    · obtain ⟨tick, before, rfl⟩ := Option.map_eq_some_iff.mp found
      refine .inr ⟨tick, before, fun job working => ⟨job, ?_, rfl, rfl⟩, .inl rfl⟩
      simpa [Tick.taint, here] using working

/-- Elsewhere than at `pkg`, a tick whose job there moved on is as it was. -/
theorem follows_setJob {after : Job V} (other : p ≠ pkg) (tick : Tick V) :
    Follows (tick.setJob pkg after) tick p :=
  ⟨fun job working => ⟨job, by simpa [other] using working, rfl, rfl⟩, .inl rfl⟩

/-- A current job that takes the turn stays current. -/
theorem Covered.start (covered : Covered site s pkg) (found : s.ticks id = some tick) : Covered site
      (s.setTick id (some (tick.setJob pkg { job with phase := .reading true }))) pkg := by
  have fresh : ∀ moved, (tick.setJob pkg { job with phase := .reading true }).jobs pkg = some moved →
      moved = { job with phase := .reading true } := by
    intro moved present
    simpa [eq_comm] using present
  rcases covered with ⟨settled, turns⟩ | ⟨key, covers⟩
  · refine .inl ⟨settled, fun other moved ⟨after, present, held, inTurn⟩ => ?_⟩
    revert held inTurn
    refine ticks_setTick (P := fun _ after => after.jobs pkg = some moved →
      tickTurn after.stage moved.phase = true → Current site _ pkg moved) ?_ ?_ other after present
    · intro held _
      rw [fresh moved held]
      rfl
    · intro other after present _ held inTurn
      exact turns other moved ⟨after, present, held, inTurn⟩
  · refine .inr ⟨key, covers.marked, fun other after moved present => ?_,
      fun other after consumed present => ?_⟩
    · refine ticks_setTick (P := fun _ after => after.stage = .running → after.jobs pkg = some moved →
        key ∈ moved.keys → Current site _ pkg moved) ?_ ?_ other after present
      · intro _ held _
        rw [fresh moved held]
        rfl
      · intro other after present _
        exact covers.current other after moved present
    · refine ticks_setTick (P := fun _ after => after.stage = .deleting consumed → key ∉ consumed)
        ?_ ?_ other after present
      · exact covers.undeleted id tick consumed found
      · exact fun other after present _ => covers.undeleted other after consumed present

/-- A job in its turn, of a working tick. -/
theorem JobMoves.inTurn {after : Job V} (moves : JobMoves site s pkg job after view)
    (found : s.ticks id = some tick) (stage : tick.stage.working = true)
    (working : tick.jobs pkg = some job) :
    InTurn tickTurn s pkg id job ∨ view = s.view pkg ∧ after.phase = .failed := by
  have turns : (∃ clean, job.phase = .reading clean) ∨
      (∃ view live todo, job.phase = .writing view live todo) → InTurn tickTurn s pkg id job := by
    rintro (⟨clean, phase⟩ | ⟨view, live, todo, phase⟩) <;>
    · refine ⟨tick, found, working, ?_⟩
      rw [phase]
      cases shape : tick.stage <;> simp_all [tickTurn, Stage.working]
  cases moves with
  | read phase => exact .inl (turns (.inl ⟨_, phase⟩))
  | torn view live phase => exact .inl (turns (.inl ⟨_, phase⟩))
  | write part phase member => exact .inl (turns (.inr ⟨_, _, _, phase⟩))
  | publish phase => exact .inl (turns (.inr ⟨_, _, _, phase⟩))
  | retain phase => exact .inl (turns (.inr ⟨_, _, _, phase⟩))
  | fail unfinished => exact .inr ⟨rfl, rfl⟩

/-- A current job stays current, and writes nothing new over a settled view. -/
theorem JobMoves.current {after : Job V} (moves : JobMoves site s pkg job after view)
    (current : Current site s pkg job) (stored : next.view pkg = view)
    (truth : next.truth pkg = s.truth pkg) : Current site next pkg after ∧
      (s.view pkg = site.render (s.truth pkg) → view = s.view pkg) := by
  unfold Current at current ⊢
  cases moves with
  | read phase =>
      refine ⟨⟨by rw [truth], by rw [truth], fun part member => ?_⟩, fun _ => rfl⟩
      cases part <;> simp [parts] at member
  | torn view live phase => simp [phase] at current
  | @write job view live todo part phase member =>
      rw [phase] at current
      obtain ⟨rendered, isLive, written⟩ := current
      refine ⟨⟨by rw [truth, rendered], by rw [truth, isLive], fun other rest => ?_⟩, fun same => ?_⟩
      · rw [stored]
        by_cases here : other = part
        · rw [here, Function.update_self]
        · rw [Function.update_of_ne here]
          exact written other fun inside => rest ((List.mem_erase_of_ne here).mpr inside)
      · rw [same, rendered]
        exact Function.update_eq_self part _
  | publish phase =>
      rw [phase] at current
      obtain ⟨rendered, isLive, written⟩ := current
      refine ⟨⟨by rw [truth, isLive], ?_⟩, fun _ => rfl⟩
      rw [stored, truth, ← rendered]
      exact funext fun part => written part (by simp)
  | retain phase =>
      rw [phase] at current
      obtain ⟨rendered, isLive, written⟩ := current
      refine ⟨⟨by rw [truth, isLive], ?_⟩, fun _ => rfl⟩
      rw [stored, truth, ← rendered]
      exact funext fun part => written part (by simp)
  | fail unfinished => exact ⟨trivial, fun _ => rfl⟩

/-- Only a job in its turn reads the stored views back, so a write disturbs no
other current job. -/
theorem Current.elsewhere (current : Current site s pkg job)
    (idle : tickTurn .running job.phase = false) : Current site next pkg job := by
  unfold Current at current ⊢
  cases shape : job.phase <;> simp_all [tickTurn]

theorem Covered.work {after : Job V} (covered : Covered site s pkg)
    (serialized : Serialized tickTurn s) (found : s.ticks id = some tick)
    (stage : tick.stage.working = true) (working : tick.jobs pkg = some job)
    (moves : JobMoves site s pkg job after view) :
    Covered site ((s.setView pkg view).setTick id (some (tick.setJob pkg after))) pkg := by
  have stored : ((s.setView pkg view).setTick id (some (tick.setJob pkg after))).view pkg = view := by
    simp [State.setView, State.setTick]
  have inTurn := moves.inTurn found stage working
  rcases covered with ⟨settled, turns⟩ | ⟨key, covers⟩
  · have same : view = s.view pkg := by
      rcases inTurn with held | ⟨same, -⟩
      · exact (moves.current (turns id job held) stored rfl).2 settled.1
      · exact same
    refine .inl ⟨⟨?_, settled.2⟩, fun other moved ⟨tick', present, held, turn⟩ => ?_⟩
    · rw [stored, same]
      exact settled.1
    · revert held turn
      refine ticks_setTick (P := fun _ tick' => tick'.jobs pkg = some moved →
        tickTurn tick'.stage moved.phase = true → Current site _ pkg moved) ?_ ?_ other tick' present
      · intro held _
        obtain rfl : after = moved := by simpa using held
        rcases inTurn with held | ⟨-, failed⟩
        · exact (moves.current (turns id job held) stored rfl).1
        · rw [Current, failed]
          trivial
      · intro other tick' present _ held turn
        exact (turns other moved ⟨tick', present, held, turn⟩).congr rfl rfl (stored.trans same)
  · refine .inr ⟨key, covers.marked, fun other tick' moved present => ?_,
      fun other tick' consumed present => ?_⟩
    · refine ticks_setTick (P := fun other tick' => tick'.stage = .running →
        tick'.jobs pkg = some moved → key ∈ moved.keys → Current site _ pkg moved)
        ?_ ?_ other tick' present
      · intro running held member
        obtain rfl : after = moved := by simpa using held
        have before := covers.current id tick job found running working (moves.keys key member)
        exact (moves.current before stored rfl).1
      · intro other tick' present apart running held member
        have before := covers.current other tick' moved present running held member
        by_cases turn : tickTurn .running moved.phase = true
        · rcases inTurn with mine | ⟨same, -⟩
          · have theirs : InTurn tickTurn s pkg other moved := ⟨tick', present, held, running ▸ turn⟩
            exact absurd (serialized pkg id job other moved mine theirs).symm apart
          · exact before.congr rfl rfl (stored.trans same)
        · exact before.elsewhere (Bool.eq_false_iff.mpr turn)
    · refine ticks_setTick (P := fun _ tick' => tick'.stage = .deleting consumed → key ∉ consumed)
        ?_ ?_ other tick' present
      · exact covers.undeleted id tick consumed found
      · exact fun other tick' present _ => covers.undeleted other tick' consumed present

theorem Marked.owner (marked : Marked s p key)
    (owned : ∃ marker, parseMarker ⟨key, none⟩ = some (pkg, marker)) : p = pkg := by
  obtain ⟨entry, -, rfl, marker, parsed⟩ := marked
  obtain ⟨other, read⟩ := owned
  have dated := parseMarker_dated parsed none
  rw [read, Option.some.injEq, Prod.mk.injEq] at dated
  exact dated.1.symm

/-- The tick's own turn ends; nobody else held it, and its rebuild was current. -/
theorem Covered.updateGlobal (covered : Covered site s pkg) (books : Books intentGrace s)
    (serialized : Serialized tickTurn s) (found : s.ticks id = some tick)
    (running : tick.stage = .running) (finished : tick.finished) :
    Covered site { s.setTick id (some { tick with stage := .deleting tick.consumed }) with
      globalIndex := tick.updateGlobal s.globalIndex } pkg := by
  have ended : ∀ job, tick.jobs pkg = some job →
      tickTurn (.deleting tick.consumed) job.phase = false := by
    intro job working
    rcases finished pkg job working with ⟨live, phase⟩ | phase <;> simp [phase, tickTurn]
  have others : ∀ (current : Settled site { s.setTick id (some { tick with
        stage := .deleting tick.consumed }) with globalIndex := tick.updateGlobal s.globalIndex } pkg)
      (turns : ∀ other job, other ≠ id → InTurn tickTurn s pkg other job → Current site s pkg job),
      Good site { s.setTick id (some { tick with stage := .deleting tick.consumed }) with
        globalIndex := tick.updateGlobal s.globalIndex } pkg := by
    intro settled turns
    refine ⟨settled, fun other moved ⟨tick', present, held, turn⟩ => ?_⟩
    revert held turn
    refine ticks_setTick (P := fun _ tick' => tick'.jobs pkg = some moved →
      tickTurn tick'.stage moved.phase = true → Current site _ pkg moved) ?_ ?_ other tick' present
    · intro held turn
      exact absurd turn (Bool.eq_false_iff.mp (ended moved held))
    · intro other tick' present apart held turn
      exact turns other moved apart ⟨tick', present, held, turn⟩
  have settles : ∀ job live, tick.jobs pkg = some job → job.phase = .rebuilt live →
      Current site s pkg job → tick.updateGlobal s.globalIndex pkg = site.live (s.truth pkg) ∧
        s.view pkg = site.render (s.truth pkg) := by
    rintro ⟨keys, staleIntents, rearmed, phase⟩ live working rebuilt current
    obtain rfl : phase = .rebuilt live := rebuilt
    exact ⟨by simpa [Tick.updateGlobal, working] using current.1, current.2⟩
  rcases covered with ⟨settled, turns⟩ | ⟨key, covers⟩
  · refine .inl (others ⟨settled.1, ?_⟩ fun other job _ => turns other job)
    cases working : tick.jobs pkg with
    | none => simpa [Tick.updateGlobal, working, State.setTick] using settled.2
    | some job =>
        rcases finished pkg job working with ⟨live, phase⟩ | phase
        · have held : InTurn tickTurn s pkg id job :=
            ⟨tick, found, working, by simp [running, phase, tickTurn]⟩
          exact (settles job live working phase (turns id job held)).1
        · obtain ⟨keys, staleIntents, rearmed, _⟩ := job
          obtain rfl := phase
          simpa [Tick.updateGlobal, working, State.setTick] using settled.2
  · by_cases member : key ∈ tick.consumed
    · obtain ⟨owner, job, live, working, phase, held⟩ := mem_consumed member
      obtain rfl := covers.marked.owner (books.ledger.owned id tick owner job key found working held)
      have current := covers.current id tick job found running working held
      obtain ⟨listed, rendered⟩ := settles job live working phase current
      refine .inl (others ⟨rendered, listed⟩ fun other otherJob apart theirs => ?_)
      have mine : InTurn tickTurn s pkg id job :=
        ⟨tick, found, working, by simp [running, phase, tickTurn]⟩
      exact absurd (serialized pkg id job other otherJob mine theirs).symm apart
    · refine .inr ⟨key, covers.marked, fun other tick' moved present => ?_,
        fun other tick' consumed present => ?_⟩
      · refine ticks_setTick (P := fun _ tick' => tick'.stage = .running →
          tick'.jobs pkg = some moved → key ∈ moved.keys → Current site _ pkg moved)
          ?_ ?_ other tick' present
        · exact fun stage => nomatch stage
        · exact fun other tick' present _ => covers.current other tick' moved present
      · refine ticks_setTick (P := fun _ tick' => tick'.stage = .deleting consumed → key ∉ consumed)
          ?_ ?_ other tick' present
        · intro stage
          rwa [← Stage.deleting.inj stage]
        · exact fun other tick' present _ => covers.undeleted other tick' consumed present

theorem Covered.deleteKey (covered : Covered site s pkg) (found : s.ticks id = some tick)
    (stage : tick.stage = .deleting consumed) (member : key ∈ consumed) :
    Covered site { s with markers := s.markers.filter (·.key ≠ key) } pkg := by
  rcases covered with ⟨settled, turns⟩ | ⟨kept, covers⟩
  · exact .inl ⟨settled, turns⟩
  · refine .inr ⟨kept, ?_, covers.current, covers.undeleted⟩
    obtain ⟨entry, standing, rfl, parsed⟩ := covers.marked
    refine ⟨entry, List.mem_filter.mpr ⟨standing, ?_⟩, rfl, parsed⟩
    simp only [decide_eq_true_eq]
    rintro rfl
    exact covers.undeleted id tick consumed found stage member

/-- Unless a step grants a turn, whoever holds one after it held one before. -/
theorem Serialized.of_turns (serialized : Serialized turn s)
    (turns : ∀ pkg id job, InTurn turn next pkg id job → ∃ before, InTurn turn s pkg id before) :
    Serialized turn next := by
  intro pkg id job other otherJob mine theirs
  obtain ⟨before, held⟩ := turns pkg id job mine
  obtain ⟨otherBefore, otherHeld⟩ := turns pkg other otherJob theirs
  exact serialized pkg id before other otherBefore held otherHeld

/-- Replacing a tick by one whose turns it had already. -/
theorem Serialized.setTick {after : Tick V} (serialized : Serialized turn s)
    (ticks : next.ticks = Function.update s.ticks id (some after))
    (turns : ∀ pkg job, after.jobs pkg = some job → turn after.stage job.phase = true →
      ∃ before, InTurn turn s pkg id before) : Serialized turn next := by
  refine serialized.of_turns fun pkg other job ⟨tick, found, working, held⟩ => ?_
  rw [ticks] at found
  revert working held
  refine ticks_setTick (P := fun other tick => tick.jobs pkg = some job →
    turn tick.stage job.phase = true → ∃ before, InTurn turn s pkg other before) ?_ ?_ other tick found
  · exact turns pkg job
  · exact fun other tick found _ working held => ⟨job, tick, found, working, held⟩

theorem JobMoves.wasInTurn {after : Job V} (moves : JobMoves site s pkg job after view)
    (found : s.ticks id = some tick) (stage : tick.stage.working = true)
    (working : tick.jobs pkg = some job) (held : tickTurn tick.stage after.phase = true) :
    InTurn tickTurn s pkg id job := by
  rcases moves.inTurn found stage working with inTurn | ⟨-, failed⟩
  · exact inTurn
  · rw [failed] at held
    cases shape : tick.stage <;> simp [tickTurn, shape] at held

theorem Serialized.setJob {after : Job V} (serialized : Serialized tickTurn s)
    (ticks : next.ticks = Function.update s.ticks id (some (tick.setJob pkg after)))
    (found : s.ticks id = some tick)
    (turns : tickTurn tick.stage after.phase = true → ∃ before, InTurn tickTurn s pkg id before) :
    Serialized tickTurn next := by
  refine serialized.setTick ticks fun p job working held => ?_
  by_cases here : p = pkg
  · subst here
    obtain rfl : after = job := by simpa using working
    exact turns held
  · exact ⟨job, tick, found, by simpa [here] using working, held⟩

theorem taint_turn (tick : Tick V) (pkg p : String) (working : (tick.taint pkg).jobs p = some job)
    (held : tickTurn tick.stage job.phase = true) :
    ∃ before, tick.jobs p = some before ∧ tickTurn tick.stage before.phase = true := by
  by_cases here : p = pkg
  · subst here
    simp only [Tick.taint, Function.update_self, Option.map_eq_some_iff] at working
    obtain ⟨before, present, rfl⟩ := working
    refine ⟨before, present, ?_⟩
    unfold Job.taint at held
    split at held
    · rename_i clean phase
      rw [phase]
      cases shape : tick.stage <;> simp [tickTurn]
    · exact held
  · exact ⟨job, by simpa [Tick.taint, here] using working, held⟩

theorem Serialized.step (serialized : Serialized tickTurn s)
    (step : Step site intentGrace tickTurn s next) : Serialized tickTurn next := by
  cases step with
  | beginWrite pkg nonce fresh positive => exact serialized
  | commit pkg nonce writing => exact serialized
  | crashWriter pkg nonce => exact serialized
  | markDirty pkg nonce fresh => exact serialized
  | advanceTime timely => exact serialized
  | deleteKey id key found stage member => exact serialized
  | mutate pkg nonce truth view writing =>
      refine serialized.of_turns fun p id job ⟨after, found, working, held⟩ => ?_
      obtain ⟨tick, before, rfl⟩ := Option.map_eq_some_iff.mp found
      obtain ⟨original, present, inTurn⟩ := taint_turn tick pkg p working held
      exact ⟨original, tick, before, present, inTurn⟩
  | list id free => exact serialized.setTick rfl fun _ _ working => nomatch working
  | choose id found stage =>
      refine serialized.setTick rfl fun p job working held => ?_
      obtain ⟨item, -, -, rfl⟩ := chosenJobs_some working
      simp [Tick.choose, queuedJob, tickTurn] at held
  | @start tick job s id pkg found stage working queued free =>
      intro p holder job' other otherJob mine theirs
      have only : ∀ holder job', InTurn tickTurn (s.setTick id
          (some (tick.setJob pkg { job with phase := .reading true }))) pkg holder job' →
          holder = id := by
        rintro holder job' ⟨after, present, held, turn⟩
        by_contra apart
        rw [State.setTick_ticks, Function.update_of_ne apart] at present
        rw [free holder after job' present held] at turn
        cases turn
      by_cases here : p = pkg
      · subst here
        rw [only holder job' mine, only other otherJob theirs]
      · have back : ∀ holder job', InTurn tickTurn (s.setTick id
            (some (tick.setJob pkg { job with phase := .reading true }))) p holder job' →
            InTurn tickTurn s p holder job' := by
          rintro holder job' ⟨after, present, held, turn⟩
          revert held turn
          refine ticks_setTick (P := fun holder after => after.jobs p = some job' →
            tickTurn after.stage job'.phase = true → InTurn tickTurn s p holder job')
            ?_ ?_ holder after present
          · exact fun held turn => ⟨tick, found, by simpa [here] using held, turn⟩
          · exact fun holder after present _ held turn => ⟨after, present, held, turn⟩
        exact serialized p holder job' other otherJob (back holder job' mine)
          (back other otherJob theirs)
  | @work tick job after view s id pkg found stage working moves =>
      exact serialized.setJob rfl found
        fun held => ⟨job, moves.wasInTurn found stage working held⟩
  | @rearm tick job live s id pkg nonce found stage working rebuilt fresh =>
      exact serialized.setJob rfl found fun held => ⟨job, tick, found, working, held⟩
  | @updateGlobal tick s id found stage finished =>
      refine serialized.setTick rfl fun p job working held => ?_
      rcases finished p job working with ⟨live, phase⟩ | phase <;> simp [phase, tickTurn] at held
  | @cancel tick s id found stage =>
      refine serialized.setTick rfl fun p job working held => ?_
      exact ⟨job, tick, found, working, stage ▸ tickTurn_cancelled held⟩
  | stop id =>
      refine serialized.of_turns fun p other job ⟨after, found, working, held⟩ => ?_
      by_cases here : other = id
      · subst here
        simp at found
      · rw [State.setTick_ticks, Function.update_of_ne here] at found
        exact ⟨job, after, found, working, held⟩

/-- The invariant of a run in which a package's turn lasts to the global update. -/
structure Invariant (site : Site T V) (intentGrace : Nat) (s : State T V) : Prop where
  books : Books intentGrace s
  serialized : Serialized tickTurn s
  covered : ∀ pkg, Covered site s pkg

theorem Covered.step (invariant : Invariant site intentGrace s)
    (step : Step site intentGrace tickTurn s next) (p : String) : Covered site next p := by
  have covered := invariant.covered p
  have unchanged : ∀ id after, s.ticks id = some after → Harmless after p ∨
      ∃ tick, s.ticks id = some tick ∧ Follows after tick p :=
    fun id after found => .inr ⟨after, found, follows_refl after p⟩
  have replaced : ∀ {id after}, Harmless after p ∨
        (∃ tick, s.ticks id = some tick ∧ Follows after tick p) →
      ∀ other tick', Function.update s.ticks id (some after) other = some tick' →
        Harmless tick' p ∨ ∃ tick, s.ticks other = some tick ∧ Follows tick' tick p := by
    intro id after here
    exact ticks_setTick (P := fun other tick' => Harmless tick' p ∨
      ∃ tick, s.ticks other = some tick ∧ Follows tick' tick p) here
      fun other tick found _ => unchanged other tick found
  cases step with
  | beginWrite pkg nonce fresh positive =>
      exact covered.frame rfl rfl rfl (fun _ member => List.mem_append_left _ member) unchanged
  | mutate pkg nonce truth view writing =>
      exact Covered.mutate invariant.books invariant.covered writing truth view p
  | commit pkg nonce writing =>
      exact covered.frame rfl rfl rfl (fun _ member => List.mem_append_left _ member) unchanged
  | crashWriter pkg nonce => exact covered.frame rfl rfl rfl (fun _ member => member) unchanged
  | markDirty pkg nonce fresh =>
      exact covered.frame rfl rfl rfl (fun _ member => List.mem_append_left _ member) unchanged
  | advanceTime timely => exact covered.frame rfl rfl rfl (fun _ member => member) unchanged
  | list id free =>
      refine covered.frame rfl rfl rfl (fun _ member => member) (replaced (.inl ⟨?_, ?_⟩))
      · exact fun _ working => nomatch working
      · exact fun _ stage => nomatch stage
  | choose id found stage =>
      refine covered.frame rfl rfl rfl (fun _ member => member) (replaced (.inl ⟨?_, ?_⟩))
      · intro job working
        obtain ⟨item, -, -, rfl⟩ := chosenJobs_some working
        rfl
      · exact fun _ stage => nomatch stage
  | start id pkg found stage working queued free =>
      by_cases here : p = pkg
      · subst here
        exact covered.start found
      · exact covered.frame rfl rfl rfl (fun _ member => member)
          (replaced (.inr ⟨_, found, follows_setJob here _⟩))
  | work id pkg found stage working moves =>
      by_cases here : p = pkg
      · subst here
        exact covered.work invariant.serialized found stage working moves
      · refine covered.frame rfl ?_ rfl (fun _ member => member)
          (replaced (.inr ⟨_, found, follows_setJob here _⟩))
        simp [State.setView, State.setTick, here]
  | @rearm tick job live s id pkg nonce found stage working rebuilt fresh =>
      refine covered.frame rfl rfl rfl (fun _ member => List.mem_append_left _ member)
        (replaced (.inr ⟨tick, found, ?_⟩))
      by_cases here : p = pkg
      · subst here
        refine ⟨fun moved present => ⟨job, working, ?_⟩, .inl rfl⟩
        obtain rfl : { job with rearmed := true } = moved := by simpa using present
        exact ⟨rfl, rfl⟩
      · exact follows_setJob here tick
  | updateGlobal id found stage finished =>
      exact covered.updateGlobal invariant.books invariant.serialized found stage finished
  | deleteKey id key found stage member => exact covered.deleteKey found stage member
  | @cancel tick s id found stage =>
      refine covered.frame rfl rfl rfl (fun _ member => member)
        (replaced (.inr ⟨tick, found, ?_, .inr ⟨rfl, stage⟩⟩))
      exact fun job working => ⟨job, working, rfl, rfl⟩
  | stop id =>
      refine covered.frame rfl rfl rfl (fun _ member => member) fun other after found => ?_
      by_cases here : other = id
      · subst here
        simp at found
      · rw [State.setTick_ticks, Function.update_of_ne here] at found
        exact unchanged other after found

theorem Invariant.step (invariant : Invariant site intentGrace s)
    (step : Step site intentGrace tickTurn s next) : Invariant site intentGrace next :=
  ⟨invariant.books.step step, invariant.serialized.step step, Covered.step invariant step⟩

theorem Initial.invariant (initial : Initial site s) : Invariant site intentGrace s := by
  have idle : ∀ {id tick} {P : Prop}, s.ticks id = some tick → P := by
    intro id tick P found
    rw [initial.noTicks id] at found
    cases found
  refine ⟨⟨⟨initial.logged, initial.unique, fun _ _ found => idle found,
    fun _ _ found => idle found, fun _ _ _ found => idle found,
    fun _ _ _ _ _ found => idle found⟩, ?_⟩, ?_, fun pkg => ?_⟩
  · intro pkg nonce started writing
    rw [initial.noWriters] at writing
    cases writing
  · intro pkg id job other otherJob mine _
    obtain ⟨tick, found, -⟩ := mine
    exact idle found
  · rcases initial.settled pkg with settled | ⟨key, marked⟩
    · refine .inl ⟨settled, fun id job inTurn => ?_⟩
      obtain ⟨tick, found, -⟩ := inTurn
      exact idle found
    · exact .inr ⟨key, marked, fun _ _ _ found => idle found, fun _ _ _ found => idle found⟩

theorem reaches_invariant (initial : Initial site s) (run : Reaches site intentGrace tickTurn s next) :
    Invariant site intentGrace next := by
  induction run with
  | refl => exact initial.invariant
  | tail _ step ih => exact ih.step step

/-- A state in which one job of tick `id` has replaced the one it started from. -/
def State.atWork (s : State T V) (id : Nat) (tick : Tick V) (pkg : String) (job : Job V)
    (view : Part → Option V) : State T V :=
  (s.setView pkg view).setTick id (some (tick.setJob pkg job))

theorem step_atWork {before after : Job V} {view stored : Part → Option V}
    (stage : tick.stage.working = true)
    (moves : JobMoves site (s.atWork id tick pkg before view) pkg before after stored) :
    Step site intentGrace turn (s.atWork id tick pkg before view)
      (s.atWork id tick pkg after stored) := by
  have found : (s.atWork id tick pkg before view).ticks id = some (tick.setJob pkg before) := by
    simp [State.atWork]
  have working : (tick.setJob pkg before).jobs pkg = some before := by simp
  have step : Step site intentGrace turn _ _ := Step.work id pkg found stage working moves
  simpa [State.atWork, State.setView, State.setTick, Tick.setJob] using step

/-- An undisturbed rebuild, from taking the turn to the last view written. -/
theorem reaches_rebuilt (found : s.ticks id = some tick) (stage : tick.stage.working = true)
    (working : tick.jobs pkg = some job) (queued : job.phase = .queued)
    (free : ∀ other otherTick otherJob, s.ticks other = some otherTick →
      otherTick.jobs pkg = some otherJob → turn otherTick.stage otherJob.phase = false) :
    Reaches site intentGrace turn s (s.atWork id tick pkg
      { job with phase := .rebuilt (site.live (s.truth pkg)) } (site.render (s.truth pkg))) := by
  let rendered := site.render (s.truth pkg)
  let writing (todo : List Part) : Job V :=
    { job with phase := .writing rendered (site.live (s.truth pkg)) todo }
  have stored : ∀ job view, (s.atWork id tick pkg job view).view pkg = view := by
    intro job view
    simp [State.atWork, State.setView, State.setTick]
  have started : Step site intentGrace turn s
      (s.atWork id tick pkg { job with phase := .reading true } (s.view pkg)) := by
    simpa [State.atWork, State.setView] using Step.start id pkg found stage working queued free
  refine .head started (.head (step_atWork stage (.read rfl)) ?_)
  refine .head (step_atWork stage (.write .html rfl (by simp [parts]))) ?_
  refine .head (step_atWork stage (.write .json rfl (by simp [parts]))) ?_
  have written : Function.update (Function.update (s.view pkg) .html
      (site.render (s.truth pkg) .html)) .json (site.render (s.truth pkg) .json) =
      site.render (s.truth pkg) := by
    funext part
    cases part <;> simp
  have truth : ∀ job view, (s.atWork id tick pkg job view).truth = s.truth := fun _ _ => rfl
  simp only [stored, truth]
  rw [written, show (parts.erase .html).erase .json = [] from rfl]
  have published : JobMoves site (s.atWork id tick pkg (writing []) rendered) pkg (writing [])
      { job with phase := .rebuilt (site.live (s.truth pkg)) } _ := .publish rfl
  rw [stored] at published
  exact .single (step_atWork stage published)

/-- A tick in its last stage deletes any of the keys it consumed. -/
theorem reaches_deleted {keys : List String} (found : s.ticks id = some tick)
    (stage : tick.stage = .deleting consumed) (subset : ∀ key ∈ keys, key ∈ consumed) :
    Reaches site intentGrace turn s
      { s with markers := s.markers.filter fun entry => entry.key ∉ keys } := by
  induction keys with
  | nil => simpa using Relation.ReflTransGen.refl
  | cons key keys ih =>
      have member := subset key (by simp)
      have deleted := (ih fun other held => subset other (by simp [held])).tail
        (.deleteKey id key found stage member)
      simpa [List.filter_filter, ← Bool.and_comm] using deleted

/-- The end of an undisturbed tick: the global update and the deletes. -/
theorem reaches_consumed (id : Nat) (found : s.ticks id = some tick)
    (running : tick.stage = .running) (finished : tick.finished) :
    Reaches site intentGrace turn s
      { s.setTick id (some { tick with stage := .deleting tick.consumed }) with
        globalIndex := tick.updateGlobal s.globalIndex
        markers := s.markers.filter fun entry => entry.key ∉ tick.consumed } := by
  refine .head (.updateGlobal id found running finished) ?_
  have last : ({ s.setTick id (some { tick with stage := .deleting tick.consumed }) with
      globalIndex := tick.updateGlobal s.globalIndex } : State T V).ticks id =
      some { tick with stage := .deleting tick.consumed } := by
    rw [State.setTick_ticks, Function.update_self]
  exact reaches_deleted last rfl fun _ member => member

/-- Truth is whether the package has a file; its views exist exactly then. -/
def presence : Site Bool Unit where
  render present _ := if present then some () else none
  live present := present

/-- One live package `demo`, settled, and nothing in flight. -/
def quiet : State Bool Unit where
  truth pkg := pkg = "demo"
  view pkg _ := if pkg = "demo" then some () else none
  globalIndex pkg := pkg = "demo"
  markers := []
  born := []
  now := 0
  writers _ := none
  ticks _ := none

theorem quiet_initial : Initial presence quiet := by
  refine ⟨fun _ => rfl, fun _ => rfl, by simp [quiet], List.nodup_nil, fun pkg => .inl ⟨?_, rfl⟩⟩
  funext part
  simp [quiet, presence]

/-- A tick of package `demo` alone, as its one job moves on. -/
def demoTick (entries : List FileEntry) (stage : Stage) (phase : Phase Unit) : Tick Unit where
  listing := entries
  horizon := entries.length
  stage := stage
  packages := ["demo"]
  jobs pkg := if pkg = "demo" then some ⟨entries.map (·.key), 0, false, phase⟩ else none

theorem demoTick_choose {entries : List FileEntry}
    (work : consumableDirtyWork entries 0 10 = [⟨"demo", entries.map (·.key), 0⟩]) :
    (⟨entries, entries.length, .listed, [], fun _ => none⟩ : Tick Unit).choose 0 10 =
      demoTick entries .running .queued := by
  simp only [Tick.choose, work, demoTick, List.map, Tick.mk.injEq, true_and]
  funext pkg
  by_cases here : pkg = "demo"
  · subst here
    rfl
  · simp [chosenJobs, here, eq_comm]

theorem demoTick_setJob (entries : List FileEntry) (stage : Stage) (phase after : Phase Unit) :
    (demoTick entries stage phase).setJob "demo" ⟨entries.map (·.key), 0, false, after⟩ =
      demoTick entries stage after := by
  simp only [Tick.setJob, demoTick, Tick.mk.injEq, true_and]
  funext pkg
  by_cases here : pkg = "demo" <;> simp [here, Function.update]

/-- A tick that lists `demo`'s markers and rebuilds its view. -/
theorem reaches_demo_rebuilt {turn : Turn Unit} {s : State Bool Unit} (id : Nat)
    (queued : ∀ stage, turn stage .queued = false) (free : s.ticks id = none)
    (now : s.now = 0) (aligned : s.born.length = s.markers.length)
    (work : consumableDirtyWork s.markers 0 10 = [⟨"demo", s.markers.map (·.key), 0⟩])
    (turns : ∀ other tick job, s.ticks other = some tick → tick.jobs "demo" = some job →
      turn tick.stage job.phase = false) :
    Reaches presence 10 turn s ((s.setView "demo" (presence.render (s.truth "demo"))).setTick id
      (some (demoTick s.markers .running (.rebuilt (s.truth "demo"))))) := by
  have listed : Step presence 10 turn s _ := .list id free
  have found : (s.setTick id (some ⟨s.markers, s.born.length, .listed, [], fun _ => none⟩)).ticks id =
      some ⟨s.markers, s.markers.length, .listed, [], fun _ => none⟩ := by
    simp [aligned]
  have chosen : Step presence 10 turn _ _ := .choose id found rfl
  have running : (s.setTick id (some ⟨s.markers, s.born.length, .listed, [], fun _ => none⟩)).setTick id
      (some (demoTick s.markers .running .queued)) =
      s.setTick id (some (demoTick s.markers .running .queued)) := by
    simp [State.setTick]
  rw [show (s.setTick id _).now = 0 from now, demoTick_choose work, running] at chosen
  refine .head listed (.head chosen ?_)
  have idle : ∀ other tick job, (s.setTick id (some (demoTick s.markers .running .queued))).ticks other =
      some tick → tick.jobs "demo" = some job → turn tick.stage job.phase = false := by
    intro other tick job found
    revert job
    refine ticks_setTick (P := fun _ tick => ∀ job, tick.jobs "demo" = some job →
      turn tick.stage job.phase = false) ?_ ?_ other tick found
    · rintro job ⟨⟩
      exact queued _
    · exact fun other tick found _ job => turns other tick job found
  have rebuilt : Reaches presence 10 turn (s.setTick id (some (demoTick s.markers .running .queued)))
      _ := reaches_rebuilt (by rw [State.setTick_ticks, Function.update_self]) rfl rfl rfl idle
  have isLive : ∀ present, presence.live present = present := fun _ => rfl
  simpa [isLive, State.atWork, State.setTick, State.setView, demoTick_setJob] using rebuilt

theorem demoTick_finished (entries : List FileEntry) (stage : Stage) (live : Bool) :
    (demoTick entries stage (.rebuilt live)).finished := by
  intro pkg job working
  simp only [demoTick] at working
  split at working
  · obtain rfl := Option.some.inj working
    exact .inl ⟨live, rfl⟩
  · cases working

theorem demoTick_taint (entries : List FileEntry) (stage : Stage) (live : Bool) :
    (demoTick entries stage (.rebuilt live)).taint "demo" = demoTick entries stage (.rebuilt live) := by
  simp only [Tick.taint, demoTick, Tick.mk.injEq, true_and]
  funext pkg
  by_cases here : pkg = "demo"
  · subst here
    rfl
  · simp [here]

/-- The protocol converges when a package's turn lasts from a tick's read of its
truth to that tick's global-index update: in every reachable state, a package
with no writer in flight and no standing marker is settled. A key that a tick
deletes was written before the tick listed. -/
theorem event_protocol {T V : Type} (site : Site T V) (intentGrace : Nat)
    (start reached : State T V) (initial : Initial site start)
    (run : Reaches site intentGrace tickTurn start reached) :
    (∀ pkg, (∀ nonce, reached.writers (pkg, nonce) = none) →
      (∀ key, ¬ Marked reached pkg key) → Settled site reached pkg) ∧
    (∀ id tick consumed key, reached.ticks id = some tick → tick.stage = .deleting consumed →
      key ∈ consumed → key ∈ reached.born.take tick.horizon ∧
        key ∉ reached.born.drop tick.horizon) := by
  have invariant : Invariant site intentGrace reached := reaches_invariant initial run
  refine ⟨fun pkg _ unmarked => ?_, fun id tick consumed key found stage member => ?_⟩
  · rcases invariant.covered pkg with good | ⟨key, covers⟩
    · exact good.1
    · exact absurd covers.marked (unmarked key)
  · have ledger := invariant.books.ledger
    obtain ⟨entry, listed, rfl⟩ :=
      ledger.held id tick key found (.inr ⟨consumed, stage, member⟩)
    have before := ledger.listed id tick found entry listed
    refine ⟨before, fun after => ?_⟩
    have unique := ledger.unique
    rw [← List.take_append_drop tick.horizon reached.born] at unique
    exact (List.nodup_append.mp unique).2.2 _ before _ after rfl

/-- A writer removes the last file of `demo`, and one tick consumes its markers. -/
theorem removed_package_settles : Initial presence quiet ∧ ∃ reached,
    Reaches presence 10 tickTurn quiet reached ∧ reached.markers = [] ∧
      reached.truth "demo" = false ∧ Settled presence reached "demo" := by
  refine ⟨quiet_initial, ?_⟩
  have begun : Reaches presence 10 tickTurn quiet _ :=
    .single (.beginWrite "demo" "2" ⟨by decide, by simp [quiet]⟩ (by decide))
  have removed := begun.tail (.mutate "demo" "2" false (fun _ => some ()) rfl)
  have committed := removed.tail (.commit "demo" "2" rfl)
  have rebuilt := committed.trans (reaches_demo_rebuilt 1 (fun stage => by cases stage <;> rfl)
    rfl rfl rfl (by decide +kernel) fun _ _ _ found => nomatch found)
  have consumed := rebuilt.trans (reaches_consumed 1 rfl rfl (demoTick_finished _ _ _))
  refine ⟨_, consumed, by rfl, by rfl, ?_⟩
  refine (event_protocol presence 10 quiet _ quiet_initial consumed).1 "demo" (fun nonce => ?_) ?_
  · simp [State.setTick, State.setView, State.setWriter, State.putMarker, State.mutate, quiet]
  · rintro key ⟨entry, standing, -⟩
    cases standing

/-- Only view rebuilds are serialized here. A first tick rebuilds `demo` while it
is live; a writer removes its file; a second tick rebuilds, delists the package
and deletes every marker; the first tick's late global update lists it again. -/
theorem late_global_update : Initial presence quiet ∧ ∃ reached,
    Reaches presence 10 viewTurn quiet reached ∧ (∀ writer, reached.writers writer = none) ∧
      reached.markers = [] ∧ ¬ Settled presence reached "demo" := by
  refine ⟨quiet_initial, ?_⟩
  have marked : Reaches presence 10 viewTurn quiet (quiet.putMarker (commitKey "demo" "1")) :=
    .single (.markDirty "demo" "1" ⟨by decide, by simp [quiet]⟩)
  have first := marked.trans (reaches_demo_rebuilt 0 (fun _ => rfl) rfl rfl rfl (by decide +kernel)
    (by simp [quiet, State.putMarker]))
  have fresh : ∀ key ∈ [commitKey "demo" "1"], ∀ marker,
      parseMarker ⟨key, none⟩ = some ("demo", marker) → marker.nonce ≠ some "2" := by
    intro key member marker parsed
    rw [List.mem_singleton.mp member, parseMarker_commitKey (by decide)] at parsed
    simp only [Option.some.injEq, Prod.mk.injEq, true_and] at parsed
    simp [← parsed]
  have begun := first.tail (.beginWrite "demo" "2" ⟨by decide, fresh⟩ (by decide))
  have removed := begun.tail (.mutate "demo" "2" false (fun _ => some ()) rfl)
  have committed := removed.tail (.commit "demo" "2" rfl)
  have second := committed.trans (reaches_demo_rebuilt 1 (fun _ => rfl) rfl rfl rfl (by decide +kernel) ?_)
  · have cleared := second.trans (reaches_consumed 1 rfl rfl (demoTick_finished _ _ _))
    have relisted := cleared.trans (reaches_consumed 0 rfl rfl (by
      simpa only [demoTick_taint] using demoTick_finished _ _ _))
    refine ⟨_, relisted, ?_, by rfl, ?_⟩
    · intro writer
      simp [State.setTick, State.setView, State.setWriter, State.putMarker, State.mutate, quiet]
    · rintro ⟨-, listed⟩
      cases listed
  · intro other tick job found working
    cases other with
    | zero =>
        obtain rfl := Option.some.inj found
        obtain rfl := Option.some.inj working
        rfl
    | succ other => cases found

end Pypiron.EventProtocol
