import Pypiron.Interference
import Mathlib.Data.List.Induction
import Mathlib.Logic.Function.Basic
import Mathlib.Logic.Relation
import Mathlib.Order.Monotone.Basic

/-! Any number of calls over one store, interleaved at every operation. A run is
a sequence of configurations, so a statement about a call can name the instants
of the run at which something held while the call was in progress. -/
namespace ThreadPool
variable {Store Call Op : Type} {Ans : Op → Type} {ε α β : Type}

/-- What a call runs, how the store answers one operation of a thread, what
happens to the store between operations, and what dropping a thread leaves. -/
structure System (Store Call Op : Type) (Ans : Op → Type) (ε α : Type) where
  program : Call → Program Op Ans ε α
  performs : ℕ → Store → (op : Op) → Ans op → Store → Prop
  drifts : Store → Store → Prop
  drops : ℕ → Store → Store → Prop

/-- The store and, for each thread, its call with what is left of the program. -/
structure Config (Store Call Op : Type) (Ans : Op → Type) (ε α : Type) where
  store : Store
  threads : ℕ → Option (Call × Program Op Ans ε α)

def Config.setThread (config : Config Store Call Op Ans ε α) (thread : ℕ)
    (task : Option (Call × Program Op Ans ε α)) : Config Store Call Op Ans ε α :=
  { config with threads := Function.update config.threads thread task }

@[simp] theorem Config.setThread_store (config : Config Store Call Op Ans ε α) :
    (config.setThread thread task).store = config.store := rfl

@[simp] theorem Config.setThread_self (config : Config Store Call Op Ans ε α) :
    (config.setThread thread task).threads thread = task := by
  simp [setThread]

theorem Config.setThread_other (config : Config Store Call Op Ans ε α) (apart : other ≠ thread) :
    (config.setThread thread task).threads other = config.threads other := by
  simp [setThread, apart]

/-- Whether the thread's call has an operation left to make. -/
def Config.working (config : Config Store Call Op Ans ε α) (thread : ℕ) : Bool :=
  match config.threads thread with
  | some (_, .call _ _) => true
  | _ => false

theorem Config.over_of_rests {config : Config Store Call Op Ans ε α}
    (rests : config.working thread = false) :
    config.threads thread = none ∨ ∃ call result, config.threads thread = some (call, .done result) := by
  unfold Config.working at rests
  split at rests
  next => cases rests
  next held =>
    cases task : config.threads thread with
    | none => exact .inl rfl
    | some pair =>
        obtain ⟨call, result | ⟨op, next⟩⟩ := pair
        · exact .inr ⟨call, result, rfl⟩
        · exact absurd task (held _ _ _)

/-- A call starts, a started call makes its next operation, the store changes by
itself, or a call is dropped. A call never scheduled again has crashed. -/
inductive Step (system : System Store Call Op Ans ε α) :
    Config Store Call Op Ans ε α → Config Store Call Op Ans ε α → Prop where
  | start {config thread call} : config.threads thread = none →
      Step system config (config.setThread thread (some (call, system.program call)))
  | perform {config thread call op next answer store} :
      config.threads thread = some (call, .call op next) →
      system.performs thread config.store op answer store →
      Step system config
        (Config.setThread { config with store } thread (some (call, next answer)))
  | drift {config store} : system.drifts config.store store →
      Step system config { config with store }
  | drop {config thread task store} : config.threads thread = some task →
      system.drops thread config.store store →
      Step system config (Config.setThread { config with store } thread none)

/-- A run, which may pause for any number of instants. -/
def Trace (system : System Store Call Op Ans ε α) (run : ℕ → Config Store Call Op Ans ε α) : Prop :=
  ∀ now, Step system (run now) (run (now + 1)) ∨ run (now + 1) = run now

/-- Thread `thread` answers its next operation between `now` and `now + 1`. -/
def Performed (system : System Store Call Op Ans ε α) (run : ℕ → Config Store Call Op Ans ε α)
    (thread now : ℕ) (call : Call) (op : Op) (answer : Ans op) : Prop :=
  ∃ next, (run now).threads thread = some (call, .call op next) ∧
    system.performs thread (run now).store op answer (run (now + 1)).store ∧
    run (now + 1) = Config.setThread { run now with store := (run (now + 1)).store } thread
      (some (call, next answer))

theorem Performed.unique {system : System Store Call Op Ans ε α}
    {run : ℕ → Config Store Call Op Ans ε α} (performed : Performed system run thread now call op answer)
    (performed' : Performed system run thread' now call' op' answer') : thread = thread' := by
  obtain ⟨next, task, _, after⟩ := performed
  obtain ⟨next', task', _, after'⟩ := performed'
  by_contra apart
  have stays : (run (now + 1)).threads thread' = some (call', .call op' next') := by
    rw [after, Config.setThread_other _ (Ne.symm apart), task']
  rw [after', Config.setThread_self, Option.some.injEq, Prod.mk.injEq] at stays
  exact Program.next_ne_call op' next' answer' stays.2

theorem Performed.same_op {system : System Store Call Op Ans ε α}
    {run : ℕ → Config Store Call Op Ans ε α} (performed : Performed system run thread now call op answer)
    (performed' : Performed system run thread' now call' op' answer') : call = call' ∧ op = op' := by
  obtain rfl := performed.unique performed'
  obtain ⟨_, task, _, _⟩ := performed
  obtain ⟨_, task', _, _⟩ := performed'
  cases task.symm.trans task'
  exact ⟨rfl, rfl⟩

section Trace
variable {system : System Store Call Op Ans ε α} {run : ℕ → Config Store Call Op Ans ε α}

/-- A thread that makes an operation does not stay as it was. -/
theorem Performed.changes (performed : Performed system run thread now call op answer) :
    (run (now + 1)).threads thread ≠ (run now).threads thread := by
  obtain ⟨next, before, _, after⟩ := performed
  intro same
  rw [after, Config.setThread_self, before, Option.some.injEq, Prod.mk.injEq] at same
  exact Program.next_ne_call op next answer same.2

/-- What one instant of a run does: a thread performs an operation, or the
threads are changed by a start or a drop and the store by its own drift. -/
theorem Trace.cases (trace : Trace system run) (now : ℕ) :
    (∃ thread call op answer, Performed system run thread now call op answer) ∨
    (∃ thread call, (run now).threads thread = none ∧
      run (now + 1) = (run now).setThread thread (some (call, system.program call))) ∨
    (system.drifts (run now).store (run (now + 1)).store ∧
      (run (now + 1)).threads = (run now).threads) ∨
    (∃ thread task, (run now).threads thread = some task ∧
      system.drops thread (run now).store (run (now + 1)).store ∧
      (run (now + 1)).threads = Function.update (run now).threads thread none) ∨
    run (now + 1) = run now := by
  obtain step | paused := trace now
  · generalize before : run now = config at step
    generalize after : run (now + 1) = config' at step
    cases step with
    | @start thread call idle => exact .inr (.inl ⟨thread, call, idle, rfl⟩)
    | @perform thread call op next answer store task performs =>
        refine .inl ⟨thread, call, op, answer, next, ?_, ?_, ?_⟩
        · rw [before, task]
        · rw [before, after]
          exact performs
        · rw [before, after]
          rfl
    | drift drifts => exact .inr (.inr (.inl ⟨drifts, rfl⟩))
    | @drop thread task store held drops =>
        exact .inr (.inr (.inr (.inl ⟨thread, task, held, drops, rfl⟩)))
  · exact .inr (.inr (.inr (.inr paused)))

/-- What holds at first and is kept by every step holds throughout. -/
theorem Trace.invariant (trace : Trace system run)
    {holds : Config Store Call Op Ans ε α → Prop} (initial : holds (run 0))
    (keeps : ∀ config config', Step system config config' → holds config → holds config') (now : ℕ) :
    holds (run now) := by
  induction now with
  | zero => exact initial
  | succ now ih =>
      obtain step | paused := trace now
      · exact keeps _ _ step ih
      · rw [paused]
        exact ih

/-- A run makes no operations but those its calls may issue. -/
theorem Trace.issues (trace : Trace system run) (idle : ∀ thread, (run 0).threads thread = none)
    {permits : Call → Op → Prop} {post : Call → α → Prop}
    (issues : ∀ call, Program.Issues (permits call) (post call) (system.program call))
    (performed : Performed system run thread now call op answer) : permits call op := by
  have kept : ∀ thread call program, (run now).threads thread = some (call, program) →
      Program.Issues (permits call) (post call) program := by
    refine @Trace.invariant _ _ _ _ _ _ system run trace (fun config => ∀ thread call program,
      config.threads thread = some (call, program) →
        Program.Issues (permits call) (post call) program) ?_ ?_ now
    · intro thread call program task
      rw [idle thread] at task
      cases task
    · intro config config' step before thread call program task
      cases step with
      | @start mover started free =>
          by_cases mine : thread = mover
          · subst mine
            rw [Config.setThread_self] at task
            cases task
            exact issues _
          · rw [Config.setThread_other _ mine] at task
            exact before _ _ _ task
      | @perform mover moved op next answer store held performs =>
          by_cases mine : thread = mover
          · subst mine
            rw [Config.setThread_self] at task
            cases task
            exact (before _ _ _ held).2 answer
          · rw [Config.setThread_other _ mine] at task
            exact before _ _ _ task
      | drift drifts => exact before _ _ _ task
      | @drop mover held store busy drops =>
          by_cases mine : thread = mover
          · subst mine
            rw [Config.setThread_self] at task
            cases task
          · rw [Config.setThread_other _ mine] at task
            exact before _ _ _ task
  obtain ⟨_, task, _⟩ := performed
  exact (kept _ _ _ task).1

/-- A thread with an operation left to make. -/
def InFlight (run : ℕ → Config Store Call Op Ans ε α) (thread now : ℕ) (call : Call) : Prop :=
  ∃ op next, (run now).threads thread = some (call, .call op next)

theorem Performed.inFlight (performed : Performed system run thread now call op answer) :
    InFlight run thread now call := by
  obtain ⟨next, task, _⟩ := performed
  exact ⟨op, next, task⟩

/-- What one instant does to a thread, where none is dropped. -/
theorem Trace.thread_step (trace : Trace system run)
    (stays : ∀ now thread, (run now).threads thread ≠ none → (run (now + 1)).threads thread ≠ none)
    (now thread : ℕ) :
    (run (now + 1)).threads thread = (run now).threads thread ∨
    ((run now).threads thread = none ∧
      ∃ call, (run (now + 1)).threads thread = some (call, system.program call)) ∨
    ∃ call op next answer, (run now).threads thread = some (call, .call op next) ∧
      Performed system run thread now call op answer ∧
      (run (now + 1)).threads thread = some (call, next answer) := by
  obtain ⟨mover, call, op, answer, performed⟩ | ⟨mover, call, free, next⟩ | ⟨_, same⟩ |
    ⟨mover, task, busy, _, next⟩ | paused := trace.cases now
  · have ⟨next, task, _, after⟩ := performed
    by_cases mine : thread = mover
    · subst mine
      refine .inr (.inr ⟨call, op, next, answer, task, performed, ?_⟩)
      rw [after, Config.setThread_self]
    · left
      rw [after, Config.setThread_other _ mine]
  · by_cases mine : thread = mover
    · subst mine
      refine .inr (.inl ⟨free, call, ?_⟩)
      rw [next, Config.setThread_self]
    · left
      rw [next, Config.setThread_other _ mine]
  · exact .inl (congrFun same thread)
  · by_cases mine : thread = mover
    · subst mine
      have gone : (run (now + 1)).threads thread = none := by rw [next, Function.update_self]
      exact absurd gone (stays now thread (by rw [busy]; exact Option.some_ne_none task))
    · left
      rw [next, Function.update_of_ne mine]
  · left
    rw [paused]

/-- Where no thread is dropped, a call makes an operation of the kind once at most. -/
theorem Trace.once (trace : Trace system run)
    (stays : ∀ now thread, (run now).threads thread ≠ none → (run (now + 1)).threads thread ≠ none)
    (idle : ∀ thread, (run 0).threads thread = none) {kind : Op → Prop}
    (programs : ∀ call, Program.Once kind (system.program call))
    (performed : Performed system run thread now call op answer) (issued : kind op)
    (performed' : Performed system run thread later call' op' answer') (less : now < later) :
    ¬kind op' := by
  have kept (instant : ℕ) : ∀ call program, (run instant).threads thread = some (call, program) →
      Program.Once kind program := by
    induction instant with
    | zero =>
        intro call program task
        rw [idle thread] at task
        cases task
    | succ instant ih =>
        intro call program task
        obtain same | ⟨_, started, starts⟩ | ⟨moved, op, next, answer, before, _, after⟩ :=
          trace.thread_step stays instant thread
        · exact ih call program (same ▸ task)
        · cases starts.symm.trans task
          exact programs _
        · cases after.symm.trans task
          exact (ih _ _ before answer).1
  have spent (instant : ℕ) (le : now + 1 ≤ instant) :
      ∃ call program, (run instant).threads thread = some (call, program) ∧
        Program.Issues (fun op => ¬kind op) (fun _ => True) program := by
    induction instant, le using Nat.le_induction with
    | base =>
        obtain ⟨next, before, _, after⟩ := performed
        refine ⟨call, next answer, ?_, (kept now _ _ before answer).2 issued⟩
        rw [after, Config.setThread_self]
    | succ instant _ ih =>
        obtain ⟨held, program, task, never⟩ := ih
        obtain same | ⟨free, _⟩ | ⟨moved, op, next, answer, before, _, after⟩ :=
          trace.thread_step stays instant thread
        · exact ⟨held, program, same.trans task, never⟩
        · cases free.symm.trans task
        · cases before.symm.trans task
          exact ⟨_, _, after, never.2 answer⟩
  obtain ⟨_, program, task, never⟩ := spent later less
  obtain ⟨next', before', _⟩ := performed'
  cases before'.symm.trans task
  exact never.1

/-- Where no thread is dropped, one that was at work and is not has made the
operation that closes its call. -/
theorem Trace.closes (trace : Trace system run)
    (stays : ∀ now thread, (run now).threads thread ≠ none → (run (now + 1)).threads thread ≠ none)
    {admits closes : Call → (op : Op) → Ans op → Prop}
    (admitted : ∀ thread now call op answer, Performed system run thread now call op answer →
      ∃ answer', Performed system run thread now call op answer' ∧ admits call op answer')
    (idle : ∀ thread, (run 0).threads thread = none)
    (programs : ∀ call, Program.Closes (admits call) (closes call) (system.program call))
    (working : InFlight run thread now call) (le : now ≤ later)
    (finished : ¬InFlight run thread later call) :
    ∃ instant op answer, now ≤ instant ∧ instant < later ∧
      Performed system run thread instant call op answer ∧ closes call op answer := by
  have kept (instant : ℕ) : ∀ thread call program,
      (run instant).threads thread = some (call, program) →
        Program.Closes (admits call) (closes call) program := by
    induction instant with
    | zero =>
        intro thread call program task
        rw [idle thread] at task
        cases task
    | succ instant ih =>
        intro thread call program task
        obtain same | ⟨_, started, starts⟩ | ⟨moved, op, next, answer, before, performed, after⟩ :=
          trace.thread_step stays instant thread
        · exact ih thread call program (same ▸ task)
        · cases starts.symm.trans task
          exact programs _
        · obtain ⟨answer', ⟨next', before', _, after'⟩, permitted⟩ := admitted _ _ _ _ _ performed
          rw [after', Config.setThread_self] at task
          cases before.symm.trans before'
          cases task
          exact ((ih thread _ _ before) answer' permitted).2
  have going (later : ℕ) (le : now ≤ later) : InFlight run thread later call ∨
      ∃ instant op answer, now ≤ instant ∧ instant < later ∧
        Performed system run thread instant call op answer ∧ closes call op answer := by
    induction later, le using Nat.le_induction with
    | base => exact .inl working
    | succ later le ih =>
        obtain ⟨op, next, task⟩ | ⟨instant, op, answer, from_, before, performed, closed⟩ := ih
        · obtain same | ⟨free, _⟩ | ⟨moved, op', next', answer, held, performed, after⟩ :=
            trace.thread_step stays later thread
          · exact .inl ⟨op, next, same.trans task⟩
          · cases free.symm.trans task
          · cases held.symm.trans task
            obtain ⟨answer', performed, permitted⟩ := admitted _ _ _ _ _ performed
            have ⟨next', before', _, after'⟩ := performed
            cases task.symm.trans before'
            cases rest : next answer' with
            | call op' next' =>
                refine .inl ⟨op', next', ?_⟩
                rw [after', Config.setThread_self, rest]
            | done result =>
                have closed := (kept later thread call _ task answer' permitted).1 ⟨result, rest⟩
                exact .inr ⟨later, op, answer', le, Nat.lt_succ_self later, performed, closed⟩
        · exact .inr ⟨instant, op, answer, from_, Nat.lt_succ_of_lt before, performed, closed⟩
  exact (going later le).resolve_left finished

/-- A thread that is at work later was at work all the time since an operation of its. -/
theorem Trace.inFlight_since (trace : Trace system run)
    (stays : ∀ now thread, (run now).threads thread ≠ none → (run (now + 1)).threads thread ≠ none)
    (performed : Performed system run thread now call op answer) (le : now ≤ middle)
    (le' : middle ≤ later) (working : InFlight run thread later call') :
    InFlight run thread middle call' := by
  have busy (instant : ℕ) (le : now ≤ instant) : (run instant).threads thread ≠ none := by
    induction instant, le using Nat.le_induction with
    | base =>
        obtain ⟨next, task, _⟩ := performed
        rw [task]
        exact Option.some_ne_none _
    | succ instant _ ih => exact stays instant thread ih
  induction later, le' using Nat.le_induction with
  | base => exact working
  | succ later le' ih =>
      refine ih ?_
      obtain ⟨op', next', task⟩ := working
      obtain same | ⟨free, _⟩ | ⟨moved, op, next, answer, held, _, after⟩ :=
        trace.thread_step stays later thread
      · exact ⟨op', next', same.symm.trans task⟩
      · exact absurd free (busy later (le.trans le'))
      · obtain ⟨rfl, _⟩ := Prod.mk.inj (Option.some.inj (after.symm.trans task))
        exact ⟨op, next, held⟩

/-- What every step relates, in a reflexive and transitive order, any later
instant is related by. -/
theorem Trace.ordered (trace : Trace system run)
    {R : Config Store Call Op Ans ε α → Config Store Call Op Ans ε α → Prop}
    (refl : ∀ config, R config config)
    (trans : ∀ first second third, R first second → R second third → R first third)
    (grows : ∀ config config', Step system config config' → R config config')
    {earlier later : ℕ} (le : earlier ≤ later) : R (run earlier) (run later) := by
  induction later, le using Nat.le_induction with
  | base => exact refl _
  | succ later _ ih =>
      obtain step | paused := trace later
      · exact trans _ _ _ ih (grows _ _ step)
      · rwa [paused]

/-- The call of `thread` began at `start` and is in progress, or has just ended,
at `now`. -/
def Underway (system : System Store Call Op Ans ε α) (run : ℕ → Config Store Call Op Ans ε α)
    (thread : ℕ) (call : Call) (start now : ℕ) : Prop :=
  (run start).threads thread = some (call, system.program call) ∧ start ≤ now ∧
  ∀ between, start ≤ between → between ≤ now →
    ∃ program, (run between).threads thread = some (call, program)

theorem Underway.extend (underway : Underway system run thread call start now)
    (task : (run (now + 1)).threads thread = some (call, program)) :
    Underway system run thread call start (now + 1) := by
  obtain ⟨began, before, between⟩ := underway
  refine ⟨began, Nat.le_succ_of_le before, fun instant from_ upto => ?_⟩
  obtain inside | rfl := Nat.le_succ_iff.mp upto
  · exact between instant from_ inside
  · exact ⟨program, task⟩

/-- What a thread may take from an answer: its operation was answered just before
`later` and not before `now`, and the invariant has held since. -/
def Answered (system : System Store Call Op Ans ε α) (run : ℕ → Config Store Call Op Ans ε α)
    (holds : ℕ → Prop) (thread : ℕ) (call : Call) (now later : ℕ) (op : Op) (answer : Ans op) :
    Prop :=
  holds later ∧ ∃ instant, now ≤ instant ∧ later = instant + 1 ∧
    Performed system run thread instant call op answer

/-- One operation, of whose answer the thread takes something on. -/
theorem yield_call {permits : ℕ → Op → Prop} {holds : ℕ → Prop} {yields : ℕ → β → Prop}
    {next : Ans op → Except ε β} (permitted : ∀ now, world ≤ now → permits now op)
    (answers : ∀ instant answer value, world ≤ instant →
      Performed system run thread instant call op answer → holds (instant + 1) →
      next answer = .ok value → ∀ now, instant < now → yields now value) :
    Program.Lawful permits (Answered system run holds thread call) (Program.Lawful.Yields yields) world
      (.call op fun answer => .done (next answer)) := by
  intro now le
  refine ⟨permitted now le, fun later answer _ told => ?_⟩
  obtain ⟨kept, instant, from_, rfl, performed⟩ := told
  intro last beyond value result
  exact answers instant answer value (le.trans from_) performed kept result last beyond

/-- What a thread owes at each of its operations and at its end, given when its
call began. -/
structure Contract (Call Op ε α : Type) where
  permits : ℕ → Call → ℕ → ℕ → Op → Prop
  post : ℕ → Call → ℕ → ℕ → Except ε α → Prop

/-- A thread keeps to its contract from `now` on. -/
def Contract.Kept (contract : Contract Call Op ε α) (system : System Store Call Op Ans ε α)
    (run : ℕ → Config Store Call Op Ans ε α) (holds : ℕ → Prop) (thread : ℕ) (call : Call)
    (start now : ℕ) (program : Program Op Ans ε α) : Prop :=
  Program.Lawful (contract.permits thread call start) (Answered system run holds thread call)
    (contract.post thread call start) now program

/-- Rely and guarantee over a run. An invariant that survives every permitted
operation holds throughout, and every thread keeps to its contract. -/
theorem Trace.lawful (trace : Trace system run) (idle : ∀ thread, (run 0).threads thread = none)
    {holds : ℕ → Prop} (contract : Contract Call Op ε α) (initial : holds 0)
    (keeps : ∀ now, holds now → (∀ thread call op answer,
      Performed system run thread now call op answer → ∃ start,
        Underway system run thread call start now ∧ contract.permits thread call start now op) →
      holds (now + 1))
    (rules : ∀ thread start call, holds start →
      (run start).threads thread = some (call, system.program call) →
      contract.Kept system run holds thread call start start (system.program call)) (now : ℕ) :
    holds now ∧ ∀ thread call program, (run now).threads thread = some (call, program) →
      ∃ start, Underway system run thread call start now ∧
        contract.Kept system run holds thread call start now program := by
  induction now with
  | zero =>
      refine ⟨initial, fun thread call program task => ?_⟩
      rw [idle thread] at task
      cases task
  | succ now ih =>
      obtain ⟨held, lawful⟩ := ih
      have holds' : holds (now + 1) := by
        refine keeps now held fun thread call op answer ⟨next, task, _⟩ => ?_
        obtain ⟨start, underway, kept⟩ := lawful thread call _ task
        exact ⟨start, underway, (kept now le_rfl).1⟩
      refine ⟨holds', fun thread call program task => ?_⟩
      have older (same : (run (now + 1)).threads thread = (run now).threads thread) :
          ∃ start, Underway system run thread call start (now + 1) ∧
            contract.Kept system run holds thread call start (now + 1) program := by
        obtain ⟨start, underway, kept⟩ := lawful thread call program (same ▸ task)
        exact ⟨start, underway.extend task, kept.mono (Nat.le_succ now)⟩
      have fresh (task : (run (now + 1)).threads thread = some (call, system.program call)) :
          ∃ start, Underway system run thread call start (now + 1) ∧
            contract.Kept system run holds thread call start (now + 1) (system.program call) := by
        refine ⟨now + 1, ⟨task, le_rfl, fun instant from_ upto => ?_⟩,
          rules thread (now + 1) call holds' task⟩
        obtain rfl : instant = now + 1 := by omega
        exact ⟨_, task⟩
      obtain ⟨mover, moved, op, answer, performed⟩ | ⟨mover, started, free, next⟩ |
        ⟨_, same⟩ | ⟨mover, dropped, _, _, next⟩ | paused := trace.cases now
      · have ⟨rest, before, _, after⟩ := performed
        by_cases mine : thread = mover
        · subst mine
          have moves := task
          rw [after, Config.setThread_self, Option.some.injEq, Prod.mk.injEq] at moves
          obtain ⟨rfl, rfl⟩ := moves
          obtain ⟨start, underway, kept⟩ := lawful thread moved _ before
          exact ⟨start, underway.extend task, (kept now le_rfl).2 (now + 1) answer
            (Nat.le_succ now) ⟨holds', now, le_rfl, rfl, performed⟩⟩
        · exact older (by rw [after, Config.setThread_other _ mine])
      · by_cases mine : thread = mover
        · subst mine
          have starts := task
          rw [next, Config.setThread_self, Option.some.injEq, Prod.mk.injEq] at starts
          obtain ⟨rfl, rfl⟩ := starts
          exact fresh task
        · exact older (by rw [next, Config.setThread_other _ mine])
      · exact older (congrFun same thread)
      · by_cases mine : thread = mover
        · subst mine
          rw [next, Function.update_self] at task
          cases task
        · exact older (by rw [next, Function.update_of_ne mine])
      · exact older (by rw [paused])

/-- Every operation of a run is permitted by its thread's contract. -/
theorem Trace.permitted (trace : Trace system run) (idle : ∀ thread, (run 0).threads thread = none)
    {holds : ℕ → Prop} (contract : Contract Call Op ε α) (initial : holds 0)
    (keeps : ∀ now, holds now → (∀ thread call op answer,
      Performed system run thread now call op answer → ∃ start,
        Underway system run thread call start now ∧ contract.permits thread call start now op) →
      holds (now + 1))
    (rules : ∀ thread start call, holds start →
      (run start).threads thread = some (call, system.program call) →
      contract.Kept system run holds thread call start start (system.program call))
    (performed : Performed system run thread now call op answer) :
    ∃ start, Underway system run thread call start now ∧
      contract.permits thread call start now op := by
  obtain ⟨next, task, _⟩ := performed
  obtain ⟨start, underway, kept⟩ :=
    (trace.lawful idle contract initial keeps rules now).2 thread call _ task
  exact ⟨start, underway, (kept now le_rfl).1⟩

end Trace

section Replay
variable (system : System Store Call Op Ans ε α)

/-- One way the store may answer every operation. -/
structure Server where
  serve : ℕ → Store → (op : Op) → Ans op × Store
  sound : ∀ thread store op,
    system.performs thread store op (serve thread store op).1 (serve thread store op).2

inductive Move where
  | start (thread : ℕ) (call : Call)
  | perform (thread : ℕ) (server : Server system)
  | drift (shift : Store → Store) (sound : ∀ store, system.drifts store (shift store))
  | drop (thread : ℕ) (leave : Store → Store) (sound : ∀ store, system.drops thread store (leave store))

variable {system}

/-- Carry out a move; one that does not apply changes nothing. -/
def advance (config : Config Store Call Op Ans ε α) : Move system → Config Store Call Op Ans ε α
  | .start thread call =>
    match config.threads thread with
    | none => config.setThread thread (some (call, system.program call))
    | some _ => config
  | .perform thread server =>
    match config.threads thread with
    | some (call, .call op next) =>
      let (answer, store) := server.serve thread config.store op
      Config.setThread { config with store } thread (some (call, next answer))
    | _ => config
  | .drift shift _ => { config with store := shift config.store }
  | .drop thread leave _ =>
    match config.threads thread with
    | some _ => Config.setThread { config with store := leave config.store } thread none
    | none => config

def replay (initial : Config Store Call Op Ans ε α) (moves : List (Move system)) (now : ℕ) :
    Config Store Call Op Ans ε α :=
  (moves.take now).foldl advance initial

theorem step_advance (config : Config Store Call Op Ans ε α) (move : Move system) :
    Step system config (advance config move) ∨ advance config move = config := by
  cases move with
  | start thread call =>
      simp only [advance]
      split
      next idle => exact .inl (.start idle)
      next => exact .inr rfl
  | perform thread server =>
      simp only [advance]
      split
      next call op next task => exact .inl (.perform task (server.sound thread config.store op))
      next => exact .inr rfl
  | drift shift sound => exact .inl (.drift (sound config.store))
  | drop thread leave sound =>
      simp only [advance]
      split
      next task held => exact .inl (.drop held (sound config.store))
      next => exact .inr rfl

theorem replay_succ (initial : Config Store Call Op Ans ε α) {moves : List (Move system)}
    (next : moves[now]? = some move) :
    replay initial moves (now + 1) = advance (replay initial moves now) move := by
  obtain ⟨inside, rfl⟩ := List.getElem?_eq_some_iff.mp next
  rw [replay, ← List.take_append_getElem inside, List.foldl_append]
  rfl

theorem trace_replay (initial : Config Store Call Op Ans ε α) (moves : List (Move system)) :
    Trace system (replay initial moves) := by
  intro now
  obtain inside | beyond := Nat.lt_or_ge now moves.length
  · rw [replay_succ initial (List.getElem?_eq_getElem inside)]
    exact step_advance _ _
  · right
    simp [replay, List.take_of_length_le beyond, List.take_of_length_le (Nat.le_succ_of_le beyond)]

/-- Once its moves are used up a replayed run stands still. -/
theorem replay_bounded (initial : Config Store Call Op Ans ε α) (moves : List (Move system))
    (now : ℕ) : ∃ earlier ≤ moves.length, replay initial moves now = replay initial moves earlier := by
  obtain inside | beyond := Nat.le_total now moves.length
  · exact ⟨now, inside, rfl⟩
  · refine ⟨moves.length, le_rfl, ?_⟩
    rw [replay, replay, List.take_of_length_le beyond, List.take_length]

theorem replay_starts {initial : Config Store Call Op Ans ε α} {moves : List (Move system)}
    (next : moves[now]? = some (.start thread call))
    (idle : (replay initial moves now).threads thread = none) :
    (replay initial moves (now + 1)).threads thread = some (call, system.program call) := by
  rw [replay_succ initial next]
  simp only [advance, idle, Config.setThread_self]

theorem performed_replay {initial : Config Store Call Op Ans ε α} {moves : List (Move system)}
    {server : Server system} (next : moves[now]? = some (.perform thread server))
    (task : (replay initial moves now).threads thread = some (call, .call op rest)) :
    Performed system (replay initial moves) thread now call op
      (server.serve thread (replay initial moves now).store op).1 := by
  have after : replay initial moves (now + 1) = Config.setThread { replay initial moves now with
      store := (server.serve thread (replay initial moves now).store op).2 } thread
      (some (call, rest (server.serve thread (replay initial moves now).store op).1)) := by
    rw [replay_succ initial next]
    simp only [advance, task]
  refine ⟨rest, task, ?_, ?_⟩
  · rw [after]
    exact server.sound thread _ op
  · rw [after]
    rfl

/-- Only a thread's own move makes an operation of it. -/
theorem Performed.of_replay {initial : Config Store Call Op Ans ε α} {moves : List (Move system)}
    (performed : Performed system (replay initial moves) thread now call op answer) :
    ∃ server, moves[now]? = some (.perform thread server) := by
  have changes := performed.changes
  obtain ⟨rest, task, _, after⟩ := performed
  have going : (replay initial moves (now + 1)).threads thread ≠ none := by
    rw [after, Config.setThread_self]
    simp
  cases next : moves[now]? with
  | none =>
      have beyond := List.getElem?_eq_none_iff.mp next
      rw [replay, replay, List.take_of_length_le beyond,
        List.take_of_length_le (Nat.le_succ_of_le beyond)] at changes
      exact absurd rfl changes
  | some move =>
      rw [replay_succ initial next] at changes going
      generalize replay initial moves now = config at changes going task
      cases move with
      | start mover started =>
          simp only [advance] at changes
          split at changes
          next idle =>
            by_cases mine : thread = mover
            · rw [← mine, task] at idle
              cases idle
            · exact absurd (Config.setThread_other _ mine) changes
          next => exact absurd rfl changes
      | perform mover server =>
          by_cases mine : thread = mover
          · exact ⟨server, by rw [mine]⟩
          · simp only [advance] at changes
            split at changes
            next => exact absurd (Config.setThread_other _ mine) changes
            next => exact absurd rfl changes
      | drift shift sound => exact absurd rfl changes
      | drop mover leave sound =>
          simp only [advance] at changes going
          split at changes
          next =>
            by_cases mine : thread = mover
            · subst mine
              simp only [task, Config.setThread_self] at going
              exact absurd rfl going
            · exact absurd (Config.setThread_other _ mine) changes
          next => exact absurd rfl changes

theorem advance_started {P : ℕ → Call → Prop} {config : Config Store Call Op Ans ε α}
    {move : Move system}
    (before : ∀ thread call program, config.threads thread = some (call, program) →
      P thread call)
    (starts : ∀ thread call, move = .start thread call → P thread call) (thread : ℕ)
    (call : Call) (program : Program Op Ans ε α)
    (task : (advance config move).threads thread = some (call, program)) : P thread call := by
  cases move with
  | start mover started =>
      simp only [advance] at task
      split at task
      · by_cases mine : thread = mover
        · subst mine
          rw [Config.setThread_self] at task
          cases task
          exact starts _ _ rfl
        · rw [Config.setThread_other _ mine] at task
          exact before _ _ _ task
      · exact before _ _ _ task
  | perform mover server =>
      simp only [advance] at task
      split at task
      · next held =>
          by_cases mine : thread = mover
          · subst mine
            rw [Config.setThread_self] at task
            cases task
            exact before _ _ _ held
          · rw [Config.setThread_other _ mine] at task
            exact before _ _ _ task
      · exact before _ _ _ task
  | drift shift sound => exact before _ _ _ task
  | drop mover leave sound =>
      simp only [advance] at task
      split at task
      · by_cases mine : thread = mover
        · subst mine
          rw [Config.setThread_self] at task
          cases task
        · rw [Config.setThread_other _ mine] at task
          exact before _ _ _ task
      · exact before _ _ _ task

/-- A replayed run has no calls but those its moves start. -/
theorem replay_started {P : ℕ → Call → Prop} {initial : Config Store Call Op Ans ε α}
    {moves : List (Move system)} (idle : ∀ thread, initial.threads thread = none)
    (starts : ∀ thread call, Move.start thread call ∈ moves → P thread call) (now thread : ℕ)
    (call : Call) (program : Program Op Ans ε α)
    (task : (replay initial moves now).threads thread = some (call, program)) :
    P thread call := by
  have keeps (done : List (Move system)) (inside : ∀ move ∈ done, move ∈ moves) :
      ∀ thread call program,
        (done.foldl advance initial).threads thread = some (call, program) →
          P thread call := by
    induction done using List.reverseRecOn with
    | nil =>
        intro thread call program task
        rw [List.foldl_nil, idle thread] at task
        cases task
    | append_singleton earlier move ih =>
        rw [List.foldl_append, List.foldl_cons, List.foldl_nil]
        refine advance_started (ih fun other member => inside other (by simp [member])) ?_
        rintro thread call rfl
        exact starts thread call (inside _ (by simp))
  exact keeps (moves.take now) (fun move member => List.mem_of_mem_take member) thread call program task

/-- No call has an operation left once those of the first threads have none, where only
these are ever started. -/
theorem replay_over {initial : Config Store Call Op Ans ε α} {moves : List (Move system)} {bound : ℕ}
    (idle : ∀ thread, initial.threads thread = none)
    (few : ∀ thread call, Move.start thread call ∈ moves → thread < bound)
    (rests : ∀ thread < bound, (replay initial moves now).working thread = false) (thread : ℕ) :
    (replay initial moves now).threads thread = none ∨
      ∃ call result, (replay initial moves now).threads thread = some (call, .done result) := by
  obtain used | unused := Nat.lt_or_ge thread bound
  · exact Config.over_of_rests (rests thread used)
  · left
    by_contra held
    obtain ⟨⟨call, program⟩, task⟩ := Option.ne_none_iff_exists'.mp held
    have only := replay_started idle few now thread call program task
    omega

/-- Steps lead to a configuration of this kind. -/
def Leads (system : System Store Call Op Ans ε α) (goal : Config Store Call Op Ans ε α → Prop)
    (config : Config Store Call Op Ans ε α) : Prop :=
  ∃ config', Relation.ReflTransGen (Step system) config config' ∧ goal config'

section Leads
variable {goal : Config Store Call Op Ans ε α → Prop} {config config' : Config Store Call Op Ans ε α}

theorem Leads.after_step (step : Step system config config') (leads : Leads system goal config') :
    Leads system goal config := by
  obtain ⟨last, reaches, holds⟩ := leads
  exact ⟨last, .head step reaches, holds⟩

theorem Leads.start (thread : ℕ) (call : Call) (free : config.threads thread = none)
    (leads : Leads system goal (config.setThread thread (some (call, system.program call)))) :
    Leads system goal config := leads.after_step (.start free)

theorem Leads.perform (thread : ℕ) {store : Store} (task : config.threads thread = some (call, .call op next))
    (performs : system.performs thread config.store op answer store)
    (leads : Leads system goal (Config.setThread { config with store } thread (some (call, next answer)))) :
    Leads system goal config := leads.after_step (.perform task performs)

end Leads

/-- What moves of one kind lead to, a sequence of such moves and of pauses comes to. -/
theorem run_of_reaches {γ : Type} {moves : γ → γ → Prop} {first last : γ}
    (reaches : Relation.ReflTransGen moves first last) :
    ∃ run : ℕ → γ, (∀ now, moves (run now) (run (now + 1)) ∨ run (now + 1) = run now) ∧ run 0 = first ∧
      ∃ now, run now = last := by
  induction reaches using Relation.ReflTransGen.head_induction_on with
  | refl => exact ⟨fun _ => last, fun _ => .inr rfl, rfl, 0, rfl⟩
  | @head before after move rest ih =>
      obtain ⟨run, going, starts, now, ends⟩ := ih
      refine ⟨Nat.rec before fun now _ => run now, fun now => ?_, rfl, now + 1, ends⟩
      cases now with
      | zero =>
          left
          change moves before (run 0)
          rw [starts]
          exact move
      | succ now => exact going now

/-- What steps lead to, some run comes to. -/
theorem trace_of_reaches {config config' : Config Store Call Op Ans ε α}
    (reaches : Relation.ReflTransGen (Step system) config config') :
    ∃ run, Trace system run ∧ run 0 = config ∧ ∃ now, run now = config' := run_of_reaches reaches

/-- A run up to an instant, then elsewhere for good. -/
def divert (run : ℕ → Config Store Call Op Ans ε α) (now : ℕ) (config : Config Store Call Op Ans ε α)
    (instant : ℕ) : Config Store Call Op Ans ε α :=
  if instant ≤ now then run instant else config

theorem divert_before {run : ℕ → Config Store Call Op Ans ε α} {config : Config Store Call Op Ans ε α}
    (le : instant ≤ now) : divert run now config instant = run instant := if_pos le

theorem divert_after {run : ℕ → Config Store Call Op Ans ε α} {config : Config Store Call Op Ans ε α}
    (less : now < instant) : divert run now config instant = config := if_neg (Nat.not_le_of_lt less)

theorem Trace.divert {run : ℕ → Config Store Call Op Ans ε α} (trace : Trace system run)
    {config : Config Store Call Op Ans ε α} (step : Step system (run now) config) :
    Trace system (divert run now config) := by
  intro instant
  obtain before | rfl | after := Nat.lt_trichotomy instant now
  · rw [divert_before before.le, divert_before before]
    exact trace instant
  · rw [divert_before le_rfl, divert_after (Nat.lt_succ_self instant)]
    exact .inl step
  · rw [divert_after after, divert_after (Nat.lt_succ_of_lt after)]
    exact .inr rfl

/-- What a thread can do where steps lead to, it does in some run. -/
theorem performed_of_reaches {config config' : Config Store Call Op Ans ε α} {store : Store}
    (reaches : Relation.ReflTransGen (Step system) config config')
    (task : config'.threads thread = some (call, .call op next))
    (performs : system.performs thread config'.store op answer store) :
    ∃ run, Trace system run ∧ run 0 = config ∧ ∃ now, run now = config' ∧ (run (now + 1)).store = store ∧
      Performed system run thread now call op answer := by
  obtain ⟨run, trace, starts, now, rfl⟩ := trace_of_reaches reaches
  refine ⟨_, trace.divert (.perform task performs), ?_, now, divert_before le_rfl, ?_, next, ?_, ?_, ?_⟩
  · rw [divert_before (Nat.zero_le now), starts]
  · rw [divert_after (Nat.lt_succ_self now)]
    rfl
  · rw [divert_before le_rfl, task]
  · rw [divert_before le_rfl, divert_after (Nat.lt_succ_self now)]
    exact performs
  · rw [divert_before le_rfl, divert_after (Nat.lt_succ_self now)]
    rfl

end Replay
end ThreadPool
