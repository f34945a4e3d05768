import Pypiron.ThreadPool

/-! What a thread knows of the instants between two of its own operations. A
fact about the store is worth having only while the thread is quiet: what the
others may do meanwhile is read off the run. A program is secure when every
operation it makes from such knowledge keeps to the guarantee. -/
namespace ThreadPool
variable {Store Call Op : Type} {Ans : Op → Type} {ε α β γ : Type}

section Secure
variable (system : System Store Call Op Ans ε α) (run : ℕ → Config Store Call Op Ans ε α)
variable (holds : ℕ → Prop) (admits guarantee : ℕ → (op : Op) → Ans op → Prop)
variable (thread : ℕ) (call : Call)

/-- The thread has not moved from `first` until `last`. -/
def Quiet (first last : ℕ) : Prop :=
  first ≤ last ∧ ∀ instant, first ≤ instant → instant ≤ last →
    (run instant).threads thread = (run first).threads thread

/-- Only admitted answers are considered, and nothing is promised of a program
that ends in an error. -/
def Secure (post : ℕ → β → Prop) : ℕ → Program Op Ans ε β → Prop
  | instant, .done (.ok value) => post instant value
  | _, .done (.error _) => True
  | instant, .call op next => ∀ now, Quiet run thread instant now → holds now →
      ∀ answer, Performed system run thread now call op answer → admits now op answer →
        guarantee now op answer ∧ (holds (now + 1) → Secure post (now + 1) (next answer))

end Secure

variable {system : System Store Call Op Ans ε α} {run : ℕ → Config Store Call Op Ans ε α}
variable {holds : ℕ → Prop} {admits guarantee : ℕ → (op : Op) → Ans op → Prop}
variable {thread : ℕ} {call : Call} {first middle last instant now : ℕ}

namespace Quiet

theorem refl (instant : ℕ) : Quiet run thread instant instant := by
  refine ⟨le_rfl, fun between from_ upto => ?_⟩
  rw [Nat.le_antisymm upto from_]

theorem succ (quiet : Quiet run thread first now)
    (same : (run (now + 1)).threads thread = (run now).threads thread) :
    Quiet run thread first (now + 1) := by
  refine ⟨Nat.le_succ_of_le quiet.1, fun instant from_ upto => ?_⟩
  obtain inside | rfl := Nat.le_succ_iff.mp upto
  · exact quiet.2 instant from_ inside
  · exact same.trans (quiet.2 now quiet.1 le_rfl)

theorem trans (quiet : Quiet run thread first middle) (quiet' : Quiet run thread middle last) :
    Quiet run thread first last := by
  refine ⟨quiet.1.trans quiet'.1, fun instant from_ upto => ?_⟩
  obtain before | after := Nat.le_total instant middle
  · exact quiet.2 instant from_ before
  · exact (quiet'.2 instant after upto).trans (quiet.2 middle quiet.1 le_rfl)

/-- A relation kept at every instant the thread is quiet holds between its ends. -/
theorem induction (related : ℕ → ℕ → Prop) (quiet : Quiet run thread first last)
    (reflexive : related first first)
    (steps : ∀ now, first ≤ now → now < last →
      (run now).threads thread = (run last).threads thread → related first now →
      related first (now + 1)) : related first last := by
  obtain ⟨le, same⟩ := quiet
  have settled (now : ℕ) (from_ : first ≤ now) (upto : now ≤ last) : related first now := by
    induction now, from_ using Nat.le_induction with
    | base => exact reflexive
    | succ now from_ ih =>
        have before : now < last := upto
        refine steps now from_ before ?_ (ih before.le)
        rw [same now from_ before.le, same last le le_rfl]
  exact settled last le le_rfl

end Quiet

namespace Secure
variable {post : ℕ → β → Prop} {post' : ℕ → γ → Prop}

theorem weaken {other : ℕ → β → Prop} {program : Program Op Ans ε β}
    (secure : Secure system run holds admits guarantee thread call post instant program)
    (implies : ∀ later, instant ≤ later → ∀ value, post later value → other later value) :
    Secure system run holds admits guarantee thread call other instant program := by
  induction program generalizing instant with
  | done result =>
      cases result with
      | ok value => exact implies instant le_rfl value secure
      | error error => trivial
  | call op next ih =>
      intro now quiet held answer performed admitted
      obtain ⟨kept, rest⟩ := secure now quiet held answer performed admitted
      refine ⟨kept, fun held' => ih answer (rest held') fun later le => ?_⟩
      exact implies later (quiet.1.trans ((Nat.le_succ now).trans le))

theorem bind {rest : β → Program Op Ans ε γ} {program : Program Op Ans ε β} (held : holds instant)
    (first : Secure system run holds admits guarantee thread call post instant program)
    (second : ∀ later, instant ≤ later → holds later → ∀ value, post later value →
      Secure system run holds admits guarantee thread call post' later (rest value)) :
    Secure system run holds admits guarantee thread call post' instant (program >>= rest) := by
  induction program generalizing instant with
  | done result =>
      cases result with
      | ok value => exact second instant le_rfl held value first
      | error error => trivial
  | call op next ih =>
      intro now quiet held answer performed admitted
      obtain ⟨kept, after⟩ := first now quiet held answer performed admitted
      refine ⟨kept, fun held' => ih answer held' (after held') fun later le => ?_⟩
      exact second later (quiet.1.trans ((Nat.le_succ now).trans le))

/-- An error is handed on, and the rest owes what it owes after one. -/
theorem attempt {rest : Except ε β → Program Op Ans ε γ} {program : Program Op Ans ε β}
    (held : holds instant)
    (first : Secure system run holds admits guarantee thread call post instant program)
    (errors : ∀ later, instant ≤ later → holds later → ∀ error,
      Secure system run holds admits guarantee thread call post' later (rest (.error error)))
    (second : ∀ later, instant ≤ later → holds later → ∀ value, post later value →
      Secure system run holds admits guarantee thread call post' later (rest (.ok value))) :
    Secure system run holds admits guarantee thread call post' instant (program.attempt rest) := by
  induction program generalizing instant with
  | done result =>
      cases result with
      | ok value => exact second instant le_rfl held value first
      | error error => exact errors instant le_rfl held error
  | call op next ih =>
      intro now quiet held answer performed admitted
      obtain ⟨kept, after⟩ := first now quiet held answer performed admitted
      have before : instant ≤ now + 1 := quiet.1.trans (Nat.le_succ now)
      exact ⟨kept, fun held' => ih answer held' (after held')
        (fun later le => errors later (before.trans le))
        (fun later le => second later (before.trans le))⟩

/-- What two arguments yield, both yield. -/
theorem both {other : ℕ → β → Prop} {program : Program Op Ans ε β}
    (secure : Secure system run holds admits guarantee thread call post instant program)
    (secure' : Secure system run holds admits guarantee thread call other instant program) :
    Secure system run holds admits guarantee thread call
      (fun later value => post later value ∧ other later value) instant program := by
  induction program generalizing instant with
  | done result =>
      cases result with
      | ok value => exact ⟨secure, secure'⟩
      | error error => trivial
  | call op next ih =>
      intro now quiet held answer performed admitted
      obtain ⟨kept, rest⟩ := secure now quiet held answer performed admitted
      obtain ⟨_, rest'⟩ := secure' now quiet held answer performed admitted
      exact ⟨kept, fun held' => ih answer (rest held') (rest' held')⟩

/-- Fewer answers to consider. -/
theorem restrict {admits' : ℕ → (op : Op) → Ans op → Prop} {program : Program Op Ans ε β}
    (secure : Secure system run holds admits guarantee thread call post instant program)
    (implies : ∀ now op answer, admits' now op answer → admits now op answer) :
    Secure system run holds admits' guarantee thread call post instant program := by
  induction program generalizing instant with
  | done result =>
      cases result with
      | ok value => exact secure
      | error error => trivial
  | call op next ih =>
      intro now quiet held answer performed admitted
      obtain ⟨kept, rest⟩ := secure now quiet held answer performed (implies now op answer admitted)
      exact ⟨kept, fun held' => ih answer (rest held')⟩

/-- A guarantee owed whatever the run has come to. -/
theorem of_issues {permits : Op → Prop} {yields : β → Prop} {program : Program Op Ans ε β}
    (issues : Program.Issues permits yields program)
    (allowed : ∀ now op answer, permits op → guarantee now op answer) :
    Secure system run holds admits guarantee thread call (fun _ => yields) instant program := by
  induction program generalizing instant with
  | done result =>
      cases result with
      | ok value => exact issues
      | error error => trivial
  | call op next ih =>
      intro now _ _ answer _ _
      exact ⟨allowed now op answer issues.1, fun _ => ih answer (issues.2 answer)⟩

/-- Where nothing is asked, any program will do. -/
theorem anything {program : Program Op Ans ε β} (allowed : ∀ now op answer, guarantee now op answer)
    (yields : ∀ later value, post later value) :
    Secure system run holds admits guarantee thread call post instant program := by
  induction program generalizing instant with
  | done result =>
      cases result with
      | ok value => exact yields instant value
      | error error => trivial
  | call op next ih =>
      intro now _ _ answer _ _
      exact ⟨allowed now op answer, fun _ => ih answer⟩

theorem pure {value : β} (yields : post instant value) :
    Secure system run holds admits guarantee thread call post instant
      (pure value : Program Op Ans ε β) := yields

/-- One operation whose answer is handed on as it is: it was made at the instant
before, and the thread was quiet until then. -/
theorem perform (op : Op) (allowed : ∀ now, Quiet run thread instant now → holds now →
      ∀ answer, Performed system run thread now call op answer → admits now op answer →
        guarantee now op answer) :
    Secure system run holds admits guarantee thread call (fun later answer => ∃ now,
      later = now + 1 ∧ Quiet run thread instant now ∧ holds now ∧
      Performed system run thread now call op answer ∧ admits now op answer)
      instant (Program.perform op : Program Op Ans ε (Ans op)) := by
  intro now quiet held answer performed admitted
  refine ⟨allowed now quiet held answer performed admitted, fun _ => ?_⟩
  exact ⟨now, rfl, quiet, held, performed, admitted⟩

end Secure

/-- A fact of the thread's own, kept while it is quiet and by what it does itself,
may be used like the invariant. -/
theorem Secure.localize {post : ℕ → β → Prop} {own : ℕ → Prop}
    {guarantee' : ℕ → (op : Op) → Ans op → Prop} {program : Program Op Ans ε β} (initial : own instant)
    (stable : ∀ first last op next, Quiet run thread first last →
      (run last).threads thread = some (call, .call op next) → own first → own last)
    (keeps : ∀ now op answer, instant ≤ now → holds now → own now →
      Performed system run thread now call op answer → guarantee' now op answer → own (now + 1))
    (implies : ∀ now op answer, instant ≤ now → guarantee' now op answer → guarantee now op answer)
    (secure : Secure system run (fun now => holds now ∧ own now) admits guarantee' thread call post
      instant program) :
    Secure system run holds admits guarantee thread call
      (fun later value => post later value ∧ own later) instant program := by
  induction program generalizing instant with
  | done result =>
      cases result with
      | ok value => exact ⟨secure, initial⟩
      | error error => trivial
  | call op next ih =>
      intro now quiet held answer performed admitted
      have ⟨_, task, _⟩ := performed
      have mine := stable instant now op _ quiet task initial
      obtain ⟨kept, rest⟩ := secure now quiet ⟨held, mine⟩ answer performed admitted
      have mine' := keeps now op answer quiet.1 held mine performed kept
      refine ⟨implies now op answer quiet.1 kept, fun held' => ih answer mine' ?_ ?_ (rest ⟨held', mine'⟩)⟩
      · exact fun later op answer le => keeps later op answer (quiet.1.trans ((Nat.le_succ now).trans le))
      · exact fun later op answer le => implies later op answer (quiet.1.trans ((Nat.le_succ now).trans le))

/-- Threads that are each secure keep the invariant, and stay secure. -/
theorem Trace.secure (trace : Trace system run) (idle : ∀ thread, (run 0).threads thread = none)
    (holds : ℕ → Prop) (admits guarantee : ℕ → Call → ℕ → ℕ → (op : Op) → Ans op → Prop)
    (post : ℕ → Call → ℕ → ℕ → α → Prop) (initial : holds 0)
    (admitted : ∀ thread call start now op answer, Underway system run thread call start now →
      Performed system run thread now call op answer → ∃ answer',
        Performed system run thread now call op answer' ∧ admits thread call start now op answer')
    (keeps : ∀ now, holds now → (∀ thread call op answer,
      Performed system run thread now call op answer → ∃ start answer',
        Underway system run thread call start now ∧
        Performed system run thread now call op answer' ∧ admits thread call start now op answer' ∧
        guarantee thread call start now op answer') → holds (now + 1))
    (secures : ∀ thread start call, holds start →
      (run start).threads thread = some (call, system.program call) →
      Secure system run holds (admits thread call start) (guarantee thread call start) thread call
        (post thread call start) start (system.program call)) (now : ℕ) :
    holds now ∧ ∀ thread call program, (run now).threads thread = some (call, program) →
      ∃ start since, Underway system run thread call start now ∧ start ≤ since ∧
        Quiet run thread since now ∧ holds since ∧
        Secure system run holds (admits thread call start) (guarantee thread call start) thread call
          (post thread call start) since program := by
  induction now with
  | zero =>
      refine ⟨initial, fun thread call program task => ?_⟩
      rw [idle thread] at task
      cases task
  | succ now ih =>
      obtain ⟨held, secured⟩ := ih
      have holds' : holds (now + 1) := by
        refine keeps now held fun thread call op answer performed => ?_
        have ⟨next, task, _⟩ := performed
        obtain ⟨start, since, underway, _, quiet, _, secure⟩ := secured thread call _ task
        obtain ⟨answer', performed', admitted'⟩ :=
          admitted thread call start now op answer underway performed
        exact ⟨start, answer', underway, performed', admitted',
          (secure now quiet held answer' performed' admitted').1⟩
      refine ⟨holds', fun thread call program task => ?_⟩
      have older (same : (run (now + 1)).threads thread = (run now).threads thread) :
          ∃ start since, Underway system run thread call start (now + 1) ∧ start ≤ since ∧
            Quiet run thread since (now + 1) ∧ holds since ∧
            Secure system run holds (admits thread call start) (guarantee thread call start) thread call
              (post thread call start) since program := by
        obtain ⟨start, since, underway, after, quiet, held', secure⟩ :=
          secured thread call program (same ▸ task)
        exact ⟨start, since, underway.extend task, after, quiet.succ same, held', secure⟩
      obtain ⟨mover, moved, op, answer, performed⟩ | ⟨mover, started, free, next⟩ |
        ⟨_, same⟩ | ⟨mover, dropped, _, _, next⟩ | paused := trace.cases now
      · by_cases mine : thread = mover
        · subst mine
          have ⟨_, before, _, _⟩ := performed
          obtain ⟨start, since, underway, _, quiet, _, secure⟩ := secured thread moved _ before
          -- the program goes on as after an admitted answer
          obtain ⟨answer', performed', admitted'⟩ :=
            admitted thread moved start now op answer underway performed
          have ⟨rest, before', _, after⟩ := performed'
          rw [before, Option.some.injEq, Prod.mk.injEq] at before'
          obtain ⟨-, same⟩ := before'
          cases same
          have moves := task
          rw [after, Config.setThread_self, Option.some.injEq, Prod.mk.injEq] at moves
          obtain ⟨rfl, rfl⟩ := moves
          exact ⟨start, now + 1, underway.extend task, Nat.le_succ_of_le underway.2.1, .refl _,
            holds', (secure now quiet held answer' performed' admitted').2 holds'⟩
        · have ⟨_, _, _, after⟩ := performed
          exact older (by rw [after, Config.setThread_other _ mine])
      · by_cases mine : thread = mover
        · subst mine
          have starts := task
          rw [next, Config.setThread_self, Option.some.injEq, Prod.mk.injEq] at starts
          obtain ⟨rfl, rfl⟩ := starts
          refine ⟨now + 1, now + 1, ⟨task, le_rfl, fun instant from_ upto => ?_⟩, le_rfl, .refl _,
            holds', secures thread (now + 1) started holds' task⟩
          obtain rfl : instant = now + 1 := by omega
          exact ⟨_, task⟩
        · exact older (by rw [next, Config.setThread_other _ mine])
      · exact older (congrFun same thread)
      · by_cases mine : thread = mover
        · subst mine
          rw [next, Function.update_self] at task
          cases task
        · exact older (by rw [next, Function.update_of_ne mine])
      · exact older (by rw [paused])

/-- Threads that owe something for every operation, whatever its answer, owe it of
every operation of the run. -/
theorem Trace.guaranteed (trace : Trace system run) (idle : ∀ thread, (run 0).threads thread = none)
    (holds : ℕ → Prop) (owed : ℕ → Call → ℕ → Op → Prop) (initial : holds 0)
    (keeps : ∀ now, holds now → (∀ thread call op answer,
      Performed system run thread now call op answer → owed thread call now op) → holds (now + 1))
    (secures : ∀ thread start call, holds start →
      (run start).threads thread = some (call, system.program call) →
      Secure system run holds (fun _ _ _ => True) (fun now op _ => owed thread call now op) thread call
        (fun _ _ => True) start (system.program call)) (now : ℕ) :
    holds now ∧ ∀ thread call op answer, Performed system run thread now call op answer →
      owed thread call now op := by
  have secure := trace.secure idle holds (fun _ _ _ _ _ _ => True)
    (fun thread call _ now op _ => owed thread call now op) (fun _ _ _ _ _ => True) initial
    (fun _ _ _ _ _ answer _ performed => ⟨answer, performed, trivial⟩)
    (fun now held kept => keeps now held fun thread call op answer performed => by
      obtain ⟨_, _, _, _, _, kept⟩ := kept thread call op answer performed
      exact kept)
    (fun thread start call held task => secures thread start call held task) now
  refine ⟨secure.1, fun thread call op answer performed => ?_⟩
  have ⟨next, task, _, _⟩ := performed
  obtain ⟨_, since, _, _, quiet, _, secured⟩ := secure.2 thread call _ task
  exact (secured now quiet secure.1 answer performed trivial).1

/-- With nothing but its own operations to go by, a thread keeps to the guarantee
at each of them, and to its post at the end. -/
theorem Trace.kept (trace : Trace system run) (idle : ∀ thread, (run 0).threads thread = none)
    (guarantee : ℕ → Call → ℕ → ℕ → (op : Op) → Ans op → Prop) (post : ℕ → Call → ℕ → ℕ → α → Prop)
    (secures : ∀ thread start call, (run start).threads thread = some (call, system.program call) →
      Secure system run (fun _ => True) (fun _ _ _ => True) (guarantee thread call start) thread call
        (post thread call start) start (system.program call)) :
    (∀ thread call now op answer, Performed system run thread now call op answer → ∃ start,
      Underway system run thread call start now ∧ guarantee thread call start now op answer) ∧
    ∀ thread call now value, (run now).threads thread = some (call, .done (.ok value)) →
      ∃ start since, Underway system run thread call start now ∧ start ≤ since ∧
        Quiet run thread since now ∧ post thread call start since value := by
  have secure := trace.secure idle (fun _ => True) (fun _ _ _ _ _ _ => True) guarantee post trivial
    (fun _ _ _ _ _ answer _ performed => ⟨answer, performed, trivial⟩) (fun _ _ _ => trivial)
    (fun thread start call _ task => secures thread start call task)
  refine ⟨fun thread call now op answer performed => ?_, fun thread call now value task => ?_⟩
  · have ⟨next, task, _, _⟩ := performed
    obtain ⟨start, since, underway, _, quiet, _, secured⟩ := (secure now).2 thread call _ task
    exact ⟨start, underway, (secured now quiet trivial answer performed trivial).1⟩
  · obtain ⟨start, since, underway, le, quiet, _, secured⟩ := (secure now).2 thread call _ task
    exact ⟨start, since, underway, le, quiet, secured⟩

end ThreadPool
