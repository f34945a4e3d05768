import Pypiron.Program

/-! Runs of one program on a store of its own. An operation may be refused, may
fail after its effect, and the run may be cut off between any two operations. -/
namespace Program
variable {Op S ε α β : Type} {Val : Op → Type}

/-- One operation, whose error stops the program. -/
def request (op : Op) : Program Op (fun op => Except ε (Val op)) ε (Val op) := call op done

section Runs
variable (apply : (op : Op) → S → Except ε (Val op) × S)

inductive Answers (op : Op) (s : S) : Except ε (Val op) → S → Prop where
  | served : Answers op s (apply op s).1 (apply op s).2
  | refused (error : ε) : Answers op s (.error error) s
  | lost (error : ε) : Answers op s (.error error) (apply op s).2

/-- A run to the end, its result and the store it leaves. -/
inductive Ends : Program Op (fun op => Except ε (Val op)) ε α → S → Except ε α → S → Prop where
  | done (result : Except ε α) (s : S) : Ends (done result) s result s
  | call {op : Op} {next : Except ε (Val op) → Program Op (fun op => Except ε (Val op)) ε α}
      {s t u : S} {answer : Except ε (Val op)} {result : Except ε α} :
      Answers apply op s answer t → Ends (next answer) t result u →
      Ends (call op next) s result u

/-- A store that a run may leave when it is cut off. -/
inductive Cut : Program Op (fun op => Except ε (Val op)) ε α → S → S → Prop where
  | here (program : Program Op (fun op => Except ε (Val op)) ε α) (s : S) : Cut program s s
  | call {op : Op} {next : Except ε (Val op) → Program Op (fun op => Except ε (Val op)) ε α}
      {s t u : S} {answer : Except ε (Val op)} :
      Answers apply op s answer t → Cut (next answer) t u → Cut (call op next) s u

end Runs

variable {apply : (op : Op) → S → Except ε (Val op) × S} {s t : S}
variable {program : Program Op (fun op => Except ε (Val op)) ε α} {result : Except ε α}

@[simp] theorem ends_done {final : Except ε α} :
    Ends apply (done result : Program Op (fun op => Except ε (Val op)) ε α) s final t ↔
      final = result ∧ t = s := by
  constructor
  · intro run
    cases run
    exact ⟨rfl, rfl⟩
  · rintro ⟨rfl, rfl⟩
    exact .done _ _

theorem ends_call {op : Op} {next : Except ε (Val op) → Program Op (fun op => Except ε (Val op)) ε α} :
    Ends apply (call op next) s result t ↔
      ∃ answer u, Answers apply op s answer u ∧ Ends apply (next answer) u result t := by
  constructor
  · intro run
    cases run with
    | call answered rest => exact ⟨_, _, answered, rest⟩
  · rintro ⟨answer, u, answered, rest⟩
    exact .call answered rest

theorem ends_bind {rest : α → Program Op (fun op => Except ε (Val op)) ε β} {final : Except ε β} :
    Ends apply (program >>= rest) s final t ↔
      (∃ value u, Ends apply program s (.ok value) u ∧ Ends apply (rest value) u final t) ∨
        ∃ error, final = .error error ∧ Ends apply program s (.error error) t := by
  induction program generalizing s with
  | done result =>
      cases result with
      | ok value => simp [and_assoc]
      | error error => simp [and_comm, and_assoc]
  | call op next ih =>
      simp only [bind_call, ends_call]
      constructor
      · rintro ⟨answer, u, answered, run⟩
        rcases (ih answer).mp run with ⟨value, v, first, second⟩ | ⟨error, same, first⟩
        · exact Or.inl ⟨value, v, ⟨answer, u, answered, first⟩, second⟩
        · exact Or.inr ⟨error, same, answer, u, answered, first⟩
      · rintro (⟨value, v, ⟨answer, u, answered, first⟩, second⟩ | ⟨error, same, answer, u, answered, first⟩)
        · exact ⟨answer, u, answered, (ih answer).mpr (Or.inl ⟨value, v, first, second⟩)⟩
        · exact ⟨answer, u, answered, (ih answer).mpr (Or.inr ⟨error, same, first⟩)⟩

@[simp] theorem ends_bind_ok {rest : α → Program Op (fun op => Except ε (Val op)) ε β} {final : β} :
    Ends apply (program >>= rest) s (.ok final) t ↔
      ∃ value u, Ends apply program s (.ok value) u ∧ Ends apply (rest value) u (.ok final) t := by
  simp [ends_bind]

@[simp] theorem ends_attempt {rest : Except ε α → Program Op (fun op => Except ε (Val op)) ε β}
    {final : Except ε β} :
    Ends apply (program.attempt rest) s final t ↔
      ∃ result u, Ends apply program s result u ∧ Ends apply (rest result) u final t := by
  induction program generalizing s with
  | done result => simp [attempt, and_assoc]
  | call op next ih =>
      simp only [attempt, ends_call, ih]
      constructor
      · rintro ⟨answer, u, answered, result, v, first, second⟩
        exact ⟨result, v, ⟨answer, u, answered, first⟩, second⟩
      · rintro ⟨result, v, ⟨answer, u, answered, first⟩, second⟩
        exact ⟨answer, u, answered, result, v, first, second⟩

@[simp] theorem ends_request_ok {op : Op} {value : Val op} :
    Ends apply (request op) s (.ok value) t ↔ apply op s = (.ok value, t) := by
  rw [request, ends_call]
  constructor
  · rintro ⟨answer, u, answered, run⟩
    obtain ⟨rfl, rfl⟩ := ends_done.mp run
    generalize same : (Except.ok value : Except ε (Val op)) = answer at answered
    cases answered with
    | served => rfl
    | refused error => simp at same
    | lost error => simp at same
  · intro served
    refine ⟨.ok value, t, ?_, ends_done.mpr ⟨rfl, rfl⟩⟩
    have answered : Answers apply op s (apply op s).1 (apply op s).2 := .served
    rwa [served] at answered

@[simp] theorem ends_bail {error : ε} {value : α} :
    ¬ Ends apply (bail error : Program Op (fun op => Except ε (Val op)) ε α) s (.ok value) t := by
  simp [bail]

@[simp] theorem cut_done : Cut apply (done result : Program Op (fun op => Except ε (Val op)) ε α) s t ↔
    t = s := by
  constructor
  · intro run
    cases run
    rfl
  · rintro rfl
    exact .here _ _

theorem cut_call {op : Op} {next : Except ε (Val op) → Program Op (fun op => Except ε (Val op)) ε α} :
    Cut apply (call op next) s t ↔
      t = s ∨ ∃ answer u, Answers apply op s answer u ∧ Cut apply (next answer) u t := by
  constructor
  · intro run
    cases run with
    | here => exact Or.inl rfl
    | call answered rest => exact Or.inr ⟨_, _, answered, rest⟩
  · rintro (rfl | ⟨answer, u, answered, rest⟩)
    · exact .here _ _
    · exact .call answered rest

theorem cut_bind {rest : α → Program Op (fun op => Except ε (Val op)) ε β} :
    Cut apply (program >>= rest) s t ↔ Cut apply program s t ∨
      ∃ value u, Ends apply program s (.ok value) u ∧ Cut apply (rest value) u t := by
  induction program generalizing s with
  | done result =>
      cases result with
      | ok value =>
          simp only [bind_ok, cut_done, ends_done, Except.ok.injEq]
          constructor
          · intro cut
            exact Or.inr ⟨value, s, ⟨rfl, rfl⟩, cut⟩
          · rintro (rfl | ⟨_, _, ⟨rfl, rfl⟩, cut⟩)
            · exact .here _ _
            · exact cut
      | error error => simp
  | call op next ih =>
      simp only [bind_call, cut_call, ends_call, ih]
      constructor
      · rintro (rfl | ⟨answer, u, answered, cut | ⟨value, v, first, second⟩⟩)
        · exact Or.inl (Or.inl rfl)
        · exact Or.inl (Or.inr ⟨answer, u, answered, cut⟩)
        · exact Or.inr ⟨value, v, ⟨answer, u, answered, first⟩, second⟩
      · rintro ((rfl | ⟨answer, u, answered, cut⟩) | ⟨value, v, ⟨answer, u, answered, first⟩, second⟩)
        · exact Or.inl rfl
        · exact Or.inr ⟨answer, u, answered, Or.inl cut⟩
        · exact Or.inr ⟨answer, u, answered, Or.inr ⟨value, v, first, second⟩⟩

theorem cut_attempt {rest : Except ε α → Program Op (fun op => Except ε (Val op)) ε β} :
    Cut apply (program.attempt rest) s t ↔ Cut apply program s t ∨
      ∃ result u, Ends apply program s result u ∧ Cut apply (rest result) u t := by
  induction program generalizing s with
  | done result =>
      simp only [attempt, cut_done, ends_done]
      constructor
      · intro cut
        exact Or.inr ⟨result, s, ⟨rfl, rfl⟩, cut⟩
      · rintro (rfl | ⟨_, _, ⟨rfl, rfl⟩, cut⟩)
        · exact .here _ _
        · exact cut
  | call op next ih =>
      simp only [attempt, cut_call, ends_call, ih]
      constructor
      · rintro (rfl | ⟨answer, u, answered, cut | ⟨value, v, first, second⟩⟩)
        · exact Or.inl (Or.inl rfl)
        · exact Or.inl (Or.inr ⟨answer, u, answered, cut⟩)
        · exact Or.inr ⟨value, v, ⟨answer, u, answered, first⟩, second⟩
      · rintro ((rfl | ⟨answer, u, answered, cut⟩) | ⟨value, v, ⟨answer, u, answered, first⟩, second⟩)
        · exact Or.inl rfl
        · exact Or.inr ⟨answer, u, answered, Or.inl cut⟩
        · exact Or.inr ⟨answer, u, answered, Or.inr ⟨value, v, first, second⟩⟩

theorem cut_request {op : Op} :
    Cut apply (request op : Program Op (fun op => Except ε (Val op)) ε (Val op)) s t ↔
      t = s ∨ t = (apply op s).2 := by
  rw [request, cut_call]
  constructor
  · rintro (rfl | ⟨answer, u, answered, cut⟩)
    · exact Or.inl rfl
    · obtain rfl := cut_done.mp cut
      cases answered with
      | served => exact Or.inr rfl
      | refused => exact Or.inl rfl
      | lost => exact Or.inr rfl
  · rintro (rfl | rfl)
    · exact Or.inl rfl
    · exact Or.inr ⟨_, _, .served, cut_done.mpr rfl⟩

theorem Ends.cut (run : Ends apply program s result t) : Cut apply program s t := by
  induction run with
  | done result s => exact .here _ _
  | call answered _ ih => exact .call answered ih

/-- The run in which every call is served. -/
def run (apply : (op : Op) → S → Except ε (Val op) × S) :
    Program Op (fun op => Except ε (Val op)) ε α → S → Except ε α × S
  | done result, s => (result, s)
  | call op next, s => run apply (next (apply op s).1) (apply op s).2

theorem ends_run (program : Program Op (fun op => Except ε (Val op)) ε α) (s : S) :
    Ends apply program s (run apply program s).1 (run apply program s).2 := by
  induction program generalizing s with
  | done result => exact .done result s
  | call op next ih => exact .call .served (ih _ _)

/-- Wherever the run is cut off, the store satisfies `inv`. -/
def Throughout (apply : (op : Op) → S → Except ε (Val op) × S) (inv : S → Prop)
    (program : Program Op (fun op => Except ε (Val op)) ε α) (s : S) : Prop :=
  ∀ t, Cut apply program s t → inv t

namespace Throughout
variable {inv : S → Prop}

theorem ends (holds : Throughout apply inv program s) (run : Ends apply program s result t) : inv t :=
  holds t run.cut

theorem done (holds : inv s) :
    Throughout apply inv (done result : Program Op (fun op => Except ε (Val op)) ε α) s := by
  intro t run
  rw [cut_done.mp run]
  exact holds

theorem bind {rest : α → Program Op (fun op => Except ε (Val op)) ε β}
    (first : Throughout apply inv program s)
    (second : ∀ value t, Ends apply program s (.ok value) t → inv t →
      Throughout apply inv (rest value) t) :
    Throughout apply inv (program >>= rest) s := by
  intro t run
  rcases cut_bind.mp run with cut | ⟨value, u, ended, cut⟩
  · exact first t cut
  · exact second value u ended (first.ends ended) t cut

theorem attempt {rest : Except ε α → Program Op (fun op => Except ε (Val op)) ε β}
    (first : Throughout apply inv program s)
    (second : ∀ result t, Ends apply program s result t → inv t →
      Throughout apply inv (rest result) t) :
    Throughout apply inv (program.attempt rest) s := by
  intro t run
  rcases cut_attempt.mp run with cut | ⟨result, u, ended, cut⟩
  · exact first t cut
  · exact second result u ended (first.ends ended) t cut

theorem request {op : Op} (holds : inv s) (after : inv (apply op s).2) :
    Throughout apply inv (request op) s := by
  intro t run
  rcases cut_request.mp run with rfl | rfl
  · exact holds
  · exact after

end Throughout

/-- Every operation a program may issue is permitted. -/
def Only (permits : Op → Prop) : Program Op (fun op => Except ε (Val op)) ε α → Prop
  | done _ => True
  | call op next => permits op ∧ ∀ answer, Only permits (next answer)

section Only
variable {permits : Op → Prop}

theorem Only.bind {rest : α → Program Op (fun op => Except ε (Val op)) ε β}
    (first : Only permits program) (second : ∀ value, Only permits (rest value)) :
    Only permits (program >>= rest) := by
  induction program with
  | done result =>
      cases result with
      | ok value => exact second value
      | error error => trivial
  | call op next ih => exact ⟨first.1, fun answer => ih answer (first.2 answer)⟩

theorem Only.attempt {rest : Except ε α → Program Op (fun op => Except ε (Val op)) ε β}
    (first : Only permits program) (second : ∀ result, Only permits (rest result)) :
    Only permits (program.attempt rest) := by
  induction program with
  | done result => exact second result
  | call op next ih => exact ⟨first.1, fun answer => ih answer (first.2 answer)⟩

theorem Only.mono {wider : Op → Prop} (only : Only permits program)
    (implies : ∀ op, permits op → wider op) : Only wider program := by
  induction program with
  | done => trivial
  | call op next ih => exact ⟨implies op only.1, fun answer => ih answer (only.2 answer)⟩

theorem Only.issues (only : Only permits program) : Issues permits (fun _ => True) program := by
  induction program with
  | done result => cases result <;> trivial
  | call op next ih => exact ⟨only.1, fun answer => ih answer (only.2 answer)⟩

/-- What every permitted operation keeps holds wherever the run is cut off. -/
theorem Only.cut (only : Only permits program) (inv : S → Prop)
    (keeps : ∀ op s, permits op → inv s → inv (apply op s).2) (holds : inv s)
    (run : Cut apply program s t) : inv t := by
  induction run with
  | here => exact holds
  | call answered _ ih =>
      apply ih (only.2 _)
      cases answered with
      | served => exact keeps _ _ only.1 holds
      | refused => exact holds
      | lost => exact keeps _ _ only.1 holds

end Only
end Program
