import Mathlib.Order.Basic

/-! Effectful programs as trees of operations on some store: each node names one
operation and continues with its answer. The tree says nothing about the store,
so one program can be run alone, cut short between two operations, or
interleaved with others. -/

/-- A program over the operations `Op`, whose result may be an error. -/
inductive Program (Op : Type) (Ans : Op → Type) (ε α : Type) : Type where
  | done (result : Except ε α)
  | call (op : Op) (next : Ans op → Program Op Ans ε α)

namespace Program
variable {Op : Type} {Ans : Op → Type} {ε α β : Type}

def bind : Program Op Ans ε α → (α → Program Op Ans ε β) → Program Op Ans ε β
  | done (.ok value), rest => rest value
  | done (.error error), _ => done (.error error)
  | call op next, rest => call op fun answer => (next answer).bind rest

instance : Monad (Program Op Ans ε) where
  pure value := done (.ok value)
  bind := bind

/-- Stop with an error. -/
def bail (error : ε) : Program Op Ans ε α := done (.error error)

/-- One operation whose answer is handed on as it is. -/
def perform (op : Op) : Program Op Ans ε (Ans op) := call op fun answer => done (.ok answer)

/-- Run to the end, then hand the outcome, error included, to `rest`. -/
def attempt : Program Op Ans ε α → (Except ε α → Program Op Ans ε β) → Program Op Ans ε β
  | done result, rest => rest result
  | call op next, rest => call op fun answer => (next answer).attempt rest

@[simp] theorem pure_eq (value : α) : (pure value : Program Op Ans ε α) = done (.ok value) := rfl

@[simp] theorem bind_ok (value : α) (rest : α → Program Op Ans ε β) :
    (done (.ok value) >>= rest) = rest value := rfl

@[simp] theorem bind_error (error : ε) (rest : α → Program Op Ans ε β) :
    (done (.error error) >>= rest) = done (.error error) := rfl

@[simp] theorem bind_call (op : Op) (next : Ans op → Program Op Ans ε α)
    (rest : α → Program Op Ans ε β) :
    (call op next >>= rest) = call op fun answer => next answer >>= rest := rfl

/-- No operation leads back to the program it belongs to. -/
theorem next_ne_call (op : Op) (next : Ans op → Program Op Ans ε α) (answer : Ans op) :
    next answer ≠ call op next := by
  have descends (program : Program Op Ans ε α) : ∀ op next (answer : Ans op),
      program = call op next → next answer ≠ program := by
    induction program with
    | done result => exact fun _ _ _ same => by cases same
    | call op' next' ih =>
        intro op next answer same again
        cases same
        exact ih answer op' next' answer again rfl
  exact descends _ op next answer rfl

/-- Every operation the program may issue is permitted, whatever it is told, and
every result meets `post`. -/
def Issues (permits : Op → Prop) (post : α → Prop) : Program Op Ans ε α → Prop
  | done (.ok value) => post value
  | done (.error _) => True
  | call op next => permits op ∧ ∀ answer, Issues permits post (next answer)

namespace Issues
variable {permits : Op → Prop} {P : α → Prop} {Q : β → Prop}

theorem bind {program : Program Op Ans ε α} {rest : α → Program Op Ans ε β}
    (first : Issues permits P program)
    (second : ∀ value, P value → Issues permits Q (rest value)) :
    Issues permits Q (program >>= rest) := by
  induction program with
  | done result =>
      cases result with
      | ok value => exact second value first
      | error error => trivial
  | call op next ih => exact ⟨first.1, fun answer => ih answer (first.2 answer)⟩

theorem mono {wider : Op → Prop} {program : Program Op Ans ε α} (issues : Issues permits P program)
    (implies : ∀ op, permits op → wider op) : Issues wider P program := by
  induction program with
  | done result =>
      cases result with
      | ok value => exact issues
      | error error => trivial
  | call op next ih => exact ⟨implies op issues.1, fun answer => ih answer (issues.2 answer)⟩

theorem perform {op : Op} (permitted : permits op) :
    Issues permits (fun _ => True) (perform op : Program Op Ans ε (Ans op)) :=
  ⟨permitted, fun _ => trivial⟩

end Issues

/-- Operations of the kind are issued at most once, whatever the program is told. -/
def Once (kind : Op → Prop) : Program Op Ans ε α → Prop
  | done _ => True
  | call op next => ∀ answer, Once kind (next answer) ∧
      (kind op → Issues (fun later => ¬kind later) (fun _ => True) (next answer))

namespace Once
variable {kind : Op → Prop}

theorem of_never {program : Program Op Ans ε α}
    (never : Issues (fun op => ¬kind op) (fun _ => True) program) : Once kind program := by
  induction program with
  | done => trivial
  | call op next ih =>
      exact fun answer => ⟨ih answer (never.2 answer), fun issued => absurd issued never.1⟩

theorem bind {program : Program Op Ans ε α} {rest : α → Program Op Ans ε β}
    (first : Once kind program)
    (second : ∀ value, Issues (fun op => ¬kind op) (fun _ => True) (rest value)) :
    Once kind (program >>= rest) := by
  induction program with
  | done result =>
      cases result with
      | ok value => exact of_never (second value)
      | error error => trivial
  | call op next ih =>
      intro answer
      obtain ⟨once, never⟩ := first answer
      exact ⟨ih answer once, fun issued => (never issued).bind fun value _ => second value⟩

theorem never_bind {program : Program Op Ans ε α} {rest : α → Program Op Ans ε β}
    (first : Issues (fun op => ¬kind op) (fun _ => True) program)
    (second : ∀ value, Once kind (rest value)) : Once kind (program >>= rest) := by
  induction program with
  | done result =>
      cases result with
      | ok value => exact second value
      | error error => trivial
  | call op next ih =>
      exact fun answer => ⟨ih answer (first.2 answer), fun issued => absurd issued first.1⟩

end Once

/-- However the admitted answers fall, the program ends right after an operation
that closes it. -/
def Closes (admits closes : (op : Op) → Ans op → Prop) : Program Op Ans ε α → Prop
  | done _ => True
  | call op next => ∀ answer, admits op answer →
      ((∃ result, next answer = done result) → closes op answer) ∧ Closes admits closes (next answer)

theorem Closes.of_all {admits closes : (op : Op) → Ans op → Prop}
    (all : ∀ op answer, closes op answer) (program : Program Op Ans ε α) :
    Closes admits closes program := by
  induction program with
  | done => trivial
  | call op next ih => exact fun answer _ => ⟨fun _ => all op answer, ih answer⟩

/-- What follows an attempt is what closes it, if that is never over at once. -/
theorem Closes.attempt {admits closes : (op : Op) → Ans op → Prop} {program : Program Op Ans ε α}
    {rest : Except ε α → Program Op Ans ε β} (after : ∀ result, Closes admits closes (rest result))
    (goesOn : ∀ result final, rest result ≠ done final) :
    Closes admits closes (program.attempt rest) ∧ ∀ final, program.attempt rest ≠ done final := by
  induction program with
  | done result => exact ⟨after result, goesOn result⟩
  | call op next ih =>
      refine ⟨fun answer _ => ⟨fun ⟨final, finished⟩ => ?_, (ih answer).1⟩, nofun⟩
      exact absurd finished ((ih answer).2 final)

end Program
