import Pypiron.Program

/-! Rely-guarantee reasoning about programs whose store other programs change
between any two of their operations. What all parties know is a world that only
grows; a program is lawful when every operation it issues is permitted in every
world it may find, and its result is truthful in every later world. -/
namespace Program
variable {Op : Type} {Ans : Op → Type} {ε α β W : Type} [Preorder W]

/-- `permits` is the guarantee owed at each operation, `learns` what an answer
tells in the world right after it about an operation issued in an earlier one,
`post` what the result must satisfy. -/
def Lawful (permits : W → Op → Prop) (learns : W → W → (op : Op) → Ans op → Prop)
    (post : W → Except ε α → Prop) : W → Program Op Ans ε α → Prop
  | world, done result => ∀ later, world ≤ later → post later result
  | world, call op next => ∀ now, world ≤ now → permits now op ∧
      ∀ later answer, now ≤ later → learns now later op answer →
        Lawful permits learns post later (next answer)

variable {permits : W → Op → Prop} {learns : W → W → (op : Op) → Ans op → Prop}
variable {post : W → Except ε α → Prop} {world later : W}

namespace Lawful

theorem mono {program : Program Op Ans ε α} (lawful : Lawful permits learns post world program)
    (grows : world ≤ later) : Lawful permits learns post later program := by
  cases program with
  | done result => exact fun last le => lawful last (grows.trans le)
  | call op next => exact fun now le => lawful now (grows.trans le)

/-- A program whose operations are all of a permitted kind. -/
theorem of_issues {allowed : Op → Prop} {P : α → Prop} {program : Program Op Ans ε α}
    (issues : Issues allowed P program)
    (permitted : ∀ now op, world ≤ now → allowed op → permits now op)
    (errors : ∀ later error, world ≤ later → post later (.error error))
    (truthful : ∀ later value, world ≤ later → P value → post later (.ok value)) :
    Lawful permits learns post world program := by
  induction program generalizing world with
  | done result =>
      cases result with
      | ok value => exact fun later le => truthful later value le issues
      | error error => exact fun later le => errors later error le
  | call op next ih =>
      intro now le
      refine ⟨permitted now op le issues.1, fun later answer grows _ => ?_⟩
      have beyond {last : W} (further : later ≤ last) : world ≤ last := le.trans (grows.trans further)
      exact ih answer (issues.2 answer) (fun last op further => permitted last op (beyond further))
        (fun last error further => errors last error (beyond further))
        (fun last value further => truthful last value (beyond further))

theorem weaken {other : W → Except ε α → Prop} {program : Program Op Ans ε α}
    (lawful : Lawful permits learns post world program)
    (implies : ∀ later, world ≤ later → ∀ result, post later result → other later result) :
    Lawful permits learns other world program := by
  induction program generalizing world with
  | done result => exact fun last le => implies last le result (lawful last le)
  | call op next ih =>
      intro now le
      refine ⟨(lawful now le).1, fun last answer grows told => ?_⟩
      refine ih answer ((lawful now le).2 last answer grows told) fun final beyond => ?_
      exact implies final (le.trans (grows.trans beyond))

theorem attempt {rest : Except ε α → Program Op Ans ε β} {other : W → Except ε β → Prop}
    {program : Program Op Ans ε α} (first : Lawful permits learns post world program)
    (second : ∀ later, world ≤ later → ∀ result, post later result →
      Lawful permits learns other later (rest result)) :
    Lawful permits learns other world (program.attempt rest) := by
  induction program generalizing world with
  | done result => exact second world le_rfl result (first world le_rfl)
  | call op next ih =>
      intro now le
      refine ⟨(first now le).1, fun last answer grows told => ?_⟩
      refine ih answer ((first now le).2 last answer grows told) fun final beyond => ?_
      exact second final (le.trans (grows.trans beyond))

theorem bind {rest : α → Program Op Ans ε β} {other : W → Except ε β → Prop}
    {program : Program Op Ans ε α} (first : Lawful permits learns post world program)
    (errors : ∀ later, world ≤ later → ∀ error, post later (.error error) →
      other later (.error error))
    (second : ∀ later, world ≤ later → ∀ value, post later (.ok value) →
      Lawful permits learns other later (rest value)) :
    Lawful permits learns other world (program >>= rest) := by
  induction program generalizing world with
  | done result =>
      cases result with
      | ok value => exact second world le_rfl value (first world le_rfl)
      | error error => exact fun last le => errors last le error (first last le)
  | call op next ih =>
      intro now le
      refine ⟨(first now le).1, fun last answer grows told => ?_⟩
      exact ih answer ((first now le).2 last answer grows told)
        (fun final beyond => errors final (le.trans (grows.trans beyond)))
        (fun final beyond => second final (le.trans (grows.trans beyond)))

/-- What a result must satisfy when it is not an error. -/
def Yields (holds : W → α → Prop) (world : W) (result : Except ε α) : Prop :=
  ∀ value, result = .ok value → holds world value

variable {holds : W → α → Prop} {holds' : W → β → Prop}

theorem yield_done {result : Except ε α}
    (yields : ∀ later, world ≤ later → ∀ value, result = .ok value → holds later value) :
    Lawful permits learns (Yields holds) world (done result) := yields

theorem yield_pure {value : α} (yields : ∀ later, world ≤ later → holds later value) :
    Lawful permits learns (Yields holds) world (pure value : Program Op Ans ε α) := by
  refine yield_done fun later le value' same => ?_
  cases same
  exact yields later le

theorem yield_bail {error : ε} :
    Lawful permits learns (Yields holds) world (bail error : Program Op Ans ε α) :=
  yield_done fun _ _ _ same => by cases same

/-- Sequencing, when nothing is owed on an error. -/
theorem yield_bind {rest : α → Program Op Ans ε β} {program : Program Op Ans ε α}
    (first : Lawful permits learns (Yields holds) world program)
    (second : ∀ later, world ≤ later → ∀ value, holds later value →
      Lawful permits learns (Yields holds') later (rest value)) :
    Lawful permits learns (Yields holds') world (program >>= rest) := by
  refine first.bind (fun later le error _ value same => by cases same) fun later le value told => ?_
  exact second later le value (told value rfl)

end Lawful
end Program
