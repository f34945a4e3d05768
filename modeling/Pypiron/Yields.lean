import Pypiron.Program

/-! A program run alone to its end, over operations whose answers and effects are
given as a relation: a failure is one more answer an operation may give. -/
namespace Program
variable {Op S ε α β : Type} {Ans : Op → Type}

section Yields
variable (performs : S → (op : Op) → Ans op → S → Prop)

/-- The program ends with a result and leaves a store. -/
inductive Yields : Program Op Ans ε α → S → Except ε α → S → Prop where
  | done (result : Except ε α) (s : S) : Yields (done result) s result s
  | call {op : Op} {next : Ans op → Program Op Ans ε α} {s t u : S} {answer : Ans op}
      {result : Except ε α} :
      performs s op answer t → Yields (next answer) t result u → Yields (call op next) s result u

end Yields

variable {performs : S → (op : Op) → Ans op → S → Prop} {s t : S}

theorem yields_done {result final : Except ε α} :
    Yields performs (done result : Program Op Ans ε α) s final t ↔ final = result ∧ t = s := by
  constructor
  · intro run
    cases run
    exact ⟨rfl, rfl⟩
  · rintro ⟨rfl, rfl⟩
    exact .done _ _

theorem yields_call {op : Op} {next : Ans op → Program Op Ans ε α} {result : Except ε α} :
    Yields performs (call op next) s result t ↔
      ∃ answer u, performs s op answer u ∧ Yields performs (next answer) u result t := by
  constructor
  · intro run
    cases run with
    | call performed rest => exact ⟨_, _, performed, rest⟩
  · rintro ⟨answer, u, performed, rest⟩
    exact .call performed rest

theorem yields_bind {program : Program Op Ans ε α} {rest : α → Program Op Ans ε β}
    {final : Except ε β} : Yields performs (program >>= rest) s final t ↔
      (∃ value u, Yields performs program s (.ok value) u ∧ Yields performs (rest value) u final t) ∨
        ∃ error, final = .error error ∧ Yields performs program s (.error error) t := by
  induction program generalizing s with
  | done result =>
      cases result with
      | ok value => simp [yields_done, and_assoc]
      | error error => simp [yields_done, and_comm, and_assoc]
  | call op next ih =>
      simp only [bind_call, yields_call, ih]
      constructor
      · rintro ⟨answer, u, performed, ⟨value, v, first, second⟩ | ⟨error, same, first⟩⟩
        · exact .inl ⟨value, v, ⟨answer, u, performed, first⟩, second⟩
        · exact .inr ⟨error, same, answer, u, performed, first⟩
      · rintro (⟨value, v, ⟨answer, u, performed, first⟩, second⟩ |
          ⟨error, same, answer, u, performed, first⟩)
        · exact ⟨answer, u, performed, .inl ⟨value, v, first, second⟩⟩
        · exact ⟨answer, u, performed, .inr ⟨error, same, first⟩⟩

end Program
