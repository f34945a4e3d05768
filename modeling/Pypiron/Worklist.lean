import Mathlib.Data.List.Perm.Basic

/-! A worklist: visit an entry, which may change the state and push more. -/
namespace Pypiron.Worklist

variable {α σ : Type} (visit : α → σ → σ × List α)

/-- Visit the top entry, as long as there is fuel. -/
def run : ℕ → σ → List α → σ × List α
  | 0, s, queue => (s, queue)
  | _ + 1, s, [] => (s, [])
  | fuel + 1, s, a :: queue => run fuel (visit a s).1 ((visit a s).2 ++ queue)

/-- So many visits, each of any entry of the queue, which keeps no order. -/
inductive Steps : ℕ → σ → List α → σ → List α → Prop where
  | refl {s queue} : Steps 0 s queue s queue
  | visit {n a s queue rest next s' queue'} (picked : queue.Perm (a :: rest))
      (pushed : next.Perm ((visit a s).2 ++ rest)) (later : Steps n (visit a s).1 next s' queue') :
      Steps (n + 1) s queue s' queue'

theorem run_steps (fuel : ℕ) (s : σ) (queue : List α) :
    ∃ n, Steps visit n s queue (run visit fuel s queue).1 (run visit fuel s queue).2 := by
  induction fuel generalizing s queue with
  | zero => exact ⟨0, .refl⟩
  | succ fuel hypothesis =>
      cases queue with
      | nil => exact ⟨0, .refl⟩
      | cons a queue =>
          obtain ⟨n, steps⟩ := hypothesis (visit a s).1 ((visit a s).2 ++ queue)
          exact ⟨n + 1, .visit (.refl _) (.refl _) steps⟩

variable {visit}

/-- What a visit of any entry preserves, whatever the order of the queue. -/
theorem Steps.preserves {Good : σ → List α → Prop}
    (perm : ∀ s queue queue', queue.Perm queue' → Good s queue → Good s queue')
    (step : ∀ s a queue, Good s (a :: queue) → Good (visit a s).1 ((visit a s).2 ++ queue))
    {n : ℕ} {s s' : σ} {queue queue' : List α} (steps : Steps visit n s queue s' queue')
    (good : Good s queue) : Good s' queue' := by
  induction steps with
  | refl => exact good
  | visit picked pushed _ hypothesis =>
      exact hypothesis (perm _ _ _ pushed.symm (step _ _ _ (perm _ _ _ picked good)))

section
variable (room : σ → ℕ) (pays : ∀ s a, room (visit a s).1 + (visit a s).2.length ≤ room s)
include pays

/-- Where each push is paid for by room that the visit takes, the visits are
bounded from the start. -/
theorem Steps.bounded {n : ℕ} {s s' : σ} {queue queue' : List α}
    (steps : Steps visit n s queue s' queue') :
    n + room s' + queue'.length ≤ room s + queue.length := by
  induction steps with
  | refl => omega
  | @visit n a s queue rest next s' queue' picked pushed _ hypothesis =>
      have paid := pays s a
      rw [pushed.length_eq, List.length_append] at hypothesis
      rw [picked.length_eq, List.length_cons]
      omega

theorem run_empties {fuel : ℕ} {s : σ} {queue : List α} (enough : room s + queue.length ≤ fuel) :
    (run visit fuel s queue).2 = [] := by
  induction fuel generalizing s queue with
  | zero =>
      have empty : queue.length = 0 := by omega
      exact List.length_eq_zero_iff.mp empty
  | succ fuel hypothesis =>
      cases queue with
      | nil => rfl
      | cons a queue =>
          have paid := pays s a
          apply hypothesis
          rw [List.length_append]
          rw [List.length_cons] at enough
          omega

end
end Pypiron.Worklist
