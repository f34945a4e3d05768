import Mathlib.Logic.Function.Basic
import Mathlib.Logic.Relation
import Mathlib.Order.Defs.PartialOrder

/-! Replicas merged in pairs. A pair takes the greater of its two values; two
values that clash take a value above everything. Any merge may also be declined.
The order in which pairs meet does not show in the outcome, unless some schedule
keeps two clashing values apart until a third has replaced them. -/
namespace ClashMerge
variable {ι α : Type*} [Preorder α] {clash : α → α → Prop} {top : α}

/-- What a replica may hold after a merge of `x` and `y`. -/
inductive Raised (clash : α → α → Prop) (top x y : α) : α → Prop where
  | left : y ≤ x → Raised clash top x y x
  | right : x ≤ y → Raised clash top x y y
  | clashed : clash x y → Raised clash top x y top

/-- One merge of a pair, declined or applied to both. -/
inductive Step (clash : α → α → Prop) (top : α) (fleet fleet' : ι → α) : Prop where
  | declined : fleet' = fleet → Step clash top fleet fleet'
  | merged (i j : ι) : Raised clash top (fleet i) (fleet j) (fleet' i) →
      Raised clash top (fleet i) (fleet j) (fleet' j) →
      (∀ k, k ≠ i → k ≠ j → fleet' k = fleet k) → Step clash top fleet fleet'

abbrev Run (clash : α → α → Prop) (top : α) : (ι → α) → (ι → α) → Prop :=
  Relation.ReflTransGen (Step clash top)

variable {fleet fleet' later : ι → α}

theorem Raised.bounds {x y z : α} (greatest : ∀ x, x ≤ top) (raised : Raised clash top x y z) :
    x ≤ z ∧ y ≤ z := by
  cases raised with
  | left below => exact ⟨le_refl _, below⟩
  | right below => exact ⟨below, le_refl _⟩
  | clashed _ => exact ⟨greatest _, greatest _⟩

theorem Step.rises (greatest : ∀ x, x ≤ top) (step : Step clash top fleet fleet') (k : ι) :
    fleet k ≤ fleet' k := by
  cases step with
  | declined same => rw [same]
  | merged i j left right others =>
      by_cases atI : k = i
      · rw [atI]
        exact (left.bounds greatest).1
      · by_cases atJ : k = j
        · rw [atJ]
          exact (right.bounds greatest).2
        · rw [others k atI atJ]

theorem Run.rises (greatest : ∀ x, x ≤ top) (run : Run clash top fleet later) (k : ι) :
    fleet k ≤ later k := by
  induction run with
  | refl => exact le_refl _
  | tail _ step ih => exact le_trans ih (step.rises greatest k)

/-- A value is one that was there at the start, or stands for a clash of two. -/
def Derived (clash : α → α → Prop) (top : α) (fleet : ι → α) (x : α) : Prop :=
  (∃ k, x = fleet k) ∨ x = top ∧ ∃ k l, clash (fleet k) (fleet l)

theorem Raised.derived {x y z : α} (greatest : ∀ x, x ≤ top)
    (strict : ∀ x y, clash x y → ¬ x ≤ y ∧ ¬ y ≤ x) (left : Derived clash top fleet x)
    (right : Derived clash top fleet y) (raised : Raised clash top x y z) :
    Derived clash top fleet z := by
  cases raised with
  | left _ => exact left
  | right _ => exact right
  | clashed clashes =>
      rcases left with ⟨k, rfl⟩ | ⟨rfl, -⟩
      · rcases right with ⟨l, rfl⟩ | ⟨rfl, -⟩
        · exact Or.inr ⟨rfl, k, l, clashes⟩
        · exact absurd (greatest _) (strict _ _ clashes).1
      · exact absurd (greatest _) (strict _ _ clashes).2

theorem Run.derived (greatest : ∀ x, x ≤ top) (strict : ∀ x y, clash x y → ¬ x ≤ y ∧ ¬ y ≤ x)
    (run : Run clash top fleet later) (k : ι) : Derived clash top fleet (later k) := by
  induction run generalizing k with
  | refl => exact Or.inl ⟨k, rfl⟩
  | tail _ step ih =>
      cases step with
      | declined same =>
          rw [same]
          exact ih k
      | merged i j left right others =>
          by_cases atI : k = i
          · rw [atI]
            exact left.derived greatest strict (ih i) (ih j)
          · by_cases atJ : k = j
            · rw [atJ]
              exact right.derived greatest strict (ih i) (ih j)
            · rw [others k atI atJ]
              exact ih k

/-- Whether two clashing values meet cannot be left to the schedule: none clash,
or the greatest value is there already, or two clash that nothing outranks both. -/
def Resolved (clash : α → α → Prop) (top : α) (fleet : ι → α) : Prop :=
  (∀ i j, ¬ clash (fleet i) (fleet j)) ∨ (∃ i, fleet i = top) ∨
    ∃ i j, clash (fleet i) (fleet j) ∧ ∀ k, ¬ (fleet i ≤ fleet k ∧ fleet j ≤ fleet k)

/-- A replica of a uniform fleet bounds every value the run began with. -/
theorem Run.uniform_bounds (greatest : ∀ x, x ≤ top) (run : Run clash top fleet later)
    (uniform : ∀ i j, later i ≤ later j) (i k : ι) : fleet k ≤ later i :=
  le_trans (run.rises greatest k) (uniform k i)

/-- Where the schedule cannot matter, nothing a run reaches is above a uniform
outcome of another. -/
theorem Run.below_uniform (greatest : ∀ x, x ≤ top)
    (strict : ∀ x y, clash x y → ¬ x ≤ y ∧ ¬ y ≤ x) {later' : ι → α}
    (resolved : Resolved clash top fleet) (run : Run clash top fleet later)
    (run' : Run clash top fleet later') (uniform' : ∀ i j, later' i ≤ later' j) (i : ι) :
    later i ≤ later' i := by
  have bounds' (k : ι) : fleet k ≤ later' i := run'.uniform_bounds greatest uniform' i k
  rcases run.derived greatest strict i with ⟨k, found⟩ | ⟨found, k, l, clashes⟩
  · rw [found]
    exact bounds' k
  · rw [found]
    rcases resolved with apart | ⟨j, there⟩ | ⟨m, n, meets, unmatched⟩
    · exact absurd clashes (apart k l)
    · rw [← there]
      exact bounds' j
    · rcases run'.derived greatest strict i with ⟨j, found'⟩ | ⟨found', -⟩
      · rw [found'] at bounds'
        exact absurd ⟨bounds' m, bounds' n⟩ (unmatched j)
      · rw [found']

end ClashMerge
