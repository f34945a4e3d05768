import Mathlib.Algebra.Group.Nat.Defs
import Mathlib.Data.List.Basic

/-! Codes whose words can be cut off the front of a stream in only one way, so
that a concatenation of them says which words it was put together from. Names no
repository type. -/
namespace Pypiron

/-- No matter what follows them, two words that start the same stream are the
words of the same value, and leave the same rest. -/
def SelfDelimiting (good : α → Prop) (code : α → List β) : Prop :=
  ∀ ⦃a b : α⦄, good a → good b → ∀ ⦃rest rest' : List β⦄,
    code a ++ rest = code b ++ rest' → a = b ∧ rest = rest'

/-- Concatenating the words of a list loses nothing. -/
theorem SelfDelimiting.flatMap_inj {good : α → Prop} {code : α → List β}
    (delimiting : SelfDelimiting good code) (nonempty : ∀ a, code a ≠ []) :
    ∀ {xs ys : List α}, (∀ x ∈ xs, good x) → (∀ y ∈ ys, good y) →
      xs.flatMap code = ys.flatMap code → xs = ys := by
  intro xs
  induction xs with
  | nil =>
    intro ys _ _ same
    cases ys with
    | nil => rfl
    | cons y ys => simp [nonempty y] at same
  | cons x xs ih =>
    intro ys goodXs goodYs same
    cases ys with
    | nil => simp [nonempty x] at same
    | cons y ys =>
      simp only [List.flatMap_cons] at same
      obtain ⟨rfl, rest⟩ := delimiting (goodXs x (by simp)) (goodYs y (by simp)) same
      rw [ih (fun z member => goodXs z (by simp [member]))
        (fun z member => goodYs z (by simp [member])) rest]

/-- Text up to a mark it does not contain. -/
theorem append_mark_inj {mark : β} {text text' rest rest' : List β}
    (free : mark ∉ text) (free' : mark ∉ text')
    (same : text ++ mark :: rest = text' ++ mark :: rest') : text = text' ∧ rest = rest' := by
  induction text generalizing text' with
  | nil =>
    cases text' with
    | nil => simpa using same
    | cons c text' =>
      simp only [List.nil_append, List.cons_append, List.cons.injEq] at same
      simp [same.1] at free'
  | cons c text ih =>
    cases text' with
    | nil =>
      simp only [List.nil_append, List.cons_append, List.cons.injEq] at same
      simp [same.1] at free
    | cons d text' =>
      simp only [List.cons_append, List.cons.injEq] at same
      obtain ⟨rfl, same⟩ := same
      simp only [List.mem_cons, not_or] at free free'
      obtain ⟨rfl, rfl⟩ := ih free.2 free'.2 same
      exact ⟨rfl, rfl⟩

/-- A head of no stated length, then a block of a fixed one whose last entry is a
mark, then a tail at least as long as the block without it. If neither head nor
tail holds the mark, the heads cannot differ in length: the longer one's block
would end inside the other's tail. -/
theorem head_length_le {mark : β} {head head' block block' tail tail' rest rest' : List β}
    (free : mark ∉ head) (free' : mark ∉ tail') (size : block.length = block'.length)
    (long : block.length ≤ tail'.length)
    (same : head ++ (block ++ mark :: (tail ++ rest)) =
      head' ++ (block' ++ mark :: (tail' ++ rest'))) : head.length ≤ head'.length := by
  by_contra longer
  have here : (head' ++ (block' ++ mark :: (tail' ++ rest')))[head'.length + block'.length]? =
      some mark := by
    rw [List.getElem?_append_right (by omega), List.getElem?_append_right (by omega)]
    simp
  -- The second block's mark lies past the first head,
  have past : head.length ≤ head'.length + block'.length := by
    by_contra inside
    rw [← same, List.getElem?_append_left (by omega)] at here
    exact free (List.mem_of_getElem? here)
  -- so the first block's mark lies within the second tail.
  have there : (head ++ (block ++ mark :: (tail ++ rest)))[head.length + block.length]? =
      some mark := by
    rw [List.getElem?_append_right (by omega), List.getElem?_append_right (by omega)]
    simp
  rw [same, List.getElem?_append_right (by omega), List.getElem?_append_right (by omega)] at there
  obtain ⟨i, place⟩ : ∃ i, head.length + block.length - head'.length - block'.length = i + 1 :=
    ⟨head.length - head'.length - 1, by omega⟩
  rw [place, List.getElem?_cons_succ, List.getElem?_append_left (by omega)] at there
  exact free' (List.mem_of_getElem? there)

/-- The record of a head, such a block and a tail closed by the mark is cut in
only one way. -/
theorem blockRecord_inj {mark : β} {head head' block block' tail tail' rest rest' : List β}
    (freeHead : mark ∉ head) (freeHead' : mark ∉ head') (freeTail : mark ∉ tail)
    (freeTail' : mark ∉ tail') (size : block.length = block'.length)
    (long : block.length ≤ tail.length) (long' : block'.length ≤ tail'.length)
    (same : head ++ (block ++ mark :: (tail ++ mark :: rest)) =
      head' ++ (block' ++ mark :: (tail' ++ mark :: rest'))) :
    head = head' ∧ block = block' ∧ tail = tail' ∧ rest = rest' := by
  have equal : head.length = head'.length :=
    Nat.le_antisymm (head_length_le freeHead freeTail' size (size ▸ long') same)
      (head_length_le freeHead' freeTail size.symm (size ▸ long) same.symm)
  obtain ⟨heads, after⟩ := List.append_inj same equal
  obtain ⟨blocks, after⟩ := List.append_inj after size
  obtain ⟨tails, rests⟩ := append_mark_inj freeTail freeTail' (List.cons.inj after).2
  exact ⟨heads, blocks, tails, rests⟩

/-- Two kinds of entry in turn: where the one ends and the other begins is seen. -/
theorem append_kinds_inj {p : α → Prop} [DecidablePred p] {xs xs' ys ys' : List α}
    (first : ∀ x ∈ xs, p x) (first' : ∀ x ∈ xs', p x) (second : ∀ y ∈ ys, ¬p y)
    (second' : ∀ y ∈ ys', ¬p y) (same : xs ++ ys = xs' ++ ys') : xs = xs' ∧ ys = ys' := by
  have cut : ∀ {as bs : List α}, (∀ a ∈ as, p a) → (∀ b ∈ bs, ¬p b) →
      (as ++ bs).filter p = as := by
    intro as bs firsts seconds
    have kept : as.filter p = as := List.filter_eq_self.mpr (by simpa using firsts)
    have dropped : bs.filter p = [] := List.filter_eq_nil_iff.mpr (by simpa using seconds)
    rw [List.filter_append, kept, dropped, List.append_nil]
  have equal : xs = xs' := by rw [← cut first second, same, cut first' second']
  subst equal
  exact ⟨rfl, List.append_cancel_left same⟩

/-! ### Little-endian numbers -/

/-- The low `width` bytes of a number, least first. -/
def leBytes : ℕ → ℕ → List UInt8
  | 0, _ => []
  | width + 1, n => n.toUInt8 :: leBytes width (n / 256)

@[simp] theorem leBytes_length (width n : ℕ) : (leBytes width n).length = width := by
  induction width generalizing n with
  | zero => rfl
  | succ width ih => simp [leBytes, ih]

theorem leBytes_inj {width n m : ℕ} (fits : n < 256 ^ width) (fits' : m < 256 ^ width)
    (same : leBytes width n = leBytes width m) : n = m := by
  induction width generalizing n m with
  | zero =>
    simp only [Nat.pow_zero, Nat.lt_one_iff] at fits fits'
    omega
  | succ width ih =>
    simp only [leBytes, List.cons.injEq] at same
    obtain ⟨low, high⟩ := same
    have rest : n / 256 = m / 256 := by
      apply ih _ _ high
      · rw [Nat.pow_succ] at fits
        omega
      · rw [Nat.pow_succ] at fits'
        omega
    have byte : n % 256 = m % 256 := by
      have := congrArg UInt8.toNat low
      simpa using this
    omega

/-- What fits in fewer bytes has zeros above them. -/
theorem leBytes_succ {width n : ℕ} (fits : n < 256 ^ width) :
    leBytes (width + 1) n = leBytes width n ++ [0] := by
  induction width generalizing n with
  | zero =>
    obtain rfl : n = 0 := by simpa using fits
    rfl
  | succ width ih =>
    rw [leBytes, ih (by rw [Nat.pow_succ] at fits; omega), leBytes, List.cons_append]

end Pypiron
