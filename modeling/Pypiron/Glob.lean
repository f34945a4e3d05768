import Mathlib.Data.List.Forall2

/-! Glob patterns: one symbol, the star, stands for any list of symbols, every
other for itself. Names no repository type. -/
namespace Pypiron

variable {α : Type*} {star c : α} {pattern value literal : List α}

/-- The value is the pattern with each star replaced by some list. -/
def Fills (star : α) (pattern value : List α) : Prop :=
  ∃ parts : List (List α),
    List.Forall₂ (fun c part => c ≠ star → part = [c]) pattern parts ∧ value = parts.flatten

@[simp] theorem fills_nil : Fills star [] value ↔ value = [] := by
  constructor
  · rintro ⟨parts, each, rfl⟩
    cases each
    rfl
  · rintro rfl
    exact ⟨[], .nil, rfl⟩

theorem fills_star :
    Fills star (star :: pattern) value ↔
      ∃ taken rest, value = taken ++ rest ∧ Fills star pattern rest := by
  constructor
  · rintro ⟨parts, each, rfl⟩
    cases each with
    | cons _ each => exact ⟨_, _, List.flatten_cons, _, each, rfl⟩
  · rintro ⟨taken, rest, rfl, parts, each, rfl⟩
    exact ⟨taken :: parts, .cons (fun other => absurd rfl other) each, List.flatten_cons.symm⟩

theorem fills_symbol (symbol : c ≠ star) :
    Fills star (c :: pattern) value ↔ ∃ rest, value = c :: rest ∧ Fills star pattern rest := by
  constructor
  · rintro ⟨parts, each, rfl⟩
    cases each with
    | cons head each =>
      cases head symbol
      exact ⟨_, rfl, _, each, rfl⟩
  · rintro ⟨rest, rfl, parts, each, rfl⟩
    exact ⟨[c] :: parts, .cons (fun _ => rfl) each, rfl⟩

theorem fills_symbol_cons (symbol : c ≠ star) :
    Fills star (c :: pattern) (c :: value) ↔ Fills star pattern value := by
  simp [fills_symbol symbol]

/-- A part of the pattern without a star stands for itself. -/
theorem fills_literal (plain : star ∉ literal) :
    Fills star (literal ++ pattern) value ↔
      ∃ rest, value = literal ++ rest ∧ Fills star pattern rest := by
  induction literal generalizing value with
  | nil => simp
  | cons c literal ih =>
    simp only [List.mem_cons, not_or] at plain
    rw [List.cons_append, fills_symbol (Ne.symm plain.1)]
    constructor
    · rintro ⟨rest, rfl, fills⟩
      obtain ⟨after, rfl, filled⟩ := (ih plain.2).mp fills
      exact ⟨after, rfl, filled⟩
    · rintro ⟨rest, rfl, fills⟩
      exact ⟨literal ++ rest, rfl, (ih plain.2).mpr ⟨rest, rfl, fills⟩⟩

theorem fills_literal_append (plain : star ∉ literal) :
    Fills star (literal ++ pattern) (literal ++ value) ↔ Fills star pattern value := by
  rw [fills_literal plain]
  constructor
  · rintro ⟨rest, same, fills⟩
    rwa [List.append_cancel_left same]
  · intro fills
    exact ⟨value, rfl, fills⟩

/-- A pattern without a star stands for itself alone. -/
theorem fills_plain (plain : star ∉ pattern) : Fills star pattern value ↔ value = pattern := by
  have cut : Fills star (pattern ++ []) value ↔ _ := fills_literal plain
  simpa using cut

/-- What no star filled, no star's filling holds more of. -/
theorem mem_of_fills (fills : Fills star pattern value) (member : c ∈ pattern)
    (symbol : c ≠ star) : c ∈ value := by
  induction pattern generalizing value with
  | nil => cases member
  | cons d pattern ih =>
    by_cases starred : d = star
    · subst starred
      obtain ⟨taken, rest, rfl, filled⟩ := fills_star.mp fills
      have later : c ∈ pattern := (List.mem_cons.mp member).resolve_left symbol
      exact List.mem_append_right taken (ih filled later)
    · obtain ⟨rest, rfl, filled⟩ := (fills_symbol starred).mp fills
      obtain rfl | later := List.mem_cons.mp member
      · exact List.mem_cons_self
      · exact List.mem_cons_of_mem d (ih filled later)

theorem fills_empty_value : Fills star pattern [] ↔ ∀ c ∈ pattern, c = star := by
  induction pattern with
  | nil => simp
  | cons c pattern ih =>
    by_cases starred : c = star
    · subst starred
      rw [fills_star]
      simp [ih]
    · rw [fills_symbol starred]
      simp [starred]

/-- A star may take whatever stands before what it already covers. -/
theorem Fills.absorb (fills : Fills star (star :: pattern) value) (taken : List α) :
    Fills star (star :: pattern) (taken ++ value) := by
  obtain ⟨more, rest, rfl, filled⟩ := fills_star.mp fills
  exact fills_star.mpr ⟨taken ++ more, rest, (List.append_assoc ..).symm, filled⟩

/-- The exchange: once the text after one star has been met at its first place, a
later star can take over everything the earlier one could have taken. -/
theorem fills_exchange (plain : star ∉ literal) :
    Fills star (star :: (literal ++ star :: pattern)) (literal ++ value) ↔
      Fills star (star :: pattern) value := by
  constructor
  · intro fills
    obtain ⟨taken, rest, same, filled⟩ := fills_star.mp fills
    obtain ⟨later, rfl, starred⟩ := (fills_literal plain).mp filled
    have shorter : later.length ≤ value.length := by
      have := congrArg List.length same
      simp only [List.length_append] at this
      omega
    have ends : later <:+ literal ++ value := ⟨taken ++ literal, by simp [same]⟩
    obtain ⟨before, rfl⟩ : later <:+ value :=
      List.suffix_of_suffix_length_le ends (List.suffix_append literal value) shorter
    exact starred.absorb before
  · intro fills
    exact fills_star.mpr ⟨[], _, rfl, (fills_literal_append plain).mpr fills⟩

/-- Where the rest of the pattern does not fit here, the star must take a symbol. -/
theorem fills_retreat (misfit : ¬Fills star pattern (c :: value)) :
    Fills star (star :: pattern) (c :: value) ↔ Fills star (star :: pattern) value := by
  constructor
  · intro fills
    obtain ⟨taken, rest, same, filled⟩ := fills_star.mp fills
    cases taken with
    | nil =>
      rw [same] at misfit
      exact absurd filled misfit
    | cons d taken =>
      obtain ⟨rfl, rfl⟩ := List.cons.inj same
      exact fills_star.mpr ⟨taken, rest, rfl, filled⟩
  · intro fills
    exact fills.absorb [c]

/-- A pattern whose next symbol is another one, or that is at its end, does not fit. -/
theorem not_fills_cons (other : pattern.head? ≠ some c) (symbol : pattern.head? ≠ some star) :
    ¬Fills star pattern (c :: value) := by
  intro fills
  cases pattern with
  | nil => simp at fills
  | cons d pattern =>
    simp only [List.head?_cons, ne_eq, Option.some.injEq] at other symbol
    obtain ⟨rest, same, -⟩ := (fills_symbol symbol).mp fills
    exact other (List.cons.inj same).1.symm

/-- With nothing of the value left, the star took nothing. -/
theorem fills_ended (plain : star ∉ literal) :
    Fills star (star :: (literal ++ pattern)) literal ↔ Fills star pattern [] := by
  constructor
  · intro fills
    obtain ⟨taken, rest, same, filled⟩ := fills_star.mp fills
    obtain ⟨later, rfl, ended⟩ := (fills_literal plain).mp filled
    have none : later = [] := by
      have := congrArg List.length same
      simp only [List.length_append] at this
      exact List.eq_nil_of_length_eq_zero (by omega)
    rwa [none] at ended
  · intro fills
    refine fills_star.mpr ⟨[], literal, rfl, ?_⟩
    exact (fills_literal plain).mpr ⟨[], (List.append_nil _).symm, fills⟩

end Pypiron
