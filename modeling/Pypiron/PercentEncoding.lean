import Mathlib.Algebra.GroupWithZero.Nat
import Mathlib.Data.List.Lex
import Mathlib.Order.Fin.Basic

/-! Percent encoding of byte strings: it is undone by decoding, and it keeps the
order of two strings unless they differ first in a byte that is escaped. -/
namespace PercentEncoding

abbrev Byte := Fin 256

instance byte_neZero : NeZero 256 := ⟨by decide⟩

def percent : Byte := 0x25

/-- The bytes that are written as escapes, the percent sign among them. -/
structure EscapeSet where
  escapes : Byte → Bool
  escapes_percent : escapes percent = true

def hexDigit (n : ℕ) : Byte := if n < 10 then Fin.ofNat 256 (0x30 + n) else Fin.ofNat 256 (0x37 + n)

def escape (b : Byte) : List Byte := [percent, hexDigit (b.val / 16), hexDigit (b.val % 16)]

def encodeByte (set : EscapeSet) (b : Byte) : List Byte :=
  if set.escapes b then escape b else [b]

def encode (set : EscapeSet) (text : List Byte) : List Byte := text.flatMap (encodeByte set)

def hexValue (b : Byte) : Option ℕ :=
  if 0x30 ≤ b ∧ b ≤ 0x39 then some (b.val - 0x30)
  else if 0x41 ≤ b ∧ b ≤ 0x46 then some (b.val - 0x37)
  else if 0x61 ≤ b ∧ b ≤ 0x66 then some (b.val - 0x57)
  else none

/-- A percent sign without two hexadecimal digits stands for itself. -/
def decode : List Byte → List Byte
  | b :: hi :: lo :: rest =>
    if b = percent then
      match hexValue hi, hexValue lo with
      | some h, some l => Fin.ofNat 256 (16 * h + l) :: decode rest
      | _, _ => b :: decode (hi :: lo :: rest)
    else b :: decode (hi :: lo :: rest)
  | short => short

theorem hexValue_hexDigit : ∀ n < 16, hexValue (hexDigit n) = some n := by decide

theorem hexDigit_strictMono : ∀ m < 16, ∀ n < 16, m < n → hexDigit m < hexDigit n := by decide

theorem decode_escape (b : Byte) (rest : List Byte) :
    decode (escape b ++ rest) = b :: decode rest := by
  have high : b.val / 16 < 16 := by omega
  have low : b.val % 16 < 16 := by omega
  have whole : Fin.ofNat 256 (16 * (b.val / 16) + b.val % 16) = b := by
    rw [Nat.div_add_mod]
    exact Fin.ofNat_val_eq_self b
  simp only [escape, List.cons_append, List.nil_append, decode, if_true,
    hexValue_hexDigit _ high, hexValue_hexDigit _ low, whole]

variable (set : EscapeSet)

@[simp] theorem encode_nil : encode set [] = [] := rfl

@[simp] theorem encode_cons (b : Byte) (text : List Byte) :
    encode set (b :: text) = encodeByte set b ++ encode set text := rfl

@[simp] theorem encode_append (text more : List Byte) :
    encode set (text ++ more) = encode set text ++ encode set more :=
  List.flatMap_append

theorem encodeByte_ne_nil (b : Byte) : encodeByte set b ≠ [] := by
  unfold encodeByte
  split <;> simp [escape]

theorem decode_encodeByte (b : Byte) (rest : List Byte) :
    decode (encodeByte set b ++ rest) = b :: decode rest := by
  unfold encodeByte
  split
  · exact decode_escape b rest
  · rename_i kept
    have other : b ≠ percent := by
      rintro rfl
      exact kept set.escapes_percent
    match rest with
    | [] => rfl
    | [_] => rfl
    | hi :: lo :: rest => simp [decode, other]

theorem decode_encode (text : List Byte) : decode (encode set text) = text := by
  induction text with
  | nil => rfl
  | cons b text ih => rw [encode_cons, decode_encodeByte, ih]

/-- Two bytes, the first below the second, whose spellings are the other way round. -/
def Swaps (a b : Byte) : Prop :=
  (set.escapes b = true ∧ set.escapes a = false ∧ percent < a) ∨
    (set.escapes a = true ∧ set.escapes b = false ∧ b < percent)

/-- The first bytes in which two strings differ are swapped. -/
def Inverts (m n : List Byte) : Prop :=
  ∃ start a restA b restB, m = start ++ a :: restA ∧ n = start ++ b :: restB ∧ a < b ∧
    Swaps set a b

theorem escape_lt {a b : Byte} (below : a < b) (r s : List Byte) :
    escape a ++ r < escape b ++ s := by
  have highA : a.val / 16 < 16 := by omega
  have highB : b.val / 16 < 16 := by omega
  have lowA : a.val % 16 < 16 := by omega
  have lowB : b.val % 16 < 16 := by omega
  simp only [escape, List.cons_append, List.nil_append, List.cons_lt_cons_iff, lt_irrefl,
    true_and, false_or]
  have ordered : a.val / 16 < b.val / 16 ∨ a.val / 16 = b.val / 16 ∧ a.val % 16 < b.val % 16 := by
    have := Fin.lt_def.mp below
    omega
  rcases ordered with high | ⟨same, low⟩
  · exact .inl (hexDigit_strictMono _ highA _ highB high)
  · exact .inr ⟨by rw [same], .inl (hexDigit_strictMono _ lowA _ lowB low)⟩

theorem encodeByte_lt_iff {a b : Byte} (below : a < b) (r s : List Byte) :
    encodeByte set a ++ r < encodeByte set b ++ s ↔ ¬ Swaps set a b := by
  have different : ∀ c, set.escapes c = false → c ≠ percent := by
    rintro c kept rfl
    simp [set.escapes_percent] at kept
  cases escapedA : set.escapes a <;> cases escapedB : set.escapes b
  · simp [encodeByte, Swaps, escapedA, escapedB, List.cons_lt_cons_iff, below]
  · have other := different a escapedA
    have order : a < percent ↔ a ≤ percent := ⟨le_of_lt, fun le => lt_of_le_of_ne le other⟩
    simp [encodeByte, Swaps, escapedA, escapedB, escape, List.cons_lt_cons_iff, other, order]
  · have other := different b escapedB
    have order : percent < b ↔ percent ≤ b := ⟨le_of_lt, fun le => lt_of_le_of_ne le other.symm⟩
    simp [encodeByte, Swaps, escapedA, escapedB, escape, List.cons_lt_cons_iff, other.symm, order]
  · simpa [encodeByte, Swaps, escapedA, escapedB] using escape_lt below r s

theorem inverts_cons (c : Byte) (m n : List Byte) :
    Inverts set (c :: m) (c :: n) ↔ Inverts set m n := by
  constructor
  · rintro ⟨start, a, restA, b, restB, splitM, splitN, below, swaps⟩
    cases start with
    | nil =>
      obtain ⟨rfl, rfl⟩ := List.cons.inj splitM
      obtain ⟨rfl, rfl⟩ := List.cons.inj splitN
      exact absurd below (lt_irrefl _)
    | cons d start =>
      obtain ⟨rfl, rfl⟩ := List.cons.inj splitM
      obtain ⟨-, rfl⟩ := List.cons.inj splitN
      exact ⟨start, a, restA, b, restB, rfl, rfl, below, swaps⟩
  · rintro ⟨start, a, restA, b, restB, rfl, rfl, below, swaps⟩
    exact ⟨c :: start, a, restA, b, restB, rfl, rfl, below, swaps⟩

/-- Encoding keeps the order of two strings exactly when they are not inverted. -/
theorem encode_lt_iff {m n : List Byte} (below : m < n) :
    encode set m < encode set n ↔ ¬ Inverts set m n := by
  induction m generalizing n with
  | nil =>
    cases n with
    | nil => exact absurd below (lt_irrefl _)
    | cons b n =>
      have none : ¬ Inverts set [] (b :: n) := by
        rintro ⟨start, a, restA, -, -, split, -⟩
        simp at split
      have longer : encode set (b :: n) ≠ [] := by
        simp [encodeByte_ne_nil]
      obtain ⟨c, rest, spelled⟩ := List.exists_cons_of_ne_nil longer
      simp [none, spelled]
  | cons a m ih =>
    cases n with
    | nil => exact absurd below (List.not_lt_nil _)
    | cons b n =>
      rcases List.cons_lt_cons_iff.mp below with first | ⟨rfl, later⟩
      · rw [encode_cons, encode_cons, encodeByte_lt_iff set first]
        refine not_congr ⟨fun swaps => ⟨[], a, m, b, n, rfl, rfl, first, swaps⟩, ?_⟩
        rintro ⟨start, c, restC, d, restD, splitM, splitN, -, swaps⟩
        cases start with
        | nil =>
          obtain ⟨rfl, rfl⟩ := List.cons.inj splitM
          obtain ⟨rfl, rfl⟩ := List.cons.inj splitN
          exact swaps
        | cons e start =>
          obtain ⟨rfl, -⟩ := List.cons.inj splitM
          obtain ⟨rfl, -⟩ := List.cons.inj splitN
          exact absurd first (lt_irrefl _)
      · rw [inverts_cons, ← ih later, encode_cons, encode_cons]
        constructor
        · intro order
          rcases lt_trichotomy (encode set m) (encode set n) with less | same | more
          · exact less
          · rw [same] at order
            exact absurd order (lt_irrefl _)
          · exact absurd (List.append_left_lt more) order.asymm
        · exact fun order => List.append_left_lt order

end PercentEncoding
