import Mathlib.Data.String.Basic

/-! The string splitting that object keys are parsed with, and what it gives on
a key put together from its parts. -/
namespace Pypiron

def utf8 (text : String) : List UInt8 := text.toByteArray.data.toList

def stripPrefix (pre text : String) : Option String :=
  if pre.toList <+: text.toList then some (String.ofList (text.toList.drop pre.toList.length))
  else none

def stripSuffix (suf text : String) : Option String :=
  if suf.toList <:+ text.toList then
    some (String.ofList (text.toList.take (text.toList.length - suf.toList.length)))
  else none

/-- Split at the first separator, which is dropped. -/
def splitOnce (sep : Char) (text : String) : Option (String × String) :=
  match text.toList.dropWhile (· != sep) with
  | [] => none
  | _ :: rest => some (String.ofList (text.toList.takeWhile (· != sep)), String.ofList rest)

/-- Split at the last separator, which is dropped. -/
def rsplitOnce (sep : Char) (text : String) : Option (String × String) :=
  match text.toList.reverse.dropWhile (· != sep) with
  | [] => none
  | _ :: before => some (String.ofList before.reverse,
      String.ofList (text.toList.reverse.takeWhile (· != sep)).reverse)

/-- Lowercase, each run of separators one dash, and none at the ends. -/
def normalizePkgName (name : String) : String :=
  let squeezed := (name.toList.map Char.toLower).foldl
    (fun (state : List Char × Bool) ch =>
      if ch = '-' ∨ ch = '_' ∨ ch = '.' then
        if state.2 then state else (state.1 ++ ['-'], true)
      else (state.1 ++ [ch], false)) ([], false)
  String.ofList
    ((squeezed.1.dropWhile (· = '-')).reverse.dropWhile (· = '-')).reverse

def maxPkgNameBytes : ℕ := 256

/-- A well-formed normalized name: nonempty, not too long, only `[a-z0-9-]`. -/
def isNormalized (name : String) : Bool :=
  name ≠ "" && Decidable.decide (name.utf8ByteSize ≤ maxPkgNameBytes) &&
    !(name.toList.head? = some '-') && !(name.toList.getLast? = some '-') &&
    name.toList.all fun c => c.isLower || c.isDigit || c = '-'

def checkedPkgName (raw : String) : Option String :=
  if isNormalized (normalizePkgName raw) then some (normalizePkgName raw) else none

/-! ### Letters and digits -/

theorem isUpper_iff {c : Char} : c.isUpper = true ↔ 65 ≤ c.toNat ∧ c.toNat ≤ 90 := by
  change Decidable.decide (c.val ≥ 'A'.val ∧ c.val ≤ 'Z'.val) = true ↔ _
  simp [UInt32.le_iff_toNat_le]

theorem isLower_iff {c : Char} : c.isLower = true ↔ 97 ≤ c.toNat ∧ c.toNat ≤ 122 := by
  change (Decidable.decide (c.val ≥ 'a'.val) && Decidable.decide (c.val ≤ 'z'.val)) = true ↔ _
  simp [UInt32.le_iff_toNat_le]

theorem isAlpha_iff {c : Char} : c.isAlpha = true ↔ c.isUpper = true ∨ c.isLower = true := by
  change (c.isUpper || c.isLower) = true ↔ _
  rw [Bool.or_eq_true]

theorem isDigit_iff {c : Char} : c.isDigit = true ↔ 48 ≤ c.toNat ∧ c.toNat ≤ 57 := by
  simp [Char.isDigit, UInt32.le_iff_toNat_le]

theorem toNat_toLower (c : Char) :
    c.toLower.toNat = if c.isUpper = true then c.toNat + 32 else c.toNat := by
  have test : (c.val ≥ 'A'.val ∧ c.val ≤ 'Z'.val) ↔ c.isUpper = true := by
    change _ ↔ Decidable.decide (c.val ≥ 'A'.val ∧ c.val ≤ 'Z'.val) = true
    simp
  by_cases upper : c.isUpper = true
  · have range := isUpper_iff.mp upper
    delta Char.toLower
    rw [if_pos upper, dif_pos (test.mpr upper)]
    change (c.val + ('a'.val - 'A'.val)).toNat = c.val.toNat + 32
    have bounds : c.val.toNat ≤ 90 := range.2
    rw [UInt32.toNat_add, show ('a'.val - 'A'.val).toNat = 32 from rfl]
    omega
  · delta Char.toLower
    rw [if_neg upper, dif_neg (mt test.mp upper)]

/-! ### Bytes -/

theorem utf8_inj {s t : String} : utf8 s = utf8 t ↔ s = t := by
  constructor
  · intro same
    apply String.toByteArray_inj.mp
    apply ByteArray.ext
    exact Array.toList_inj.mp same
  · exact congrArg utf8

theorem utf8_length (text : String) : (utf8 text).length = text.utf8ByteSize := by
  simp [utf8]

/-! ### Splitting -/

theorem stripPrefix_append (pre rest : String) : stripPrefix pre (pre ++ rest) = some rest := by
  simp [stripPrefix]

theorem stripSuffix_append (text suf : String) : stripSuffix suf (text ++ suf) = some text := by
  simp [stripSuffix]

private theorem skipped {sep : Char} {chars : List Char} (clean : sep ∉ chars) :
    ∀ c ∈ chars, (c != sep) = true := by
  intro c member
  simp only [bne_iff_ne, ne_eq]
  rintro rfl
  exact clean member

theorem splitOnce_append {sep : Char} {mark before : String} (single : mark.toList = [sep])
    (clean : sep ∉ before.toList) (rest : String) :
    splitOnce sep (before ++ mark ++ rest) = some (before, rest) := by
  have skip := skipped clean
  simp [splitOnce, single, List.dropWhile_append_of_pos skip, List.takeWhile_append_of_pos skip]

theorem rsplitOnce_append {sep : Char} {mark rest : String} (single : mark.toList = [sep])
    (clean : sep ∉ rest.toList) (before : String) :
    rsplitOnce sep (before ++ mark ++ rest) = some (before, rest) := by
  have skip : ∀ c ∈ rest.toList.reverse, (c != sep) = true :=
    fun c member => skipped clean c (List.mem_reverse.mp member)
  simp [rsplitOnce, single, List.dropWhile_append_of_pos skip, List.takeWhile_append_of_pos skip]

end Pypiron
