import Mathlib.Algebra.Group.Nat.Defs
import Mathlib.Data.List.Basic
import Pypiron.Sidecar
import Pypiron.Text

/-! The duration parsers of the mirror filters: friendly text (`30 days`, `1h30m`)
and ISO 8601 (`P1DT2H`), with checked 64-bit arithmetic at each step. The grammars
they are compared with follow, and take a count to be of any size. -/
namespace Pypiron.Durations

def i64Max : ℕ := 2 ^ 63 - 1

/-- An `i64` operation on counts, none of which is negative: `None` on overflow. -/
def checked (n : ℕ) : Option ℕ := if n ≤ i64Max then some n else none

def digitValue (c : Char) : ℕ := c.toNat - '0'.toNat

/-- The digits at the front: what they count, whether there are any, and the rest. -/
def readCount (num : ℕ) (sawDigit : Bool) : List Char → Option (ℕ × Bool × List Char)
  | [] => some (num, sawDigit, [])
  | c :: rest =>
    if c.isDigit then do
      let num ← checked (num * 10)
      let num ← checked (num + digitValue c)
      readCount num true rest
    else some (num, sawDigit, c :: rest)

def unitSeconds : String → Option ℕ
  | "s" | "sec" | "secs" | "second" | "seconds" => some 1
  | "m" | "min" | "mins" | "minute" | "minutes" => some 60
  | "h" | "hr" | "hrs" | "hour" | "hours" => some 3600
  | "d" | "day" | "days" => some 86400
  | "w" | "wk" | "wks" | "week" | "weeks" => some 604800
  | _ => none

/-- One term: digits, optional space, and the letters of the unit. -/
def friendlyTerm (text : List Char) : Option (ℕ × String × List Char) := do
  let (num, sawDigit, rest) ← readCount 0 false text
  if sawDigit then
    let rest := rest.dropWhile isWhiteSpace
    some (num, String.ofList ((rest.takeWhile Char.isAlpha).map Char.toLower),
      rest.dropWhile Char.isAlpha)
  else none

theorem readCount_length {num : ℕ} {sawDigit : Bool} {text : List Char}
    {read : ℕ × Bool × List Char} (counted : readCount num sawDigit text = some read) :
    read.2.2.length ≤ text.length ∧
      (sawDigit = false → read.2.1 = true → read.2.2.length < text.length) := by
  induction text generalizing num sawDigit with
  | nil =>
    cases counted
    simp
  | cons c text ih =>
    rw [readCount] at counted
    split at counted
    · simp only [Option.bind_eq_bind, Option.bind_eq_some_iff] at counted
      obtain ⟨_, -, _, -, counted⟩ := counted
      have := (ih counted).1
      simp only [List.length_cons]
      omega
    · cases counted
      simp

theorem friendlyTerm_length {text : List Char} {term : ℕ × String × List Char}
    (read : friendlyTerm text = some term) : term.2.2.length < text.length := by
  simp only [friendlyTerm, Option.bind_eq_bind, Option.bind_eq_some_iff] at read
  obtain ⟨⟨num, sawDigit, rest⟩, counted, read⟩ := read
  dsimp only at read
  split at read
  · rename_i saw
    cases read
    have shorter := (readCount_length counted).2 rfl saw
    have spaces := ((rest.dropWhile_suffix isWhiteSpace).length_le)
    have letters := ((rest.dropWhile isWhiteSpace).dropWhile_suffix Char.isAlpha).length_le
    dsimp only at shorter ⊢
    omega
  · cases read

def parseFriendly (total : ℕ) (sawTerm : Bool) : List Char → Option ℕ
  | [] => if sawTerm then some total else none
  | c :: text =>
    if isWhiteSpace c || c = ',' then parseFriendly total sawTerm text
    else match _read : friendlyTerm (c :: text) with
      | none => none
      | some (num, unit, rest) => do
        let secs ← unitSeconds unit
        let term ← checked (num * secs)
        let total ← checked (total + term)
        parseFriendly total true rest
termination_by text => text.length
decreasing_by
  · exact Nat.lt_succ_self _
  · exact friendlyTerm_length _read

def parseFriendlyDurationSecs (s : String) : Option ℕ := parseFriendly 0 false s.toList

/-- One term: digits and one letter. -/
def isoTerm (text : List Char) : Option (ℕ × Char × List Char) := do
  let (num, sawDigit, rest) ← readCount 0 false text
  if sawDigit then
    match rest with
    | [] => none
    | unit :: rest => if unit.isAlpha then some (num, unit, rest) else none
  else none

theorem isoTerm_length {text : List Char} {term : ℕ × Char × List Char}
    (read : isoTerm text = some term) : term.2.2.length < text.length := by
  simp only [isoTerm, Option.bind_eq_bind, Option.bind_eq_some_iff] at read
  obtain ⟨⟨num, sawDigit, rest⟩, counted, read⟩ := read
  dsimp only at read
  split at read
  · rename_i saw
    have shorter := (readCount_length counted).2 rfl saw
    split at read
    · cases read
    · split at read
      · cases read
        dsimp only [List.length_cons] at shorter ⊢
        omega
      · cases read
  · cases read

/-- Terms to the end of the text. -/
def isoTerms : List Char → Option (List (ℕ × Char))
  | [] => some []
  | c :: text =>
    match _read : isoTerm (c :: text) with
    | none => none
    | some (num, unit, rest) => (isoTerms rest).map fun terms => (num, unit) :: terms
termination_by text => text.length
decreasing_by exact isoTerm_length _read

def dateSeconds (unit : Char) : Option ℕ :=
  match unit.toUpper with
  | 'D' => some 86400
  | 'W' => some 604800
  | _ => none

def timeSeconds (unit : Char) : Option ℕ :=
  match unit.toUpper with
  | 'H' => some 3600
  | 'M' => some 60
  | 'S' => some 1
  | _ => none

/-- Add up the terms of one part of an ISO duration. -/
def addTerms (seconds : Char → Option ℕ) (total : ℕ) : List (ℕ × Char) → Option ℕ
  | [] => some total
  | (num, unit) :: terms => do
    let secs ← seconds unit
    let term ← checked (num * secs)
    let total ← checked (total + term)
    addTerms seconds total terms

def isTime (c : Char) : Bool := c = 'T' || c = 't'

/-- The date part, and the time part where a `T` starts one. -/
def splitTime (text : List Char) : List Char × Option (List Char) :=
  match text.dropWhile (!isTime ·) with
  | [] => (text, none)
  | _ :: time => (text.takeWhile (!isTime ·), some time)

def parseIso8601DurationSecs (s : String) : Option ℕ :=
  match s.toList with
  | [] => none
  | first :: rest =>
    if first = 'P' ∨ first = 'p' then
      if rest = [] then none
      else do
        let dateTerms ← isoTerms (splitTime rest).1
        let total ← addTerms dateSeconds 0 dateTerms
        match (splitTime rest).2 with
        | none => if dateTerms = [] then none else some total
        | some time =>
          if time = [] then none
          else do
            let timeTerms ← isoTerms time
            let total ← addTerms timeSeconds total timeTerms
            if dateTerms = [] ∧ timeTerms = [] then none else some total
    else none

/-- `None` if the text is no supported duration. -/
def parseDurationSecs (s : String) : Option ℕ :=
  if s = "" then none
  else if s.toList.head? = some 'P' ∨ s.toList.head? = some 'p' then parseIso8601DurationSecs s
  else parseFriendlyDurationSecs s

/-! ### The grammars -/

/-- What digits count, whatever its size. -/
def count (digits : List Char) : ℕ :=
  digits.foldl (fun num c => num * 10 + digitValue c) 0

/-- Friendly text: terms of digits, optional space and the letters of a unit, with
any white space and commas around them. -/
inductive FriendlyText : List Char → List (ℕ × String) → Prop where
  | nil : FriendlyText [] []
  | separator {c : Char} {text : List Char} {terms : List (ℕ × String)}
      (separates : (isWhiteSpace c || c = ',') = true) (rest : FriendlyText text terms) :
      FriendlyText (c :: text) terms
  | term {digits spaces unit text : List Char} {terms : List (ℕ × String)}
      (counted : digits ≠ []) (digit : ∀ c ∈ digits, c.isDigit = true)
      (space : ∀ c ∈ spaces, isWhiteSpace c = true) (named : unit ≠ [])
      (letter : ∀ c ∈ unit, c.isAlpha = true) (rest : FriendlyText text terms) :
      FriendlyText (digits ++ (spaces ++ (unit ++ text)))
        ((count digits, String.ofList (unit.map Char.toLower)) :: terms)

/-- One part of an ISO duration: terms of digits and one letter. -/
inductive IsoText : List Char → List (ℕ × Char) → Prop where
  | nil : IsoText [] []
  | term {digits text : List Char} {unit : Char} {terms : List (ℕ × Char)}
      (counted : digits ≠ []) (digit : ∀ c ∈ digits, c.isDigit = true)
      (letter : unit.isAlpha = true) (rest : IsoText text terms) :
      IsoText (digits ++ unit :: text) ((count digits, unit) :: terms)

/-- The sum of the terms, of any size; none if a unit has no fixed length. -/
def exactSum (seconds : U → Option ℕ) : List (ℕ × U) → Option ℕ
  | [] => some 0
  | (num, unit) :: terms =>
    (seconds unit).bind fun secs => (exactSum seconds terms).map (num * secs + ·)

/-- The text has the shape of a duration, and this is the exact sum of its terms. -/
inductive Spells (s : String) : Option ℕ → Prop where
  | friendly {terms : List (ℕ × String)} (nonempty : terms ≠ [])
      (text : FriendlyText s.toList terms) : Spells s (exactSum unitSeconds terms)
  | date {first : Char} {date : List Char} {terms : List (ℕ × Char)}
      (split : s.toList = first :: date) (period : first = 'P' ∨ first = 'p')
      (untimed : ∀ c ∈ date, isTime c = false) (nonempty : terms ≠ [])
      (text : IsoText date terms) : Spells s (exactSum dateSeconds terms)
  | time {first mark : Char} {date time : List Char} {dateTerms timeTerms : List (ℕ × Char)}
      (split : s.toList = first :: (date ++ mark :: time)) (period : first = 'P' ∨ first = 'p')
      (untimed : ∀ c ∈ date, isTime c = false) (timed : isTime mark = true)
      (nonempty : timeTerms ≠ []) (dateText : IsoText date dateTerms)
      (timeText : IsoText time timeTerms) :
      Spells s ((exactSum dateSeconds dateTerms).bind fun sum =>
        (exactSum timeSeconds timeTerms).map (sum + ·))

/-! ### Counts -/

@[simp] theorem checked_of_le {n : ℕ} (fits : n ≤ i64Max) : checked n = some n := if_pos fits

@[simp] theorem checked_of_lt {n : ℕ} (beyond : i64Max < n) : checked n = none :=
  if_neg (not_le_of_gt beyond)

theorem checked_eq_some {n m : ℕ} : checked n = some m ↔ n = m ∧ n ≤ i64Max := by
  rw [checked]
  split
  · rename_i fits
    simp [fits]
  · rename_i beyond
    simp [beyond]

theorem le_foldl_count (digits : List Char) (num : ℕ) :
    num ≤ digits.foldl (fun num c => num * 10 + digitValue c) num := by
  induction digits generalizing num with
  | nil => exact le_rfl
  | cons c digits ih =>
    rw [List.foldl_cons]
    exact le_trans (by omega) (ih (num * 10 + digitValue c))

/-- The checked loop counts the digits, and fails exactly when the count does not fit. -/
theorem readCount_digits {digits rest : List Char} {num : ℕ} {sawDigit : Bool}
    (digit : ∀ c ∈ digits, c.isDigit = true) (ends : ∀ c ∈ rest.head?, c.isDigit = false)
    (fits : num ≤ i64Max) : readCount num sawDigit (digits ++ rest) =
      (checked (digits.foldl (fun num c => num * 10 + digitValue c) num)).map
        fun num => (num, sawDigit || !digits.isEmpty, rest) := by
  induction digits generalizing num sawDigit with
  | nil =>
    rw [List.nil_append, List.foldl_nil, checked_of_le fits]
    cases rest with
    | nil => simp [readCount]
    | cons c rest => simp [readCount, ends c rfl]
  | cons c digits ih =>
    rw [List.cons_append, readCount, if_pos (digit c List.mem_cons_self), List.foldl_cons]
    simp only [Option.bind_eq_bind]
    have grows := le_foldl_count digits (num * 10 + digitValue c)
    by_cases first : num * 10 ≤ i64Max
    · rw [checked_of_le first, Option.bind_some]
      by_cases second : num * 10 + digitValue c ≤ i64Max
      · rw [checked_of_le second, Option.bind_some,
          ih (fun d member => digit d (List.mem_cons_of_mem c member)) second]
        simp
      · rw [checked_of_lt (by omega), checked_of_lt (by omega)]
        rfl
    · rw [checked_of_lt (by omega), checked_of_lt (by omega)]
      rfl

theorem readCount_eq (text : List Char) : readCount 0 false text =
    (checked (count (text.takeWhile Char.isDigit))).map fun num =>
      (num, !(text.takeWhile Char.isDigit).isEmpty, text.dropWhile Char.isDigit) := by
  have ends : ∀ c ∈ (text.dropWhile Char.isDigit).head?, c.isDigit = false := by
    intro c member
    have := List.head?_dropWhile_not Char.isDigit text
    rw [Option.mem_def.mp member] at this
    simpa using this
  have read : readCount 0 false
      (text.takeWhile Char.isDigit ++ text.dropWhile Char.isDigit) = _ :=
    readCount_digits (fun c member => List.all_eq_true.mp List.all_takeWhile c member) ends
      (Nat.zero_le _)
  rw [List.takeWhile_append_dropWhile] at read
  simpa [count] using read

/-! ### Sums -/

/-- Adding one term and then the rest is adding them all, as long as each term
counts for something: no partial sum overflows unless the whole does. -/
theorem checked_step {total num secs : ℕ} (lasts : 0 < secs) (rest : Option ℕ) :
    ((checked num).bind fun num => (checked (num * secs)).bind fun term =>
      (checked (total + term)).bind fun total => rest.bind fun sum => checked (total + sum)) =
    rest.bind fun sum => checked (total + (num * secs + sum)) := by
  have grows : num ≤ num * secs := Nat.le_mul_of_pos_right num lasts
  cases rest with
  | none => simp
  | some sum =>
    simp only [Option.bind_some]
    by_cases first : num ≤ i64Max
    · rw [checked_of_le first, Option.bind_some]
      by_cases second : num * secs ≤ i64Max
      · rw [checked_of_le second, Option.bind_some]
        by_cases third : total + num * secs ≤ i64Max
        · rw [checked_of_le third, Option.bind_some, Nat.add_assoc]
        · rw [checked_of_lt (by omega), checked_of_lt (by omega)]
          rfl
      · rw [checked_of_lt (by omega), checked_of_lt (by omega)]
        rfl
    · rw [checked_of_lt (by omega), checked_of_lt (by omega)]
      rfl

theorem unitSeconds_pos {unit : String} {secs : ℕ} (known : unitSeconds unit = some secs) :
    0 < secs := by
  unfold unitSeconds at known
  split at known <;> cases known <;> decide

theorem dateSeconds_pos {unit : Char} {secs : ℕ} (known : dateSeconds unit = some secs) :
    0 < secs := by
  unfold dateSeconds at known
  split at known <;> cases known <;> decide

theorem timeSeconds_pos {unit : Char} {secs : ℕ} (known : timeSeconds unit = some secs) :
    0 < secs := by
  unfold timeSeconds at known
  split at known <;> cases known <;> decide

/-! ### Friendly text -/

theorem isAlpha_not_digit {c : Char} (letter : c.isAlpha = true) : c.isDigit = false := by
  rw [← Bool.not_eq_true, isDigit_iff]
  rw [isAlpha_iff, isUpper_iff, isLower_iff] at letter
  omega

theorem isAlpha_not_space {c : Char} (letter : c.isAlpha = true) : isWhiteSpace c = false := by
  rw [isAlpha_iff, isUpper_iff, isLower_iff] at letter
  simp only [isWhiteSpace, Bool.or_eq_false_iff, Bool.and_eq_false_iff, decide_eq_false_iff_not,
    beq_eq_false_iff_ne, ne_eq]
  omega

theorem isWhiteSpace_not_digit {c : Char} (space : isWhiteSpace c = true) : c.isDigit = false := by
  rw [← Bool.not_eq_true, isDigit_iff]
  simp only [isWhiteSpace, Bool.or_eq_true, Bool.and_eq_true, decide_eq_true_eq,
    beq_iff_eq] at space
  omega

theorem isDigit_not_separator {c : Char} (digit : c.isDigit = true) :
    (isWhiteSpace c || c = ',') = false := by
  rw [Bool.or_eq_false_iff]
  constructor
  · by_contra space
    rw [Bool.not_eq_false] at space
    rw [isWhiteSpace_not_digit space] at digit
    cases digit
  · rw [decide_eq_false_iff_not]
    rintro rfl
    cases digit

theorem separator_not_alpha {c : Char} (separates : (isWhiteSpace c || c = ',') = true) :
    c.isAlpha = false := by
  rw [Bool.or_eq_true, decide_eq_true_eq] at separates
  by_contra letter
  rw [Bool.not_eq_false] at letter
  obtain space | rfl := separates
  · rw [isAlpha_not_space letter] at space
    cases space
  · cases letter

/-- No term and no separator starts with a letter, so a unit ends where its letters do. -/
theorem FriendlyText.head {text : List Char} {terms : List (ℕ × String)}
    (shape : FriendlyText text terms) : ∀ c ∈ text.head?, c.isAlpha = false := by
  intro c head
  cases shape with
  | nil => cases head
  | separator separates rest =>
    cases head
    exact separator_not_alpha separates
  | @term digits _ _ _ _ counted digit _ _ _ _ =>
    cases digits with
    | nil => exact absurd rfl counted
    | cons d digits =>
      cases head
      by_contra letter
      rw [Bool.not_eq_false] at letter
      have := isAlpha_not_digit letter
      rw [digit _ List.mem_cons_self] at this
      cases this

theorem takeWhile_append_stop {p : α → Bool} {xs ys : List α} (all : ∀ x ∈ xs, p x = true)
    (stop : ∀ y ∈ ys.head?, p y = false) : (xs ++ ys).takeWhile p = xs := by
  rw [List.takeWhile_append_of_pos all]
  cases ys with
  | nil => simp
  | cons y ys => simp [stop y rfl]

theorem dropWhile_append_stop {p : α → Bool} {xs ys : List α} (all : ∀ x ∈ xs, p x = true)
    (stop : ∀ y ∈ ys.head?, p y = false) : (xs ++ ys).dropWhile p = ys := by
  rw [List.dropWhile_append_of_pos all]
  cases ys with
  | nil => rfl
  | cons y ys => simp [stop y rfl]

theorem friendlyTerm_append {digits spaces unit text : List Char} (counted : digits ≠ [])
    (digit : ∀ c ∈ digits, c.isDigit = true) (space : ∀ c ∈ spaces, isWhiteSpace c = true)
    (named : unit ≠ []) (letter : ∀ c ∈ unit, c.isAlpha = true)
    (ends : ∀ c ∈ text.head?, c.isAlpha = false) :
    friendlyTerm (digits ++ (spaces ++ (unit ++ text))) =
      (checked (count digits)).map fun num =>
        (num, String.ofList (unit.map Char.toLower), text) := by
  have unitHead : ∀ c ∈ (unit ++ text).head?, c.isAlpha = true := by
    intro c head
    cases unit with
    | nil => exact absurd rfl named
    | cons d unit =>
      cases head
      exact letter _ List.mem_cons_self
  have restHead : ∀ c ∈ (spaces ++ (unit ++ text)).head?, c.isDigit = false := by
    intro c head
    cases spaces with
    | nil => exact isAlpha_not_digit (unitHead c head)
    | cons d spaces =>
      cases head
      exact isWhiteSpace_not_digit (space _ List.mem_cons_self)
  have afterSpaces : (spaces ++ (unit ++ text)).dropWhile isWhiteSpace = unit ++ text :=
    dropWhile_append_stop space fun c head => isAlpha_not_space (unitHead c head)
  rw [friendlyTerm, readCount_digits digit restHead (Nat.zero_le _)]
  change ((checked (count digits)).map _).bind _ = _
  cases checked (count digits) with
  | none => rfl
  | some num =>
    have some : (!digits.isEmpty) = true := by simpa using counted
    simp [some, afterSpaces, takeWhile_append_stop letter ends, dropWhile_append_stop letter ends]

theorem parseFriendly_term {c : Char} {text : List Char} {total : ℕ} {sawTerm : Bool}
    (term : (isWhiteSpace c || c = ',') = false) : parseFriendly total sawTerm (c :: text) =
      (friendlyTerm (c :: text)).bind fun read => (unitSeconds read.2.1).bind fun secs =>
        (checked (read.1 * secs)).bind fun term => (checked (total + term)).bind fun total =>
          parseFriendly total true read.2.2 := by
  rw [parseFriendly, if_neg (by simp [term])]
  split
  · rename_i none
    rw [none]
    rfl
  · rename_i some
    rw [some]
    rfl

/-- The loop computes the checked sum of any text of the grammar. -/
theorem parseFriendly_text {text : List Char} {terms : List (ℕ × String)}
    (shape : FriendlyText text terms) {total : ℕ} {sawTerm : Bool} (fits : total ≤ i64Max)
    (any : sawTerm = true ∨ terms ≠ []) : parseFriendly total sawTerm text =
      (exactSum unitSeconds terms).bind fun sum => checked (total + sum) := by
  induction shape generalizing total sawTerm with
  | nil =>
    have saw : sawTerm = true := by simpa using any
    simp [parseFriendly, saw, exactSum, fits]
  | separator separates _ ih =>
    rw [parseFriendly, if_pos separates]
    exact ih fits any
  | @term digits spaces unit text terms counted digit space named letter rest ih =>
    have read := friendlyTerm_append counted digit space named letter rest.head
    obtain ⟨c, more, split, first⟩ : ∃ c more, digits ++ (spaces ++ (unit ++ text)) = c :: more ∧
        (isWhiteSpace c || c = ',') = false := by
      obtain ⟨c, more, rfl⟩ := List.exists_cons_of_ne_nil counted
      exact ⟨c, _, rfl, isDigit_not_separator (digit c List.mem_cons_self)⟩
    rw [split, parseFriendly_term first, ← split, read, Option.bind_map]
    cases known : unitSeconds (String.ofList (unit.map Char.toLower)) with
    | none =>
      simp [exactSum, known]
    | some secs =>
      rw [exactSum, known, Option.bind_some, Option.bind_map]
      simp only [Function.comp_def, known, Option.bind_some]
      rw [← checked_step (unitSeconds_pos known) (exactSum unitSeconds terms)]
      refine Option.bind_congr fun num first => ?_
      rw [← (checked_eq_some.mp first).1]
      refine Option.bind_congr fun term second => ?_
      refine Option.bind_congr fun total third => ?_
      obtain ⟨rfl, fits⟩ := checked_eq_some.mp third
      exact ih fits (.inl rfl)

theorem friendlyTerm_some {text rest : List Char} {num : ℕ} {unit : String}
    (read : friendlyTerm text = some (num, unit, rest)) (known : unit ≠ "") :
    ∃ digits spaces letters, text = digits ++ (spaces ++ (letters ++ rest)) ∧ digits ≠ [] ∧
      (∀ c ∈ digits, c.isDigit = true) ∧ (∀ c ∈ spaces, isWhiteSpace c = true) ∧
      letters ≠ [] ∧ (∀ c ∈ letters, c.isAlpha = true) ∧
      unit = String.ofList (letters.map Char.toLower) := by
  rw [friendlyTerm, readCount_eq] at read
  simp only [Option.bind_eq_bind, Option.bind_map, Option.bind_eq_some_iff, Function.comp] at read
  obtain ⟨_, -, read⟩ := read
  split at read
  · rename_i saw
    cases read
    have all : ∀ {p : Char → Bool} {text : List Char}, ∀ c ∈ text.takeWhile p, p c = true :=
      fun c member => List.all_eq_true.mp List.all_takeWhile c member
    refine ⟨_, ((text.dropWhile Char.isDigit).takeWhile isWhiteSpace),
      (((text.dropWhile Char.isDigit).dropWhile isWhiteSpace).takeWhile Char.isAlpha), ?_,
      by simpa using saw, all, all, ?_, all, rfl⟩
    · rw [List.takeWhile_append_dropWhile, List.takeWhile_append_dropWhile,
        List.takeWhile_append_dropWhile]
    · intro none
      rw [none] at known
      exact known rfl
  · cases read

/-- What the loop accepts is of the grammar. -/
theorem friendlyText_of_parse {text : List Char} {total n : ℕ} {sawTerm : Bool}
    (parsed : parseFriendly total sawTerm text = some n) :
    ∃ terms, FriendlyText text terms ∧ (sawTerm = true ∨ terms ≠ []) := by
  induction length : text.length using Nat.strong_induction_on generalizing text total sawTerm with
  | _ size ih =>
    cases text with
    | nil =>
      rw [parseFriendly] at parsed
      split at parsed
      · rename_i saw
        exact ⟨[], .nil, .inl saw⟩
      · cases parsed
    | cons c text =>
      by_cases separates : (isWhiteSpace c || c = ',') = true
      · rw [parseFriendly, if_pos separates] at parsed
        obtain ⟨terms, shape, any⟩ := ih text.length (by simp [← length]) parsed rfl
        exact ⟨terms, .separator separates shape, any⟩
      · rw [parseFriendly_term (by simpa using separates)] at parsed
        simp only [Option.bind_eq_some_iff] at parsed
        obtain ⟨⟨num, unit, rest⟩, read, secs, known, _, -, _, -, parsed⟩ := parsed
        have named : unit ≠ "" := by
          rintro rfl
          cases known
        have shorter : rest.length < size := length ▸ friendlyTerm_length read
        obtain ⟨terms, shape, -⟩ := ih rest.length shorter parsed rfl
        obtain ⟨digits, spaces, letters, split, counted, digit, space, some, letter, -⟩ :=
          friendlyTerm_some read named
        rw [split]
        exact ⟨_, .term counted digit space some letter shape, .inr (List.cons_ne_nil _ _)⟩

/-! ### ISO text -/

theorem isoTerms_term {text : List Char} (nonempty : text ≠ []) : isoTerms text =
    (isoTerm text).bind fun read =>
      (isoTerms read.2.2).map fun terms => (read.1, read.2.1) :: terms := by
  cases text with
  | nil => exact absurd rfl nonempty
  | cons c text =>
    rw [isoTerms]
    split
    · rename_i none
      rw [none]
      rfl
    · rename_i some
      rw [some]
      rfl

theorem isoTerm_append {digits text : List Char} {unit : Char} (counted : digits ≠ [])
    (digit : ∀ c ∈ digits, c.isDigit = true) (letter : unit.isAlpha = true) :
    isoTerm (digits ++ unit :: text) =
      (checked (count digits)).map fun num => (num, unit, text) := by
  have ends : ∀ c ∈ (unit :: text).head?, c.isDigit = false := by
    rintro c ⟨⟩
    exact isAlpha_not_digit letter
  rw [isoTerm, readCount_digits digit ends (Nat.zero_le _)]
  change ((checked (count digits)).map _).bind _ = _
  cases checked (count digits) with
  | none => rfl
  | some num =>
    have some : (!digits.isEmpty) = true := by simpa using counted
    simp [some, letter]

theorem isoTerm_some {text rest : List Char} {num : ℕ} {unit : Char}
    (read : isoTerm text = some (num, unit, rest)) :
    ∃ digits, text = digits ++ unit :: rest ∧ digits ≠ [] ∧
      (∀ c ∈ digits, c.isDigit = true) ∧ unit.isAlpha = true := by
  rw [isoTerm, readCount_eq] at read
  simp only [Option.bind_eq_bind, Option.bind_map, Option.bind_eq_some_iff, Function.comp] at read
  obtain ⟨_, -, read⟩ := read
  split at read
  · rename_i saw
    split at read
    · cases read
    · rename_i first after left
      split at read
      · rename_i letter
        cases read
        refine ⟨text.takeWhile Char.isDigit, ?_, by simpa using saw,
          fun c member => List.all_eq_true.mp List.all_takeWhile c member, letter⟩
        rw [← left, List.takeWhile_append_dropWhile]
      · cases read
  · cases read

theorem isoText_of_terms {text : List Char} {terms : List (ℕ × Char)}
    (read : isoTerms text = some terms) : IsoText text terms := by
  induction length : text.length using Nat.strong_induction_on generalizing text terms with
  | _ size ih =>
    cases text with
    | nil =>
      rw [isoTerms] at read
      cases read
      exact .nil
    | cons c text =>
      rw [isoTerms_term (by simp)] at read
      simp only [Option.bind_eq_some_iff, Option.map_eq_some_iff] at read
      obtain ⟨⟨num, unit, rest⟩, term, later, parsed, rfl⟩ := read
      have shorter : rest.length < size := length ▸ isoTerm_length term
      obtain ⟨digits, split, counted, digit, letter⟩ := isoTerm_some term
      have counts : isoTerm (digits ++ unit :: rest) = _ := isoTerm_append counted digit letter
      rw [← split, term] at counts
      obtain ⟨_, fits, same⟩ := Option.map_eq_some_iff.mp counts.symm
      cases same
      rw [split, ← (checked_eq_some.mp fits).1]
      exact .term counted digit letter (ih rest.length shorter parsed rfl)

theorem IsoText.terms_eq {text : List Char} {terms read : List (ℕ × Char)}
    (shape : IsoText text terms) (parsed : isoTerms text = some read) : read = terms := by
  induction shape generalizing read with
  | nil =>
    rw [isoTerms] at parsed
    exact (Option.some.inj parsed).symm
  | @term digits text unit terms counted digit letter rest ih =>
    rw [isoTerms_term (by simp), isoTerm_append counted digit letter, Option.bind_map] at parsed
    simp only [Option.bind_eq_some_iff, Function.comp, Option.map_eq_some_iff] at parsed
    obtain ⟨num, fits, later, parsed, rfl⟩ := parsed
    rw [ih parsed, (checked_eq_some.mp fits).1]

/-- One part read and added up is the checked sum of any text of the grammar. -/
theorem addTerms_text (seconds : Char → Option ℕ) (lasts : ∀ unit secs,
      seconds unit = some secs → 0 < secs) {text : List Char} {terms : List (ℕ × Char)}
    (shape : IsoText text terms) {total : ℕ} (fits : total ≤ i64Max) :
    (isoTerms text).bind (addTerms seconds total) =
      (exactSum seconds terms).bind fun sum => checked (total + sum) := by
  induction shape generalizing total with
  | nil => simp [isoTerms, addTerms, exactSum, fits]
  | @term digits text unit terms counted digit letter rest ih =>
    rw [isoTerms_term (by simp), isoTerm_append counted digit letter, Option.bind_map]
    simp only [Option.bind_assoc, Option.bind_map, Function.comp_def, addTerms,
      Option.bind_eq_bind]
    cases known : seconds unit with
    | none => simp [exactSum, known]
    | some secs =>
      rw [exactSum, known, Option.bind_some, Option.bind_map]
      simp only [Option.bind_some, Function.comp_def]
      rw [← checked_step (lasts _ _ known) (exactSum seconds terms)]
      refine Option.bind_congr fun num first => ?_
      rw [← (checked_eq_some.mp first).1]
      cases second : checked (count digits * secs) with
      | none => simp
      | some term =>
        cases third : checked (total + term) with
        | none => simp [third]
        | some total' =>
          obtain ⟨same, fits⟩ := checked_eq_some.mp third
          simp only [Option.bind_some, third]
          exact ih (same ▸ fits)

/-! ### The parsers -/

theorem isoText_eq_nil {text : List Char} {terms : List (ℕ × Char)} (shape : IsoText text terms) :
    text = [] ↔ terms = [] := by
  cases shape <;> simp

theorem FriendlyText.ne_nil {text : List Char} {terms : List (ℕ × String)}
    (shape : FriendlyText text terms) (nonempty : terms ≠ []) : text ≠ [] := by
  cases shape with
  | nil => exact absurd rfl nonempty
  | separator _ _ => exact List.cons_ne_nil _ _
  | term counted _ _ _ _ _ => exact List.append_ne_nil_of_left_ne_nil counted _

theorem splitTime_untimed {date : List Char} (untimed : ∀ c ∈ date, isTime c = false) :
    splitTime date = (date, none) := by
  have all : ∀ c ∈ date, (!isTime c) = true := by simpa using untimed
  have ends : ∀ c ∈ ([] : List Char).head?, (!isTime c) = false := by simp
  have dropped := dropWhile_append_stop all ends
  rw [List.append_nil] at dropped
  rw [splitTime, dropped]

theorem splitTime_timed {date time : List Char} {mark : Char}
    (untimed : ∀ c ∈ date, isTime c = false) (timed : isTime mark = true) :
    splitTime (date ++ mark :: time) = (date, some time) := by
  have all : ∀ c ∈ date, (!isTime c) = true := by simpa using untimed
  have stop : ∀ c ∈ (mark :: time).head?, (!isTime c) = false := by
    intro c head
    cases head
    simp [timed]
  rw [splitTime, dropWhile_append_stop all stop]
  dsimp only
  rw [takeWhile_append_stop all stop]

/-- The time part starts at the first `T`, or there is none. -/
theorem splitTime_cases (text : List Char) : (∀ c ∈ text, isTime c = false) ∨
    ∃ date mark time, text = date ++ mark :: time ∧ (∀ c ∈ date, isTime c = false) ∧
      isTime mark = true := by
  have whole : text.takeWhile (!isTime ·) ++ text.dropWhile (!isTime ·) = text :=
    List.takeWhile_append_dropWhile
  have untimed : ∀ c ∈ text.takeWhile (!isTime ·), isTime c = false := by
    intro c member
    simpa using List.all_eq_true.mp List.all_takeWhile c member
  cases dropped : text.dropWhile (!isTime ·) with
  | nil =>
    left
    rw [dropped, List.append_nil] at whole
    rwa [whole] at untimed
  | cons mark time =>
    right
    have stops := List.head?_dropWhile_not (!isTime ·) text
    rw [dropped] at whole stops
    exact ⟨_, mark, time, whole.symm, untimed, by simpa using stops⟩

theorem parseDurationSecs_period {s : String} {first : Char} {rest : List Char}
    (split : s.toList = first :: rest) (period : first = 'P' ∨ first = 'p') (more : rest ≠ []) :
    parseDurationSecs s = (isoTerms (splitTime rest).1).bind fun dateTerms =>
      (addTerms dateSeconds 0 dateTerms).bind fun total =>
        match (splitTime rest).2 with
        | none => if dateTerms = [] then none else some total
        | some time =>
          if time = [] then none
          else (isoTerms time).bind fun timeTerms =>
            (addTerms timeSeconds total timeTerms).bind fun total =>
              if dateTerms = [] ∧ timeTerms = [] then none else some total := by
  have solid : s ≠ "" := by
    rintro rfl
    cases split
  have head : s.toList.head? = some 'P' ∨ s.toList.head? = some 'p' := by
    rw [split]
    simpa using period
  rw [parseDurationSecs, if_neg solid, if_pos head, parseIso8601DurationSecs, split]
  dsimp only
  rw [if_pos period, if_neg more]
  rfl

/-- A text of one of the shapes is parsed to its exact sum, if that fits. -/
theorem parseDurationSecs_spelled {s : String} {sum : Option ℕ} (spelled : Spells s sum) :
    parseDurationSecs s = sum.bind checked := by
  cases spelled with
  | @friendly terms nonempty text =>
    have solid : s ≠ "" := by
      rintro rfl
      exact text.ne_nil nonempty rfl
    have plain : ¬(s.toList.head? = some 'P' ∨ s.toList.head? = some 'p') := by
      rintro (head | head)
      · have letter := text.head _ head
        cases letter
      · have letter := text.head _ head
        cases letter
    rw [parseDurationSecs, if_neg solid, if_neg plain, parseFriendlyDurationSecs,
      parseFriendly_text text (Nat.zero_le _) (.inr nonempty)]
    simp
  | @date first date terms split period untimed nonempty text =>
    have solid : date ≠ [] := fun none => nonempty ((isoText_eq_nil text).mp none)
    rw [parseDurationSecs_period split period solid, splitTime_untimed untimed]
    have sums := addTerms_text dateSeconds (fun _ _ => dateSeconds_pos) text (Nat.zero_le i64Max)
    simp only [Nat.zero_add] at sums
    rw [← sums]
    cases read : isoTerms date with
    | none => rfl
    | some own =>
      rw [text.terms_eq read]
      simp [nonempty]
  | @time first mark date time dateTerms timeTerms split period untimed timed nonempty dateText
      timeText =>
    have solid : time ≠ [] := fun none => nonempty ((isoText_eq_nil timeText).mp none)
    rw [parseDurationSecs_period split period (by simp), splitTime_timed untimed timed]
    have sums := addTerms_text dateSeconds (fun _ _ => dateSeconds_pos) dateText (Nat.zero_le i64Max)
    simp only [Nat.zero_add] at sums
    have second (total : ℕ) (fits : total ≤ i64Max) :
        ((isoTerms time).bind fun own => (addTerms timeSeconds total own).bind fun total =>
          if dateTerms = [] ∧ own = [] then none else some total) =
        (exactSum timeSeconds timeTerms).bind fun sum => checked (total + sum) := by
      rw [← addTerms_text timeSeconds (fun _ _ => timeSeconds_pos) timeText fits]
      cases read : isoTerms time with
      | none => rfl
      | some own =>
        rw [timeText.terms_eq read]
        simp [nonempty]
    cases read : isoTerms date with
    | none =>
      rw [read, Option.bind_none] at sums
      cases dated : exactSum dateSeconds dateTerms with
      | none => rfl
      | some sum =>
        rw [dated, Option.bind_some] at sums
        have large : ¬sum ≤ i64Max := fun fits => by simp [fits] at sums
        cases exactSum timeSeconds timeTerms with
        | none => rfl
        | some sum' => exact (checked_of_lt (show i64Max < sum + sum' by omega)).symm
    | some own =>
      obtain rfl := dateText.terms_eq read
      rw [read, Option.bind_some] at sums
      simp only [Option.bind_some, solid, if_false]
      cases dated : exactSum dateSeconds own with
      | none =>
        rw [sums, dated]
        rfl
      | some sum =>
        rw [sums, dated, Option.bind_some, Option.bind_some]
        by_cases fits : sum ≤ i64Max
        · rw [checked_of_le fits, Option.bind_some, second sum fits, Option.bind_map]
          rfl
        · rw [checked_of_lt (by omega)]
          cases exactSum timeSeconds timeTerms with
          | none => rfl
          | some sum' => exact (checked_of_lt (show i64Max < sum + sum' by omega)).symm

/-- What is accepted has one of the shapes. -/
theorem spelled_of_parse {s : String} {n : ℕ} (parsed : parseDurationSecs s = some n) :
    ∃ sum, Spells s sum := by
  by_cases period : ∃ first rest, s.toList = first :: rest ∧ (first = 'P' ∨ first = 'p')
  · obtain ⟨first, rest, split, period⟩ := period
    have more : rest ≠ [] := by
      rintro rfl
      have alone : s = String.ofList [first] := by rw [← split, String.ofList_toList]
      obtain rfl | rfl := period
      all_goals
        rw [alone] at parsed
        cases parsed
    rw [parseDurationSecs_period split period more] at parsed
    obtain untimed | ⟨date, mark, time, rfl, untimed, timed⟩ := splitTime_cases rest
    · rw [splitTime_untimed untimed] at parsed
      simp only [Option.bind_eq_some_iff] at parsed
      obtain ⟨terms, read, total, -, parsed⟩ := parsed
      split at parsed
      · cases parsed
      · rename_i nonempty
        exact ⟨_, .date split period untimed nonempty (isoText_of_terms read)⟩
    · rw [splitTime_timed untimed timed] at parsed
      simp only [Option.bind_eq_some_iff] at parsed
      obtain ⟨dateTerms, read, total, -, parsed⟩ := parsed
      split at parsed
      · cases parsed
      · rename_i solid
        simp only [Option.bind_eq_some_iff] at parsed
        obtain ⟨timeTerms, read', -⟩ := parsed
        have timeText := isoText_of_terms read'
        exact ⟨_, .time split period untimed timed
          (fun none => solid ((isoText_eq_nil timeText).mpr none)) (isoText_of_terms read) timeText⟩
  · have plain : ¬(s.toList.head? = some 'P' ∨ s.toList.head? = some 'p') := by
      intro head
      apply period
      cases split : s.toList with
      | nil => simp [split] at head
      | cons first rest => exact ⟨first, rest, rfl, by simpa [split] using head⟩
    rw [parseDurationSecs] at parsed
    split at parsed
    · cases parsed
    · obtain ⟨terms, text, saw | nonempty⟩ := friendlyText_of_parse parsed
      · cases saw
      · exact ⟨_, .friendly nonempty text⟩

theorem parseDurationSecs_le {s : String} {n : ℕ} (parsed : parseDurationSecs s = some n) :
    n ≤ i64Max := by
  obtain ⟨sum, spelled⟩ := spelled_of_parse parsed
  rw [parseDurationSecs_spelled spelled] at parsed
  obtain ⟨total, -, checks⟩ := Option.bind_eq_some_iff.mp parsed
  obtain ⟨rfl, fits⟩ := checked_eq_some.mp checks
  exact fits

/-! ### What the shapes leave out -/

theorem FriendlyText.chars {text : List Char} {terms : List (ℕ × String)}
    (shape : FriendlyText text terms) :
    (∀ c ∈ text, (c.isDigit || c.isAlpha || isWhiteSpace c || c = ',') = true) ∧
      ∀ c ∈ text.getLast?, c.isDigit = false := by
  induction shape with
  | nil => simp
  | @separator c text terms separates _ ih =>
    refine ⟨fun d member => ?_, fun d last => ?_⟩
    · obtain rfl | inside := List.mem_cons.mp member
      · rw [Bool.or_assoc, separates, Bool.or_true]
      · exact ih.1 d inside
    · cases text with
      | nil =>
        obtain rfl : d = c := by simpa using last.symm
        by_contra digit
        rw [Bool.not_eq_false] at digit
        rw [isDigit_not_separator digit] at separates
        cases separates
      | cons e text =>
        rw [List.getLast?_cons_cons] at last
        exact ih.2 d last
  | @term digits spaces unit text terms counted digit space named letter rest ih =>
    refine ⟨fun d member => ?_, fun d last => ?_⟩
    · simp only [List.mem_append] at member
      obtain inside | inside | inside | inside := member
      · simp [digit d inside]
      · simp [space d inside]
      · simp [letter d inside]
      · exact ih.1 d inside
    · cases text with
      | nil =>
        obtain ⟨letters, final, rfl⟩ := List.eq_nil_or_concat unit |>.resolve_left named
        have ends : d = final := by simpa [← List.append_assoc] using last.symm
        exact isAlpha_not_digit (letter d (by simp [ends]))
      | cons e text =>
        refine ih.2 d ?_
        simpa [← List.append_assoc, List.getLast?_append] using last

theorem IsoText.chars {text : List Char} {terms : List (ℕ × Char)} (shape : IsoText text terms) :
    (∀ c ∈ text, (c.isDigit || c.isAlpha) = true) ∧ ∀ c ∈ text.getLast?, c.isDigit = false := by
  induction shape with
  | nil => simp
  | @term digits text unit terms counted digit letter rest ih =>
    refine ⟨fun d member => ?_, fun d last => ?_⟩
    · simp only [List.mem_append, List.mem_cons] at member
      obtain inside | rfl | inside := member
      · simp [digit d inside]
      · simp [letter]
      · exact ih.1 d inside
    · cases text with
      | nil =>
        have ends : d = unit := by simpa using last.symm
        exact isAlpha_not_digit (ends ▸ letter)
      | cons e text =>
        refine ih.2 d ?_
        simpa [List.getLast?_append] using last

/-- A spelled duration has no character but digits, letters, white space and commas,
and does not end in a digit. -/
theorem Spells.chars {s : String} {sum : Option ℕ} (spelled : Spells s sum) :
    (∀ c ∈ s.toList, (c.isDigit || c.isAlpha || isWhiteSpace c || c = ',') = true) ∧
      ∀ c ∈ s.toList.getLast?, c.isDigit = false := by
  have plain {c : Char} (period : c = 'P' ∨ c = 'p') : c.isAlpha = true := by
    obtain rfl | rfl := period <;> decide
  cases spelled with
  | friendly _ text => exact text.chars
  | @date first date terms split period _ nonempty text =>
    obtain ⟨classes, ends⟩ := text.chars
    rw [split]
    constructor
    · intro c member
      obtain rfl | inside := List.mem_cons.mp member
      · simp [plain period]
      · simp [classes c inside]
    · cases date with
      | nil => exact absurd ((isoText_eq_nil text).mp rfl) nonempty
      | cons e date => rwa [List.getLast?_cons_cons]
  | @time first mark date time dateTerms timeTerms split period untimed timed nonempty dateText
      timeText =>
    obtain ⟨classes, ends⟩ := timeText.chars
    have letter : mark.isAlpha = true := by
      rw [isTime, Bool.or_eq_true, decide_eq_true_eq, decide_eq_true_eq] at timed
      obtain rfl | rfl := timed <;> decide
    rw [split]
    constructor
    · intro c member
      simp only [List.mem_cons, List.mem_append] at member
      obtain rfl | inside | rfl | inside := member
      · simp [plain period]
      · simp [dateText.chars.1 c inside]
      · simp [letter]
      · simp [classes c inside]
    · cases time with
      | nil => exact absurd ((isoText_eq_nil timeText).mp rfl) nonempty
      | cons e time => simpa [List.getLast?_cons, List.getLast?_append] using ends

/-- A `T` that nothing follows makes no duration. -/
theorem parseDurationSecs_dangling {s : String} {first mark : Char} {date : List Char}
    (split : s.toList = first :: (date ++ [mark])) (period : first = 'P' ∨ first = 'p')
    (untimed : ∀ c ∈ date, isTime c = false) (timed : isTime mark = true) :
    parseDurationSecs s = none := by
  rw [parseDurationSecs_period split period (by simp), splitTime_timed untimed timed]
  simp

/-- A duration is parsed to the exact sum of its terms, and anything else is refused:
what has neither shape, a sum beyond 64 bits, a unit of no fixed length, a point, a
number at the end, a `T` at the end. -/
theorem parseDurationSecs_exact (s : String) :
    (∀ n, parseDurationSecs s = some n ↔ Spells s (some n) ∧ n ≤ i64Max) ∧
    (∀ sum, Spells s (some sum) → i64Max < sum → parseDurationSecs s = none) ∧
    (Spells s none → parseDurationSecs s = none) ∧
    ('.' ∈ s.toList → parseDurationSecs s = none) ∧
    (∀ c ∈ s.toList.getLast?, c.isDigit = true → parseDurationSecs s = none) ∧
    ∀ first date mark, s.toList = first :: (date ++ [mark]) → first = 'P' ∨ first = 'p' →
      (∀ c ∈ date, isTime c = false) → isTime mark = true → parseDurationSecs s = none := by
  have refused (unspelled : ∀ sum, ¬Spells s sum) : parseDurationSecs s = none := by
    cases parsed : parseDurationSecs s with
    | none => rfl
    | some n =>
      obtain ⟨sum, spelled⟩ := spelled_of_parse parsed
      exact absurd spelled (unspelled sum)
  refine ⟨fun n => ?_, fun sum spelled large => ?_, fun spelled => ?_, fun point => ?_,
    fun c last digit => ?_, fun first date mark split period untimed timed =>
      parseDurationSecs_dangling split period untimed timed⟩
  · constructor
    · intro parsed
      obtain ⟨sum, spelled⟩ := spelled_of_parse parsed
      have sums := parseDurationSecs_spelled spelled
      rw [parsed] at sums
      obtain ⟨total, rfl, checks⟩ := Option.bind_eq_some_iff.mp sums.symm
      obtain ⟨rfl, fits⟩ := checked_eq_some.mp checks
      exact ⟨spelled, fits⟩
    · rintro ⟨spelled, fits⟩
      rw [parseDurationSecs_spelled spelled, Option.bind_some, checked_of_le fits]
  · rw [parseDurationSecs_spelled spelled, Option.bind_some, checked_of_lt large]
  · rw [parseDurationSecs_spelled spelled, Option.bind_none]
  · refine refused fun sum spelled => ?_
    have known := spelled.chars.1 '.' point
    revert known
    decide
  · refine refused fun sum spelled => ?_
    rw [spelled.chars.2 c last] at digit
    cases digit

theorem parseDurationSecs_ninetyMinutes :
    Spells "1h 30 Min," (some 5400) ∧ parseDurationSecs "P1DT2H" = some 93600 ∧
      parseDurationSecs "1.5h" = none ∧ parseDurationSecs "P1M" = none := by
  have parsed : parseDurationSecs "1h 30 Min," = some 5400 := by decide +kernel
  have point := (parseDurationSecs_exact "1.5h").2.2.2.1
  exact ⟨(((parseDurationSecs_exact _).1 _).mp parsed).1, by decide +kernel, point (by decide),
    by decide +kernel⟩

end Pypiron.Durations
