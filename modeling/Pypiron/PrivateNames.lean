import Mathlib.Data.List.Chain
import Pypiron.Glob
import Pypiron.Sidecar
import Pypiron.Text

/-! Reserved private names: how a raw pattern is put into its stored form, and the
greedy loop that matches a package name against it. -/
namespace Pypiron

/-! ### Matching -/

def starByte : UInt8 := 42

/-- Where the loop stands. `starI` is the last star met and `starValueI` the place
up to which that star has been let take; neither index leaves its slice. -/
structure WildcardScan (pattern : Bytes) where
  valueI : ℕ
  patternI : ℕ
  starI : Option ℕ
  starValueI : ℕ
  inPattern : patternI ≤ pattern.length
  starInside : ∀ i ∈ starI, i < pattern.length
  behind : starValueI ≤ valueI

def WildcardScan.start (pattern : Bytes) : WildcardScan pattern where
  valueI := 0
  patternI := 0
  starI := none
  starValueI := 0
  inPattern := Nat.zero_le _
  starInside := by simp
  behind := le_rfl

def WildcardScan.run (value : Bytes) {pattern : Bytes} (s : WildcardScan pattern) : Bool :=
  if more : s.valueI < value.length then
    if here : pattern[s.patternI]? = some value[s.valueI] then
      run value { s with
        valueI := s.valueI + 1
        patternI := s.patternI + 1
        inPattern := (List.getElem?_eq_some_iff.mp here).1
        behind := Nat.le_succ_of_le s.behind }
    else if here : pattern[s.patternI]? = some starByte then
      run value { s with
        patternI := s.patternI + 1
        starI := some s.patternI
        starValueI := s.valueI
        inPattern := (List.getElem?_eq_some_iff.mp here).1
        starInside := by
          rintro i ⟨⟩
          exact (List.getElem?_eq_some_iff.mp here).1
        behind := le_rfl }
    else match met : s.starI with
      | some i =>
        run value { s with
          starValueI := s.starValueI + 1
          valueI := s.starValueI + 1
          patternI := i + 1
          inPattern := s.starInside i met
          behind := le_rfl }
      | none => false
  else (pattern.drop s.patternI).all (· == starByte)
termination_by (value.length - s.starValueI, pattern.length - s.patternI)
decreasing_by
  · have := (List.getElem?_eq_some_iff.mp here).1
    exact Prod.Lex.right _ (by omega)
  · have := (List.getElem?_eq_some_iff.mp here).1
    have := s.behind
    obtain equal | less := Nat.eq_or_lt_of_le
      (show value.length - s.valueI ≤ value.length - s.starValueI by omega)
    · simp only [equal]
      exact Prod.Lex.right _ (by omega)
    · exact Prod.Lex.left _ _ less
  · have := s.behind
    exact Prod.Lex.left _ _ (by omega)

def wildcardMatch (value pattern : Bytes) : Bool := (WildcardScan.start pattern).run value

/-- What the loop has settled. Before the first star the question is about the two
rests. After one, everything from it is still open, but the text behind it has been
met literally up to here. -/
structure WildcardScan.Tracks (value : Bytes) {pattern : Bytes} (s : WildcardScan pattern) :
    Prop where
  unstarred : s.starI = none → (Fills starByte pattern value ↔
    Fills starByte (pattern.drop s.patternI) (value.drop s.valueI))
  starred : ∀ i, s.starI = some i → ∃ literal, starByte ∉ literal ∧
    pattern.drop (i + 1) = literal ++ pattern.drop s.patternI ∧
    value.drop s.starValueI = literal ++ value.drop s.valueI ∧
    (Fills starByte pattern value ↔
      Fills starByte (starByte :: pattern.drop (i + 1)) (value.drop s.starValueI))

theorem WildcardScan.tracks_start (value pattern : Bytes) :
    (WildcardScan.start pattern).Tracks value := by
  constructor
  · intro _
    rfl
  · intro i met
    cases met

theorem drop_of_getElem? {xs : List α} {i : ℕ} {x : α} (here : xs[i]? = some x) :
    xs.drop i = x :: xs.drop (i + 1) := by
  obtain ⟨bound, rfl⟩ := List.getElem?_eq_some_iff.mp here
  exact List.drop_eq_getElem_cons bound

/-- Neither test of the loop passed, so the rests do not fit as they stand. -/
theorem WildcardScan.misfit {value pattern : Bytes} (s : WildcardScan pattern)
    (more : s.valueI < value.length) (other : pattern[s.patternI]? ≠ some value[s.valueI])
    (symbol : pattern[s.patternI]? ≠ some starByte) :
    ¬Fills starByte (pattern.drop s.patternI) (value.drop s.valueI) := by
  rw [List.drop_eq_getElem_cons more]
  apply not_fills_cons
  · rwa [List.head?_drop]
  · rwa [List.head?_drop]

/-- One theorem for the whole loop: wherever it stands, it answers the question that
it still tracks. -/
theorem WildcardScan.run_iff {value pattern : Bytes} (plain : starByte ∉ value)
    (s : WildcardScan pattern) (tracks : s.Tracks value) :
    s.run value = true ↔ Fills starByte pattern value := by
  induction s using WildcardScan.run.induct value with
  | case1 s more here ih =>
    rw [WildcardScan.run, dif_pos more, dif_pos here]
    have symbol : value[s.valueI] ≠ starByte := by
      intro starred
      exact plain (starred ▸ List.getElem_mem more)
    have rest : value.drop s.valueI = value[s.valueI] :: value.drop (s.valueI + 1) :=
      List.drop_eq_getElem_cons more
    apply ih
    constructor
    · intro met
      rw [tracks.unstarred met, drop_of_getElem? here, rest]
      exact fills_symbol_cons symbol
    · intro i met
      obtain ⟨literal, free, inPattern, inValue, same⟩ := tracks.starred i met
      refine ⟨literal ++ [value[s.valueI]], ?_, ?_, ?_, same⟩
      · simp [free, Ne.symm symbol]
      · rw [inPattern, drop_of_getElem? here, List.append_assoc, List.singleton_append]
      · rw [inValue, rest, List.append_assoc, List.singleton_append]
  | case2 s more other here ih =>
    rw [WildcardScan.run, dif_pos more, dif_neg other, dif_pos here]
    apply ih
    constructor
    · intro met
      cases met
    · rintro i ⟨⟩
      refine ⟨[], by simp, rfl, rfl, ?_⟩
      cases met : s.starI with
      | none =>
        rw [tracks.unstarred met, drop_of_getElem? here]
      | some i =>
        obtain ⟨literal, free, inPattern, inValue, same⟩ := tracks.starred i met
        rw [same, inPattern, inValue, drop_of_getElem? here]
        exact fills_exchange free
  | case3 s more other symbol i met ih =>
    rw [WildcardScan.run, dif_pos more, dif_neg other, dif_neg symbol]
    split
    · rename_i j met'
      obtain rfl : i = j := by simpa [met] using met'
      apply ih
      constructor
      · intro none
        cases met.symm.trans none
      · intro j again
        obtain rfl : i = j := Option.some.inj (met.symm.trans again)
        obtain ⟨literal, free, inPattern, inValue, same⟩ := tracks.starred i met
        have within : s.starValueI < value.length := lt_of_le_of_lt s.behind more
        have first := List.drop_eq_getElem_cons within
        refine ⟨[], by simp, rfl, rfl, ?_⟩
        rw [same, first]
        apply fills_retreat
        rw [← first, inPattern, inValue, fills_literal_append free]
        exact s.misfit more other symbol
    · rename_i met'
      simp [met] at met'
  | case4 s more other symbol met =>
    rw [WildcardScan.run, dif_pos more, dif_neg other, dif_neg symbol]
    split
    · rename_i j met'
      simp [met] at met'
    · simp [tracks.unstarred met, s.misfit more other symbol]
  | case5 s ended =>
    rw [WildcardScan.run, dif_neg ended]
    have spent : value.drop s.valueI = [] := List.drop_eq_nil_of_le (by omega)
    have stars : ((pattern.drop s.patternI).all (· == starByte)) = true ↔
        Fills starByte (pattern.drop s.patternI) [] := by
      simp [fills_empty_value]
    rw [stars]
    cases met : s.starI with
    | none => rw [tracks.unstarred met, spent]
    | some i =>
      obtain ⟨literal, free, inPattern, inValue, same⟩ := tracks.starred i met
      rw [spent, List.append_nil] at inValue
      rw [same, inPattern, inValue]
      exact (fills_ended free).symm

theorem wildcardMatch_iff {value pattern : Bytes} (plain : starByte ∉ value) :
    wildcardMatch value pattern = true ↔ Fills starByte pattern value :=
  WildcardScan.run_iff plain _ (WildcardScan.tracks_start value pattern)

/-! ### The stored form -/

def isSeparator (c : Char) : Bool := c = '-' || c = '_' || c = '.'

/-- What a pattern may look like once stored: no run of dashes or of stars, no dash
at an end, and not the star alone, which would reserve every name. -/
structure Stored (text : List Char) : Prop where
  symbols : ∀ c ∈ text, c = '*' ∨ c = '-' ∨ c.isLower = true ∨ c.isDigit = true
  squeezed : text.IsChain fun a b => a = b → a ≠ '-' ∧ a ≠ '*'
  head : text.head? ≠ some '-'
  last : text.getLast? ≠ some '-'
  nonempty : text ≠ []
  named : text ≠ ['*']
  fits : (String.ofList text).utf8ByteSize ≤ 256

@[ext] structure PrivatePattern where
  text : String
  stored : Stored text.toList
  deriving DecidableEq

/-- What the loop of `parse` has pushed, and what it pushed last. -/
structure PatternState where
  normalized : List Char
  lastDash : Bool
  lastStar : Bool

def PatternState.empty : PatternState := ⟨[], false, false⟩

def PatternState.push (raw : String) (s : PatternState) (ch : Char) :
    Except String PatternState :=
  if ch = '*' then
    .ok ⟨if s.lastStar then s.normalized else s.normalized ++ ['*'], false, true⟩
  else if isSeparator ch then
    .ok ⟨if s.lastDash then s.normalized else s.normalized ++ ['-'], true, false⟩
  else if ch.isAlphanum then .ok ⟨s.normalized ++ [ch.toLower], false, false⟩
  else .error s!"invalid private pattern '{raw}': use package-name characters and '*' only"

def trimDashes (text : List Char) : List Char :=
  ((text.dropWhile (· = '-')).reverse.dropWhile (· = '-')).reverse

/-- The loop keeps what it pushed in the stored alphabet and without runs. -/
structure PatternState.Squeezed (s : PatternState) : Prop where
  symbols : ∀ c ∈ s.normalized, c = '*' ∨ c = '-' ∨ c.isLower = true ∨ c.isDigit = true
  squeezed : s.normalized.IsChain fun a b => a = b → a ≠ '-' ∧ a ≠ '*'
  dash : s.lastDash = true ↔ s.normalized.getLast? = some '-'
  star : s.lastStar = true ↔ s.normalized.getLast? = some '*'

theorem PatternState.squeezed_empty : PatternState.empty.Squeezed := by
  constructor <;> simp [PatternState.empty]

theorem toLower_symbol {c : Char} (alphanum : c.isAlphanum = true) :
    c.toLower.isLower = true ∨ c.toLower.isDigit = true := by
  simp only [Char.isAlphanum, isAlpha_iff, Bool.or_eq_true, isUpper_iff, isLower_iff,
    isDigit_iff] at alphanum
  rw [isLower_iff, isDigit_iff, toNat_toLower]
  split
  · rename_i upper
    rw [isUpper_iff] at upper
    omega
  · rename_i upper
    rw [isUpper_iff] at upper
    omega

/-- The other characters of a stored pattern are pushed as they are. -/
theorem stored_symbol {c : Char} (symbol : c.isLower = true ∨ c.isDigit = true) :
    c ≠ '*' ∧ isSeparator c = false ∧ c.isAlphanum = true ∧ c.toLower = c := by
  have range := symbol
  rw [isLower_iff, isDigit_iff] at range
  refine ⟨?_, ?_, ?_, ?_⟩
  · rintro rfl
    simp at range
  · simp only [isSeparator, Bool.or_eq_false_iff, decide_eq_false_iff_not]
    refine ⟨⟨?_, ?_⟩, ?_⟩ <;> rintro rfl <;> simp at range
  · obtain lower | digit := symbol
    · simp [Char.isAlphanum, isAlpha_iff, lower]
    · simp [Char.isAlphanum, digit]
  · have notUpper : ¬c.isUpper = true := by
      rw [isUpper_iff]
      omega
    apply Char.toNat_inj.mp
    rw [toNat_toLower, if_neg notUpper]

theorem isChain_concat {R : α → α → Prop} {xs : List α} {x : α} (chain : xs.IsChain R)
    (last : ∀ y ∈ xs.getLast?, R y x) : (xs ++ [x]).IsChain R := by
  rw [List.isChain_append]
  exact ⟨chain, List.isChain_singleton x, by simpa using last⟩

theorem PatternState.Squeezed.push {raw : String} {s t : PatternState} {ch : Char}
    (squeezed : s.Squeezed) (pushed : s.push raw ch = .ok t) : t.Squeezed := by
  have grow : ∀ c : Char, (c = '*' ∨ c = '-' ∨ c.isLower = true ∨ c.isDigit = true) →
      ∀ d ∈ s.normalized ++ [c], d = '*' ∨ d = '-' ∨ d.isLower = true ∨ d.isDigit = true := by
    intro c symbol d member
    obtain member | member := List.mem_append.mp member
    · exact squeezed.symbols d member
    · rwa [List.mem_singleton.mp member]
  unfold PatternState.push at pushed
  split at pushed
  · cases pushed
    by_cases repeated : s.lastStar = true
    · have last := squeezed.star.mp repeated
      rw [if_pos repeated]
      exact ⟨squeezed.symbols, squeezed.squeezed, by simp [last], by simp [last]⟩
    · rw [if_neg repeated]
      refine ⟨grow '*' (.inl rfl), isChain_concat squeezed.squeezed ?_, by simp, by simp⟩
      rintro c last rfl
      exact absurd (squeezed.star.mpr last) repeated
  · split at pushed
    · cases pushed
      by_cases repeated : s.lastDash = true
      · have last := squeezed.dash.mp repeated
        rw [if_pos repeated]
        exact ⟨squeezed.symbols, squeezed.squeezed, by simp [last], by simp [last]⟩
      · rw [if_neg repeated]
        refine ⟨grow '-' (.inr (.inl rfl)), isChain_concat squeezed.squeezed ?_, by simp, by simp⟩
        rintro c last rfl
        exact absurd (squeezed.dash.mpr last) repeated
    · split at pushed
      · rename_i alphanum
        have symbol := toLower_symbol alphanum
        obtain ⟨notStar, notSeparator, -, -⟩ := stored_symbol symbol
        have notDash : ch.toLower ≠ '-' := by
          intro dash
          simp [dash, isSeparator] at notSeparator
        cases pushed
        refine ⟨grow _ (.inr (.inr symbol)), isChain_concat squeezed.squeezed ?_, ?_, ?_⟩
        · rintro c - rfl
          exact ⟨notDash, notStar⟩
        · simp [notDash]
        · simp [notStar]
      · cases pushed

theorem PatternState.Squeezed.run {raw : String} {text : List Char} {s t : PatternState}
    (squeezed : s.Squeezed) (pushed : text.foldlM (PatternState.push raw) s = .ok t) :
    t.Squeezed := by
  induction text generalizing s with
  | nil =>
    cases pushed
    exact squeezed
  | cons ch text ih =>
    rw [List.foldlM_cons] at pushed
    cases step : s.push raw ch with
    | error e =>
      rw [step] at pushed
      cases pushed
    | ok next =>
      rw [step] at pushed
      exact ih (squeezed.push step) pushed

theorem trimDashes_starts (text : List Char) :
    trimDashes text <+: text.dropWhile (· = '-') := by
  rw [← List.reverse_suffix, trimDashes, List.reverse_reverse]
  exact List.dropWhile_suffix _

theorem trimDashes_within (text : List Char) : trimDashes text <:+: text :=
  (trimDashes_starts text).isInfix.trans (text.dropWhile_suffix (· = '-')).isInfix

theorem head_dropWhile_dash (text : List Char) :
    (text.dropWhile (· = '-')).head? ≠ some '-' := by
  intro head
  have := List.head?_dropWhile_not (fun c : Char => (c = '-' : Bool)) text
  rw [head] at this
  simp at this

theorem getLast?_trimDashes (text : List Char) : (trimDashes text).getLast? ≠ some '-' := by
  rw [trimDashes, List.getLast?_reverse]
  exact head_dropWhile_dash _

theorem head?_trimDashes (text : List Char) : (trimDashes text).head? ≠ some '-' := by
  intro head
  obtain ⟨rest, same⟩ := trimDashes_starts text
  apply head_dropWhile_dash text
  rw [← same, List.head?_append, head]
  rfl

theorem PatternState.Squeezed.stored {s : PatternState} (squeezed : s.Squeezed)
    (nonempty : trimDashes s.normalized ≠ []) (named : trimDashes s.normalized ≠ ['*'])
    (fits : (String.ofList (trimDashes s.normalized)).utf8ByteSize ≤ 256) :
    Stored (trimDashes s.normalized) where
  symbols c member := squeezed.symbols c ((trimDashes_within _).subset member)
  squeezed := squeezed.squeezed.infix (trimDashes_within _)
  head := head?_trimDashes _
  last := getLast?_trimDashes _
  nonempty := nonempty
  named := named
  fits := fits

def PrivatePattern.parse (raw : String) : Except String PrivatePattern :=
  let raw := trim raw
  if raw = "" then .error "private pattern is empty"
  else match pushed : raw.toList.foldlM (PatternState.push raw) .empty with
    | .error e => .error e
    | .ok s =>
      let normalized := trimDashes s.normalized
      if all : normalized = ['*'] then
        .error "private pattern '*' would reserve every package name; list the private namespaces or names explicitly"
      else if unfit : normalized = [] ∨ 256 < (String.ofList normalized).utf8ByteSize then
        .error s!"invalid private pattern '{raw}'"
      else if '*' ∉ normalized ∧
          checkedPkgName (String.ofList normalized) ≠ some (String.ofList normalized) then
        .error s!"invalid private package name '{raw}'"
      else .ok {
        text := String.ofList normalized
        stored := by
          simp only [not_or, not_lt] at unfit
          rw [String.toList_ofList]
          exact (PatternState.squeezed_empty.run pushed).stored unfit.1 all unfit.2 }

def PrivatePattern.matchesPackage (p : PrivatePattern) (package : String) : Bool :=
  wildcardMatch (utf8 package) (utf8 p.text)

/-- What an accepted raw pattern went through. -/
theorem PrivatePattern.parse_ok {raw : String} {p : PrivatePattern} (parsed : parse raw = .ok p) :
    ∃ s : PatternState, (trim raw).toList.foldlM (PatternState.push (trim raw)) .empty = .ok s ∧
      trim raw ≠ "" ∧ p.text = String.ofList (trimDashes s.normalized) := by
  simp only [parse] at parsed
  split at parsed
  · cases parsed
  · rename_i nonempty
    split at parsed
    · cases parsed
    · rename_i s pushed
      split at parsed
      · cases parsed
      · split at parsed
        · cases parsed
        · split at parsed
          · cases parsed
          · cases parsed
            exact ⟨s, pushed, nonempty, rfl⟩

/-! ### Parsing the stored form again -/

theorem PatternState.run_stored {raw : String} {text : List Char} {s : PatternState}
    (squeezed : s.Squeezed)
    (symbols : ∀ c ∈ text, c = '*' ∨ c = '-' ∨ c.isLower = true ∨ c.isDigit = true)
    (chain : (s.normalized ++ text).IsChain fun a b => a = b → a ≠ '-' ∧ a ≠ '*') :
    ∃ t : PatternState, text.foldlM (PatternState.push raw) s = .ok t ∧
      t.normalized = s.normalized ++ text := by
  induction text generalizing s with
  | nil => exact ⟨s, rfl, (List.append_nil _).symm⟩
  | cons c text ih =>
    have joint : ∀ last ∈ s.normalized.getLast?, last = c → last ≠ '-' ∧ last ≠ '*' := by
      intro last member
      exact (List.isChain_append.mp chain).2.2 last member c rfl
    have step : ∃ next : PatternState, s.push raw c = .ok next ∧
        next.normalized = s.normalized ++ [c] := by
      obtain rfl | rfl | symbol := symbols c List.mem_cons_self
      · have first : s.lastStar = false := by
          rw [← Bool.not_eq_true, squeezed.star]
          intro last
          exact (joint _ last rfl).2 rfl
        exact ⟨⟨s.normalized ++ ['*'], false, true⟩, by simp [push, first], rfl⟩
      · have first : s.lastDash = false := by
          rw [← Bool.not_eq_true, squeezed.dash]
          intro last
          exact (joint _ last rfl).1 rfl
        exact ⟨⟨s.normalized ++ ['-'], true, false⟩, by simp [push, first, isSeparator], rfl⟩
      · obtain ⟨notStar, notSeparator, alphanum, lower⟩ := stored_symbol symbol
        exact ⟨⟨s.normalized ++ [c], false, false⟩,
          by simp [push, notStar, notSeparator, alphanum, lower], rfl⟩
    obtain ⟨next, pushed, grown⟩ := step
    obtain ⟨t, run, ends⟩ := ih (squeezed.push pushed)
      (fun d member => symbols d (List.mem_cons_of_mem c member)) (by simpa [grown] using chain)
    refine ⟨t, ?_, by simp [ends, grown]⟩
    rw [List.foldlM_cons, pushed]
    exact run

/-! ### Patterns without a star -/

theorem PatternState.star_kept {raw : String} {text : List Char} {s t : PatternState}
    (held : '*' ∈ s.normalized) (pushed : text.foldlM (PatternState.push raw) s = .ok t) :
    '*' ∈ t.normalized := by
  induction text generalizing s with
  | nil =>
    cases pushed
    exact held
  | cons ch text ih =>
    rw [List.foldlM_cons] at pushed
    cases step : s.push raw ch with
    | error e =>
      rw [step] at pushed
      cases pushed
    | ok next =>
      rw [step] at pushed
      refine ih ?_ pushed
      unfold PatternState.push at step
      split at step
      · cases step
        dsimp only
        split <;> simp [held]
      · split at step
        · cases step
          dsimp only
          split <;> simp [held]
        · split at step
          · cases step
            simp [held]
          · cases step

/-- The loop of `normalizePkgName`. -/
def squeezeName (state : List Char × Bool) (ch : Char) : List Char × Bool :=
  if ch = '-' ∨ ch = '_' ∨ ch = '.' then
    if state.2 then state else (state.1 ++ ['-'], true)
  else (state.1 ++ [ch], false)

theorem normalizePkgName_eq (name : String) :
    normalizePkgName name = String.ofList
      (trimDashes ((name.toList.map Char.toLower).foldl squeezeName ([], false)).1) := rfl

theorem toLower_separator {c : Char} (separator : isSeparator c = true) : c.toLower = c := by
  simp only [isSeparator, Bool.or_eq_true, decide_eq_true_eq] at separator
  obtain (rfl | rfl) | rfl := separator <;> rfl

/-- Where no star was pushed, the two loops push the same. -/
theorem PatternState.run_squeezeName {raw : String} {text : List Char} {s t : PatternState}
    (squeezed : s.Squeezed) (pushed : text.foldlM (PatternState.push raw) s = .ok t)
    (plain : '*' ∉ t.normalized) :
    (text.map Char.toLower).foldl squeezeName (s.normalized, s.lastDash) =
      (t.normalized, t.lastDash) := by
  induction text generalizing s with
  | nil =>
    cases pushed
    rfl
  | cons ch text ih =>
    rw [List.foldlM_cons] at pushed
    cases step : s.push raw ch with
    | error e =>
      rw [step] at pushed
      cases pushed
    | ok next =>
      rw [step] at pushed
      have later := ih (squeezed.push step) pushed
      have now : squeezeName (s.normalized, s.lastDash) ch.toLower =
          (next.normalized, next.lastDash) := by
        unfold PatternState.push at step
        split at step
        · cases step
          refine absurd (star_kept ?_ pushed) plain
          dsimp only
          split
          · rename_i repeated
            exact List.mem_of_getLast? (squeezed.star.mp repeated)
          · simp
        · split at step
          · rename_i separator
            cases step
            rw [toLower_separator separator]
            simp only [isSeparator, Bool.or_eq_true, decide_eq_true_eq, or_assoc] at separator
            rw [squeezeName, if_pos separator]
            cases s.lastDash <;> rfl
          · split at step
            · rename_i alphanum
              cases step
              obtain ⟨-, notSeparator, -, -⟩ := stored_symbol (toLower_symbol alphanum)
              simp only [isSeparator, Bool.or_eq_false_iff, decide_eq_false_iff_not,
                ← not_or] at notSeparator
              rw [or_assoc] at notSeparator
              rw [squeezeName, if_neg notSeparator]
            · cases step
      rw [List.map_cons, List.foldl_cons, now]
      exact later

theorem dropWhile_dash_self {text : List Char} (head : text.head? ≠ some '-') :
    text.dropWhile (· = '-') = text := by
  cases text with
  | nil => rfl
  | cons c text =>
    rw [List.head?_cons, ne_eq, Option.some.injEq] at head
    exact List.dropWhile_cons_of_neg (by simp [head])

theorem trimDashes_self {text : List Char} (head : text.head? ≠ some '-')
    (last : text.getLast? ≠ some '-') : trimDashes text = text := by
  rw [trimDashes, dropWhile_dash_self head, dropWhile_dash_self, List.reverse_reverse]
  rwa [List.head?_reverse]

theorem mem_dropWhile_dash {text : List Char} {c : Char} (other : c ≠ '-') (member : c ∈ text) :
    c ∈ text.dropWhile (· = '-') := by
  rw [← List.takeWhile_append_dropWhile (p := fun c : Char => (c = '-' : Bool)) (l := text),
    List.mem_append] at member
  obtain taken | kept := member
  · have dash := List.all_eq_true.mp List.all_takeWhile c taken
    exact absurd (by simpa using dash) other
  · exact kept

theorem mem_trimDashes {text : List Char} {c : Char} (other : c ≠ '-') (member : c ∈ text) :
    c ∈ trimDashes text := by
  rw [trimDashes, List.mem_reverse]
  exact mem_dropWhile_dash other (List.mem_reverse.mpr (mem_dropWhile_dash other member))

theorem Stored.run {text : List Char} (stored : Stored text) (raw : String) :
    ∃ t : PatternState, text.foldlM (PatternState.push raw) .empty = .ok t ∧
      t.normalized = text :=
  PatternState.run_stored PatternState.squeezed_empty stored.symbols stored.squeezed

theorem Stored.usable {text : List Char} (stored : Stored text) (plain : '*' ∉ text) :
    isNormalized (String.ofList text) = true := by
  simp only [isNormalized, Bool.and_eq_true, decide_eq_true_eq, Bool.not_eq_true',
    decide_eq_false_iff_not, String.toList_ofList, List.all_eq_true, Bool.or_eq_true]
  refine ⟨⟨⟨⟨?_, stored.fits⟩, stored.head⟩, stored.last⟩, ?_⟩
  · simpa using stored.nonempty
  · intro c member
    obtain rfl | rfl | symbol := stored.symbols c member
    · exact absurd member plain
    · exact .inr rfl
    · exact .inl symbol

theorem Stored.normal {text : List Char} (stored : Stored text) (plain : '*' ∉ text) :
    normalizePkgName (String.ofList text) = String.ofList text := by
  obtain ⟨t, run, rfl⟩ := stored.run ""
  have same := PatternState.run_squeezeName PatternState.squeezed_empty run plain
  rw [normalizePkgName_eq, String.toList_ofList]
  change String.ofList (trimDashes ((t.normalized.map Char.toLower).foldl squeezeName
    (PatternState.empty.normalized, PatternState.empty.lastDash)).1) = _
  rw [same, trimDashes_self stored.head stored.last]

/-- A stored pattern without a star is the normalized name that it matches. -/
theorem Stored.checked {text : List Char} (stored : Stored text) (plain : '*' ∉ text) :
    checkedPkgName (String.ofList text) = some (String.ofList text) := by
  rw [checkedPkgName, stored.normal plain, if_pos (stored.usable plain)]

/-- A text that the loop turns into a stored form is accepted: the last check of
`parse`, that a pattern without a star is a usable name, never fails. -/
theorem PrivatePattern.parse_of_pushed {raw : String} {s : PatternState} {p : PrivatePattern}
    (nonempty : trim raw ≠ "")
    (pushed : (trim raw).toList.foldlM (PatternState.push (trim raw)) .empty = .ok s)
    (same : p.text = String.ofList (trimDashes s.normalized)) : parse raw = .ok p := by
  have stored := p.stored
  rw [same, String.toList_ofList] at stored
  simp only [parse, if_neg nonempty]
  split
  · rename_i e failed
    cases failed.symm.trans pushed
  · rename_i t run
    cases run.symm.trans pushed
    rw [dif_neg stored.named, dif_neg, if_neg]
    · exact congrArg Except.ok (PrivatePattern.ext same.symm)
    · rintro ⟨plain, refused⟩
      exact refused (stored.checked plain)
    · rintro (none | long)
      · exact stored.nonempty none
      · exact absurd stored.fits (not_le_of_gt long)

/-- The name that a pattern without a star reserves is the one that the raw text
normalizes to. -/
theorem PrivatePattern.checked_raw {raw : String} {p : PrivatePattern} (parsed : parse raw = .ok p)
    (plain : '*' ∉ p.text.toList) : checkedPkgName (trim raw) = some p.text := by
  obtain ⟨s, pushed, -, same⟩ := parse_ok parsed
  have usable := p.stored.usable plain
  rw [String.ofList_toList] at usable
  rw [same, String.toList_ofList] at plain
  have unstarred : '*' ∉ s.normalized := fun member => plain (mem_trimDashes (by decide) member)
  have run := PatternState.run_squeezeName PatternState.squeezed_empty pushed unstarred
  have normal : normalizePkgName (trim raw) = p.text := by
    rw [normalizePkgName_eq, same]
    exact congrArg (fun state : List Char × Bool => String.ofList (trimDashes state.1)) run
  rw [checkedPkgName, normal, if_pos usable]

theorem isWhiteSpace_alphanum {c : Char} (alphanum : c.isAlphanum = true) :
    isWhiteSpace c = false := by
  simp only [Char.isAlphanum, isAlpha_iff, Bool.or_eq_true, isUpper_iff, isLower_iff,
    isDigit_iff] at alphanum
  simp only [isWhiteSpace, Bool.or_eq_false_iff, Bool.and_eq_false_iff, decide_eq_false_iff_not,
    beq_eq_false_iff_ne, ne_eq]
  omega

theorem dropWhile_of_spaceless {text : List Char}
    (spaceless : ∀ c ∈ text, isWhiteSpace c = false) : text.dropWhile isWhiteSpace = text := by
  cases text with
  | nil => rfl
  | cons c text => exact List.dropWhile_cons_of_neg (by simp [spaceless c List.mem_cons_self])

/-- Parsing what was stored changes nothing. -/
theorem PrivatePattern.parse_text (p : PrivatePattern) : parse p.text = .ok p := by
  have spaceless : ∀ c ∈ p.text.toList, isWhiteSpace c = false := by
    intro c member
    obtain rfl | rfl | symbol := p.stored.symbols c member
    · rfl
    · rfl
    · exact isWhiteSpace_alphanum (stored_symbol symbol).2.2.1
  have untouched : trim p.text = p.text := by
    rw [trim, dropWhile_of_spaceless spaceless, dropWhile_of_spaceless, List.reverse_reverse,
      String.ofList_toList]
    intro c member
    exact spaceless c (List.mem_reverse.mp member)
  obtain ⟨s, pushed, same⟩ := p.stored.run p.text
  apply parse_of_pushed (s := s)
  · rw [untouched]
    intro empty
    exact p.stored.nonempty (by simp [empty])
  · rwa [untouched]
  · rw [same, trimDashes_self p.stored.head p.stored.last, String.ofList_toList]

/-! ### Respelling -/

/-- The same raw pattern up to case and up to the kind and length of its runs of
separators. -/
inductive Respelled : List Char → List Char → Prop where
  | nil : Respelled [] []
  | symbol {c d : Char} {raw raw' : List Char} (same : c.toLower = d.toLower)
      (rest : Respelled raw raw') : Respelled (c :: raw) (d :: raw')
  | run {r r' raw raw' : List Char} (nonempty : r ≠ []) (nonempty' : r' ≠ [])
      (separators : ∀ c ∈ r, isSeparator c = true) (separators' : ∀ c ∈ r', isSeparator c = true)
      (rest : Respelled raw raw') : Respelled (r ++ raw) (r' ++ raw')

theorem Respelled.append {a b c d : List Char} (first : Respelled a b) (second : Respelled c d) :
    Respelled (a ++ c) (b ++ d) := by
  induction first with
  | nil => exact second
  | symbol same _ ih => exact .symbol same ih
  | run nonempty nonempty' separators separators' _ ih =>
    rw [List.append_assoc, List.append_assoc]
    exact .run nonempty nonempty' separators separators' ih

theorem Respelled.reverse {a b : List Char} (respelled : Respelled a b) :
    Respelled a.reverse b.reverse := by
  induction respelled with
  | nil => exact .nil
  | symbol same _ ih =>
    rw [List.reverse_cons, List.reverse_cons]
    exact ih.append (.symbol same .nil)
  | run nonempty nonempty' separators separators' _ ih =>
    rw [List.reverse_append, List.reverse_append]
    apply ih.append
    have reversed : Respelled _ _ := .run (by simpa using nonempty)
      (by simpa using nonempty') (fun c member => separators c (List.mem_reverse.mp member))
      (fun c member => separators' c (List.mem_reverse.mp member)) .nil
    simpa using reversed

theorem toLower_eq {c d : Char} (same : c.toLower = d.toLower) :
    c = d ∨ (c.isAlphanum = true ∧ d.isAlphanum = true) := by
  have equal := congrArg Char.toNat same
  rw [toNat_toLower, toNat_toLower] at equal
  simp only [Char.isAlphanum, isAlpha_iff, Bool.or_eq_true, isUpper_iff, isLower_iff,
    isDigit_iff, ← Char.toNat_inj] at equal ⊢
  split at equal <;> split at equal <;> omega

theorem isWhiteSpace_separator {c : Char} (separator : isSeparator c = true) :
    isWhiteSpace c = false := by
  simp only [isSeparator, Bool.or_eq_true, decide_eq_true_eq] at separator
  obtain (rfl | rfl) | rfl := separator <;> rfl

theorem isWhiteSpace_eq {c d : Char} (same : c.toLower = d.toLower) :
    isWhiteSpace c = isWhiteSpace d := by
  obtain rfl | ⟨first, second⟩ := toLower_eq same
  · rfl
  · rw [isWhiteSpace_alphanum first, isWhiteSpace_alphanum second]

theorem Respelled.dropWhile {a b : List Char} (respelled : Respelled a b) :
    Respelled (a.dropWhile isWhiteSpace) (b.dropWhile isWhiteSpace) := by
  induction respelled with
  | nil => exact .nil
  | @symbol c d raw raw' same rest ih =>
    rw [List.dropWhile_cons, List.dropWhile_cons, isWhiteSpace_eq same]
    split
    · exact ih
    · exact .symbol same rest
  | @run r r' raw raw' nonempty nonempty' separators separators' rest _ =>
    have stays : ∀ {r raw : List Char}, r ≠ [] → (∀ c ∈ r, isSeparator c = true) →
        (r ++ raw).dropWhile isWhiteSpace = r ++ raw := by
      intro r raw nonempty separators
      cases r with
      | nil => exact absurd rfl nonempty
      | cons c r =>
        have solid := isWhiteSpace_separator (separators c List.mem_cons_self)
        exact List.dropWhile_cons_of_neg (by simp [solid])
    rw [stays nonempty separators, stays nonempty' separators']
    exact .run nonempty nonempty' separators separators' rest

theorem Respelled.trim {raw raw' : String} (respelled : Respelled raw.toList raw'.toList) :
    Respelled (Pypiron.trim raw).toList (Pypiron.trim raw').toList := by
  rw [Pypiron.trim, Pypiron.trim, String.toList_ofList, String.toList_ofList]
  exact respelled.dropWhile.reverse.dropWhile.reverse

theorem Respelled.ne_nil {a b : List Char} (respelled : Respelled a b) (nonempty : a ≠ []) :
    b ≠ [] := by
  cases respelled with
  | nil => exact nonempty
  | symbol _ _ => exact List.cons_ne_nil _ _
  | run _ nonempty' _ _ _ => exact List.append_ne_nil_of_left_ne_nil nonempty' _

/-- A run of separators pushes one dash, or none after a dash. -/
theorem PatternState.push_run {raw : String} {r : List Char} (s : PatternState)
    (nonempty : r ≠ []) (separators : ∀ c ∈ r, isSeparator c = true) :
    r.foldlM (PatternState.push raw) s =
      .ok ⟨if s.lastDash then s.normalized else s.normalized ++ ['-'], true, false⟩ := by
  have one : ∀ (s : PatternState) {c : Char}, isSeparator c = true → s.push raw c =
      .ok ⟨if s.lastDash then s.normalized else s.normalized ++ ['-'], true, false⟩ := by
    intro s c separator
    have symbol : c ≠ '*' := by
      rintro rfl
      cases separator
    rw [PatternState.push, if_neg symbol, if_pos separator]
  have more : ∀ (r : List Char), (∀ c ∈ r, isSeparator c = true) → ∀ kept : List Char,
      r.foldlM (PatternState.push raw) ⟨kept, true, false⟩ = .ok ⟨kept, true, false⟩ := by
    intro r
    induction r with
    | nil => exact fun _ kept => rfl
    | cons c r ih =>
      intro separators kept
      rw [List.foldlM_cons, one _ (separators c List.mem_cons_self)]
      exact ih (fun d member => separators d (List.mem_cons_of_mem c member)) kept
  cases r with
  | nil => exact absurd rfl nonempty
  | cons c r =>
    rw [List.foldlM_cons, one s (separators c List.mem_cons_self)]
    exact more r (fun d member => separators d (List.mem_cons_of_mem c member)) _

theorem PatternState.push_symbol {raw raw' : String} {s t : PatternState} {c d : Char}
    (same : c.toLower = d.toLower) (pushed : s.push raw c = .ok t) : s.push raw' d = .ok t := by
  obtain rfl | ⟨first, second⟩ := toLower_eq same
  · unfold PatternState.push at pushed ⊢
    by_cases starred : c = '*'
    · rwa [if_pos starred] at pushed ⊢
    · rw [if_neg starred] at pushed ⊢
      by_cases separator : isSeparator c = true
      · rwa [if_pos separator] at pushed ⊢
      · rw [if_neg separator] at pushed ⊢
        by_cases alphanum : c.isAlphanum = true
        · rwa [if_pos alphanum] at pushed ⊢
        · rw [if_neg alphanum] at pushed
          cases pushed
  · have plain : ∀ {c : Char} {raw : String}, c.isAlphanum = true →
        s.push raw c = .ok ⟨s.normalized ++ [c.toLower], false, false⟩ := by
      intro c raw alphanum
      have symbol : c ≠ '*' := by
        rintro rfl
        cases alphanum
      have solid : ¬isSeparator c = true := by
        intro separator
        simp only [isSeparator, Bool.or_eq_true, decide_eq_true_eq] at separator
        obtain (rfl | rfl) | rfl := separator <;> cases alphanum
      rw [PatternState.push, if_neg symbol, if_neg solid, if_pos alphanum]
    rw [plain first] at pushed
    rw [plain second, ← same]
    exact pushed

theorem PatternState.run_respelled {raw raw' : String} {text text' : List Char}
    (respelled : Respelled text text') {s t : PatternState}
    (pushed : text.foldlM (PatternState.push raw) s = .ok t) :
    text'.foldlM (PatternState.push raw') s = .ok t := by
  induction respelled generalizing s with
  | nil => exact pushed
  | @symbol c d _ _ same _ ih =>
    rw [List.foldlM_cons] at pushed ⊢
    cases step : s.push raw c with
    | error e =>
      rw [step] at pushed
      cases pushed
    | ok next =>
      rw [step] at pushed
      rw [push_symbol same step]
      exact ih pushed
  | run nonempty nonempty' separators separators' _ ih =>
    rw [List.foldlM_append, push_run s nonempty separators] at pushed
    rw [List.foldlM_append, push_run s nonempty' separators']
    exact ih pushed

/-- A respelling of an accepted pattern is the same pattern. -/
theorem PrivatePattern.parse_respelled {raw raw' : String} {p : PrivatePattern}
    (parsed : parse raw = .ok p) (respelled : Respelled raw.toList raw'.toList) :
    parse raw' = .ok p := by
  obtain ⟨s, pushed, nonempty, same⟩ := parse_ok parsed
  have trimmed := respelled.trim
  refine parse_of_pushed ?_ (PatternState.run_respelled trimmed pushed) same
  intro empty
  apply trimmed.ne_nil
  · simpa using nonempty
  · simp [empty]

/-! ### What a pattern reserves -/

theorem utf8EncodeChar_ascii {c : Char} (ascii : c.toNat < 128) :
    String.utf8EncodeChar c = [UInt8.ofNat c.toNat] :=
  if_pos (Nat.lt_succ_iff.mp ascii)

theorem mem_utf8 {text : String} (ascii : ∀ c ∈ text.toList, c.toNat < 128) {b : UInt8} :
    b ∈ utf8 text ↔ ∃ c ∈ text.toList, b = UInt8.ofNat c.toNat := by
  have encoded : utf8 text = text.toList.flatMap String.utf8EncodeChar := by
    rw [utf8, ← String.utf8Encode_toList, List.utf8Encode]
    simp
  rw [encoded, List.mem_flatMap]
  constructor
  · rintro ⟨c, member, within⟩
    rw [utf8EncodeChar_ascii (ascii c member), List.mem_singleton] at within
    exact ⟨c, member, within⟩
  · rintro ⟨c, member, rfl⟩
    refine ⟨c, member, ?_⟩
    rw [utf8EncodeChar_ascii (ascii c member)]
    exact List.mem_singleton_self _

theorem byte_inj {c d : Char} (ascii : c.toNat < 128) (ascii' : d.toNat < 128)
    (same : UInt8.ofNat c.toNat = UInt8.ofNat d.toNat) : c = d := by
  have equal := congrArg UInt8.toNat same
  rw [UInt8.toNat_ofNat', UInt8.toNat_ofNat'] at equal
  apply Char.toNat_inj.mp
  omega

theorem ascii_symbol {c : Char} (symbol : c = '*' ∨ c = '-' ∨ c.isLower = true ∨ c.isDigit = true) :
    c.toNat < 128 := by
  rw [isLower_iff, isDigit_iff] at symbol
  obtain rfl | rfl | range := symbol
  · decide
  · decide
  · omega

/-- A normalized name has nothing but the stored alphabet, and no star. -/
theorem symbols_of_isNormalized {name : String} (normalized : isNormalized name = true) {c : Char}
    (member : c ∈ name.toList) : c = '-' ∨ c.isLower = true ∨ c.isDigit = true := by
  simp only [isNormalized, Bool.and_eq_true, List.all_eq_true, Bool.or_eq_true,
    decide_eq_true_eq] at normalized
  obtain symbol | rfl := normalized.2 c member
  · exact .inr symbol
  · exact .inl rfl

theorem starByte_not_mem {text : String}
    (symbols : ∀ c ∈ text.toList, c = '-' ∨ c.isLower = true ∨ c.isDigit = true) :
    starByte ∉ utf8 text := by
  have ascii : ∀ c ∈ text.toList, c.toNat < 128 :=
    fun c member => ascii_symbol (.inr (symbols c member))
  rw [mem_utf8 ascii]
  rintro ⟨c, member, same⟩
  obtain rfl : '*' = c := byte_inj (by decide) (ascii c member) same
  obtain dash | lower | digit := symbols _ member
  · cases dash
  · cases lower
  · cases digit

/-- A pattern without a star matches the one name it is. -/
theorem PrivatePattern.matches_plain {p : PrivatePattern} (plain : '*' ∉ p.text.toList)
    {name : String} (normalized : isNormalized name = true) :
    p.matchesPackage name = true ↔ name = p.text := by
  have unstarred : starByte ∉ utf8 p.text := by
    apply starByte_not_mem
    intro c member
    obtain rfl | symbol := p.stored.symbols c member
    · exact absurd member plain
    · exact symbol
  rw [matchesPackage, wildcardMatch_iff (starByte_not_mem fun c => symbols_of_isNormalized normalized),
    fills_plain unstarred, utf8_inj]

/-- A stored pattern has something that is not a star. -/
theorem Stored.solid {text : List Char} (stored : Stored text) : ∃ c ∈ text, c ≠ '*' := by
  by_contra none
  push Not at none
  cases text with
  | nil => exact stored.nonempty rfl
  | cons c text =>
    cases text with
    | nil => exact stored.named (by rw [none c List.mem_cons_self])
    | cons d text =>
      have first := none c (by simp)
      have second := none d (by simp)
      have apart := (List.isChain_cons_cons.mp stored.squeezed).1
      exact (apart (first.trans second.symm)).2 first

/-- No pattern reserves every name: one letter of two is not among its symbols. -/
theorem PrivatePattern.spares (p : PrivatePattern) :
    ∃ name, isNormalized name = true ∧ p.matchesPackage name = false := by
  obtain ⟨c, member, solid⟩ := p.stored.solid
  have ascii := ascii_symbol (p.stored.symbols c member)
  have letter : ∀ {d : Char}, d ≠ c → isNormalized (String.ofList [d]) = true →
      p.matchesPackage (String.ofList [d]) = false := by
    intro d other normalized
    have within : UInt8.ofNat c.toNat ∈ utf8 p.text :=
      (mem_utf8 fun e inside => ascii_symbol (p.stored.symbols e inside)).mpr ⟨c, member, rfl⟩
    rw [← Bool.not_eq_true, matchesPackage,
      wildcardMatch_iff (starByte_not_mem fun e => symbols_of_isNormalized normalized)]
    intro fills
    have starred : UInt8.ofNat c.toNat ≠ starByte := by
      intro same
      exact solid (byte_inj ascii (by decide) same)
    have ascii' : ∀ e ∈ (String.ofList [d]).toList, e.toNat < 128 :=
      fun e inside => ascii_symbol (.inr (symbols_of_isNormalized normalized inside))
    obtain ⟨e, inside, same⟩ := (mem_utf8 ascii').mp (mem_of_fills fills within starred)
    have equal := byte_inj ascii (ascii' e inside) same
    rw [String.toList_ofList, List.mem_singleton] at inside
    exact other (inside.symm.trans equal.symm)
  by_cases here : c = 'a'
  · exact ⟨String.ofList ['b'], by decide, letter (by rw [here]; decide) (by decide)⟩
  · exact ⟨String.ofList ['a'], by decide, letter (Ne.symm here) (by decide)⟩

def acmePattern : PrivatePattern where
  text := "acme-*"
  stored := by
    have letters : "acme-*".toList = ['a', 'c', 'm', 'e', '-', '*'] := by decide
    rw [letters]
    constructor
    · simp [isLower_iff]
    · simp
    · decide
    · decide
    · decide
    · decide
    · decide

end Pypiron
