import Pypiron.Osv

/-! Which clauses let a version through that they condemn: the scope of a clause
against the format, event by event. -/
namespace Pypiron.Osv

theorem getLast?_orderedInsert {α : Type} (r : α → α → Prop) [DecidableRel r] (a : α)
    (sorted : List α) : (sorted.orderedInsert r a).getLast? =
      if ∃ b ∈ sorted, r a b then sorted.getLast? else some a := by
  induction sorted with
  | nil => simp
  | cons b rest ih =>
    by_cases before : r a b
    · simp [List.orderedInsert_cons, before]
    · have nonempty : rest.orderedInsert r a ≠ [] := by
        intro empty
        simpa [empty] using List.orderedInsert_length (r := r) rest a
      rw [List.orderedInsert_cons, if_neg before, List.getLast?_cons_of_ne_nil nonempty, ih]
      by_cases later : ∃ c ∈ rest, r a c
      · obtain ⟨c, member, after⟩ := later
        have found : ∃ c ∈ rest, r a c := ⟨c, member, after⟩
        have foundToo : ∃ c ∈ b :: rest, r a c := ⟨c, List.mem_cons_of_mem b member, after⟩
        rw [if_pos found, if_pos foundToo, List.getLast?_cons_of_ne_nil (List.ne_nil_of_mem member)]
      · have notFound : ¬ ∃ c ∈ b :: rest, r a c := by
          rintro ⟨c, member, after⟩
          rcases List.mem_cons.mp member with rfl | member
          · exact before after
          · exact later ⟨c, member, after⟩
        rw [if_neg later, if_neg notFound]

/-- What comes last in a stable order stands before nothing that was written after it. -/
theorem getLast?_insertionSort {α : Type} {r : α → α → Prop} [DecidableRel r] {a : α}
    {list : List α} (last : (list.insertionSort r).getLast? = some a) :
    ∃ before after, list = before ++ a :: after ∧ ∀ b ∈ after, ¬ r a b := by
  induction list with
  | nil => simp at last
  | cons first rest ih =>
    rw [List.insertionSort_cons, getLast?_orderedInsert] at last
    split at last
    · obtain ⟨before, after, rfl, later⟩ := ih last
      exact ⟨first :: before, after, rfl, later⟩
    · rename_i none
      obtain rfl := Option.some.inj last
      refine ⟨[], rest, rfl, fun b member after => none ⟨b, ?_, after⟩⟩
      exact (List.mem_insertionSort r).mpr member

variable {V : Type} [LinearOrder V] (pep : Pep440 V)

/-! ### Events as they are folded -/

inductive Mark where
  | introduced (text : String)
  | fixed (text : String)

/-- What the fold reads of an event. -/
def Event.mark (event : Event) : Option Mark :=
  match event.introduced with
  | some text => some (.introduced text)
  | none => event.fixed.map .fixed

def Range.marks (range : Range) : List Mark := range.events.filterMap Event.mark

/-- No fixed version at or below `v` comes directly next. -/
def Runs (v : V) : List Mark → Prop
  | .fixed text :: _ => ∀ fixed, pep.parse text = some fixed → v < fixed
  | _ => True

/-- A version where a range begins stands at or below `v`, and no fixed version at
or below `v` comes directly after it. -/
def Held (marks : List Mark) (v : V) : Prop :=
  ∃ text rest, .introduced text :: rest <:+ marks ∧
    ∃ intro, pep.parse text = some intro ∧ intro ≤ v ∧ Runs pep v rest

theorem held_cons (mark : Mark) (marks : List Mark) (v : V) :
    Held pep (mark :: marks) v ↔ (∃ text, mark = .introduced text ∧
      ∃ intro, pep.parse text = some intro ∧ intro ≤ v ∧ Runs pep v marks) ∨
      Held pep marks v := by
  constructor
  · rintro ⟨text, rest, suffix, intro, parsed, below, runs⟩
    rcases List.suffix_cons_iff.mp suffix with same | suffix
    · obtain ⟨rfl, rfl⟩ := List.cons.inj same
      exact .inl ⟨text, rfl, intro, parsed, below, runs⟩
    · exact .inr ⟨text, rest, suffix, intro, parsed, below, runs⟩
  · rintro (⟨text, rfl, intro, parsed, below, runs⟩ |
      ⟨text, rest, suffix, intro, parsed, below, runs⟩)
    · exact ⟨text, marks, List.suffix_rfl, intro, parsed, below, runs⟩
    · exact ⟨text, rest, suffix.trans (List.suffix_cons _ _), intro, parsed, below, runs⟩

theorem within_iff (v intro : V) (fixed : Option V) :
    within v (intro, fixed) = true ↔ intro ≤ v ∧ ∀ f, fixed = some f → v < f := by
  cases fixed <;> simp [within]

theorem close_any (fold : Fold V) (v : V) : fold.close.any (within v) = true ↔
    fold.1.any (within v) = true ∨ ∃ intro, fold.2 = some intro ∧ intro ≤ v := by
  obtain ⟨pairs, opened⟩ := fold
  cases opened <;> simp [Fold.close, within]

/-- The fold from any state: a range closed before, the open one if nothing closes
it at or below `v`, or one that the events still to come hold. -/
theorem foldl_any (events : List Event) (fold : Fold V) (v : V) :
    (events.foldl (Fold.event pep) fold).close.any (within v) = true ↔
      fold.1.any (within v) = true ∨
      (∃ intro, fold.2 = some intro ∧ intro ≤ v ∧ Runs pep v (events.filterMap Event.mark)) ∨
      Held pep (events.filterMap Event.mark) v := by
  induction events generalizing fold with
  | nil =>
    have none : ¬ Held pep [] v := by
      rintro ⟨text, rest, suffix, -⟩
      simpa using List.suffix_nil.mp suffix
    rw [List.foldl_nil, close_any]
    simp [Runs, none]
  | cons event events ih =>
    obtain ⟨pairs, opened⟩ := fold
    rw [List.foldl_cons, ih]
    cases introduced : event.introduced with
    | some text =>
      have mark : event.mark = some (.introduced text) := by simp [Event.mark, introduced]
      have step : Fold.event pep (pairs, opened) event =
          (Fold.close (pairs, opened), pep.parse text) := by simp [Fold.event, introduced]
      rw [step, close_any, List.filterMap_cons_some mark, held_cons]
      simp only [Runs, Mark.introduced.injEq, and_true, exists_eq_left', or_assoc]
    | none =>
      cases fixed : event.fixed with
      | none =>
        have mark : event.mark = none := by simp [Event.mark, introduced, fixed]
        have step : Fold.event pep (pairs, opened) event = (pairs, opened) := by
          simp [Fold.event, introduced, fixed]
        rw [step, List.filterMap_cons_none mark]
      | some text =>
        have mark : event.mark = some (.fixed text) := by simp [Event.mark, introduced, fixed]
        rw [List.filterMap_cons_some mark, held_cons]
        cases opened with
        | none =>
          have step : Fold.event pep (pairs, none) event = (pairs, none) := by
            simp [Fold.event, introduced, fixed]
          simp [step]
        | some intro =>
          have step : Fold.event pep (pairs, some intro) event =
              (pairs ++ [(intro, pep.parse text)], none) := by
            simp [Fold.event, introduced, fixed]
          simp [step, within_iff, Runs, or_assoc]

theorem parseRange_any (range : Range) (v : V) :
    (parseRange pep range).any (within v) = true ↔ Held pep range.marks v := by
  rw [parseRange, foldl_any]
  simp [Range.marks, Runs]

theorem parseRanges_any (ranges : List Range) (v : V) :
    (parseRanges pep ranges).any (within v) = true ↔
      ∃ range ∈ ranges, Held pep range.marks v := by
  simp only [parseRanges, List.any_flatMap, List.any_eq_true (l := ranges), parseRange_any]

/-- Where a range begins can be read. -/
def Begins (range : Range) : Prop :=
  ∃ event ∈ range.events, ∃ text v, event.introduced = some text ∧ pep.parse text = some v

theorem foldl_close_eq_nil (events : List Event) (fold : Fold V) :
    (events.foldl (Fold.event pep) fold).close = [] ↔
      fold.close = [] ∧ ¬ Begins pep ⟨events⟩ := by
  induction events generalizing fold with
  | nil => simp [Begins]
  | cons event events ih =>
    obtain ⟨pairs, opened⟩ := fold
    rw [List.foldl_cons, ih]
    cases introduced : event.introduced with
    | some text =>
      cases parsed : pep.parse text with
      | none => simp [Fold.event, Fold.close, Begins, introduced, parsed, and_assoc]
      | some v => simp [Fold.event, Fold.close, Begins, introduced, parsed]
    | none =>
      cases fixed : event.fixed <;> cases opened <;>
        simp [Fold.event, Fold.close, Begins, introduced, fixed]

theorem parseRanges_eq_nil (ranges : List Range) :
    parseRanges pep ranges = [] ↔ ∀ range ∈ ranges, ¬ Begins pep range := by
  simp only [parseRanges, parseRange, List.flatMap_eq_nil_iff, foldl_close_eq_nil]
  simp [Fold.close]

/-! ### Events in version order -/

def boundaries (events : List Event) : List (Boundary V) :=
  events.flatMap (Event.boundaries pep)

theorem latest_introduced {range : Range} {v : V} {place : WithBot V}
    (last : latest pep range v = some ⟨place, true⟩) : place ≤ (v : WithBot V) ∧
      ∃ before after, boundaries pep range.events = before ++ ⟨place, true⟩ :: after ∧
        ∀ b ∈ after, b.version ≤ (v : WithBot V) → b.version < place := by
  obtain ⟨before, after, same, later⟩ := getLast?_insertionSort last
  obtain ⟨before, rest, split, -, kept⟩ := List.filter_eq_append_iff.mp same
  obtain ⟨skipped, after, rfl, -, here, rfl⟩ := List.filter_eq_cons_iff.mp kept
  refine ⟨by simpa using here, before ++ skipped, after, by simp [boundaries, split], ?_⟩
  intro b member below
  exact not_le.mp (later b (List.mem_filter.mpr ⟨member, by simpa using below⟩))

theorem introduced_of_mem {event : Event} {place : WithBot V}
    (member : ⟨place, true⟩ ∈ event.boundaries pep) :
    ∃ text, event.introduced = some text ∧ placeIntroduced pep text = some place := by
  simpa [Event.boundaries, Option.bind_eq_some_iff] using member

theorem filterMap_suffix_cons (event : Event) (events : List Event) :
    events.filterMap Event.mark <:+ (event :: events).filterMap Event.mark := by
  rw [← List.singleton_append, List.filterMap_append]
  exact List.suffix_append _ _

theorem mark_of_introduced {event : Event} {text : String}
    (introduced : event.introduced = some text) : event.mark = some (.introduced text) := by
  simp [Event.mark, introduced]

/-- An introduced boundary is some event's, and the boundaries of the events after
it come after it. -/
theorem introduced_split (events : List Event) {before after : List (Boundary V)}
    {place : WithBot V} (split : boundaries pep events = before ++ ⟨place, true⟩ :: after) :
    ∃ (text : String) (rest : List Event),
      .introduced text :: rest.filterMap Event.mark <:+ events.filterMap Event.mark ∧
      placeIntroduced pep text = some place ∧ ∀ b ∈ boundaries pep rest, b ∈ after := by
  induction events generalizing before with
  | nil => simp [boundaries] at split
  | cons event events ih =>
    have cut : event.boundaries pep ++ boundaries pep events =
        before ++ ⟨place, true⟩ :: after := split
    have later : ∀ skipped, boundaries pep events = skipped ++ ⟨place, true⟩ :: after →
        ∃ (text : String) (rest : List Event),
          .introduced text :: rest.filterMap Event.mark <:+
            (event :: events).filterMap Event.mark ∧
          placeIntroduced pep text = some place ∧ ∀ b ∈ boundaries pep rest, b ∈ after := by
      intro skipped cut
      obtain ⟨text, rest, suffix, placed, contained⟩ := ih cut
      exact ⟨text, rest, suffix.trans (filterMap_suffix_cons _ _), placed, contained⟩
    obtain ⟨skipped, -, cut⟩ | ⟨kept, own, cut⟩ := List.append_eq_append_iff.mp cut
    · exact later skipped cut
    · cases kept with
      | nil => exact later [] cut.symm
      | cons first kept =>
        obtain ⟨rfl, rfl⟩ := List.cons.inj cut
        have member : ⟨place, true⟩ ∈ event.boundaries pep := by simp [own]
        obtain ⟨text, introduced, placed⟩ := introduced_of_mem pep member
        refine ⟨text, events, ?_, placed, fun b member => List.mem_append_right kept member⟩
        exact List.filterMap_cons_some (mark_of_introduced introduced) ▸ List.suffix_rfl

theorem fixed_mem_boundaries {events : List Event} {text : String} {rest : List Mark} {v : V}
    (head : events.filterMap Event.mark = .fixed text :: rest)
    (parsed : pep.parse text = some v) : ⟨v, false⟩ ∈ boundaries pep events := by
  have member : Mark.fixed text ∈ events.filterMap Event.mark := by simp [head]
  obtain ⟨event, within, mark⟩ := List.mem_filterMap.mp member
  have fixed : event.fixed = some text := by
    simp only [Event.mark] at mark
    split at mark
    · simp at mark
    · simpa using mark
  exact List.mem_flatMap.mpr ⟨event, within, by simp [Event.boundaries, placeFixed, fixed, parsed]⟩

/-! ### What slips through -/

/-- The last boundary at or below a version that is below zero begins a range at `"0"`. -/
def BelowZero (range : Range) (v : V) : Prop :=
  v < pep.zero ∧ latest pep range v = some ⟨⊥, true⟩

/-- The last boundary at or below a version begins a range, and a fixed version
below it comes directly after it in the file. -/
def Backward (range : Range) (v : V) : Prop :=
  ∃ (intro : V) (text : String) (fixed : V) (fixedText : String) (rest : List Mark),
    latest pep range v = some ⟨intro, true⟩ ∧
    .introduced text :: .fixed fixedText :: rest <:+ range.marks ∧
    pep.parse text = some intro ∧ pep.parse fixedText = some fixed ∧ fixed < intro

/-- What no fold of a range holds is in it only from below zero or out of order. -/
theorem inRange_cases {range : Range} {v : V} (fresh : ¬ Held pep range.marks v)
    (inRange : InRange pep range v) : BelowZero pep range v ∨ Backward pep range v := by
  obtain ⟨⟨place, introduced⟩, last, rfl⟩ := inRange
  obtain ⟨below, before, after, split, later⟩ := latest_introduced pep last
  obtain ⟨text, rest, suffix, placed, contained⟩ := introduced_split pep _ split
  have cut : ∀ intro, pep.parse text = some intro → intro ≤ v →
      ∃ fixedText marks fixed, rest.filterMap Event.mark = .fixed fixedText :: marks ∧
        pep.parse fixedText = some fixed ∧ (fixed : WithBot V) < place := by
    intro intro parsed least
    have stopped : ¬ Runs pep v (rest.filterMap Event.mark) := fun runs =>
      fresh ⟨text, _, suffix, intro, parsed, least, runs⟩
    unfold Runs at stopped
    split at stopped
    · rename_i fixedText marks same
      push Not at stopped
      obtain ⟨fixed, parsedFixed, least⟩ := stopped
      have member := contained _ (fixed_mem_boundaries pep same parsedFixed)
      exact ⟨fixedText, marks, fixed, same, parsedFixed,
        later _ member (WithBot.coe_le_coe.mpr least)⟩
    · exact absurd trivial stopped
  unfold placeIntroduced at placed
  split at placed
  · rename_i zero
    obtain rfl := Option.some.inj placed
    refine .inl ⟨lt_of_not_ge fun least => ?_, last⟩
    obtain ⟨-, -, fixed, -, -, lower⟩ := cut pep.zero (zero ▸ pep.parse_zero) least
    exact not_lt_bot lower
  · obtain ⟨intro, parsed, rfl⟩ := Option.map_eq_some_iff.mp placed
    obtain ⟨fixedText, marks, fixed, same, parsedFixed, lower⟩ :=
      cut intro parsed (WithBot.coe_le_coe.mp below)
    exact .inr ⟨intro, text, fixed, fixedText, marks, last, same ▸ suffix, parsed, parsedFixed,
      WithBot.coe_lt_coe.mp lower⟩

/-- A version that reads, of a clause that is kept as ranges none of which holds it,
though the clause lists it, or does not say where a range begins, or has a range
that holds it below zero or out of the order the events are written in. -/
def Slips (affected : Affected) (version : String) : Prop :=
  ∃ v, pep.parse version = some v ∧ isAllVersions affected = false ∧
    (∃ range ∈ affected.ranges, Begins pep range) ∧
    (∀ range ∈ affected.ranges, ¬ Held pep range.marks v) ∧
    (Listed pep affected version ∨ Unbounded pep affected ∨
      ∃ range ∈ affected.ranges, BelowZero pep range v ∨ Backward pep range v)

theorem exact_any {affected : Affected} {version : String} {v : V}
    (parsed : pep.parse version = some v) :
    affected.versions.any (versionEq pep · version) = true ↔ Listed pep affected version := by
  simp only [List.any_eq_true, Listed]
  refine exists_congr fun text => and_congr_right fun _ => ?_
  cases read : pep.parse text with
  | none => simp [versionEq, read]
  | some w =>
    simp only [versionEq, read, parsed, decide_eq_true_eq, Option.some.injEq]
    constructor
    · exact fun same => .inr ⟨w, rfl, same.symm⟩
    · rintro (rfl | ⟨v', rfl, rfl⟩)
      · exact Option.some.inj (read.symm.trans parsed)
      · rfl

/-- Where no range begins, the format's ranges hold nothing. -/
theorem not_inRange {range : Range} (unread : ¬ Begins pep range) (v : V) :
    ¬ InRange pep range v := by
  rintro ⟨⟨place, introduced⟩, last, rfl⟩
  obtain ⟨-, before, after, split, -⟩ := latest_introduced pep last
  have member : ⟨place, true⟩ ∈ boundaries pep range.events := by simp [split]
  obtain ⟨event, within, own⟩ := List.mem_flatMap.mp member
  obtain ⟨text, introduced, placed⟩ := introduced_of_mem pep own
  unfold placeIntroduced at placed
  split at placed
  · rename_i zero
    exact unread ⟨event, within, text, pep.zero, introduced, zero ▸ pep.parse_zero⟩
  · obtain ⟨intro, parsed, -⟩ := Option.map_eq_some_iff.mp placed
    exact unread ⟨event, within, text, intro, introduced, parsed⟩

theorem matches_iff {affected : Affected} {version : String} {v : V}
    (parsed : pep.parse version = some v) :
    (scopeFor pep affected).matches pep version = true ↔ isAllVersions affected = true ∨
      (∃ range ∈ affected.ranges, Held pep range.marks v) ∨
      ((∀ range ∈ affected.ranges, ¬ Begins pep range) ∧
        (affected.versions = [] ∨ Listed pep affected version)) := by
  cases all : isAllVersions affected with
  | true => simp [scopeFor, all, VersionScope.matches]
  | false =>
    by_cases empty : parseRanges pep affected.ranges = []
    · have none := (parseRanges_eq_nil pep affected.ranges).mp empty
      have unheld : ¬ ∃ range ∈ affected.ranges, Held pep range.marks v := by
        simp [← parseRanges_any, empty]
      by_cases unlisted : affected.versions = []
      · simp [scopeFor, all, empty, VersionScope.matches, unlisted]
        exact .inr none
      · simp only [scopeFor, all, empty, VersionScope.matches, parsed]
        simpa [unlisted, unheld, ← exact_any pep parsed] using fun _ _ _ => none
    · have begins : ¬ ∀ range ∈ affected.ranges, ¬ Begins pep range := by
        rwa [← parseRanges_eq_nil]
      simp only [scopeFor, all, VersionScope.matches, parsed]
      simp only [← parseRanges_any, begins]
      simp [empty]

theorem matches_of_unread (affected : Affected) {version : String}
    (unread : pep.parse version = none) :
    (scopeFor pep affected).matches pep version = true := by
  cases scopeFor pep affected <;> simp [VersionScope.matches, unread]

theorem fails_closed_iff (affected : Affected) (version : String) :
    (IsAffected pep affected version ∨ Unbounded pep affected →
      (scopeFor pep affected).matches pep version = true) ↔ ¬ Slips pep affected version := by
  constructor
  · rintro closed ⟨v, parsed, some, ⟨range, member, begins⟩, unheld, condemned⟩
    have affects : IsAffected pep affected version ∨ Unbounded pep affected := by
      obtain listed | unbounded | ⟨range, member, below | ⟨intro, _, _, _, _, last, _⟩⟩ := condemned
      · exact .inl (.inl listed)
      · exact .inr unbounded
      · exact .inl (.inr ⟨v, parsed, range, member, _, below.2, rfl⟩)
      · exact .inl (.inr ⟨v, parsed, range, member, _, last, rfl⟩)
    obtain all | ⟨range, member, held⟩ | ⟨unread, -⟩ :=
      (matches_iff pep parsed).mp (closed affects)
    · simp [some] at all
    · exact unheld range member held
    · exact unread range member begins
  · intro tight condemned
    cases parsed : pep.parse version with
    | none => exact matches_of_unread pep affected parsed
    | some v =>
      rw [matches_iff pep parsed]
      by_contra open'
      push Not at open'
      obtain ⟨some, unheld, unmatched⟩ := open'
      by_cases begins : ∃ range ∈ affected.ranges, Begins pep range
      · apply tight
        refine ⟨v, parsed, by simpa using some, begins, unheld, ?_⟩
        obtain (listed | ⟨w, parsedToo, range, member, inRange⟩) | unbounded := condemned
        · exact .inl listed
        · obtain rfl := Option.some.inj (parsed.symm.trans parsedToo)
          exact .inr (.inr ⟨range, member, inRange_cases pep (unheld range member) inRange⟩)
        · exact .inr (.inl unbounded)
      · push Not at begins
        obtain ⟨versioned, unlisted⟩ := unmatched begins
        obtain (listed | ⟨w, -, range, member, inRange⟩) | ⟨versionless, -⟩ := condemned
        · exact unlisted listed
        · exact not_inRange pep (begins range member) w inRange
        · exact versioned versionless

/-! ### A listed version beside a range -/

/-- Releases of one digit. -/
def digits : Pep440 ℕ where
  parse text :=
    match text.toList with
    | [c] => if c.isDigit then some (c.toNat - '0'.toNat) else none
    | _ => none
  zero := 0
  parse_zero := by decide

/-- From 1 until 2, and 3. -/
def unionClause : Affected where
  ranges := [⟨[⟨some "1", none⟩, ⟨none, some "2"⟩]⟩]
  versions := ["3"]

theorem listed_slips : ¬ (IsAffected digits unionClause "3" ∨ Unbounded digits unionClause →
    (scopeFor digits unionClause).matches digits "3" = true) := by
  intro closed
  have listed : IsAffected digits unionClause "3" := .inl ⟨"3", by decide, .inl rfl⟩
  exact absurd (closed (.inl listed)) (by decide)

end Pypiron.Osv
