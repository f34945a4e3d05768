import Pypiron.MalwareProbe

/-! What a scan of a sorted CSV finds, and what a merge of the overlay keeps. -/
namespace Pypiron.MalwareProbe
open KeyedMap

variable {σ : Type}

/-! ### Scans -/

def Sorted (csv : List Line) : Prop := csv.Pairwise fun a b => b.modified < a.modified

theorem headLines_starts (range : ℕ) (csv : List Line) : headLines range csv <+: csv := by
  induction csv generalizing range with
  | nil => exact List.nil_prefix
  | cons line rest ih =>
      unfold headLines
      split
      · exact List.cons_prefix_cons.mpr ⟨rfl, ih _⟩
      · exact List.nil_prefix

theorem fetchCsv_starts (range : ℕ) (csv : List Line) : (fetchCsv range csv).1 <+: csv := by
  unfold fetchCsv
  split
  · exact List.prefix_refl csv
  · exact headLines_starts range csv

theorem fetchCsv_full {range : ℕ} {csv : List Line} (full : (fetchCsv range csv).2 = true) :
    (fetchCsv range csv).1 = csv := by
  unfold fetchCsv at full ⊢
  split
  next => rfl
  next long =>
    rw [if_neg long] at full
    cases full

theorem scanLines_complete (watermark horizon : ℕ) (lines : List Line) (scan : CsvScan) :
    (scanLines watermark horizon lines scan).complete = true ↔
      scan.complete = true ∨ ∃ line ∈ lines, line.modified ≤ watermark := by
  induction lines generalizing scan with
  | nil => simp [scanLines]
  | cons line rest ih =>
      unfold scanLines
      split
      next old => simp [old]
      next fresh => simp [ih, fresh]

/-- The fresh malware advisories of the lines, and those found before. -/
theorem scanLines_fresh {watermark : ℕ} (horizon : ℕ) {lines : List Line} (sorted : Sorted lines)
    (scan : CsvScan) (ts : ℕ) (id : String) :
    (ts, id) ∈ (scanLines watermark horizon lines scan).freshMal ↔
      (ts, id) ∈ scan.freshMal ∨ ∃ line ∈ lines, line.modified = ts ∧ line.id = id ∧
        watermark < ts ∧ isProbeAdvisoryId id = true ∧ isMal id = true := by
  induction lines generalizing scan with
  | nil => simp [scanLines]
  | cons line rest ih =>
      obtain ⟨older, sorted⟩ := List.pairwise_cons.mp sorted
      unfold scanLines
      split
      next old =>
        refine ⟨.inl, ?_⟩
        rintro (before | ⟨other, member, rfl, rfl, fresh, _⟩)
        · exact before
        · obtain rfl | later := List.mem_cons.mp member
          · omega
          · have := older other later
            omega
      next fresh =>
        rw [ih sorted]
        constructor
        · rintro (before | ⟨other, member, found⟩)
          · dsimp only at before
            split at before
            next wanted =>
              rcases List.mem_append.mp before with before | here
              · exact .inl before
              · cases List.mem_singleton.mp here
                simp only [Bool.and_eq_true] at wanted
                exact .inr ⟨line, List.mem_cons_self, rfl, rfl, by omega, wanted.1, wanted.2⟩
            next => exact .inl before
          · exact .inr ⟨other, List.mem_cons_of_mem _ member, found⟩
        · rintro (before | ⟨other, member, rfl, rfl, above, safe, mal⟩)
          · left
            dsimp only
            split
            · exact List.mem_append_left _ before
            · exact before
          · obtain rfl | later := List.mem_cons.mp member
            · left
              simp [safe, mal]
            · exact .inr ⟨other, later, rfl, rfl, above, safe, mal⟩

theorem scanLines_max {watermark horizon : ℕ} {lines : List Line} {scan : CsvScan} {m : ℕ}
    (max : (scanLines watermark horizon lines scan).maxModified = some m) :
    scan.maxModified = some m ∨ ∃ line ∈ lines, line.modified = m ∧ watermark < m := by
  induction lines generalizing scan with
  | nil => exact .inl max
  | cons line rest ih =>
      unfold scanLines at max
      split at max
      next => exact .inl max
      next fresh =>
        obtain before | ⟨other, member, same, above⟩ := ih max
        · dsimp only at before
          unfold advanceWatermark at before
          split at before
          · cases before
            exact .inr ⟨line, List.mem_cons_self, rfl, by omega⟩
          · exact .inl before
        · exact .inr ⟨other, List.mem_cons_of_mem _ member, same, above⟩

/-- A complete scan of a sorted CSV reads every line above the watermark. -/
theorem fetchCsv_reads {csv : List Line} (sorted : Sorted csv) {watermark range horizon : ℕ}
    (complete : (parseCsvHead csv watermark range horizon).complete = true) {line : Line}
    (listed : line ∈ csv) (fresh : watermark < line.modified) : line ∈ (fetchCsv range csv).1 := by
  obtain ⟨rest, whole⟩ := fetchCsv_starts range csv
  unfold parseCsvHead at complete
  have parts : Sorted ((fetchCsv range csv).1 ++ rest) := by rw [whole]; exact sorted
  obtain ⟨_, _, apart⟩ := List.pairwise_append.mp parts
  obtain full | ⟨old, member, below⟩ := (scanLines_complete _ _ _ _).mp complete
  · rw [fetchCsv_full full]
    exact listed
  · rw [← whole] at listed
    obtain here | later := List.mem_append.mp listed
    · exact here
    · have := apart old member line later
      omega

/-- A scan finds every malware advisory above the watermark that it reads. -/
theorem parseCsvHead_fresh {csv : List Line} (sorted : Sorted csv) {watermark range horizon : ℕ}
    {line : Line} (read : line ∈ (fetchCsv range csv).1) (fresh : watermark < line.modified)
    (safe : isProbeAdvisoryId line.id = true) (mal : isMal line.id = true) :
    line.id ∈ (parseCsvHead csv watermark range horizon).freshMal.map Prod.snd := by
  have headSorted : Sorted (fetchCsv range csv).1 := List.Pairwise.sublist
    (fetchCsv_starts range csv).sublist sorted
  unfold parseCsvHead
  exact List.mem_map.mpr ⟨(line.modified, line.id), (scanLines_fresh horizon headSorted _ _ _).mpr
    (.inr ⟨line, read, rfl, rfl, fresh, safe, mal⟩), rfl⟩

theorem parseCsvHead_max {csv : List Line} {watermark range horizon m : ℕ}
    (max : (parseCsvHead csv watermark range horizon).maxModified = some m) :
    watermark < m ∧ ∃ line ∈ csv, line.modified = m := by
  unfold parseCsvHead at max
  obtain none | ⟨line, member, same, above⟩ := scanLines_max max
  · cases none
  · exact ⟨above, line, (fetchCsv_starts range csv).subset member, same⟩

/-- A higher watermark is reached no later. -/
theorem parseCsvHead_complete_mono {csv : List Line} {low high range horizon horizon' : ℕ}
    (above : low ≤ high) (complete : (parseCsvHead csv low range horizon).complete = true) :
    (parseCsvHead csv high range horizon').complete = true := by
  unfold parseCsvHead at complete ⊢
  obtain full | ⟨old, member, below⟩ := (scanLines_complete _ _ _ _).mp complete
  · exact (scanLines_complete _ _ _ _).mpr (.inl full)
  · exact (scanLines_complete _ _ _ _).mpr (.inr ⟨old, member, Nat.le_trans below above⟩)

/-! ### Overlays -/

theorem mem_mergeOverlay {overlay : Overlay σ} {added : List (String × MalRule σ)}
    {withdrawn : List String} {name : String} {rule : MalRule σ} :
    rule ∈ mergeOverlay overlay added withdrawn name ↔
      (name, rule) ∈ added ∨ rule ∈ overlay name ∧ rule.id ∉ withdrawn ∧
        ∀ entry ∈ added, entry.2.id ≠ rule.id := by
  unfold mergeOverlay
  simp only [List.mem_append, List.mem_filter, List.mem_map, Bool.not_or, Bool.and_eq_true,
    Bool.not_eq_true', List.any_eq_false, beq_iff_eq, List.contains_eq_mem, decide_eq_false_iff_not]
  constructor
  · rintro (⟨there, unwithdrawn, other⟩ | ⟨⟨name', rule'⟩, ⟨member, rfl⟩, rfl⟩)
    · exact .inr ⟨there, unwithdrawn, other⟩
    · exact .inl member
  · rintro (member | ⟨there, unwithdrawn, other⟩)
    · exact .inr ⟨(name, rule), ⟨member, rfl⟩, rfl⟩
    · exact .inl ⟨there, unwithdrawn, other⟩

theorem mergeOverlay_nil (overlay : Overlay σ) : mergeOverlay overlay [] [] = overlay := by
  funext name
  simp [mergeOverlay]

theorem malRules_id {adv : Advisory σ} {entry : String × MalRule σ} (member : entry ∈ malRules adv) :
    entry.2.id = adv.id := by
  unfold malRules at member
  split at member
  · cases member
  · obtain ⟨clause, _, rfl⟩ := List.mem_map.mp member
    rfl

end Pypiron.MalwareProbe
