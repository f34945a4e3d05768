import Pypiron.Replicate.Decide

/-! What each verdict says about the two records it was reached on. -/
namespace Pypiron
open RankedMerge
variable {encoding : Encoding} {ra rb : Record} {winner : Side}

def Side.pick {α : Type} (left right : α) : Side → α
  | a => left
  | b => right

/-! ### Classes -/

/-- No tombstone and no freeze stands over the filename. -/
def Record.Unfenced (r : Record) : Prop := r.frozen = false ∧ r.tombstoned = false

theorem classifyRecord_live {r : Record} {sha : String} {origin : Origin} {superseding : Bool}
    (live : classifyRecord r = .live sha origin superseding) :
    r.Unfenced ∧ r.hasArtifact = true ∧ r.origin = some origin ∧
      ∃ sc, r.sidecar = some sc ∧ sc.sha256 = sha := by
  unfold classifyRecord at live
  split at live
  · contradiction
  split at live
  · contradiction
  split at live
  · contradiction
  split at live
  · contradiction
  rename_i frozen tombstoned _ artifact
  split at live
  · contradiction
  · contradiction
  · rename_i sc origin' found typed
    cases live
    simp only [Bool.not_eq_true] at frozen tombstoned
    simp only [Bool.not_eq_true', Bool.not_eq_false] at artifact
    exact ⟨⟨frozen, tombstoned⟩, artifact, typed, sc, found, rfl⟩

/-- Only private truth is live behind a demotion fence. -/
theorem classifyRecord_live_fenced {r : Record} {sha : String} {origin : Origin} {superseding : Bool}
    (live : classifyRecord r = .live sha origin superseding) (fenced : r.mirrorQuarantined = true) :
    r.sidecar.bind (·.origin) = some Origin.priv.asStr ∧ origin = .priv := by
  have typed : r.sidecar.bind (·.origin) = some Origin.priv.asStr := by
    by_contra other
    have quarantined := live
    unfold classifyRecord at quarantined
    simp only [fenced, Bool.true_and, bne_iff_ne, ne_eq, other, not_false_eq_true, if_true]
      at quarantined
    split at quarantined
    · contradiction
    · split at quarantined <;> contradiction
  obtain ⟨-, -, found, -⟩ := classifyRecord_live live
  refine ⟨typed, ?_⟩
  simp only [Record.origin, typed, Option.bind_some, Origin.parse_asStr, Option.some_or,
    Option.some.injEq] at found
  exact found.symm

theorem classifyRecord_absent {r : Record} {debris : Bool}
    (absent : classifyRecord r = .absent debris) : r.Unfenced ∧ r.hasArtifact = false ∧
      (r.mirrorQuarantined = true → r.sidecar.bind (·.origin) = some Origin.priv.asStr) := by
  unfold classifyRecord at absent
  split at absent
  · contradiction
  split at absent
  · contradiction
  split at absent
  · contradiction
  split at absent
  · rename_i frozen tombstoned spent artifact
    simp only [Bool.not_eq_true] at frozen tombstoned
    simp only [Bool.not_eq_true'] at artifact
    refine ⟨⟨frozen, tombstoned⟩, artifact, fun fenced => ?_⟩
    simpa [fenced] using spent
  · split at absent <;> contradiction

theorem classifyRecord_quarantinedMirror {r : Record} {settled : Bool}
    (quarantined : classifyRecord r = .quarantinedMirror settled) :
    r.Unfenced ∧ r.mirrorQuarantined = true ∧
      r.sidecar.bind (·.origin) ≠ some Origin.priv.asStr ∧ settled = !r.leftovers := by
  unfold classifyRecord at quarantined
  split at quarantined
  · contradiction
  split at quarantined
  · contradiction
  split at quarantined
  · rename_i frozen tombstoned fenced
    cases quarantined
    simp only [Bool.not_eq_true] at frozen tombstoned
    simp only [Bool.and_eq_true, bne_iff_ne, ne_eq] at fenced
    exact ⟨⟨frozen, tombstoned⟩, fenced.1, fenced.2, rfl⟩
  split at quarantined
  · contradiction
  · split at quarantined <;> contradiction

/-- A typed record reads the same under any claim. -/
theorem classifyRecord_pkgOrigin {r : Record} (claim : Option Origin)
    (typed : ∀ sc, r.sidecar = some sc → (sc.origin.bind Origin.parse).isSome) :
    classifyRecord { r with pkgOrigin := claim } = classifyRecord r := by
  obtain ⟨sidecar, _, _, _, _, _, _, _, _⟩ := r
  cases sidecar with
  | none => rfl
  | some sc =>
      obtain ⟨origin, parsed⟩ := Option.isSome_iff_exists.mp (typed sc rfl)
      simp [classifyRecord, Record.origin, Record.leftovers, parsed]

/-! ### Sidecars -/

theorem sidecarKey_lt_private {sc sc' : Sidecar} {origin : Option Origin} (other : origin ≠ some .priv) :
    sidecarKey sc origin < sidecarKey sc' (some .priv) := by
  apply Prod.Lex.toLex_lt_toLex.mpr
  left
  rcases origin with _ | origin
  · simp [Origin.rank]
  · cases origin with
    | priv => exact absurd rfl other
    | mirror => simp [Origin.rank]

/-- Private truth wins over any other description of the same bytes. -/
theorem sidecarMerge_private {sc current : Sidecar} {origin : Option Origin}
    (other : origin ≠ some .priv) : sidecarMerge encoding sc (some .priv) current origin = .a := by
  unfold sidecarMerge rankedMerge
  rw [if_pos (sidecarKey_lt_private other)]

theorem sidecarMerge_to_private {sc current : Sidecar} {origin : Option Origin}
    (other : origin ≠ some .priv) : sidecarMerge encoding current origin sc (some .priv) = .b := by
  unfold sidecarMerge rankedMerge
  have lower : sidecarKey current origin < sidecarKey sc (some .priv) := sidecarKey_lt_private other
  rw [if_neg (not_lt_of_gt lower), if_pos lower]

/-! ### Verdicts -/

theorem sameBytes_cases (encoding : Encoding) (ra rb : Record) (oa ob : Origin) :
    (∃ side, sameBytes encoding ra rb oa ob = .adoptSidecar side) ∨
      sameBytes encoding ra rb oa ob = .noop := by
  unfold sameBytes
  split
  · split
    · exact Or.inl ⟨.a, rfl⟩
    · exact Or.inl ⟨.b, rfl⟩
    · exact Or.inr rfl
  · exact Or.inr rfl

theorem decide_copy (copies : decide encoding ra rb = .copy winner) :
    (∃ sha origin superseding, classifyRecord (winner.pick ra rb) = .live sha origin superseding) ∧
      ∃ debris, classifyRecord (winner.other.pick ra rb) = .absent debris := by
  unfold decide at copies
  split at copies <;> try contradiction
  · rename_i left right
    cases copies
    exact ⟨⟨_, _, _, left⟩, _, right⟩
  · rename_i left right
    cases copies
    exact ⟨⟨_, _, _, right⟩, _, left⟩
  · rename_i sa oa _ sb ob _ _ _
    rcases sameBytes_cases encoding ra rb oa ob with ⟨side, same⟩ | same
    · rw [same] at copies
      repeat' split at copies
      all_goals contradiction
    · rw [same] at copies
      repeat' split at copies
      all_goals contradiction

/-- A demotion's record yields to live private truth: a fenced one whatever its
bytes, a live mirror only over different bytes. -/
theorem decide_supersede (supersedes : decide encoding ra rb = .supersede winner) :
    ∃ sha superseding, classifyRecord (winner.pick ra rb) = .live sha .priv superseding ∧
      ((∃ settled, classifyRecord (winner.other.pick ra rb) = .quarantinedMirror settled) ∨
        ∃ sha' superseding', classifyRecord (winner.other.pick ra rb) =
          .live sha' .mirror superseding' ∧ sha ≠ sha') := by
  unfold decide at supersedes
  split at supersedes <;> try contradiction
  · rename_i left right
    cases supersedes
    exact ⟨_, _, left, Or.inl ⟨_, right⟩⟩
  · rename_i left right
    cases supersedes
    exact ⟨_, _, right, Or.inl ⟨_, left⟩⟩
  · rename_i sa oa _ sb ob _ left right
    split at supersedes
    · rcases sameBytes_cases encoding ra rb oa ob with ⟨side, same⟩ | same
      · rw [same] at supersedes
        contradiction
      · rw [same] at supersedes
        contradiction
    · rename_i different
      split at supersedes
      · split at supersedes <;> contradiction
      · cases supersedes
        exact ⟨_, _, left, Or.inr ⟨_, _, right, different⟩⟩
      · cases supersedes
        exact ⟨_, _, right, Or.inr ⟨_, _, left, Ne.symm different⟩⟩
      · contradiction

theorem decide_quarantineLoser (ordered : decide encoding ra rb = .quarantineLoser winner) :
    ∃ sha sha' superseding superseding',
      classifyRecord (winner.pick ra rb) = .live sha .priv superseding ∧
      classifyRecord (winner.other.pick ra rb) = .live sha' .priv superseding' ∧ sha ≠ sha' ∧
      conflictWinner ra rb = some winner := by
  unfold decide at ordered
  split at ordered <;> try contradiction
  rename_i sa oa _ sb ob _ left right
  split at ordered
  · rcases sameBytes_cases encoding ra rb oa ob with ⟨side, same⟩ | same
    · rw [same] at ordered
      contradiction
    · rw [same] at ordered
      contradiction
  · rename_i different
    split at ordered
    · split at ordered
      · rename_i side won
        cases ordered
        cases winner with
        | a => exact ⟨_, _, _, _, left, right, different, won⟩
        | b => exact ⟨_, _, _, _, right, left, Ne.symm different, won⟩
      · contradiction
    · contradiction
    · contradiction
    · contradiction

/-- Two live records under one digest. -/
structure SameLive (ra rb : Record) (sca scb : Sidecar) (oa ob : Origin) :
    Prop where
  left : ∃ superseding, classifyRecord ra = .live sca.sha256 oa superseding
  right : ∃ superseding, classifyRecord rb = .live scb.sha256 ob superseding
  sidecarA : ra.sidecar = some sca
  sidecarB : rb.sidecar = some scb
  digest : sca.sha256 = scb.sha256

theorem sameLive {sha : String} {oa ob : Origin} {xa xb : Bool}
    (left : classifyRecord ra = .live sha oa xa) (right : classifyRecord rb = .live sha ob xb) :
    ∃ sca scb, SameLive ra rb sca scb oa ob := by
  obtain ⟨-, -, -, sca, sidecarA, rfl⟩ := classifyRecord_live left
  obtain ⟨-, -, -, scb, sidecarB, digest⟩ := classifyRecord_live right
  exact ⟨sca, scb, ⟨_, left⟩, ⟨_, digest ▸ right⟩, sidecarA, sidecarB, digest.symm⟩

theorem SameLive.decide {sca scb : Sidecar} {oa ob : Origin} (live : SameLive ra rb sca scb oa ob) :
    decide encoding ra rb = sameBytes encoding ra rb oa ob := by
  obtain ⟨_, left⟩ := live.left
  obtain ⟨_, right⟩ := live.right
  unfold Pypiron.decide
  rw [left, right, live.digest]
  simp

theorem decide_noop (rests : decide encoding ra rb = .noop) :
    (classifyRecord ra = .frozen true ∧ classifyRecord rb = .frozen true) ∨
    (classifyRecord ra = .tombstoned true ∧ classifyRecord rb = .tombstoned true) ∨
    (∃ da db, classifyRecord ra = .absent da ∧ classifyRecord rb = .absent db) ∨
    (classifyRecord ra = .quarantinedMirror true ∧ classifyRecord rb = .quarantinedMirror true) ∨
    ∃ sca scb oa ob, SameLive ra rb sca scb oa ob ∧
      sidecarMerge encoding sca (some oa) scb (some ob) = .equal := by
  unfold decide at rests
  split at rests <;> try contradiction
  · rename_i left right
    exact Or.inl ⟨left, right⟩
  · rename_i left right
    exact Or.inr (Or.inl ⟨left, right⟩)
  · rename_i left right
    exact Or.inr (Or.inr (Or.inl ⟨_, _, left, right⟩))
  · rename_i left right
    exact Or.inr (Or.inr (Or.inr (Or.inl ⟨left, right⟩)))
  · rename_i sa oa xa sb ob xb left right
    split at rests
    · rename_i same
      subst same
      obtain ⟨sca, scb, live⟩ := sameLive left right
      unfold sameBytes at rests
      rw [live.sidecarA, live.sidecarB] at rests
      dsimp only at rests
      split at rests
      · contradiction
      · contradiction
      · rename_i merged
        exact Or.inr (Or.inr (Or.inr (Or.inr ⟨sca, scb, oa, ob, live, merged⟩)))
    · split at rests
      · split at rests <;> contradiction
      · contradiction
      · contradiction
      · contradiction

theorem decide_adoptSidecar (adopts : decide encoding ra rb = .adoptSidecar winner) :
    ∃ sca scb oa ob, SameLive ra rb sca scb oa ob ∧
      sidecarMerge encoding sca (some oa) scb (some ob) = winner.pick .a .b := by
  unfold decide at adopts
  split at adopts <;> try contradiction
  rename_i sa oa xa sb ob xb left right
  split at adopts
  · rename_i same
    subst same
    obtain ⟨sca, scb, live⟩ := sameLive left right
    unfold sameBytes at adopts
    rw [live.sidecarA, live.sidecarB] at adopts
    dsimp only at adopts
    split at adopts
    · rename_i merged
      cases adopts
      exact ⟨sca, scb, oa, ob, live, merged⟩
    · rename_i merged
      cases adopts
      exact ⟨sca, scb, oa, ob, live, merged⟩
    · contradiction
  · split at adopts
    · split at adopts <;> contradiction
    · contradiction
    · contradiction
    · contradiction

theorem decide_propagateFreeze (propagates : decide encoding ra rb = .propagateFreeze winner) :
    classifyRecord (winner.pick ra rb) = .frozen true := by
  unfold decide at propagates
  split at propagates <;> try contradiction
  · rename_i left _ _
    cases propagates
    exact left
  · cases propagates
    assumption
  · rename_i sa oa _ sb ob _ _ _
    rcases sameBytes_cases encoding ra rb oa ob with ⟨side, same⟩ | same
    · rw [same] at propagates
      repeat' split at propagates
      all_goals contradiction
    · rw [same] at propagates
      repeat' split at propagates
      all_goals contradiction

theorem classifyRecord_frozen {r : Record} {settled : Bool}
    (frozen : classifyRecord r = .frozen settled) :
    r.frozen = true ∧ settled = (r.tombstoned && !r.leftovers && !r.mirrorQuarantined) := by
  unfold classifyRecord at frozen
  split at frozen
  · cases frozen
    exact ⟨‹_›, rfl⟩
  repeat' split at frozen
  all_goals contradiction

theorem classifyRecord_tombstoned {r : Record} {settled : Bool}
    (tombstoned : classifyRecord r = .tombstoned settled) :
    r.frozen = false ∧ r.tombstoned = true ∧ settled = (!r.leftovers && !r.mirrorQuarantined) := by
  unfold classifyRecord at tombstoned
  split at tombstoned
  · contradiction
  split at tombstoned
  · rename_i thawed fenced
    cases tombstoned
    exact ⟨by simpa using thawed, fenced, rfl⟩
  repeat' split at tombstoned
  all_goals contradiction

theorem classifyRecord_of_frozen {r : Record} (frozen : r.frozen = true) :
    classifyRecord r = .frozen (r.tombstoned && !r.leftovers && !r.mirrorQuarantined) := by
  simp [classifyRecord, frozen]

theorem thawed {r : Record} (live : ∀ settled, classifyRecord r ≠ .frozen settled) :
    r.frozen = false := by
  cases frozen : r.frozen with
  | false => rfl
  | true => exact absurd (classifyRecord_of_frozen frozen) (live _)

theorem decide_tombstone (deletes : decide encoding ra rb = .tombstone) :
    ra.frozen = false ∧ rb.frozen = false ∧ ((∃ settled, classifyRecord ra = .tombstoned settled) ∨
      ∃ settled, classifyRecord rb = .tombstoned settled) := by
  unfold decide at deletes
  split at deletes <;> try contradiction
  · rename_i left _ right _
    exact ⟨thawed (by simp [left]), thawed right, Or.inl ⟨_, left⟩⟩
  · rename_i right _ left _ _
    exact ⟨thawed left, thawed (by simp [right]), Or.inr ⟨_, right⟩⟩
  · rename_i sa oa _ sb ob _ _ _
    rcases sameBytes_cases encoding ra rb oa ob with ⟨side, same⟩ | same
    · rw [same] at deletes
      repeat' split at deletes
      all_goals contradiction
    · rw [same] at deletes
      repeat' split at deletes
      all_goals contradiction

theorem decide_finishFreeze (finishes : decide encoding ra rb = .finishFreeze) :
    (∃ settled, classifyRecord ra = .frozen settled) ∨
      ∃ settled, classifyRecord rb = .frozen settled := by
  unfold decide at finishes
  split at finishes <;> try contradiction
  · exact Or.inl ⟨_, by assumption⟩
  · exact Or.inl ⟨_, by assumption⟩
  · exact Or.inr ⟨_, by assumption⟩
  · rename_i sa oa _ sb ob _ _ _
    rcases sameBytes_cases encoding ra rb oa ob with ⟨side, same⟩ | same
    · rw [same] at finishes
      repeat' split at finishes
      all_goals contradiction
    · rw [same] at finishes
      repeat' split at finishes
      all_goals contradiction

/-- Only two bodies of one origin freeze: mirrors always, private uploads when
their receipts do not order them. -/
theorem decide_freeze (freezes : decide encoding ra rb = .freeze) :
    ∃ sa sb origin xa xb, classifyRecord ra = .live sa origin xa ∧
      classifyRecord rb = .live sb origin xb ∧ sa ≠ sb ∧
      (origin = .priv → conflictWinner ra rb = none) := by
  unfold decide at freezes
  split at freezes <;> try contradiction
  rename_i sa oa _ sb ob _ left right
  split at freezes
  · rcases sameBytes_cases encoding ra rb oa ob with ⟨side, same⟩ | same
    · rw [same] at freezes
      contradiction
    · rw [same] at freezes
      contradiction
  · rename_i different
    split at freezes
    · split at freezes
      · contradiction
      · rename_i unordered
        exact ⟨sa, sb, .priv, _, _, left, right, different, fun _ => unordered⟩
    · contradiction
    · contradiction
    · exact ⟨sa, sb, .mirror, _, _, left, right, different, by simp⟩

/-- The readings a demotion sweeps aside: fenced, empty, or still live mirror. -/
def Demotable : RecordState → Prop
  | .quarantinedMirror _ => True
  | .absent _ => True
  | .live _ .mirror _ => True
  | _ => False

theorem decide_settleMirrorQuarantine (settles : decide encoding ra rb = .settleMirrorQuarantine) :
    Demotable (classifyRecord ra) ∧ Demotable (classifyRecord rb) ∧
      ((∃ settled, classifyRecord ra = .quarantinedMirror settled) ∨
        ∃ settled, classifyRecord rb = .quarantinedMirror settled) := by
  unfold decide at settles
  split at settles <;> try contradiction
  · rename_i left _ _ _ _ _ _ _
    refine ⟨by simp [left, Demotable], ?_, Or.inl ⟨_, left⟩⟩
    rcases right : classifyRecord rb with _ | _ | _ | ⟨_, origin, _⟩ | _ | _ | _
    all_goals simp_all [Demotable]
    cases origin <;> simp_all
  · rename_i right _ _ _ _ _ _ _ _
    refine ⟨?_, by simp [right, Demotable], Or.inr ⟨_, right⟩⟩
    rcases left : classifyRecord ra with _ | _ | _ | ⟨_, origin, _⟩ | _ | _ | _
    all_goals simp_all [Demotable]
    cases origin <;> simp_all
  · rename_i sa oa _ sb ob _ _ _
    rcases sameBytes_cases encoding ra rb oa ob with ⟨side, same⟩ | same
    · rw [same] at settles
      repeat' split at settles
      all_goals contradiction
    · rw [same] at settles
      repeat' split at settles
      all_goals contradiction

end Pypiron
