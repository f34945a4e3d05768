import Mathlib.Algebra.Order.BigOperators.Group.Finset
import Pypiron.Deps.Closure

/-! How often the wants can still grow, which every visit that is pushed takes
some of. -/
namespace Pypiron.Deps
open KeyedMap

variable {V S : Type} {pep : Pep440 V S} {isPrivate : String → Bool}
  {memos : KeyedMap String DepsMemo} {s s' : Wants} {name text : String} {req : Requirement S}
  {pushed pushed' : List String}

theorem mem_requirements {memo : DepsMemo} {want : Want} (known : memos.lookup name = some memo)
    (member : text ∈ requires pep memo want) (parsed : parseRequirement pep text = .requirement req) :
    req ∈ requirements pep memos := by
  obtain ⟨version, texts, released, -, found⟩ := mem_requires.mp member
  refine List.mem_filterMap.mpr ⟨text, ?_, by rw [parsed]⟩
  refine List.mem_flatMap.mpr ⟨⟨name, memo⟩, AList.mem_lookup_iff.mp known, ?_⟩
  exact List.mem_flatMap.mpr ⟨⟨version, texts⟩, AList.mem_lookup_iff.mp released, found⟩

theorem wantRoom_widen_le (want : Option Want) (specifiers : Option S) :
    wantRoom pep memos (some (widen pep (want.getD (some ∅)) specifiers)) ≤
      wantRoom pep memos want := by
  cases want with
  | none =>
      cases specifiers with
      | none => exact Nat.zero_le _
      | some specifier =>
          have fewer := Finset.card_le_card (Finset.sdiff_subset
            (s := specs pep memos) (t := insert (pep.print specifier) ∅))
          change (specs pep memos \ insert (pep.print specifier) ∅).card + 1 ≤ (specs pep memos).card + 2
          omega
  | some want =>
      cases want with
      | none => exact Nat.zero_le _
      | some set =>
          cases specifiers with
          | none => exact Nat.zero_le _
          | some specifier => exact Nat.succ_le_succ (Finset.card_le_card
              (Finset.sdiff_subset_sdiff (Finset.Subset.refl _) (Finset.subset_insert _ _)))

/-- A want that changes takes room. -/
theorem wantRoom_widen_lt {want : Option Want} (member : req ∈ requirements pep memos)
    (wider : want ≠ some (widen pep (want.getD (some ∅)) req.specifiers)) :
    wantRoom pep memos (some (widen pep (want.getD (some ∅)) req.specifiers)) <
      wantRoom pep memos want := by
  cases want with
  | none =>
      cases req.specifiers with
      | none => exact Nat.succ_pos _
      | some specifier =>
          have fewer := Finset.card_le_card (Finset.sdiff_subset
            (s := specs pep memos) (t := insert (pep.print specifier) ∅))
          change (specs pep memos \ insert (pep.print specifier) ∅).card + 1 < (specs pep memos).card + 2
          omega
  | some want =>
      cases want with
      | none => exact absurd rfl wider
      | some set =>
          cases asked : req.specifiers with
          | none => exact Nat.succ_pos _
          | some specifier =>
              rw [asked] at wider
              have known : pep.print specifier ∈ specs pep memos :=
                List.mem_toFinset.mpr (List.mem_filterMap.mpr ⟨req, member, by rw [asked]; rfl⟩)
              have fresh : pep.print specifier ∉ set := by
                intro old
                exact wider (congrArg some (congrArg some (Finset.insert_eq_of_mem old).symm))
              apply Nat.succ_lt_succ
              apply Finset.card_lt_card
              refine ⟨Finset.sdiff_subset_sdiff (Finset.Subset.refl _) (Finset.subset_insert _ _), ?_⟩
              intro same
              have left := Finset.mem_sdiff.mp (same (Finset.mem_sdiff.mpr ⟨known, fresh⟩))
              exact left.2 (Finset.mem_insert_self _ _)

/-- What is wanted of one project and can still grow. -/
def share (pep : Pep440 V S) (memos : KeyedMap String DepsMemo) (s : Wants) (name : String) : ℕ :=
  wantRoom pep memos (s.wants.lookup name) + (extraNames pep memos \ s.on name).card

theorem share_grow_le (other : String) :
    share pep memos (s.grow pep req) other ≤ share pep memos s other := by
  unfold share
  rw [grow_lookup, grow_on]
  split
  next here =>
    rw [here]
    exact Nat.add_le_add (wantRoom_widen_le _ _) (Finset.card_le_card
      (Finset.sdiff_subset_sdiff (Finset.Subset.refl _) Finset.subset_union_left))
  next => exact le_rfl

theorem share_grow_lt (member : req ∈ requirements pep memos) (grows : s.grows pep req = true) :
    share pep memos (s.grow pep req) req.name < share pep memos s req.name := by
  unfold share
  simp only [Wants.grows, decide_eq_true_eq] at grows
  rw [grow_lookup, grow_on, if_pos rfl, if_pos rfl] at grows ⊢
  cases grows with
  | inl wider =>
      exact Nat.add_lt_add_of_lt_of_le (wantRoom_widen_lt member wider) (Finset.card_le_card
        (Finset.sdiff_subset_sdiff (Finset.Subset.refl _) Finset.subset_union_left))
  | inr more =>
      apply Nat.add_lt_add_of_le_of_lt (wantRoom_widen_le _ _)
      apply Finset.card_lt_card
      refine ⟨Finset.sdiff_subset_sdiff (Finset.Subset.refl _) Finset.subset_union_left, ?_⟩
      intro same
      -- an extra that is new has room, and is followed now
      have fresh : ∃ extra ∈ req.extras, extra ∉ s.on req.name := by
        by_contra none
        push Not at none
        rw [Finset.union_eq_left.mpr fun extra listed => none extra (List.mem_toFinset.mp listed)] at more
        exact lt_irrefl _ more
      obtain ⟨extra, asked, off⟩ := fresh
      have known : extra ∈ extraNames pep memos :=
        List.mem_toFinset.mpr (List.mem_flatMap.mpr ⟨req, member, asked⟩)
      have left := Finset.mem_sdiff.mp (same (Finset.mem_sdiff.mpr ⟨known, off⟩))
      exact left.2 (Finset.mem_union_right _ (List.mem_toFinset.mpr asked))

theorem room_grow (member : req ∈ requirements pep memos) :
    room pep memos (s.grow pep req) + (if s.grows pep req then 1 else 0) ≤ room pep memos s := by
  have named : req.name ∈ names pep memos := List.mem_toFinset.mpr (List.mem_map_of_mem member)
  split
  next grows =>
    exact Finset.sum_lt_sum (fun other _ => share_grow_le other)
      ⟨req.name, named, share_grow_lt member grows⟩
  next =>
    rw [Nat.add_zero]
    exact Finset.sum_le_sum fun other _ => share_grow_le other

theorem room_fold {memo : DepsMemo} {want : Want} (known : memos.lookup name = some memo)
    {texts : List String} (member : ∀ text ∈ texts, text ∈ requires pep memo want)
    {listed : String → Bool}
    (folded : texts.foldlM (follow pep isPrivate listed name) (s, pushed) = some (s', pushed')) :
    room pep memos s' + pushed'.length ≤ room pep memos s + pushed.length := by
  induction texts generalizing s pushed with
  | nil =>
      cases folded
      exact le_rfl
  | cons text texts hypothesis =>
      obtain ⟨⟨mid, middle⟩, first, later⟩ := Option.bind_eq_some_iff.mp
        ((List.foldlM_cons (f := follow pep isPrivate listed name)).symm.trans folded)
      apply (hypothesis (fun text listed => member text (List.mem_cons_of_mem _ listed)) later).trans
      unfold follow at first
      split at first
      next => cases first
      next =>
        cases first
        exact le_rfl
      next req parsed =>
        split at first
        next =>
          cases first
          exact le_rfl
        next =>
          cases first
          have paid := room_grow (s := s)
            (mem_requirements known (member text List.mem_cons_self) parsed)
          split at paid
          next grows =>
            rw [if_pos grows, List.length_cons]
            dsimp only
            omega
          next still =>
            rw [if_neg still]
            dsimp only
            omega

/-- The room left, none once the loop has panicked. -/
def roomLeft (pep : Pep440 V S) (memos : KeyedMap String DepsMemo) (now : Option Wants) : ℕ :=
  (now.map (room pep memos)).getD 0

/-- The room a visit takes pays for what it pushes. -/
theorem room_visit (listed : String → Bool) (s : Option Wants) (name : String) :
    roomLeft pep memos (visit pep isPrivate listed memos name s).1 +
      (visit pep isPrivate listed memos name s).2.length ≤ roomLeft pep memos s := by
  unfold visit
  split
  next s' pushed visited =>
    obtain ⟨before, rfl, ran⟩ := Option.bind_eq_some_iff.mp visited
    unfold follows at ran
    split at ran
    next known wanted => exact room_fold known (fun text member => member) ran
    next =>
      cases ran
      exact le_rfl
  next => exact Nat.zero_le _

end Pypiron.Deps
