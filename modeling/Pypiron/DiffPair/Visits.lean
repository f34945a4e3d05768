import Pypiron.DiffPair

/-! Which packages the diff visits, and when each is visited once: the names of one
bucket are streamed in the order of their keys, and merged in their own. -/
namespace Pypiron.DiffPair
open PagedListing

variable (limit : ℕ+) (convergePackage : String → Except String Convergence)

/-! ### The visits are a merge of two lists of names -/

def merged : List String → List String → List String
  | [], bs => bs
  | a :: as, [] => a :: as
  | a :: as, b :: bs =>
    match compare a b with
    | .lt => a :: merged as (b :: bs)
    | .gt => b :: merged (a :: as) bs
    | .eq => a :: merged as bs

@[simp] theorem merged_nil_right (as : List String) : merged as [] = as := by
  cases as <;> simp [merged]

theorem names_of_peek {scan : PackageScan} {name : String}
    (next : (scan.peek limit).1 = some name) :
    scan.names = name :: (scan.peek limit).2.advance.names := by
  obtain ⟨head, -, advanced⟩ := peek_names limit scan
  rw [advanced name next]
  exact List.eq_cons_of_mem_head? (head ▸ next)

theorem names_of_peek_none {scan : PackageScan} (next : (scan.peek limit).1 = none) :
    scan.names = [] := by
  rw [(peek_names limit scan).1] at next
  exact List.head?_eq_none_iff.mp next

theorem diffFrom_visited (a b : PackageScan) (diff : Diff) :
    (diffFrom limit convergePackage a b diff).visited = diff.visited ++ merged a.names b.names := by
  fun_induction diffFrom limit convergePackage a b diff with
  | case1 a b diff nextA nextB =>
    simp [names_of_peek_none limit nextA, names_of_peek_none limit nextB]
  | case2 a b diff name nextA nextB ih =>
    have kept := (peek_names limit b).2.1
    rw [names_of_peek_none limit nextB] at kept
    simp [ih, names_of_peek limit nextA, names_of_peek_none limit nextB, kept]
  | case3 a b diff name nextA nextB ih =>
    have kept := (peek_names limit a).2.1
    rw [names_of_peek_none limit nextA] at kept
    simp [ih, merged, names_of_peek limit nextB, names_of_peek_none limit nextA, kept]
  | case4 a b diff aPkg bPkg nextA nextB order ih =>
    have kept := (peek_names limit b).2.1
    rw [names_of_peek limit nextB] at kept
    simp [ih, merged, names_of_peek limit nextA, names_of_peek limit nextB, order, kept]
  | case5 a b diff aPkg bPkg nextA nextB order ih =>
    have kept := (peek_names limit a).2.1
    rw [names_of_peek limit nextA] at kept
    simp [ih, merged, names_of_peek limit nextA, names_of_peek limit nextB, order, kept]
  | case6 a b diff aPkg bPkg nextA nextB order ih =>
    simp [ih, merged, names_of_peek limit nextA, names_of_peek limit nextB, order]

/-- The names of a bucket's packages in the order of its keys. -/
def packageNames (bucket : Listing String) : List String :=
  distinct none ((packages bucket).keys.filterMap packageName)

theorem diffPair_visited (a b : Listing String) :
    (diffPair limit convergePackage a b).visited = merged (packageNames a) (packageNames b) := by
  simp [diffPair, diffFrom_visited, PackageScan.names, PackageScan.unread, PackageScan.new,
    packageNames]

theorem mem_merged (name : String) (as bs : List String) :
    name ∈ merged as bs ↔ name ∈ as ∨ name ∈ bs := by
  fun_induction merged as bs with
  | case1 bs => simp
  | case2 a as => simp
  | case3 a as b bs order ih => simp [ih, or_assoc]
  | case4 a as b bs order ih => simp [ih]; tauto
  | case5 a as b bs order ih =>
    obtain rfl := compare_eq_iff_eq.mp order
    simp [ih]
    tauto

/-- Each list is visited in its own order, whatever the other holds. -/
theorem sublist_merged (as bs : List String) : as.Sublist (merged as bs) ∧ bs.Sublist (merged as bs) := by
  fun_induction merged as bs with
  | case1 bs => simp
  | case2 a as => simp
  | case3 a as b bs order ih => exact ⟨ih.1.cons_cons a, ih.2.cons a⟩
  | case4 a as b bs order ih => exact ⟨ih.1.cons b, ih.2.cons_cons b⟩
  | case5 a as b bs order ih =>
    obtain rfl := compare_eq_iff_eq.mp order
    exact ⟨ih.1.cons_cons a, ih.2.cons_cons a⟩

theorem merged_ascending {as bs : List String} (ascendingA : as.Pairwise (· < ·))
    (ascendingB : bs.Pairwise (· < ·)) : (merged as bs).Pairwise (· < ·) := by
  fun_induction merged as bs with
  | case1 bs => exact ascendingB
  | case2 a as => exact ascendingA
  | case3 a as b bs order ih =>
    have below := compare_lt_iff_lt.mp order
    obtain ⟨first, ascendingA⟩ := List.pairwise_cons.mp ascendingA
    refine List.pairwise_cons.mpr ⟨fun name member => ?_, ih ascendingA ascendingB⟩
    rcases (mem_merged name as (b :: bs)).mp member with member | member
    · exact first name member
    · rcases List.mem_cons.mp member with rfl | member
      · exact below
      · exact below.trans ((List.pairwise_cons.mp ascendingB).1 name member)
  | case4 a as b bs order ih =>
    have below := compare_gt_iff_gt.mp order
    obtain ⟨first, ascendingB⟩ := List.pairwise_cons.mp ascendingB
    refine List.pairwise_cons.mpr ⟨fun name member => ?_, ih ascendingA ascendingB⟩
    rcases (mem_merged name (a :: as) bs).mp member with member | member
    · rcases List.mem_cons.mp member with rfl | member
      · exact below
      · exact below.trans ((List.pairwise_cons.mp ascendingA).1 name member)
    · exact first name member
  | case5 a as b bs order ih =>
    obtain rfl := compare_eq_iff_eq.mp order
    obtain ⟨firstA, ascendingA⟩ := List.pairwise_cons.mp ascendingA
    obtain ⟨firstB, ascendingB⟩ := List.pairwise_cons.mp ascendingB
    refine List.pairwise_cons.mpr ⟨fun name member => ?_, ih ascendingA ascendingB⟩
    rcases (mem_merged name as bs).mp member with member | member
    · exact firstA name member
    · exact firstB name member

theorem merged_ascending_iff (as bs : List String) :
    (merged as bs).Pairwise (· < ·) ↔ as.Pairwise (· < ·) ∧ bs.Pairwise (· < ·) := by
  constructor
  · intro ascending
    obtain ⟨inA, inB⟩ := sublist_merged as bs
    exact ⟨ascending.sublist inA, ascending.sublist inB⟩
  · exact fun ⟨ascendingA, ascendingB⟩ => merged_ascending ascendingA ascendingB

/-! ### Keys and names in order -/

/-- A name as its keys go on from it. -/
def slashed (name : String) : List Char := name.toList ++ ['/']

theorem split_of_packageName {key name : String} (named : packageName key = some name) :
    '/' ∉ name.toList ∧
      ∃ rest, key.toList = packagesPrefix.toList ++ (name.toList ++ '/' :: rest) := by
  obtain ⟨⟨before, after⟩, found, rfl⟩ := Option.map_eq_some_iff.mp named
  obtain ⟨stripped, isPrefix, split⟩ := Option.bind_eq_some_iff.mp found
  unfold stripPrefix at isPrefix
  split at isPrefix
  · rename_i starts
    obtain ⟨tail, whole⟩ := starts
    obtain rfl := Option.some.inj isPrefix
    rw [← whole, List.drop_left] at split
    unfold splitOnce at split
    simp only [String.toList_ofList] at split
    have parts := List.takeWhile_append_dropWhile (p := (· != '/')) (l := tail)
    split at split
    · contradiction
    · rename_i c rest dropped
      obtain ⟨rfl, rfl⟩ := Prod.mk.inj (Option.some.inj split)
      have slash : c = '/' := by
        have := List.head?_dropWhile_not (· != '/') tail
        rw [dropped] at this
        simpa using this
      rw [dropped, slash] at parts
      refine ⟨?_, rest, ?_⟩
      · simp only [String.toList_ofList]
        intro member
        simpa using List.all_eq_true.mp List.all_takeWhile '/' member
      · simp only [String.toList_ofList]
        rw [parts, whole]
  · contradiction

theorem slashed_lt_of_lt {m n r s : List Char} (cleanM : '/' ∉ m) (cleanN : '/' ∉ n)
    (order : m ++ '/' :: r < n ++ '/' :: s) : m = n ∨ m ++ ['/'] < n ++ ['/'] := by
  induction m generalizing n with
  | nil =>
    cases n with
    | nil => exact .inl rfl
    | cons d n =>
      right
      simp only [List.nil_append, List.cons_append, List.cons_lt_cons_iff] at order ⊢
      rcases order with below | ⟨same, -⟩
      · exact .inl below
      · simp [← same] at cleanN
  | cons c m ih =>
    cases n with
    | nil =>
      right
      simp only [List.nil_append, List.cons_append, List.cons_lt_cons_iff] at order ⊢
      rcases order with below | ⟨same, -⟩
      · exact .inl below
      · simp [same] at cleanM
    | cons d n =>
      simp only [List.cons_append, List.cons_lt_cons_iff] at order ⊢
      rcases order with below | ⟨rfl, order⟩
      · exact .inr (.inl below)
      · have cleanM := fun member => cleanM (List.mem_cons_of_mem c member)
        have cleanN := fun member => cleanN (List.mem_cons_of_mem c member)
        rcases ih cleanM cleanN order with rfl | below
        · exact .inl rfl
        · exact .inr (.inr ⟨rfl, below⟩)

/-- A name goes on from another with a character that sorts before the slash. -/
def Overtakes (m n : String) : Prop :=
  ∃ c rest, m.toList = n.toList ++ c :: rest ∧ c < '/'

theorem overtakes_chars {m n : List Char} (clean : '/' ∉ m) :
    (n < m ∧ m ++ ['/'] < n ++ ['/']) ↔ ∃ c rest, m = n ++ c :: rest ∧ c < '/' := by
  induction n generalizing m with
  | nil =>
    cases m with
    | nil => simp
    | cons c m =>
      have other : c ≠ '/' := fun same => clean (by simp [same])
      simp [List.cons_lt_cons_iff, other]
  | cons d n ih =>
    cases m with
    | nil => simp
    | cons c m =>
      have cleanTail : '/' ∉ m := fun member => clean (List.mem_cons_of_mem c member)
      simp only [List.cons_append, List.cons_lt_cons_iff, List.cons.injEq]
      constructor
      · rintro ⟨below | ⟨rfl, below⟩, above | ⟨same, above⟩⟩
        · exact absurd above below.asymm
        · exact absurd same.symm below.ne
        · exact absurd above (lt_irrefl d)
        · obtain ⟨e, rest, tail, small⟩ := (ih cleanTail).mp ⟨below, above⟩
          exact ⟨e, rest, ⟨rfl, tail⟩, small⟩
      · rintro ⟨e, rest, ⟨rfl, tail⟩, small⟩
        obtain ⟨below, above⟩ := (ih cleanTail).mpr ⟨e, rest, tail, small⟩
        exact ⟨.inr ⟨rfl, below⟩, .inr ⟨rfl, above⟩⟩

theorem overtakes_iff {m n : String} (clean : '/' ∉ m.toList) :
    Overtakes m n ↔ n < m ∧ slashed m < slashed n := by
  rw [String.lt_iff_toList_lt]
  exact (overtakes_chars clean).symm

/-- Names that come in the order of their keys, each any number of times in a row. -/
def Grouped (m n : String) : Prop := m = n ∨ slashed m < slashed n

theorem lt_of_append_left {start m n : List Char} (order : start ++ m < start ++ n) : m < n := by
  rcases lt_trichotomy m n with below | rfl | above
  · exact below
  · exact absurd order (lt_irrefl _)
  · exact absurd (List.append_left_lt above) order.asymm

theorem grouped_names (bucket : Listing String) :
    ((packages bucket).keys.filterMap packageName).Pairwise Grouped := by
  refine List.pairwise_filterMap.mpr ((packages bucket).ascending.imp ?_)
  intro k l below m namedM n namedN
  obtain ⟨cleanM, restM, splitM⟩ := split_of_packageName namedM
  obtain ⟨cleanN, restN, splitN⟩ := split_of_packageName namedN
  have order : packagesPrefix.toList ++ (m.toList ++ '/' :: restM) <
      packagesPrefix.toList ++ (n.toList ++ '/' :: restN) := by
    rw [← splitM, ← splitN]
    exact String.lt_iff_toList_lt.mp below
  have tails := lt_of_append_left order
  rcases slashed_lt_of_lt cleanM cleanN tails with same | below
  · exact .inl (String.toList_inj.mp same)
  · exact .inr below

theorem mem_distinct {last : Option String} {names : List String} {name : String} :
    name ∈ distinct last names → name ∈ names := by
  induction names generalizing last with
  | nil => exact id
  | cons first names ih =>
    simp only [distinct]
    split
    · exact fun member => List.mem_cons_of_mem first (ih member)
    · intro member
      rcases List.mem_cons.mp member with rfl | member
      · exact List.mem_cons_self
      · exact List.mem_cons_of_mem first (ih member)

theorem mem_distinct_of_ne {last : Option String} {names : List String} {name : String}
    (member : name ∈ names) (fresh : last ≠ some name) : name ∈ distinct last names := by
  induction names generalizing last with
  | nil => contradiction
  | cons first names ih =>
    simp only [distinct]
    split
    · rename_i again
      rcases List.mem_cons.mp member with rfl | member
      · exact absurd again fresh
      · exact ih member fresh
    · by_cases same : first = name
      · simp [same]
      · rcases List.mem_cons.mp member with rfl | member
        · exact absurd rfl same
        · exact List.mem_cons_of_mem first (ih member (by simpa using same))

theorem distinct_ascending {last : Option String} {names : List String}
    (grouped : names.Pairwise Grouped) (follows : ∀ l, last = some l → ∀ n ∈ names, Grouped l n) :
    (distinct last names).Pairwise (slashed · < slashed ·) ∧
      ∀ l, last = some l → ∀ n ∈ distinct last names, slashed l < slashed n := by
  induction names generalizing last with
  | nil => simp [distinct]
  | cons first names ih =>
    obtain ⟨ahead, grouped⟩ := List.pairwise_cons.mp grouped
    simp only [distinct]
    split
    · rename_i again
      exact ih grouped fun l same n member => follows l same n (List.mem_cons_of_mem first member)
    · rename_i fresh
      have follows' : ∀ l, some first = some l → ∀ n ∈ names, Grouped l n := by simpa using ahead
      obtain ⟨ascending, later⟩ := ih grouped follows'
      have above : ∀ n ∈ distinct (some first) names, slashed first < slashed n := later first rfl
      refine ⟨List.pairwise_cons.mpr ⟨above, ascending⟩, ?_⟩
      intro l same n member
      have up : slashed l < slashed first :=
        (follows l same first List.mem_cons_self).resolve_left fun equal =>
          fresh (by rw [same, equal])
      rcases List.mem_cons.mp member with rfl | member
      · exact up
      · exact up.trans (above n member)

theorem packageNames_slashed (bucket : Listing String) :
    (packageNames bucket).Pairwise (slashed · < slashed ·) :=
  (distinct_ascending (grouped_names bucket) (by simp)).1

/-! ### Once each, in order -/

def Holds (bucket : Listing String) (name : String) : Prop :=
  ∃ key ∈ bucket.keys, packageName key = some name

theorem mem_packageNames (bucket : Listing String) (name : String) :
    name ∈ packageNames bucket ↔ Holds bucket name := by
  have streamed : name ∈ packageNames bucket ↔
      name ∈ (packages bucket).keys.filterMap packageName :=
    ⟨mem_distinct, fun member => mem_distinct_of_ne member (by simp)⟩
  rw [streamed, List.mem_filterMap]
  constructor
  · rintro ⟨key, member, named⟩
    exact ⟨key, (List.mem_filter.mp member).1, named⟩
  · rintro ⟨key, member, named⟩
    obtain ⟨-, rest, split⟩ := split_of_packageName named
    exact ⟨key, List.mem_filter.mpr ⟨member, by simp [split]⟩, named⟩

theorem clean_of_holds {bucket : Listing String} {name : String} (holds : Holds bucket name) :
    '/' ∉ name.toList := by
  obtain ⟨key, -, named⟩ := holds
  exact (split_of_packageName named).1

theorem packageNames_ascending_iff (bucket : Listing String) :
    (packageNames bucket).Pairwise (· < ·) ↔
      ∀ m n, Holds bucket m → Holds bucket n → ¬ Overtakes m n := by
  rw [pairwise_iff_of_pairwise (r := fun m n => slashed m < slashed n) (fun _ => lt_irrefl _)
    (fun _ _ order => order.asymm) (packageNames_slashed bucket)]
  simp only [mem_packageNames]
  constructor
  · intro agree m n holdsM holdsN overtakes
    obtain ⟨below, above⟩ := (overtakes_iff (clean_of_holds holdsM)).mp overtakes
    exact below.asymm (agree m holdsM n holdsN above)
  · intro apart m holdsM n holdsN order
    rcases lt_trichotomy m n with below | rfl | above
    · exact below
    · exact absurd order (lt_irrefl _)
    · exact absurd ((overtakes_iff (clean_of_holds holdsM)).mpr ⟨above, order⟩)
        (apart m n holdsM holdsN)

/-- Each package that either bucket holds, once, in ascending order. -/
def OnceEach (visited : List String) (a b : Listing String) : Prop :=
  visited.Pairwise (· < ·) ∧ ∀ name, name ∈ visited ↔ Holds a name ∨ Holds b name

theorem diffPair_onceEach_iff (a b : Listing String) :
    OnceEach (diffPair limit convergePackage a b).visited a b ↔
      ∀ bucket ∈ [a, b], ∀ m n, Holds bucket m → Holds bucket n → ¬ Overtakes m n := by
  have complete : ∀ name, name ∈ merged (packageNames a) (packageNames b) ↔
      Holds a name ∨ Holds b name := by
    intro name
    rw [mem_merged, mem_packageNames, mem_packageNames]
  rw [OnceEach, diffPair_visited, merged_ascending_iff]
  simp only [packageNames_ascending_iff, complete, implies_true, and_true, List.mem_cons,
    List.not_mem_nil, or_false, forall_eq_or_imp, forall_eq]

/-- `foo-bar` and `foo`; the key of the first comes before that of the second. -/
def both : Listing String := ⟨["packages/foo-bar/f.whl", "packages/foo/f.whl"], by decide⟩

def onlyFoo : Listing String := ⟨["packages/foo/f.whl"], by decide⟩

theorem foo_twice : (diffPair 1000 (fun _ => .ok .converged) both onlyFoo).visited =
    ["foo", "foo-bar", "foo"] ∧
      ¬ OnceEach (diffPair 1000 (fun _ => .ok .converged) both onlyFoo).visited both onlyFoo := by
  have visits : (diffPair 1000 (fun _ => .ok .converged) both onlyFoo).visited =
      ["foo", "foo-bar", "foo"] := by
    have streamed : packageNames both = ["foo-bar", "foo"] := by decide
    have other : packageNames onlyFoo = ["foo"] := by decide
    have order : compare "foo-bar" "foo" = .gt := by decide
    rw [diffPair_visited, streamed, other]
    simp [merged, order]
  refine ⟨visits, fun once => ?_⟩
  rw [visits] at once
  exact absurd once.1 (by decide)

end Pypiron.DiffPair
