import Pypiron.ObjectKeys

/-! Pages of keys against the whole listing: each key comes once, in the order of the
spellings, which is the order of the keys unless two of them are inverted. -/
namespace Pypiron.ObjectKeys
open PagedListing PercentEncoding

/-! ### Spellings of well-shaped keys -/

theorem encode_intercalate (rules : PathRules) (parts : List (List Byte)) :
    encode rules.toEscapeSet ([slash].intercalate parts) =
      [slash].intercalate (parts.map (encode rules.toEscapeSet)) := by
  have kept : encodeByte rules.toEscapeSet slash = [slash] := by
    simp [encodeByte, rules.slash_kept]
  induction parts with
  | nil => simp
  | cons part parts ih =>
    cases parts with
    | nil => simp
    | cons next parts =>
      rw [List.intercalate_cons_cons, List.map_cons, List.map_cons, List.intercalate_cons_cons,
        ← List.map_cons, ← ih]
      simp [kept]

theorem osPath_of_shaped (rules : PathRules) {text : List Byte} (shaped : Shaped text) :
    osPath rules text = encode rules.toEscapeSet text := by
  have whole : (text.splitOn slash).filter (· ≠ []) = text.splitOn slash := by
    rw [List.filter_eq_self]
    intro part member
    simpa using (shaped part member).1
  have plain : (text.splitOn slash).map (encodePart rules) =
      (text.splitOn slash).map (encode rules.toEscapeSet) := by
    refine List.map_congr_left fun part member => ?_
    obtain ⟨-, single, double⟩ := shaped part member
    simp [encodePart, single, double]
  rw [osPath, whole, plain, ← encode_intercalate, List.intercalate_splitOn]

theorem shaped_append_iff {front back : List Byte} :
    Shaped (front ++ slash :: back) ↔ Shaped front ∧ Shaped back := by
  rw [Shaped, List.splitOn_append_cons_self]
  exact List.forall_mem_append

theorem Shaped.ne_nil {text : List Byte} (shaped : Shaped text) : text ≠ [] := by
  rintro rfl
  exact absurd rfl (shaped [] (by simp)).1

/-- A directory's key is spelled as the directory. -/
theorem osPath_dir (rules : PathRules) {dir : List Byte} (shaped : Shaped dir) :
    osPath rules (dir ++ [slash]) = encode rules.toEscapeSet dir := by
  have dropped : ((dir ++ [slash]).splitOn slash).filter (· ≠ []) =
      (dir.splitOn slash).filter (· ≠ []) := by
    rw [List.splitOn_append_cons_self, List.filter_append]
    simp
  rw [osPath, dropped]
  exact osPath_of_shaped rules shaped

variable (storage : ObjectStorage)

/-- What every one of our locations starts with. -/
def Naming.rootSpelling (naming : Naming) : Location :=
  match naming.root with
  | some p => encode naming.rules.toEscapeSet p ++ [slash]
  | none => []

theorem oskey_eq (naming : Naming) {key : Key} (shaped : Shaped key) :
    naming.oskey key = naming.rootSpelling ++ encode naming.rules.toEscapeSet key := by
  unfold Naming.oskey Naming.rootSpelling
  cases root : naming.root with
  | none => simp [osPath_of_shaped naming.rules shaped]
  | some p =>
    have both := shaped_append_iff.mpr ⟨naming.root_shaped p root, shaped⟩
    have kept : encodeByte naming.rules.toEscapeSet slash = [slash] := by
      simp [encodeByte, naming.rules.slash_kept]
    simp [osPath_of_shaped naming.rules both, kept]

theorem stripPrefix_append (pre text : List Byte) : stripPrefix pre (pre ++ text) = some text := by
  simp [stripPrefix]

/-- A key is read back from its location. -/
theorem unkey_oskey (naming : Naming) {key : Key} (shaped : Shaped key)
    (valid : isUtf8 key = true) : naming.unkey (naming.oskey key) = some key := by
  rw [oskey_eq naming shaped]
  unfold Naming.unkey Naming.rootSpelling
  cases root : naming.root with
  | none => simp [decode_encode, valid]
  | some p =>
    have spelled := osPath_of_shaped naming.rules (naming.root_shaped p root)
    have separated (rest : Location) : stripPrefix [slash] (slash :: rest) = some rest :=
      stripPrefix_append [slash] rest
    simp [spelled, stripPrefix_append, separated, decode_encode, valid]

theorem oskey_dir (naming : Naming) {dir : List Byte} (shaped : Shaped dir) :
    naming.oskey (dir ++ [slash]) =
      naming.rootSpelling ++ encode naming.rules.toEscapeSet dir := by
  unfold Naming.oskey Naming.rootSpelling
  cases root : naming.root with
  | none => simp [osPath_dir naming.rules shaped]
  | some p =>
    have both := shaped_append_iff.mpr ⟨naming.root_shaped p root, shaped⟩
    have kept : encodeByte naming.rules.toEscapeSet slash = [slash] := by
      simp [encodeByte, naming.rules.slash_kept]
    have nested : p ++ slash :: (dir ++ [slash]) = (p ++ slash :: dir) ++ [slash] := by simp
    simp [nested, -List.append_assoc, osPath_dir naming.rules both]
    simp [kept]

/-! ### What a listing holds -/

/-- A key that is stored. -/
structure ObjectStorage.Holds (key : Key) : Prop where
  shaped : Shaped key
  valid : isUtf8 key = true
  stored : storage.oskey key ∈ storage.objects.keys

theorem holds_of_unkey {loc : Location} {key : Key} (stored : loc ∈ storage.objects.keys)
    (read : storage.unkey loc = some key) : storage.Holds key ∧ storage.oskey key = loc := by
  have below : under (storage.root.map (osPath storage.rules)) loc = true := by
    unfold Naming.unkey at read
    cases root : storage.root with
    | none => rfl
    | some p =>
      rw [root] at read
      obtain ⟨rest, stripped, -⟩ := Option.bind_eq_some_iff.mp read
      obtain ⟨tail, first, second⟩ := Option.bind_eq_some_iff.mp stripped
      unfold stripPrefix at first second
      split at first
      · rename_i starts
        obtain ⟨more, rfl⟩ := starts
        simp only [List.drop_left, Option.some.injEq] at first
        subst first
        split at second
        · rename_i separated
          obtain ⟨more', rfl⟩ := separated
          simp [under]
        · contradiction
      · contradiction
  obtain ⟨own, shaped, valid, rfl⟩ := storage.ours loc stored below
  obtain rfl := Option.some.inj ((unkey_oskey _ shaped valid).symm.trans read)
  exact ⟨⟨shaped, valid, stored⟩, rfl⟩

theorem dirPart_cases (pre : Key) : dirPart pre = [] ∨ ∃ dir, dirPart pre = dir ++ [slash] := by
  unfold dirPart
  cases kept : pre.reverse.dropWhile (· ≠ slash) with
  | nil => exact .inl rfl
  | cons b rest =>
    have last : b = slash := by
      have := List.head?_dropWhile_not (· ≠ slash) pre.reverse
      rw [kept] at this
      simpa using this
    exact .inr ⟨rest.reverse, by simp [last]⟩

theorem dirPart_starts (pre : Key) : dirPart pre <+: pre := by
  unfold dirPart
  rw [← List.reverse_suffix, List.reverse_reverse]
  exact List.dropWhile_suffix _

/-- A key that starts with a prefix lies in the directory that is listed for it. -/
theorem under_of_starts {pre key : Key} (shaped : Shaped key) (starts : pre <+: key) :
    under (storage.listDirPrefix pre) (storage.oskey key) = true := by
  unfold ObjectStorage.listDirPrefix
  rw [oskey_eq _ shaped]
  rcases dirPart_cases pre with top | ⟨dir, nested⟩
  · cases root : storage.root with
    | none => simp [top, under]
    | some p =>
      have spelled : storage.oskey [] = encode storage.rules.toEscapeSet p := by
        simp only [Naming.oskey, root]
        exact osPath_dir storage.rules (storage.root_shaped p root)
      simp [top, under, spelled, Naming.rootSpelling, root]
  · obtain ⟨rest, rfl⟩ := (dirPart_starts pre).trans starts
    rw [nested] at shaped ⊢
    simp only [List.append_assoc, List.singleton_append] at shaped ⊢
    obtain ⟨shapedDir, -⟩ := shaped_append_iff.mp shaped
    have kept : encodeByte storage.rules.toEscapeSet slash = [slash] := by
      simp [encodeByte, storage.rules.slash_kept]
    simp [under, oskey_dir _ shapedDir, kept]

/-- The keys of a listing that start with a prefix, in the order of their spellings. -/
def ObjectStorage.matched (pre : Key) (offset : Option Location) : List Key :=
  storage.listMatching (storage.stream pre offset) pre

theorem mem_matched (pre key : Key) :
    key ∈ storage.matched pre none ↔ storage.Holds key ∧ pre <+: key := by
  simp only [ObjectStorage.matched, ObjectStorage.listMatching, ObjectStorage.stream,
    Listing.beyond_none, Listing.under, List.mem_filter, List.mem_filterMap, decide_eq_true_eq]
  constructor
  · rintro ⟨⟨loc, ⟨stored, -⟩, read⟩, starts⟩
    exact ⟨(holds_of_unkey storage stored read).1, starts⟩
  · rintro ⟨holds, starts⟩
    exact ⟨⟨_, ⟨holds.stored, under_of_starts storage holds.shaped starts⟩,
      unkey_oskey _ holds.shaped holds.valid⟩, starts⟩

theorem mem_stream {pre : Key} {offset : Option Location} {loc : Location}
    (member : loc ∈ storage.stream pre offset) : loc ∈ storage.objects.keys :=
  (List.mem_filter.mp (List.mem_filter.mp member).1).1

theorem matched_ascending (pre : Key) (offset : Option Location) :
    (storage.matched pre offset).Pairwise (storage.oskey · < storage.oskey ·) := by
  have ascending : (storage.stream pre offset).Pairwise (· < ·) :=
    ((storage.objects.under _).ascending).filter _
  refine List.Pairwise.filter _ (List.pairwise_filterMap.mpr (ascending.imp_of_mem ?_))
  intro a b memberA memberB below m readA n readB
  rw [(holds_of_unkey storage (mem_stream storage memberA) readA).2,
    (holds_of_unkey storage (mem_stream storage memberB) readB).2]
  exact below

/-! ### Page after page -/

/-- The keys after one of the stream are those beyond its location. -/
theorem matched_split {pre key : Key} {offset : Option Location} {front rest : List Key}
    (split : storage.matched pre offset = front ++ key :: rest) :
    storage.matched pre (some (storage.oskey key)) = rest ∧
      (storage.stream pre (some (storage.oskey key))).length <
        (storage.stream pre offset).length := by
  simp only [ObjectStorage.matched, ObjectStorage.listMatching, List.filter_filterMap] at split ⊢
  obtain ⟨before, after, cut, -, tail⟩ := List.filterMap_eq_append_iff.mp split
  obtain ⟨skipped, loc, later, rfl, -, found, rfl⟩ := List.filterMap_eq_cons_iff.mp tail
  have read : storage.unkey loc = some key := (Option.filter_eq_some_iff.mp found).1
  have member : loc ∈ storage.stream pre offset := by simp [cut]
  have spelled := (holds_of_unkey storage (mem_stream storage member) read).2
  have whole : storage.stream pre offset = (before ++ skipped) ++ loc :: later := by simp [cut]
  have beyond : storage.stream pre (some loc) = later := Listing.beyond_of_mem _ whole
  rw [spelled, beyond]
  refine ⟨rfl, ?_⟩
  rw [whole]
  simp
  omega

theorem listPage_last {pre : Key} {after : Option Key} {limit : ℕ+}
    (some' : storage.listPage pre after limit ≠ []) :
    ∃ key, (storage.listPage pre after limit).getLast? = some key ∧
      storage.matched pre (after.map storage.oskey) = storage.listPage pre after limit ++
        storage.matched pre (some (storage.oskey key)) ∧
      (storage.stream pre (some (storage.oskey key))).length <
        (storage.stream pre (after.map storage.oskey)).length := by
  obtain ⟨key, ends⟩ := Option.isSome_iff_exists.mp (List.getLast?_isSome.mpr some')
  obtain ⟨front, page⟩ := List.getLast?_eq_some_iff.mp ends
  have split : storage.matched pre (after.map storage.oskey) =
      front ++ key :: (storage.matched pre (after.map storage.oskey)).drop limit := by
    rw [← List.singleton_append, ← List.append_assoc, ← page]
    exact (List.take_append_drop _ _).symm
  obtain ⟨rest, shorter⟩ := matched_split storage split
  refine ⟨key, ends, ?_, shorter⟩
  rw [rest, page, List.append_assoc]
  exact split

/-- Ask for pages, each from after the last key of the one before, until none comes. -/
def ObjectStorage.pages (pre : Key) (limit : ℕ+) (after : Option Key) : List Key :=
  if _some : storage.listPage pre after limit = [] then []
  else storage.listPage pre after limit ++
    ObjectStorage.pages pre limit (storage.listPage pre after limit).getLast?
termination_by (storage.stream pre (after.map storage.oskey)).length
decreasing_by
  obtain ⟨key, ends, -, shorter⟩ := listPage_last storage _some
  rw [ends]
  exact shorter

theorem pages_eq (pre : Key) (limit : ℕ+) (after : Option Key) :
    storage.pages pre limit after = storage.matched pre (after.map storage.oskey) := by
  fun_induction ObjectStorage.pages storage pre limit after with
  | case1 after none =>
    have empty : (storage.matched pre (after.map storage.oskey)).take limit = [] := none
    simpa using empty.symm
  | case2 after some ih =>
    obtain ⟨key, ends, whole, -⟩ := listPage_last storage some
    rw [ih, ends, whole]
    rfl

/-- The keys come back from their locations, and the pages give the keys of the whole
listing, which are the stored ones that start with the prefix, once each and ascending. -/
def PagesRight (pre : Key) (limit : ℕ+) : Prop :=
  (∀ key, Shaped key → isUtf8 key = true → storage.unkey (storage.oskey key) = some key) ∧
    (∀ key, key ∈ storage.listAll pre ↔ storage.Holds key ∧ pre <+: key) ∧
    storage.pages pre limit none = storage.listAll pre ∧
    (storage.pages pre limit none).Pairwise (· < ·)

theorem mem_listAll (pre key : Key) :
    key ∈ storage.listAll pre ↔ storage.Holds key ∧ pre <+: key := by
  rw [← mem_matched]
  exact List.mem_insertionSort _

theorem oskey_lt_iff {naming : Naming} {m n : Key} (shapedM : Shaped m) (shapedN : Shaped n) :
    naming.oskey m < naming.oskey n ↔
      encode naming.rules.toEscapeSet m < encode naming.rules.toEscapeSet n := by
  rw [oskey_eq naming shapedM, oskey_eq naming shapedN]
  constructor
  · intro order
    rcases lt_trichotomy (encode naming.rules.toEscapeSet m)
      (encode naming.rules.toEscapeSet n) with below | same | above
    · exact below
    · rw [same] at order
      exact absurd order (lt_irrefl _)
    · exact absurd (List.append_left_lt above) order.asymm
  · exact fun order => List.append_left_lt order

theorem Inverts.lt {set : EscapeSet} {m n : Key} (inverts : Inverts set m n) : m < n := by
  obtain ⟨start, a, restA, b, restB, rfl, rfl, below, -⟩ := inverts
  exact List.append_left_lt (List.cons_lt_cons_iff.mpr (.inl below))

theorem matched_sorted_iff (pre : Key) : (storage.matched pre none).Pairwise (· < ·) ↔
    ∀ m n, storage.Holds m → storage.Holds n → pre <+: m → pre <+: n →
      ¬ Inverts storage.rules.toEscapeSet m n := by
  rw [pairwise_iff_of_pairwise (r := fun m n => storage.oskey m < storage.oskey n)
    (fun _ => lt_irrefl _) (fun _ _ order => order.asymm) (matched_ascending storage pre none)]
  simp only [mem_matched]
  constructor
  · intro agree m n holdsM holdsN startsM startsN inverts
    have below := Inverts.lt inverts
    have spelled : ¬ encode storage.rules.toEscapeSet m < encode storage.rules.toEscapeSet n :=
      fun order => (encode_lt_iff _ below).mp order inverts
    rw [← oskey_lt_iff holdsM.shaped holdsN.shaped] at spelled
    rcases (not_lt.mp spelled).lt_or_eq with above | same
    · exact below.asymm (agree n ⟨holdsN, startsN⟩ m ⟨holdsM, startsM⟩ above)
    · have read := unkey_oskey storage.toNaming holdsM.shaped holdsM.valid
      rw [← same, unkey_oskey _ holdsN.shaped holdsN.valid] at read
      exact below.ne (Option.some.inj read).symm
  · intro straight m ⟨holdsM, startsM⟩ n ⟨holdsN, startsN⟩ order
    rw [oskey_lt_iff holdsM.shaped holdsN.shaped] at order
    rcases lt_trichotomy m n with below | rfl | above
    · exact below
    · exact absurd order (lt_irrefl _)
    · have reversed := (encode_lt_iff _ above).mpr
        (straight n m holdsN holdsM startsN startsM)
      exact absurd order reversed.asymm

theorem pagesRight_iff (pre : Key) (limit : ℕ+) : PagesRight storage pre limit ↔
    ∀ m n, storage.Holds m → storage.Holds n → pre <+: m → pre <+: n →
      ¬ Inverts storage.rules.toEscapeSet m n := by
  have streamed : storage.pages pre limit none = storage.matched pre none := pages_eq _ _ _ _
  rw [← matched_sorted_iff, PagesRight, streamed]
  constructor
  · exact fun right => right.2.2.2
  · intro sorted
    refine ⟨fun key => unkey_oskey storage.toNaming, mem_listAll storage pre, ?_, sorted⟩
    exact (List.Pairwise.insertionSort_eq (sorted.imp fun below => below.le)).symm

/-! ### Names that are uploaded -/

theorem shaped_of_segment {part : List Byte} (separate : slash ∉ part) (filled : part ≠ [])
    (visible : part.head? ≠ some dot) : Shaped part := by
  rw [Shaped, List.splitOn_eq_singleton separate]
  intro segment member
  obtain rfl := List.mem_singleton.mp member
  refine ⟨filled, ?_, ?_⟩ <;> rintro rfl <;> exact visible rfl

/-- The keys that uploads are stored under are well shaped. -/
theorem artifactKey_shaped {pkg name : List Byte} (filled : pkg ≠ [])
    (normalized : ∀ b ∈ pkg, b ≠ slash ∧ b ≠ dot) (valid : validArtifactFilename name = true) :
    Shaped (bytes "packages" ++ slash :: (pkg ++ slash :: name)) := by
  simp only [validArtifactFilename, isArtifact, Bool.and_eq_true, Bool.not_eq_true',
    decide_eq_true_eq, List.contains_eq_mem, decide_eq_false_iff_not] at valid
  obtain ⟨⟨⟨⟨-, separate⟩, -⟩, -⟩, ⟨nonempty, visible⟩, -⟩ := valid
  refine shaped_append_iff.mpr ⟨by decide, shaped_append_iff.mpr ⟨?_, ?_⟩⟩
  · refine shaped_of_segment (fun member => (normalized slash member).1 rfl) filled fun first => ?_
    exact (normalized dot (List.mem_of_mem_head? first)).2 rfl
  · exact shaped_of_segment separate nonempty visible

/-- The bytes that paths of the object store escape. -/
def pathRules : PathRules where
  escapes b := b < 0x20 || 0x7f ≤ b || (bytes "~%#[]\x7b\x7d^|<>\"*?\\`").contains b
  escapes_percent := by decide
  slash_kept := by decide

/-- `a-b.whl` and `a~b.whl` of one package, in the order of their spellings. -/
def tilde : ObjectStorage where
  rules := pathRules
  root := none
  root_shaped := by simp
  objects := ⟨[bytes "packages/p/a%7Eb.whl", bytes "packages/p/a-b.whl"], by decide⟩
  ours := by
    intro loc member _
    rcases List.mem_cons.mp member with rfl | member
    · exact ⟨bytes "packages/p/a~b.whl", by decide, by decide, by decide⟩
    · obtain rfl := List.mem_singleton.mp member
      exact ⟨bytes "packages/p/a-b.whl", by decide, by decide, by decide⟩

theorem tilde_first : tilde.pages (bytes "packages/") 1000 none =
    [bytes "packages/p/a~b.whl", bytes "packages/p/a-b.whl"] ∧
      ¬ PagesRight tilde (bytes "packages/") 1000 := by
  have listed : tilde.pages (bytes "packages/") 1000 none =
      [bytes "packages/p/a~b.whl", bytes "packages/p/a-b.whl"] := by
    rw [pages_eq]
    decide
  refine ⟨listed, fun right => ?_⟩
  have sorted := right.2.2.2
  rw [listed] at sorted
  exact absurd sorted (by decide)

end Pypiron.ObjectKeys
