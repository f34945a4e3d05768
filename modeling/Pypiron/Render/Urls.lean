import Mathlib.Data.List.TakeWhile
import Pypiron.ObjectKeys
import Pypiron.PrivateNames
import Pypiron.Render.ReadBack

/-! Where the links of an index lead: a reference is cut at its fragment and its query,
and each segment of its path is decoded. -/
namespace Pypiron.Render
open PercentEncoding (Byte percent hexValue decode)
open ObjectKeys (slash)
open VerifyIndex (FileMetadata)

def bytesOf (text : String) : List Byte := (utf8 text).map UInt8.toFin

def hash : Byte := 0x23
def question : Byte := 0x3f

/-- What stands before the fragment and the query. -/
def visible (ref : List Byte) : List Byte := (ref.takeWhile (· ≠ hash)).takeWhile (· ≠ question)

/-- The text that bytes spell, where they are UTF-8. -/
def textOf (bytes : List Byte) : Option String :=
  String.fromUTF8? ⟨(bytes.map UInt8.ofFin).toArray⟩

/-- What becomes of a request. -/
inductive Landing where
  | noRoute
  | badRequest
  | filesGet (package filename : String)
  deriving DecidableEq

/-- Where a reference from the root leads. The download route matches two segments that
are not empty, and refuses one that does not decode to UTF-8. -/
def target (ref : List Byte) : Landing :=
  match (visible ref).splitOn slash with
  | [[], files, package, filename] =>
    if files = bytesOf "files" ∧ package ≠ [] ∧ filename ≠ [] then
      match textOf (decode package), textOf (decode filename) with
      | some package, some filename => .filesGet package filename
      | _, _ => .badRequest
    else .noRoute
  | _ => .noRoute

def fragment (ref : List Byte) : List Byte := (ref.dropWhile (· ≠ hash)).drop 1

/-- A reference that leads to this file. -/
def Reaches (ref package filename : String) : Prop :=
  target (bytesOf ref) = .filesGet package filename

/-- A reference that leads to another file of the package, whose name is shorter, or to
none: there is nothing left of the name, or it does not decode to UTF-8. -/
inductive Strays (package filename : String) : Landing → Prop where
  | noRoute : visible (bytesOf filename) = [] → Strays package filename .noRoute
  | badRequest : textOf (decode (visible (bytesOf filename))) = none →
      Strays package filename .badRequest
  | shorter (other : String) : (bytesOf other).length < (bytesOf filename).length →
      Strays package filename (.filesGet package other)

/-- No mark of a fragment or a query, and no percent sign before two hexadecimal digits. -/
structure Clean (name : List Byte) : Prop where
  hash : hash ∉ name
  question : question ∉ name
  escapes : ∀ start hi lo rest, name = start ++ percent :: hi :: lo :: rest →
    hexValue hi = none ∨ hexValue lo = none

/-! ### Decoding -/

theorem decode_length (name : List Byte) : (decode name).length ≤ name.length := by
  fun_induction decode name with
  | case1 hi lo rest h l found found' ih => simp only [List.length_cons]; omega
  | case2 hi lo rest none_ ih => simp only [List.length_cons] at ih ⊢; omega
  | case3 b hi lo rest other ih => simp only [List.length_cons] at ih ⊢; omega
  | case4 short => exact le_rfl

/-- Where an escape stands, decoding makes the name shorter. -/
theorem decode_shorter {name start rest : List Byte} {hi lo : Byte} {h l : ℕ}
    (stands : name = start ++ percent :: hi :: lo :: rest) (high : hexValue hi = some h)
    (low : hexValue lo = some l) : (decode name).length < name.length := by
  fun_induction decode name generalizing start with
  | case1 hi' lo' rest' h' l' found found' ih =>
      have := decode_length rest'
      simp only [List.length_cons]
      omega
  | case2 hi' lo' rest' none_ ih =>
      cases start with
      | nil =>
          obtain ⟨rfl, rfl, -⟩ : hi' = hi ∧ lo' = lo ∧ rest' = rest := by simpa using stands
          exact absurd low (none_ h l high)
      | cons b start =>
          have := ih (List.cons.inj stands).2
          simp only [List.length_cons] at this ⊢
          omega
  | case3 b hi' lo' rest' other ih =>
      cases start with
      | nil => exact absurd (List.cons.inj stands).1 other
      | cons b start =>
          have := ih (List.cons.inj stands).2
          simp only [List.length_cons] at this ⊢
          omega
  | case4 short none_ =>
      cases start with
      | nil => exact absurd stands (none_ _ _ _ _)
      | cons b start =>
          cases start with
          | nil => exact absurd stands (none_ _ _ _ _)
          | cons c start =>
              cases start with
              | nil => exact absurd stands (none_ _ _ _ _)
              | cons d start => exact absurd stands (none_ _ _ _ _)

theorem decode_eq_iff {name : List Byte} : decode name = name ↔ ∀ start hi lo rest,
    name = start ++ percent :: hi :: lo :: rest → hexValue hi = none ∨ hexValue lo = none := by
  constructor
  · intro same start hi lo rest stands
    by_contra both
    rw [not_or] at both
    obtain ⟨h, high⟩ := Option.ne_none_iff_exists'.mp both.1
    obtain ⟨l, low⟩ := Option.ne_none_iff_exists'.mp both.2
    have shorter := decode_shorter stands high low
    rw [same] at shorter
    exact lt_irrefl _ shorter
  · intro clean
    fun_induction decode name with
    | case1 hi lo rest h l low high ih =>
        obtain none_ | none_ := clean [] hi lo rest rfl
        · cases high.symm.trans none_
        · cases low.symm.trans none_
    | case2 hi lo rest none_ ih =>
        rw [ih fun start hi' lo' rest' stands => clean (percent :: start) hi' lo' rest' (by rw [stands]; rfl)]
    | case3 b hi lo rest other ih =>
        rw [ih fun start hi' lo' rest' stands => clean (b :: start) hi' lo' rest' (by rw [stands]; rfl)]
    | case4 short => rfl

/-! ### Paths -/

theorem bytesOf_append (text more : String) : bytesOf (text ++ more) = bytesOf text ++ bytesOf more := by
  simp [bytesOf, utf8]

theorem textOf_bytesOf (text : String) : textOf (bytesOf text) = some text := by
  have back : (bytesOf text).map UInt8.ofFin = utf8 text := by simp [bytesOf, Function.comp_def]
  rw [textOf, back]
  have same : (⟨(utf8 text).toArray⟩ : ByteArray) = text.toByteArray := by simp [utf8]
  rw [same, String.fromUTF8?, dif_pos text.isValidUTF8]
  rfl

theorem bytesOf_of_textOf {bytes : List Byte} {text : String} (spells : textOf bytes = some text) :
    bytesOf text = bytes := by
  unfold textOf String.fromUTF8? at spells
  split at spells
  next valid =>
    cases spells
    simp [bytesOf, utf8, String.fromUTF8, Function.comp_def]
  next => cases spells

/-- Bytes spell a text exactly when they are its encoding. -/
theorem textOf_eq_some_iff {bytes : List Byte} {text : String} :
    textOf bytes = some text ↔ bytes = bytesOf text := by
  constructor
  · intro spells
    exact (bytesOf_of_textOf spells).symm
  · rintro rfl
    exact textOf_bytesOf text

theorem takeWhile_eq_self {name : List Byte} {mark : Byte} (absent : mark ∉ name) :
    name.takeWhile (· ≠ mark) = name := by
  rw [List.takeWhile_eq_self_iff]
  intro b member
  have differs : b ≠ mark := by
    rintro rfl
    exact absent member
  simpa using differs

theorem not_mem_takeWhile (name : List Byte) (mark : Byte) : mark ∉ name.takeWhile (· ≠ mark) := by
  intro member
  simpa using List.mem_takeWhile_imp member

theorem visible_isPrefix (name : List Byte) : visible name <+: name :=
  (List.takeWhile_prefix _).trans (List.takeWhile_prefix _)

theorem visible_eq_iff {name : List Byte} : visible name = name ↔ hash ∉ name ∧ question ∉ name := by
  constructor
  · intro same
    constructor
    · rw [← same]
      intro member
      exact not_mem_takeWhile name hash ((List.takeWhile_prefix _).subset member)
    · rw [← same]
      exact not_mem_takeWhile _ question
  · rintro ⟨unhashed, unquestioned⟩
    rw [visible, takeWhile_eq_self unhashed, takeWhile_eq_self unquestioned]

/-- A reference keeps a name exactly when it is clean. -/
theorem decode_visible_iff {name : List Byte} : decode (visible name) = name ↔ Clean name := by
  constructor
  · intro same
    have shorter := decode_length (visible name)
    rw [same] at shorter
    have whole : visible name = name :=
      (visible_isPrefix name).eq_of_length (le_antisymm (visible_isPrefix name).length_le shorter)
    obtain ⟨unhashed, unquestioned⟩ := visible_eq_iff.mp whole
    rw [whole] at same
    exact ⟨unhashed, unquestioned, decode_eq_iff.mp same⟩
  · intro clean
    rw [visible_eq_iff.mpr ⟨clean.hash, clean.question⟩]
    exact decode_eq_iff.mpr clean.escapes

theorem decode_visible_shorter {name : List Byte} (unclean : ¬ Clean name) :
    (decode (visible name)).length < name.length := by
  have upper := (decode_length (visible name)).trans (visible_isPrefix name).length_le
  refine lt_of_le_of_ne upper fun same => ?_
  have whole : visible name = name :=
    (visible_isPrefix name).eq_of_length
      (le_antisymm (visible_isPrefix name).length_le (same.symm.le.trans (decode_length _)))
  rw [whole] at same
  obtain ⟨unhashed, unquestioned⟩ := visible_eq_iff.mp whole
  refine unclean ⟨unhashed, unquestioned, fun start hi lo rest stands => ?_⟩
  by_contra both
  rw [not_or] at both
  obtain ⟨h, high⟩ := Option.ne_none_iff_exists'.mp both.1
  obtain ⟨l, low⟩ := Option.ne_none_iff_exists'.mp both.2
  exact (decode_shorter stands high low).ne same

/-! ### References -/

/-- What may stand for a package in a reference. -/
structure Segment (part : List Byte) : Prop where
  nonempty : part ≠ []
  slash : slash ∉ part
  hash : hash ∉ part
  question : question ∉ part
  percent : percent ∉ part

theorem segment_of_isNormalized {package : String} (normalized : isNormalized package = true) :
    Segment (bytesOf package) := by
  have ascii : ∀ c ∈ package.toList, c.toNat < 128 :=
    fun c member => ascii_symbol (.inr (symbols_of_isNormalized normalized member))
  have absent : ∀ mark : Char, mark.toNat < 128 → ¬ (mark = '-' ∨ mark.isLower = true ∨ mark.isDigit = true) →
      (UInt8.ofNat mark.toNat).toFin ∉ bytesOf package := by
    intro mark narrow other member
    obtain ⟨b, inside, same⟩ := List.mem_map.mp member
    obtain ⟨c, stands, rfl⟩ := (mem_utf8 ascii).mp inside
    obtain rfl := byte_inj (ascii c stands) narrow (UInt8.toFin_inj.mp same)
    exact other (symbols_of_isNormalized normalized stands)
  have nonempty : bytesOf package ≠ [] := by
    rintro same
    have none_ : package = "" := by
      rw [← Option.some_inj, ← textOf_bytesOf, same]
      decide
    rw [none_] at normalized
    cases normalized
  exact ⟨nonempty, absent '/' (by decide) (by decide), absent '#' (by decide) (by decide),
    absent '?' (by decide) (by decide), absent '%' (by decide) (by decide)⟩

/-- A reference to a file, before what may follow it. -/
def spelledRef (package filename : List Byte) : List Byte :=
  slash :: bytesOf "files" ++ slash :: package ++ slash :: filename

theorem bytesOf_url (package filename : String) :
    bytesOf ("/files/" ++ package ++ "/" ++ filename) = spelledRef (bytesOf package) (bytesOf filename) := by
  have start : bytesOf "/files/" = slash :: bytesOf "files" ++ [slash] := by decide
  have between : bytesOf "/" = [slash] := by decide
  simp only [bytesOf_append, start, between, spelledRef, List.append_assoc, List.cons_append,
    List.nil_append]

variable {package filename tail : List Byte}

theorem visible_append (segment : Segment package) :
    visible (slash :: bytesOf "files" ++ slash :: package ++ slash :: filename) =
      slash :: bytesOf "files" ++ slash :: package ++ slash :: visible filename := by
  have between : ∀ mark : Byte, mark ∉ slash :: bytesOf "files" ++ [slash] → mark ∉ package →
      ∀ name, (slash :: bytesOf "files" ++ slash :: package ++ slash :: name).takeWhile (· ≠ mark) =
        slash :: bytesOf "files" ++ slash :: package ++ slash :: name.takeWhile (· ≠ mark) := by
    intro mark start absent name
    have before : ∀ b ∈ slash :: bytesOf "files" ++ slash :: package ++ [slash],
        Decidable.decide (b ≠ mark) = true := by
      intro b member
      rw [decide_eq_true_eq]
      rintro rfl
      simp only [List.mem_append, List.mem_cons, List.not_mem_nil, or_false, not_or] at member start
      tauto
    have kept : (_ ++ name).takeWhile (· ≠ mark) = _ ++ name.takeWhile (· ≠ mark) :=
      List.takeWhile_append_of_pos before
    simpa only [List.append_assoc, List.cons_append, List.nil_append] using kept
  rw [visible, between hash (by decide) segment.hash, between question (by decide) segment.question, visible]

theorem visible_tail (ends : tail = [] ∨ tail.head? = some hash) (name : List Byte) :
    visible (name ++ tail) = visible name := by
  have cut : (name ++ tail).takeWhile (· ≠ hash) = name.takeWhile (· ≠ hash) := by
    obtain rfl | hashed := ends
    · rw [List.append_nil]
    · obtain ⟨rest, rfl⟩ := List.head?_eq_some_iff.mp hashed
      rw [List.takeWhile_append]
      split
      · rename_i whole
        have same := (List.takeWhile_prefix (· ≠ hash) (l := name)).eq_of_length whole
        simpa using same.symm
      · rfl
  rw [visible, cut, visible]

theorem splitOn_spelledRef (segment : Segment package) (slashless : slash ∉ filename) :
    (spelledRef package filename).splitOn slash = [[], bytesOf "files", package, filename] := by
  have joined : spelledRef package filename =
      [slash].intercalate [[], bytesOf "files", package, filename] := by
    simp [spelledRef, List.intercalate]
  rw [joined, List.splitOn_intercalate]
  · intro part member
    simp only [List.mem_cons, List.not_mem_nil, or_false] at member
    obtain rfl | rfl | rfl | rfl := member
    · exact List.not_mem_nil
    · decide
    · exact segment.slash
    · exact slashless
  · simp

/-- Where a reference leads: to its package, and to what is left of the name. -/
theorem target_spelledRef {package : String} (segment : Segment (bytesOf package))
    (slashless : slash ∉ filename) (ends : tail = [] ∨ tail.head? = some hash) :
    target (spelledRef (bytesOf package) filename ++ tail) =
      if visible filename = [] then .noRoute
      else match textOf (decode (visible filename)) with
        | some other => .filesGet package other
        | none => .badRequest := by
  have path : visible (spelledRef (bytesOf package) filename ++ tail) =
      spelledRef (bytesOf package) (visible filename) := by
    rw [visible_tail ends]
    exact visible_append segment
  have split := splitOn_spelledRef segment
    fun member => slashless ((visible_isPrefix filename).subset member)
  have same : decode (bytesOf package) = bytesOf package := by
    apply decode_eq_iff.mpr
    rintro start hi lo rest stands
    exact absurd (by rw [stands]; simp) segment.percent
  simp only [target, path, split, same, textOf_bytesOf, segment.nonempty, ne_eq, not_false_eq_true, true_and]
  by_cases left : visible filename = []
  · simp only [left, not_true_eq_false, if_false, if_true]
  · simp only [left, not_false_eq_true, if_true, if_false]
    cases textOf (decode (visible filename)) with
    | none => rfl
    | some other => rfl

theorem fragment_spelledRef (segment : Segment package) (unhashed : hash ∉ filename) (rest : List Byte) :
    fragment (spelledRef package filename ++ hash :: rest) = rest := by
  have before : ∀ b ∈ spelledRef package filename, Decidable.decide (b ≠ hash) = true := by
    intro b member
    rw [decide_eq_true_eq]
    rintro rfl
    have start : hash ∉ slash :: bytesOf "files" ++ [slash] := by decide
    have absent := segment.hash
    simp only [spelledRef, List.mem_append, List.mem_cons, List.not_mem_nil, or_false, not_or] at member start
    tauto
  rw [fragment, List.dropWhile_append_of_pos before]
  simp

/-! ### Indexes -/

variable (isVersion : String → Bool) {package : String} {files : List FileMetadata}
  (status : ProjectStatusDoc)

/-- The link of a file, with or without its digest. -/
def links (package : String) (f : FileMetadata) : List String :=
  [(pep691File package f).url, (pep691File package f).url ++ "#sha256=" ++ f.sha256]

theorem links_target (normalized : isNormalized package = true) {f : FileMetadata}
    (slashless : slash ∉ bytesOf f.filename) : ∀ link ∈ links package f,
    target (bytesOf link) =
      if visible (bytesOf f.filename) = [] then .noRoute
      else match textOf (decode (visible (bytesOf f.filename))) with
        | some other => .filesGet package other
        | none => .badRequest := by
  intro link member
  have ends : ∃ tail, bytesOf link = spelledRef (bytesOf package) (bytesOf f.filename) ++ tail ∧
      (tail = [] ∨ tail.head? = some hash) := by
    simp only [links, List.mem_cons, List.not_mem_nil, or_false] at member
    obtain rfl | rfl := member
    · refine ⟨[], ?_, .inl rfl⟩
      rw [pep691File, bytesOf_url, List.append_nil]
    · refine ⟨bytesOf ("#sha256=" ++ f.sha256), ?_, .inr ?_⟩
      · rw [String.append_assoc, bytesOf_append, pep691File, bytesOf_url]
      · rw [bytesOf_append]
        rfl
  obtain ⟨tail, spelled, ends⟩ := ends
  rw [spelled]
  exact target_spelledRef (segment_of_isNormalized normalized) slashless ends

/-- A link leads to its file where the name is clean. -/
theorem links_reach_iff (normalized : isNormalized package = true) {f : FileMetadata}
    (nonempty : f.filename ≠ "") (slashless : slash ∉ bytesOf f.filename) :
    ∀ link ∈ links package f, Reaches link package f.filename ↔ Clean (bytesOf f.filename) := by
  intro link member
  rw [Reaches, links_target normalized slashless link member, ← decode_visible_iff]
  constructor
  · intro reaches
    split at reaches
    · cases reaches
    · split at reaches
      next other spells =>
        cases reaches
        exact textOf_eq_some_iff.mp spells
      next => cases reaches
  · intro same
    rw [if_neg, same, textOf_bytesOf]
    intro none_
    rw [none_, ← textOf_eq_some_iff] at same
    rw [show textOf (decode []) = some "" by decide] at same
    exact nonempty (Option.some.inj same).symm

theorem links_stray (normalized : isNormalized package = true) {f : FileMetadata}
    (slashless : slash ∉ bytesOf f.filename) (unclean : ¬ Clean (bytesOf f.filename)) :
    ∀ link ∈ links package f, Strays package f.filename (target (bytesOf link)) := by
  intro link member
  rw [links_target normalized slashless link member]
  split
  next left => exact .noRoute left
  next =>
    split
    next other spells =>
      refine .shorter other ?_
      rw [bytesOf_of_textOf spells]
      exact decode_visible_shorter unclean
    next garbled => exact .badRequest garbled

theorem links_fragment (normalized : isNormalized package = true) {f : FileMetadata}
    (unhashed : hash ∉ bytesOf f.filename) :
    fragment (bytesOf ((pep691File package f).url ++ "#sha256=" ++ f.sha256)) =
      bytesOf ("sha256=" ++ f.sha256) := by
  have split : bytesOf ("#sha256=" ++ f.sha256) = hash :: bytesOf ("sha256=" ++ f.sha256) := by
    rw [bytesOf_append, bytesOf_append]
    rfl
  rw [pep691File, String.append_assoc, bytesOf_append, bytesOf_url, split]
  exact fragment_spelledRef (segment_of_isNormalized normalized) unhashed _

/-- The link of a file leads to it, with its digest as fragment, exactly when the name is
clean; else it leads to a file of another, shorter name, or to none. -/
theorem pep691ProjectJson_links_iff (normalized : isNormalized package = true)
    (named : ∀ f ∈ files, f.filename ≠ "" ∧ slash ∉ bytesOf f.filename) :
    ∀ file ∈ (pep691ProjectJson isVersion package files status).files,
      (Reaches file.url package file.filename ↔ Clean (bytesOf file.filename)) ∧
      (Reaches (file.url ++ "#sha256=" ++ file.sha256) package file.filename ∧
          fragment (bytesOf (file.url ++ "#sha256=" ++ file.sha256)) = bytesOf ("sha256=" ++ file.sha256) ↔
        Clean (bytesOf file.filename)) ∧
      (¬ Clean (bytesOf file.filename) →
        Strays package file.filename (target (bytesOf file.url)) ∧
        Strays package file.filename (target (bytesOf (file.url ++ "#sha256=" ++ file.sha256)))) := by
  intro file member
  obtain ⟨f, listed, rfl⟩ := List.mem_map.mp member
  obtain ⟨nonempty, slashless⟩ := named f listed
  rw [sha256_pep691File, show (pep691File package f).filename = f.filename from rfl]
  have bare : (pep691File package f).url ∈ links package f := List.mem_cons_self
  have full : (pep691File package f).url ++ "#sha256=" ++ f.sha256 ∈ links package f :=
    List.mem_cons_of_mem _ List.mem_cons_self
  have reaches := links_reach_iff normalized nonempty slashless
  refine ⟨reaches _ bare, ?_, fun unclean => ?_⟩
  · rw [reaches _ full]
    exact and_iff_left_of_imp fun clean => links_fragment normalized clean.hash
  · have strays := links_stray normalized slashless unclean
    exact ⟨strays _ bare, strays _ full⟩

/-- All of these may be uploaded. The second's link leads to the first, the third's is not
UTF-8, and of the last nothing is left. -/
def escapedNames : List FileMetadata := ["a-1.zip", "a%2D1.zip", "a%FF-1.zip", "#a-1.zip"].map fun filename =>
  { filename, sha256 := "", size := 0, uploadTime := none, version := none, yanked := .flag false,
    requiresPython := none, coreMetadata := false, coreMetadataSha256 := none, provenance := false }

theorem escapedNames_links :
    (∀ f ∈ escapedNames, ObjectKeys.validArtifactFilename (bytesOf f.filename) = true) ∧
    Reaches "/files/a/a%2D1.zip" "a" "a-1.zip" ∧
    target (bytesOf "/files/a/a%FF-1.zip") = .badRequest ∧
    target (bytesOf "/files/a/#a-1.zip") = .noRoute ∧
    (Reaches "/files/a/a%2D1.zip" "a" "a%2D1.zip" ↔ Clean (bytesOf "a%2D1.zip")) := by
  have normalized : isNormalized "a" = true := by decide
  have named : ∀ f ∈ escapedNames, f.filename ≠ "" ∧ slash ∉ bytesOf f.filename := by decide
  have links := pep691ProjectJson_links_iff (fun _ => true) { status := .active, reason := none }
    normalized named
  refine ⟨by decide, by unfold Reaches; decide, by decide, by decide, ?_⟩
  exact (links (pep691File "a" escapedNames[1]) (by simp [pep691ProjectJson, escapedNames])).1

end Pypiron.Render
