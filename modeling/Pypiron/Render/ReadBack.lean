import Pypiron.Markdown.Contained
import Pypiron.Render

/-! The HTML page and the JSON document of a package say the same: a reader of the page
finds the links and marks that the document lists, whatever the names and reasons hold. -/
namespace Pypiron.Render
open Markdown (HtmlEscape escapeText escapeAttribute documentedEscape)
open MarkupPages (Shows Bracketless)
open VerifyIndex (FileMetadata)

variable {html : HtmlEscape}

/-! ### Escapes -/

theorem decodeEntities_plain {c : Char} (plain : c ≠ '&') (rest : List Char) :
    decodeEntities (c :: rest) = c :: decodeEntities rest := by
  rw [decodeEntities]
  all_goals simp_all

theorem decodeEntities_escapeText (c : Char) (rest : List Char) :
    decodeEntities (escapeText c ++ rest) = c :: decodeEntities rest := by
  unfold escapeText
  split
  · rename_i same
    subst same
    rfl
  · split
    · rename_i same
      subst same
      rfl
    · split
      · rename_i same
        subst same
        rfl
      · rename_i other _ _
        exact decodeEntities_plain other rest

theorem decodeEntities_escapeAttribute (c : Char) (rest : List Char) :
    decodeEntities (escapeAttribute c ++ rest) = c :: decodeEntities rest := by
  unfold escapeAttribute
  split
  · rename_i same
    subst same
    rfl
  · exact decodeEntities_escapeText c rest

theorem decodeEntities_flatMap {escape : Char → List Char}
    (undone : ∀ c rest, decodeEntities (escape c ++ rest) = c :: decodeEntities rest) (text : List Char) :
    decodeEntities (text.flatMap escape) = text := by
  induction text with
  | nil => rfl
  | cons c text ih => rw [List.flatMap_cons, undone, ih]

theorem bracketless_escapeText (c : Char) : Bracketless (escapeText c) := by
  have plain := Markdown.plain_escapeText c
  exact ⟨fun member => (plain _ member).1 rfl, fun member => (plain _ member).2 rfl⟩

theorem bracketless_escapeAttribute (c : Char) : Bracketless (escapeAttribute c) := by
  have plain := Markdown.plain_escapeAttribute c
  exact ⟨fun member => (plain _ member).1 rfl, fun member => (plain _ member).2 rfl⟩

theorem bracketless_flatMap {items : List α} {write : α → List Char}
    (each : ∀ item ∈ items, Bracketless (write item)) : Bracketless (items.flatMap write) := by
  constructor
  · intro member
    obtain ⟨item, within, member⟩ := List.mem_flatMap.mp member
    exact (each item within).1 member
  · intro member
    obtain ⟨item, within, member⟩ := List.mem_flatMap.mp member
    exact (each item within).2 member

/-- The written text is the value with its characters escaped. -/
def Encodes (written value : String) : Prop := written.toList = value.toList.flatMap escapeAttribute

theorem encodes_escaped (value : String) : Encodes (html.encodeDoubleQuotedAttribute value) value :=
  html.encodeAttribute_eq value

theorem Encodes.append {written value written' value' : String} (first : Encodes written value)
    (second : Encodes written' value') : Encodes (written ++ written') (value ++ value') := by
  rw [Encodes, String.toList_append, String.toList_append, List.flatMap_append, ← first, ← second]

/-! ### Attributes -/

def raw (entry : String × String) : List Char × List Char :=
  (entry.1.toList, entry.2.toList.flatMap escapeAttribute)

/-- The names the renderer gives to attributes. -/
def attributeNames : List String :=
  ["href", "data-requires-python", "data-core-metadata", "data-dist-info-metadata", "data-provenance",
    "data-yanked", "name", "content"]

theorem attributeNames_plain : ∀ name ∈ attributeNames, '"' ∉ name.toList ∧ Bracketless name.toList := by
  decide

theorem raw_bare {entry : String × String} (known : entry.1 ∈ attributeNames) :
    '"' ∉ (raw entry).1 ∧ '"' ∉ (raw entry).2 := by
  refine ⟨(attributeNames_plain entry.1 known).1, fun member => ?_⟩
  obtain ⟨c, -, within⟩ := List.mem_flatMap.mp member
  exact Markdown.quote_escapeAttribute c within

theorem bracketless_spell {entry : String × String} (known : entry.1 ∈ attributeNames) :
    Bracketless (MarkupPages.spell (raw entry)) := by
  have name : Bracketless (' ' :: (entry.1.toList ++ ['='])) :=
    (show Bracketless [' '] by decide).append
      ((attributeNames_plain entry.1 known).2.append (show Bracketless ['='] by decide))
  have value : Bracketless ('"' :: (entry.2.toList.flatMap escapeAttribute ++ ['"'])) :=
    (show Bracketless ['"'] by decide).append
      ((bracketless_flatMap fun c _ => bracketless_escapeAttribute c).append
        (show Bracketless ['"'] by decide))
  exact name.append value

theorem spelled {start written value : String} (name : String) (encodes : Encodes written value)
    (opens : start.toList = ' ' :: (name.toList ++ ['=']) ++ ['"']) :
    (start ++ written ++ "\"").toList = MarkupPages.spell (raw (name, value)) := by
  rw [String.toList_append, String.toList_append, encodes, opens, MarkupPages.spell]
  simp [raw]

/-- A tag with attributes and the text after it is one element. -/
theorem shows_element {name : String} {entries : List (String × String)} {text : List Char}
    (nonempty : entries ≠ []) (known : ∀ entry ∈ entries, entry.1 ∈ attributeNames)
    (plain : Bracketless name.toList) (plainText : Bracketless text) :
    Shows name.toList ('<' :: (name.toList ++ (entries.map raw).flatMap MarkupPages.spell ++ ['>']) ++ text)
      [(entries.map raw, text)] := by
  have read := @MarkupPages.attributesOf_spelled name.toList (entries.map raw)
    (by simpa using nonempty) (by
      intro entry member
      obtain ⟨entry, within, rfl⟩ := List.mem_map.mp member
      exact raw_bare (known entry within))
  have spells : Bracketless ((entries.map raw).flatMap MarkupPages.spell) := by
    refine bracketless_flatMap fun entry member => ?_
    obtain ⟨entry, within, rfl⟩ := List.mem_map.mp member
    exact bracketless_spell (known entry within)
  have shown := @MarkupPages.shows_tag name.toList text _ (plain.append spells) plainText
  rw [read] at shown
  exact shown

/-- The attributes of some entries, as they are written. -/
def spells (entries : List (String × String)) : List Char := (entries.map raw).flatMap MarkupPages.spell

theorem spells_append (entries entries' : List (String × String)) :
    spells (entries ++ entries') = spells entries ++ spells entries' := by
  rw [spells, List.map_append, List.flatMap_append]
  rfl

theorem spells_single (entry : String × String) : spells [entry] = MarkupPages.spell (raw entry) :=
  List.append_nil _

theorem spells_cons (entry : String × String) (entries : List (String × String)) :
    spells (entry :: entries) = MarkupPages.spell (raw entry) ++ spells entries := rfl

/-! ### Links -/

section Link
variable {package : String} (f : FileMetadata)

theorem requiresAttr_spells : (requiresAttr html f).toList =
    spells ((f.requiresPython.map fun rp => ("data-requires-python", rp)).toList) := by
  unfold requiresAttr
  cases f.requiresPython with
  | none => rfl
  | some rp =>
      rw [spelled "data-requires-python" (encodes_escaped rp) (by decide)]
      exact (spells_single _).symm

theorem coreMetadataAttrs_spells : (coreMetadataAttrs html f).toList =
    spells (pep691File package f).coreMarks := by
  have both {written value : String} (encodes : Encodes written value) :
      (" data-core-metadata=\"" ++ written ++ "\" data-dist-info-metadata=\"" ++ written ++ "\"").toList =
        spells [("data-core-metadata", value), ("data-dist-info-metadata", value)] := by
    have first := @spelled " data-core-metadata=\"" written value "data-core-metadata" encodes (by decide)
    have second := @spelled " data-dist-info-metadata=\"" written value "data-dist-info-metadata" encodes
      (by decide)
    rw [show [("data-core-metadata", value), ("data-dist-info-metadata", value)] =
      [("data-core-metadata", value)] ++ [("data-dist-info-metadata", value)] from rfl, spells_append,
      spells_single, spells_single, ← first, ← second, ← String.toList_append]
    rw [show "\" data-dist-info-metadata=\"" = "\"" ++ " data-dist-info-metadata=\"" by decide]
    simp only [String.append_assoc]
  unfold coreMetadataAttrs Pep691File.coreMarks pep691File
  cases f.coreMetadata with
  | false => rfl
  | true =>
      simp only [if_true]
      cases f.coreMetadataSha256 with
      | none => exact both (show Encodes "true" "true" by unfold Encodes; decide)
      | some sha => exact both (encodes_escaped ("sha256=" ++ sha))

theorem encodes_url {pkgAttr : String} (encodes : Encodes pkgAttr package) :
    Encodes ("/files/" ++ pkgAttr ++ "/" ++ html.encodeDoubleQuotedAttribute f.filename)
      (pep691File package f).url := by
  have root : Encodes "/files/" "/files/" := by unfold Encodes; decide
  have slash : Encodes "/" "/" := by unfold Encodes; decide
  exact ((root.append encodes).append slash).append (encodes_escaped f.filename)

theorem provenanceAttr_spells {pkgAttr : String} (encodes : Encodes pkgAttr package) :
    (provenanceAttr html pkgAttr f).toList =
      spells (((pep691File package f).provenance.map fun url => ("data-provenance", url)).toList) := by
  have suffix : Encodes ".provenance" ".provenance" := by unfold Encodes; decide
  have whole := (@encodes_url html package f pkgAttr encodes).append suffix
  unfold provenanceAttr pep691File
  cases f.provenance with
  | false => rfl
  | true =>
      simp only [if_true]
      have written := @spelled " data-provenance=\"" _ _ "data-provenance" whole (by decide)
      rw [show spells (Option.toList (Option.map (fun url => ("data-provenance", url))
        (some ("/files/" ++ package ++ "/" ++ f.filename ++ ".provenance")))) =
          MarkupPages.spell (raw ("data-provenance", (pep691File package f).url ++ ".provenance")) from
        spells_single _, ← written]
      rw [show " data-provenance=\"/files/" = " data-provenance=\"" ++ "/files/" by decide,
        show ".provenance\"" = ".provenance" ++ "\"" by decide]
      simp only [String.append_assoc]

theorem yankedAttr_spells : (yankedAttr html f).toList =
    spells (pep691File package f).yankMarks := by
  unfold yankedAttr Pep691File.yankMarks pep691File
  cases f.yanked with
  | flag yanked =>
      cases yanked with
      | false => rfl
      | true => exact (show " data-yanked=\"\"".toList = spells [("data-yanked", "")] by decide)
  | reason reason =>
      rw [spelled "data-yanked" (encodes_escaped reason) (by decide)]
      exact (spells_single _).symm

theorem attrs_spell {pkgAttr : String} (encodes : Encodes pkgAttr package) :
    (requiresAttr html f ++ coreMetadataAttrs html f ++ provenanceAttr html pkgAttr f ++
      yankedAttr html f).toList = spells (pep691File package f).marks := by
  rw [String.toList_append, String.toList_append, String.toList_append, requiresAttr_spells,
    @coreMetadataAttrs_spells html package, provenanceAttr_spells f encodes,
    @yankedAttr_spells html package, ← spells_append, ← spells_append, ← spells_append]
  rfl

theorem sha256_pep691File : (pep691File package f).sha256 = f.sha256 := by
  simp [Pep691File.sha256, pep691File]

/-- The link of a file, with its text and what closes it. -/
theorem link_toList {pkgAttr : String} (encodes : Encodes pkgAttr package) :
    (link html pkgAttr f).toList =
      '<' :: ("a".toList ++ spells (pep691File package f).anchor.attributes ++ ['>']) ++
        (html.encodeText f.filename).toList ++ "</a><br/>".toList := by
  have mark : Encodes "#sha256=" "#sha256=" := by unfold Encodes; decide
  have target := ((@encodes_url html package f pkgAttr encodes).append mark).append
    (@encodes_escaped html f.sha256)
  have href := @spelled " href=\"" _ _ "href" target (by decide)
  have whole : link html pkgAttr f = "<a" ++ (" href=\"" ++ ("/files/" ++ pkgAttr ++ "/" ++
      html.encodeDoubleQuotedAttribute f.filename ++ "#sha256=" ++
      html.encodeDoubleQuotedAttribute f.sha256) ++ "\"") ++ (requiresAttr html f ++ coreMetadataAttrs html f ++
        provenanceAttr html pkgAttr f ++ yankedAttr html f) ++ ">" ++ html.encodeText f.filename ++
          "</a><br/>" := by
    have opens : "<a href=\"/files/" = "<a" ++ (" href=\"" ++ "/files/") := by decide
    unfold link
    simp only [opens, String.append_assoc, -String.reduceAppend]
  have start : "<a".toList = '<' :: "a".toList := by decide
  have stop : ">".toList = ['>'] := by decide
  rw [whole, String.toList_append, String.toList_append, String.toList_append, String.toList_append,
    String.toList_append, href, attrs_spell f encodes, Pep691File.anchor, spells_cons, sha256_pep691File,
    start, stop]
  simp only [List.append_assoc, List.cons_append]

end Link

/-! ### The page -/

/-- A tag of another name, with the text after it. -/
theorem shows_other {name body text : List Char} (other : MarkupPages.attributesOf name body = none)
    (plain : Bracketless body) (plainText : Bracketless text) :
    Shows name ('<' :: (body ++ ['>']) ++ text) [] := by
  have shown := @MarkupPages.shows_tag name text body plain plainText
  rw [other] at shown
  exact shown

/-- Attributes of a tag of another name are not read. -/
theorem attributesOf_other {name other rest : List Char} (differs : other.head? ≠ name.head?)
    (nonempty : other ≠ []) (named : name ≠ []) : MarkupPages.attributesOf name (other ++ rest) = none := by
  cases name with
  | nil => exact absurd rfl named
  | cons c name =>
      cases other with
      | nil => exact absurd rfl nonempty
      | cons d other =>
          have apart : (c == d) = false := by
            rw [beq_eq_false_iff_ne]
            rintro rfl
            exact differs rfl
          rw [MarkupPages.attributesOf, List.cons_append, List.isPrefixOf, apart]
          rfl

theorem bracketless_spells {entries : List (String × String)}
    (known : ∀ entry ∈ entries, entry.1 ∈ attributeNames) : Bracketless (spells entries) := by
  refine bracketless_flatMap fun entry member => ?_
  obtain ⟨entry, within, rfl⟩ := List.mem_map.mp member
  exact bracketless_spell (known entry within)

theorem marks_known (file : Pep691File) : ∀ entry ∈ file.anchor.attributes, entry.1 ∈ attributeNames := by
  intro entry member
  rw [Pep691File.anchor, List.mem_cons, Pep691File.marks] at member
  simp only [List.mem_append, Option.mem_toList, Option.map_eq_some_iff] at member
  obtain rfl | ((⟨rp, -, rfl⟩ | core) | ⟨url, -, rfl⟩) | yanked := member
  · exact (show "href" ∈ attributeNames by decide)
  · exact (show "data-requires-python" ∈ attributeNames by decide)
  · have named : entry.1 = "data-core-metadata" ∨ entry.1 = "data-dist-info-metadata" := by
      unfold Pep691File.coreMarks at core
      split at core
      · cases core
      all_goals
        simp only [List.mem_cons, List.not_mem_nil, or_false] at core
        exact core.imp (congrArg Prod.fst) (congrArg Prod.fst)
    obtain named | named := named <;> rw [named] <;> decide
  · exact (show "data-provenance" ∈ attributeNames by decide)
  · have named : entry.1 = "data-yanked" := by
      unfold Pep691File.yankMarks at yanked
      split at yanked
      · cases yanked
      · exact congrArg Prod.fst (List.mem_singleton.mp yanked)
      · exact congrArg Prod.fst (List.mem_singleton.mp yanked)
    rw [named]
    decide

theorem bracketless_encodeText (text : String) : Bracketless (html.encodeText text).toList := by
  rw [html.encodeText_eq]
  exact bracketless_flatMap fun c _ => bracketless_escapeText c

theorem shows_closing (name : List Char) (named : name = "a".toList ∨ name = "meta".toList) :
    Shows name "</a><br/>".toList [] := by
  have shown : Shows name ('<' :: ("/a".toList ++ ['>']) ++ [] ++ ('<' :: ("br/".toList ++ ['>']) ++ [])) [] := by
    obtain rfl | rfl := named
    · exact (shows_other (by decide) (by decide) (by decide)).append
        (shows_other (by decide) (by decide) (by decide))
    · exact (shows_other (by decide) (by decide) (by decide)).append
        (shows_other (by decide) (by decide) (by decide))
  exact shown

theorem shows_link {package pkgAttr : String} (encodes : Encodes pkgAttr package) (f : FileMetadata) :
    Shows "a".toList (link html pkgAttr f).toList
      [((pep691File package f).anchor.attributes.map raw, (html.encodeText f.filename).toList)] := by
  rw [link_toList f encodes]
  exact (shows_element (List.cons_ne_nil _ _) (marks_known _) (by decide)
    (bracketless_encodeText f.filename)).append (shows_closing _ (.inl rfl))

theorem shows_link_meta {package pkgAttr : String} (encodes : Encodes pkgAttr package) (f : FileMetadata) :
    Shows "meta".toList (link html pkgAttr f).toList [] := by
  rw [link_toList f encodes]
  exact (shows_other (attributesOf_other (by decide) (by decide) (by decide))
    ((show Bracketless "a".toList by decide).append (bracketless_spells (marks_known _)))
    (bracketless_encodeText f.filename)).append (shows_closing _ (.inr rfl))

/-- A tag without attributes, and the text after it. -/
theorem shows_bare {name : List Char} (named : name = "a".toList ∨ name = "meta".toList) {body text : List Char}
    (bare : body ∈ ["html", "head", "title", "/title", "/head", "body", "/body", "/html"].map String.toList)
    (plainText : Bracketless text) : Shows name ('<' :: (body ++ ['>']) ++ text) [] := by
  have other : ∀ body ∈ ["html", "head", "title", "/title", "/head", "body", "/body", "/html"].map String.toList,
      MarkupPages.attributesOf "a".toList body = none ∧ MarkupPages.attributesOf "meta".toList body = none ∧
        Bracketless body := by
    decide
  obtain ⟨link, meta_, plain⟩ := other body bare
  obtain rfl | rfl := named
  · exact shows_other link plain plainText
  · exact shows_other meta_ plain plainText

theorem meta_spells (start : String) {written value : String} (named : String) (encodes : Encodes written value)
    (opens : start.toList =
      '<' :: ("meta".toList ++ MarkupPages.spell (raw ("name", named))) ++ " content=\"".toList) :
    (start ++ written ++ "\">").toList = '<' :: ("meta".toList ++
      spells (metaElement named value).attributes ++ ['>']) ++ [] := by
  have content := @spelled " content=\"" written value "content" encodes (by decide)
  rw [metaElement, spells_cons, spells_single, ← content]
  have stop : "\">".toList = "\"".toList ++ ['>'] := by decide
  simp only [String.toList_append, opens, stop, List.append_assoc, List.cons_append, List.append_nil]

/-- A mark of the page is read as such, and is no link. -/
theorem shows_meta (start : String) {written value : String} (named : String) (encodes : Encodes written value)
    (opens : start.toList =
      '<' :: ("meta".toList ++ MarkupPages.spell (raw ("name", named))) ++ " content=\"".toList) :
    Shows "meta".toList (start ++ written ++ "\">").toList [((metaElement named value).attributes.map raw, [])] ∧
      Shows "a".toList (start ++ written ++ "\">").toList [] := by
  have known : ∀ entry ∈ (metaElement named value).attributes, entry.1 ∈ attributeNames := by
    intro entry member
    rw [metaElement] at member
    simp only [List.mem_cons, List.not_mem_nil, or_false] at member
    obtain rfl | rfl := member
    · exact (show "name" ∈ attributeNames by decide)
    · exact (show "content" ∈ attributeNames by decide)
  rw [meta_spells start named encodes opens]
  constructor
  · exact shows_element (List.cons_ne_nil _ _) known (by decide) (by decide)
  · exact shows_other (attributesOf_other (by decide) (by decide) (by decide))
      ((show Bracketless "meta".toList by decide).append (bracketless_spells known)) (by decide)

/-- What a page shows of the marks and of the links. -/
def ShowsBoth (text : List Char) (metas links : List MarkupPages.Element) : Prop :=
  Shows "meta".toList text metas ∧ Shows "a".toList text links

theorem ShowsBoth.append {text more : List Char} {metas metas' links links' : List MarkupPages.Element}
    (first : ShowsBoth text metas links) (second : ShowsBoth more metas' links') :
    ShowsBoth (text ++ more) (metas ++ metas') (links ++ links') :=
  ⟨first.1.append second.1, first.2.append second.2⟩

theorem showsBoth_bare {body text : List Char}
    (bare : body ∈ ["html", "head", "title", "/title", "/head", "body", "/body", "/html"].map String.toList)
    (plainText : Bracketless text) : ShowsBoth ('<' :: (body ++ ['>']) ++ text) [] [] :=
  ⟨shows_bare (.inr rfl) bare plainText, shows_bare (.inl rfl) bare plainText⟩

/-- A mark as it stands on the page, before its value is decoded. -/
def rawMeta (name content : String) : MarkupPages.Element := ((metaElement name content).attributes.map raw, [])

theorem shows_htmlHeadOpen :
    ShowsBoth htmlHeadOpen.toList [rawMeta "pypi:repository-version" apiVersion] [] := by
  have version := shows_meta "<meta name=\"pypi:repository-version\" content=\""
    "pypi:repository-version" (show Encodes "1.4" "1.4" by unfold Encodes; decide) (by decide)
  have opens := (@showsBoth_bare "html".toList [] (by decide) (by decide)).append
    (@showsBoth_bare "head".toList [] (by decide) (by decide))
  have both := opens.append version
  have whole : htmlHeadOpen.toList = '<' :: ("html".toList ++ ['>']) ++ [] ++
      ('<' :: ("head".toList ++ ['>']) ++ []) ++
        ("<meta name=\"pypi:repository-version\" content=\"" ++ "1.4" ++ "\">").toList := by decide
  rw [whole]
  exact both

theorem shows_statusMeta (status : ProjectStatusDoc) : ShowsBoth (statusMeta html status).toList
    (if isActive status.status then []
      else rawMeta "pypi:project-status" (asStr status.status) ::
        (status.reason.map (rawMeta "pypi:project-status-reason")).toList) [] := by
  unfold statusMeta
  split
  · exact ⟨Shows.nil, Shows.nil⟩
  · have encodes : Encodes (asStr status.status) (asStr status.status) := by
      unfold Encodes
      cases status.status <;> decide
    have state := shows_meta "<meta name=\"pypi:project-status\" content=\""
      "pypi:project-status" encodes (by decide)
    cases status.reason with
    | none =>
        rw [String.append_empty]
        exact state
    | some reason =>
        have both := ShowsBoth.append state
          (shows_meta "<meta name=\"pypi:project-status-reason\" content=\""
            "pypi:project-status-reason" (@encodes_escaped html reason) (by decide))
        rw [String.toList_append]
        exact both

theorem shows_links {package pkgAttr : String} (encodes : Encodes pkgAttr package) (files : List FileMetadata) :
    ShowsBoth (String.join (files.map (link html pkgAttr))).toList []
      (files.map fun f =>
        ((pep691File package f).anchor.attributes.map raw, (html.encodeText f.filename).toList)) := by
  have joined : (String.join (files.map (link html pkgAttr))).toList =
      files.flatMap fun f => (link html pkgAttr f).toList := by
    rw [String.join, (Markdown.foldl_append _ _).1, List.map_map, ← List.flatMap_def]
    rfl
  have metas := Shows.flatMap fun f (_ : f ∈ files) => @shows_link_meta html package pkgAttr encodes f
  have links := Shows.flatMap fun f (_ : f ∈ files) => @shows_link html package pkgAttr encodes f
  rw [joined]
  constructor
  · rw [List.flatMap_eq_nil_iff.mpr fun f _ => rfl] at metas
    exact metas
  · rw [← List.map_eq_flatMap] at links
    exact links

theorem shows_page (package : String) (files : List FileMetadata) (status : ProjectStatusDoc) :
    ShowsBoth (pep503ProjectHtml html package files status).toList
      (rawMeta "pypi:repository-version" apiVersion :: if isActive status.status then []
        else rawMeta "pypi:project-status" (asStr status.status) ::
          (status.reason.map (rawMeta "pypi:project-status-reason")).toList)
      (files.map fun f =>
        ((pep691File package f).anchor.attributes.map raw, (html.encodeText f.filename).toList)) := by
  have title : ShowsBoth ("<title>Links for ".toList ++ (html.encodeText package).toList) [] [] := by
    have shown := @showsBoth_bare "title".toList ("Links for ".toList ++ (html.encodeText package).toList)
      (by decide) ((show Bracketless "Links for ".toList by decide).append (bracketless_encodeText package))
    rw [← List.append_assoc] at shown
    exact shown
  have body : ShowsBoth "</title></head><body>".toList [] [] :=
    ((@showsBoth_bare "/title".toList [] (by decide) (by decide)).append
      (@showsBoth_bare "/head".toList [] (by decide) (by decide))).append
        (@showsBoth_bare "body".toList [] (by decide) (by decide))
  have stop : ShowsBoth "</body></html>".toList [] [] :=
    (@showsBoth_bare "/body".toList [] (by decide) (by decide)).append
      (@showsBoth_bare "/html".toList [] (by decide) (by decide))
  have whole := ((((shows_htmlHeadOpen.append (@shows_statusMeta html status)).append title).append body).append
    (@shows_links html package _ (@encodes_escaped html package) files)).append stop
  unfold pep503ProjectHtml
  simp only [String.toList_append]
  simp only [List.append_nil, List.nil_append, ← List.append_assoc] at whole
  exact whole

/-! ### The documents agree -/

theorem decoded_raw (entries : List (String × String)) (text : String) :
    decoded (entries.map raw, (html.encodeText text).toList) = ⟨entries, text⟩ := by
  rw [decoded, html.encodeText_eq]
  dsimp only
  rw [decodeEntities_flatMap decodeEntities_escapeText, String.ofList_toList, List.map_map]
  congr
  have undone (entry : String × String) : ((fun entry : List Char × List Char =>
      (String.ofList entry.1, String.ofList (decodeEntities entry.2))) ∘ raw) entry = entry := by
    rw [Function.comp_apply, raw]
    dsimp only
    rw [decodeEntities_flatMap decodeEntities_escapeAttribute, String.ofList_toList, String.ofList_toList]
  rw [List.map_congr_left fun entry _ => undone entry, List.map_id']

theorem decoded_rawMeta (name content : String) : decoded (rawMeta name content) = metaElement name content := by
  have empty : (documentedEscape.encodeText "").toList = [] := rfl
  have read := @decoded_raw documentedEscape (metaElement name content).attributes ""
  rw [empty] at read
  exact read

theorem readElements_shows {name page : String} {found : List MarkupPages.Element}
    (shows : Shows name.toList page.toList found) : readElements name page = some (found.map decoded) := by
  have read := shows.elements
  rw [Option.map_eq_some_iff] at read
  obtain ⟨tokens, lexed, elements⟩ := read
  rw [readElements, lexed, Option.map_some, elements]

/-- Whatever the names, reasons and digests hold, the HTML page is read as the links and
marks that the JSON document lists, in its order. -/
theorem pep503ProjectHtml_reads (html : HtmlEscape) (isVersion : String → Bool) (package : String)
    (files : List FileMetadata) (status : ProjectStatusDoc) :
    readElements "a" (pep503ProjectHtml html package files status) =
      some ((pep691ProjectJson isVersion package files status).files.map Pep691File.anchor) ∧
    readElements "meta" (pep503ProjectHtml html package files status) =
      some (pep691ProjectJson isVersion package files status).metas := by
  obtain ⟨metas, links⟩ := @shows_page html package files status
  constructor
  · rw [readElements_shows links, List.map_map, pep691ProjectJson, List.map_map]
    refine congrArg some (List.map_congr_left fun f _ => ?_)
    exact decoded_raw _ _
  · rw [readElements_shows metas, List.map_cons, decoded_rawMeta, Pep691PkgIndex.metas, pep691ProjectJson]
    dsimp only
    cases isActive status.status with
    | true => rfl
    | false =>
        cases given : status.reason with
        | none => simp [decoded_rawMeta, given]
        | some reason => simp [decoded_rawMeta, given]

end Pypiron.Render
