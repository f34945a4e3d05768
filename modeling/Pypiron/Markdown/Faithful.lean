import Pypiron.Markdown.Contained

/-! What a description that fits under the ceiling is rendered to: the HTML of the whole
document, element by element, with nothing left out on account of its size. -/
namespace Pypiron.Markdown

/-! ### The HTML of a document -/

def Event.alt : Event → String
  | .text t => t
  | .code t => t
  | _ => ""

/-- The text an image shows in place of its picture. -/
def Doc.alt : Doc → String
  | .nil => ""
  | .element _ children rest => children.alt ++ rest.alt
  | .leaf event rest => event.val.alt ++ rest.alt

def Event.markup (html : HtmlEscape) : Event → String
  | .text t => html.encodeText t
  | .code t => "<code>" ++ html.encodeText t ++ "</code>"
  | .softBreak => "\n"
  | .hardBreak => "<br>"
  | .rule => "<hr>"
  | .taskListMarker done => if done then "[x] " else "[ ] "
  | _ => ""

/-- The open and close tags of an element, in a table head or not. -/
def Tag.markup (html : HtmlEscape) (head : Bool) : Tag → String × String
  | .tableHead => ("<thead><tr>", "</tr></thead>")
  | .tableCell => (if head then "<th>" else "<td>", if head then "</th>" else "</td>")
  | .link destUrl => match safeHref destUrl with
    | some href => (linkTag html href, "</a>")
    | none => ("", "")
  | tag => openClose html 0 tag

def Doc.markup (html : HtmlEscape) (head : Bool) : Doc → String
  | .nil => ""
  | .element (.image destUrl) children rest =>
    (match safeHref destUrl with
      | some src => imageTag html src children.alt
      | none => "") ++ rest.markup html head
  | .element tag children rest =>
    (tag.markup html head).1 ++ children.markup html (head || tag == .tableHead) ++ (tag.markup html head).2 ++
      rest.markup html head
  | .leaf event rest => event.val.markup html ++ rest.markup html head

/-- No table head stands in another. -/
def Doc.flat (head : Bool) : Doc → Bool
  | .nil => true
  | .element tag children rest =>
    !(head && tag == .tableHead) && children.flat (head || tag == .tableHead) && rest.flat head
  | .leaf _ rest => rest.flat head

/-! ### Sizes -/

variable {html : HtmlEscape} {limit : ℕ}

theorem utf8Len_flatMap {escape : Char → List Char} (grows : ∀ c, c.utf8Size ≤ String.utf8Len (escape c))
    (text : List Char) : String.utf8Len text ≤ String.utf8Len (text.flatMap escape) := by
  induction text with
  | nil => exact Nat.zero_le _
  | cons c text ih =>
      rw [List.flatMap_cons, String.utf8Len_append, String.utf8Len_cons]
      have := grows c
      omega

theorem utf8Size_escapeText (c : Char) : c.utf8Size ≤ String.utf8Len (escapeText c) := by
  unfold escapeText
  split
  · rename_i same
    rw [same]
    decide
  · split
    · rename_i same
      rw [same]
      decide
    · split
      · rename_i same
        rw [same]
        decide
      · exact Nat.le_add_left _ _

theorem utf8Size_escapeAttribute (c : Char) : c.utf8Size ≤ String.utf8Len (escapeAttribute c) := by
  unfold escapeAttribute
  split
  · rename_i same
    rw [same]
    decide
  · exact utf8Size_escapeText c

theorem utf8ByteSize_encodeText (text : String) :
    text.utf8ByteSize ≤ (html.encodeText text).utf8ByteSize := by
  have grows := utf8Len_flatMap utf8Size_escapeText text.toList
  rw [← html.encodeText_eq, ← String.utf8ByteSize_ofList, ← String.utf8ByteSize_ofList,
    String.ofList_toList, String.ofList_toList] at grows
  exact grows

theorem utf8ByteSize_encodeAttribute (text : String) :
    text.utf8ByteSize ≤ (html.encodeDoubleQuotedAttribute text).utf8ByteSize := by
  have grows := utf8Len_flatMap utf8Size_escapeAttribute text.toList
  rw [← html.encodeAttribute_eq, ← String.utf8ByteSize_ofList, ← String.utf8ByteSize_ofList,
    String.ofList_toList, String.ofList_toList] at grows
  exact grows

theorem pushEscaped_whole {out text : String} {room : ℕ}
    (fits : (html.encodeText text).utf8ByteSize ≤ room) :
    pushEscaped html out text room = (out ++ html.encodeText text, true) := by
  have source : trimTo text room = text := trimTo_self ((utf8ByteSize_encodeText text).trans fits)
  rw [pushEscaped, source, trimTo_self fits]
  simp

/-! ### The run -/

theorem room_pos {s : Renderer} (below : s.out.utf8ByteSize + s.closesLen < limit) : s.room limit ≠ 0 :=
  Nat.sub_ne_zero_of_lt below

theorem step_collect {s : Renderer} {src : Option String} {alt : String} {event : Event}
    (image : s.image = some (src, alt)) (below : s.out.utf8ByteSize + s.closesLen < limit) :
    s.step html limit event = .ok (s.collect html limit src alt event) := by
  rw [Renderer.step, if_neg (room_pos below), image]

theorem step_write {s : Renderer} {event : Event} (image : s.image = none)
    (below : s.out.utf8ByteSize + s.closesLen < limit) :
    s.step html limit event = s.write html limit event := by
  rw [Renderer.step, if_neg (room_pos below), image]

/-- An alt text takes the leaf's, where that fits. -/
theorem collect_alt {s : Renderer} {src : Option String} {alt : String} (image : s.image = some (src, alt))
    (leaf : Leaf) :
    ∃ alt', s.collect html limit src alt leaf.val = { s with image := some (src, alt') } ∧
      (alt.utf8ByteSize + leaf.val.alt.utf8ByteSize ≤ limit → alt' = alt ++ leaf.val.alt) := by
  obtain ⟨event, isLeaf⟩ := leaf
  have same : s = { s with image := some (src, alt) } := by rw [← image]
  cases event with
  | start tag => cases isLeaf
  | endTag tag => cases isLeaf
  | text t => exact ⟨_, rfl, fun fits => by rw [trimTo_self (by change _ + t.utf8ByteSize ≤ _ at fits; omega)]; rfl⟩
  | code t => exact ⟨_, rfl, fun fits => by rw [trimTo_self (by change _ + t.utf8ByteSize ≤ _ at fits; omega)]; rfl⟩
  | softBreak => exact ⟨alt, same, fun _ => String.append_empty.symm⟩
  | hardBreak => exact ⟨alt, same, fun _ => String.append_empty.symm⟩
  | rule => exact ⟨alt, same, fun _ => String.append_empty.symm⟩
  | taskListMarker done => exact ⟨alt, same, fun _ => String.append_empty.symm⟩
  | other => exact ⟨alt, same, fun _ => String.append_empty.symm⟩

theorem alt_append {alt middle last first second : String}
    (whole : alt.utf8ByteSize + first.utf8ByteSize ≤ limit → middle = alt ++ first)
    (whole' : middle.utf8ByteSize + second.utf8ByteSize ≤ limit → last = middle ++ second)
    (fits : alt.utf8ByteSize + (first ++ second).utf8ByteSize ≤ limit) : last = alt ++ (first ++ second) := by
  rw [String.utf8ByteSize_append] at fits
  obtain rfl := whole (by omega)
  rw [String.utf8ByteSize_append] at whole'
  rw [whole' (by omega), String.append_assoc]

/-- An alt span takes its whole text, where that fits. -/
theorem runs_alt {s : Renderer} {src : Option String} {alt : String} (doc : Doc)
    (image : s.image = some (src, alt)) (below : s.out.utf8ByteSize + s.closesLen < limit) :
    ∃ alt', Runs html limit s doc.events { s with image := some (src, alt') } ∧
      (alt.utf8ByteSize + doc.alt.utf8ByteSize ≤ limit → alt' = alt ++ doc.alt) := by
  induction doc generalizing s alt with
  | nil =>
      refine ⟨alt, ?_, fun _ => String.append_empty.symm⟩
      rw [← image]
      rfl
  | leaf event rest ih =>
      obtain ⟨middle, collected, whole⟩ := @collect_alt html limit s src alt image event
      obtain ⟨last, runs, whole'⟩ := @ih { s with image := some (src, middle) } middle rfl below
      refine ⟨last, runs_cons.mpr ⟨_, (step_collect image below).trans (congrArg _ collected), runs⟩, ?_⟩
      exact alt_append whole whole'
  | element tag children rest ihChildren ihRest =>
      by_cases nested : ∃ url, tag = .image url
      · obtain ⟨url, rfl⟩ := nested
        obtain ⟨middle, runs, whole⟩ :=
          @ihChildren { s with imageDepth := s.imageDepth + 1 } alt image below
        obtain ⟨last, runs', whole'⟩ := @ihRest { s with image := some (src, middle) } middle rfl below
        refine ⟨last, runs_cons.mpr ⟨_, step_collect image below,
          runs_append.mpr ⟨_, runs, runs_cons.mpr ⟨_, step_collect rfl below, runs'⟩⟩⟩, ?_⟩
        exact alt_append whole whole'
      · have other (url : String) (same : tag = .image url) : False := nested ⟨url, same⟩
        obtain ⟨middle, runs, whole⟩ := @ihChildren s alt image below
        obtain ⟨last, runs', whole'⟩ := @ihRest { s with image := some (src, middle) } middle rfl below
        refine ⟨last, runs_cons.mpr ⟨s, (step_collect image below).trans (congrArg _ (collect_tag other).1),
          runs_append.mpr ⟨_, runs, runs_cons.mpr ⟨_, ?_, runs'⟩⟩⟩, ?_⟩
        · have ended := @step_collect html limit { s with image := some (src, middle) } src middle
            (.endTag tag.toEnd) rfl below
          exact ended.trans (congrArg _ (collect_tag other).2)
        exact alt_append whole whole'

theorem write_markup {s : Renderer} {leaf : Leaf}
    (fits : s.out.utf8ByteSize + s.closesLen + (leaf.val.markup html).utf8ByteSize < limit) :
    s.write html limit leaf.val = .ok (s.push (leaf.val.markup html)) := by
  obtain ⟨event, isLeaf⟩ := leaf
  have room : s.room limit = limit - (s.out.utf8ByteSize + s.closesLen) := rfl
  cases event with
  | start tag => cases isLeaf
  | endTag tag => cases isLeaf
  | text t =>
      change s.out.utf8ByteSize + s.closesLen + (html.encodeText t).utf8ByteSize < limit at fits
      rw [Renderer.write, pushEscaped_whole (by omega)]
      rfl
  | code t =>
      have whole : "<code></code>".utf8ByteSize = "<code>".utf8ByteSize + "</code>".utf8ByteSize := by decide
      change s.out.utf8ByteSize + s.closesLen +
        ("<code>" ++ html.encodeText t ++ "</code>").utf8ByteSize < limit at fits
      rw [String.utf8ByteSize_append, String.utf8ByteSize_append] at fits
      rw [Renderer.write, pushEscaped_whole (by omega)]
      change Except.ok { s with out := s.out ++ "<code>" ++ html.encodeText t ++ "</code>" } =
        Except.ok { s with out := s.out ++ ("<code>" ++ html.encodeText t ++ "</code>") }
      rw [String.append_assoc, String.append_assoc, ← @String.append_assoc "<code>"]
  | softBreak => rfl
  | hardBreak => rfl
  | rule => rfl
  | taskListMarker done => rfl
  | other =>
      change Except.ok s = .ok { s with out := s.out ++ "" }
      rw [String.append_empty]

theorem utf8ByteSize_linkTag (href : String) : href.utf8ByteSize ≤ (linkTag html href).utf8ByteSize := by
  have grows := @utf8ByteSize_encodeAttribute html href
  rw [linkTag, String.utf8ByteSize_append, String.utf8ByteSize_append]
  omega

theorem utf8ByteSize_imageTag (src alt : String) :
    src.utf8ByteSize ≤ (imageTag html src alt).utf8ByteSize ∧
      alt.utf8ByteSize ≤ (imageTag html src alt).utf8ByteSize := by
  have grows := @utf8ByteSize_encodeAttribute html src
  have grows' := @utf8ByteSize_encodeAttribute html alt
  rw [imageTag, String.utf8ByteSize_append, String.utf8ByteSize_append, String.utf8ByteSize_append,
    String.utf8ByteSize_append]
  omega

/-- A URL that is rendered under the ceiling is not dropped for its length. -/
theorem filter_fits {href : String} (fits : href.utf8ByteSize ≤ limit) :
    (some href).filter (fitsInRender limit) = some href := by
  rw [Option.filter_some, fitsInRender, decide_eq_true fits, if_pos rfl]

theorem openClose_markup {tag : Tag} {head : Bool} (plain : tag ≠ .tableHead ∧ tag ≠ .tableCell)
    (fits : (tag.markup html head).1.utf8ByteSize ≤ limit) :
    openClose html limit tag = tag.markup html head := by
  cases tag with
  | tableHead => exact absurd rfl plain.1
  | tableCell => exact absurd rfl plain.2
  | link url =>
      rw [Tag.markup] at fits ⊢
      rw [openClose]
      cases safe : safeHref url with
      | none => rfl
      | some href =>
          rw [safe] at fits
          rw [filter_fits ((utf8ByteSize_linkTag href).trans fits)]
  | list start => cases start <;> rfl
  | _ => rfl

/-- A start tag that fits is written. -/
theorem write_tag {s : Renderer} {tag : Tag} (other : ∀ url, tag ≠ .image url)
    (fits : s.out.utf8ByteSize + s.closesLen + ((tag.markup html s.inHead).1.utf8ByteSize +
      (tag.markup html s.inHead).2.utf8ByteSize) < limit) :
    s.write html limit (.start tag) = .ok { s.opens (tag.markup html s.inHead).1 (tag.markup html s.inHead).2 with
      inHead := s.inHead || tag == .tableHead } := by
  have room : s.room limit = limit - (s.out.utf8ByteSize + s.closesLen) := rfl
  have general (plain : tag ≠ .tableHead ∧ tag ≠ .tableCell)
      (written : s.write html limit (.start tag) = .ok (s.enter limit (openClose html limit tag))) :
      s.write html limit (.start tag) = .ok { s.opens (tag.markup html s.inHead).1
        (tag.markup html s.inHead).2 with inHead := s.inHead || tag == .tableHead } := by
    have same := @openClose_markup html limit tag s.inHead plain (by omega)
    rw [written, same, Renderer.enter, if_pos (by omega), beq_eq_false_iff_ne.mpr plain.1, Bool.or_false]
    rfl
  cases tag with
  | image url => exact absurd rfl (other url)
  | tableHead =>
      rw [beq_self_eq_true, Bool.or_true]
      rfl
  | tableCell =>
      rw [beq_eq_false_iff_ne.mpr (by decide), Bool.or_false]
      rfl
  | _ => exact general ⟨by simp, by simp⟩ rfl

theorem write_endTag {s : Renderer} {tag : Tag} {close : String} {closes : List String}
    (stacked : s.closes = close :: closes) :
    s.write html limit (.endTag tag.toEnd) = .ok { s with
      closes, closesLen := s.closesLen - close.utf8ByteSize, out := s.out ++ close,
      inHead := if tag = .tableHead then false else s.inHead } := by
  have popped (inHead : Bool) : { s with inHead }.pop = { s with
      closes, closesLen := s.closesLen - close.utf8ByteSize, out := s.out ++ close, inHead } := by
    simp only [Renderer.pop, stacked]
  cases tag with
  | tableHead => exact congrArg Except.ok (popped false)
  | _ => exact congrArg Except.ok (popped s.inHead)

theorem runs_element {s u v w t : Renderer} {tag : Tag} {children rest : Doc}
    (started : s.step html limit (.start tag) = .ok u) (within : Runs html limit u children.events v)
    (ended : v.step html limit (.endTag tag.toEnd) = .ok w) (last : Runs html limit w rest.events t) :
    Runs html limit s (Doc.element tag children rest).events t :=
  runs_cons.mpr ⟨u, started, runs_append.mpr ⟨v, within, runs_cons.mpr ⟨w, ended, last⟩⟩⟩

theorem markup_element {tag : Tag} {head : Bool} {children rest : Doc} (other : ∀ url, tag ≠ .image url) :
    (Doc.element tag children rest).markup html head = (tag.markup html head).1 ++
      children.markup html (head || tag == .tableHead) ++ (tag.markup html head).2 ++
        rest.markup html head := by
  cases tag with
  | image url => exact absurd rfl (other url)
  | _ => rfl

/-- The end of an alt span writes the image, where it has a source and fits. -/
theorem collect_endImage {s : Renderer} {url alt : String} (shallow : s.imageDepth = 0)
    (fits : s.out.utf8ByteSize + s.closesLen +
      (match safeHref url with
        | some src => imageTag html src alt
        | none => "").utf8ByteSize < limit) :
    s.collect html limit ((safeHref url).filter (fitsInRender limit)) alt (.endTag .image) = { s with
      image := none
      out := s.out ++ (match safeHref url with
        | some src => imageTag html src alt
        | none => "") } := by
  rw [Renderer.collect, if_neg (Nat.not_lt.mpr shallow.le)]
  cases safe : safeHref url with
  | none =>
      dsimp only [Option.filter_none]
      rw [String.append_empty]
  | some src =>
      rw [safe] at fits
      dsimp only at fits
      have small := (@utf8ByteSize_imageTag html src alt).1
      rw [filter_fits (by omega)]
      dsimp only
      rw [if_pos (by unfold Renderer.room; omega)]
      rfl

/-- An image is written with its whole alt text. -/
theorem runs_image {s : Renderer} {url : String} {children : Doc} (outside : s.Outside)
    (fits : s.out.utf8ByteSize + s.closesLen + (match safeHref url with
      | some src => imageTag html src children.alt
      | none => "").utf8ByteSize < limit) :
    Runs html limit s (Doc.element (.image url) children .nil).events { s with
      out := s.out ++ (match safeHref url with
        | some src => imageTag html src children.alt
        | none => "") } := by
  have below : s.out.utf8ByteSize + s.closesLen < limit := by omega
  obtain ⟨alt, within, whole⟩ := @runs_alt html limit
    { s with image := some ((safeHref url).filter (fitsInRender limit), "") } _ "" children rfl below
  have shown : (match safeHref url with
      | some src => imageTag html src alt
      | none => "") = (match safeHref url with
      | some src => imageTag html src children.alt
      | none => "") := by
    cases safe : safeHref url with
    | none => rfl
    | some src =>
        rw [safe] at fits
        dsimp only at fits ⊢
        have small := (@utf8ByteSize_imageTag html src children.alt).2
        rw [whole (by rw [show "".utf8ByteSize = 0 from rfl]; omega), String.empty_append]
  let spanned : Renderer := { s with image := some ((safeHref url).filter (fitsInRender limit), alt) }
  have ended := @collect_endImage html limit spanned url alt outside.depth (by
    rw [shown]
    exact fits)
  rw [shown] at ended
  have closing : spanned.step html limit (.endTag .image) = _ :=
    (@step_collect html limit spanned _ alt (.endTag .image) rfl below).trans (congrArg _ ended)
  have same : s = { s with image := none } := by rw [← outside.image]
  conv_rhs => rw [same]
  exact runs_element (step_write outside.image below) within closing rfl

/-- An element is written around what it holds. -/
theorem runs_tag {s : Renderer} {tag : Tag} {children : Doc} {inner : String} (outside : s.Outside)
    (other : ∀ url, tag ≠ .image url) (apart : (!(s.inHead && tag == .tableHead)) = true)
    (fits : s.out.utf8ByteSize + s.closesLen + ((tag.markup html s.inHead).1.utf8ByteSize +
      inner.utf8ByteSize + (tag.markup html s.inHead).2.utf8ByteSize) < limit)
    (runs : ∀ u : Renderer, u.Outside → u.inHead = (s.inHead || tag == .tableHead) →
      u.out.utf8ByteSize + u.closesLen + inner.utf8ByteSize < limit →
      Runs html limit u children.events { u with out := u.out ++ inner }) :
    Runs html limit s (Doc.element tag children .nil).events { s with
      out := s.out ++ (tag.markup html s.inHead).1 ++ inner ++ (tag.markup html s.inHead).2 } := by
  have head : (if tag = .tableHead then false else s.inHead || tag == .tableHead) = s.inHead := by
    split
    · rename_i same
      rw [same] at apart
      cases kept : s.inHead with
      | false => rfl
      | true => rw [kept] at apart; cases apart
    · rename_i different
      rw [beq_eq_false_iff_ne.mpr different, Bool.or_false]
  have started := @write_tag html limit s tag other (by omega)
  let opened : Renderer := { s.opens (tag.markup html s.inHead).1 (tag.markup html s.inHead).2 with
    inHead := s.inHead || tag == .tableHead }
  have within := runs opened ⟨outside.image, outside.depth⟩ rfl (by
    change (s.out ++ (tag.markup html s.inHead).1).utf8ByteSize +
      (s.closesLen + (tag.markup html s.inHead).2.utf8ByteSize) + inner.utf8ByteSize < limit
    rw [String.utf8ByteSize_append]
    omega)
  let filled : Renderer := { opened with out := opened.out ++ inner }
  have small : filled.out.utf8ByteSize + filled.closesLen < limit := by
    change (s.out ++ (tag.markup html s.inHead).1 ++ inner).utf8ByteSize +
      (s.closesLen + (tag.markup html s.inHead).2.utf8ByteSize) < limit
    rw [String.utf8ByteSize_append, String.utf8ByteSize_append]
    omega
  have ended : filled.step html limit (.endTag tag.toEnd) = _ :=
    (@step_write html limit filled (.endTag tag.toEnd) outside.image small).trans
      (@write_endTag html limit filled tag (tag.markup html s.inHead).2 s.closes rfl)
  refine runs_element ((step_write outside.image (by omega)).trans started) within ended ?_
  dsimp only [filled, opened, Renderer.opens]
  rw [head, Nat.add_sub_cancel]
  rfl

theorem runs_markup {s : Renderer} (doc : Doc) (outside : s.Outside) (flat : doc.flat s.inHead = true)
    (fits : s.out.utf8ByteSize + s.closesLen + (doc.markup html s.inHead).utf8ByteSize < limit) :
    Runs html limit s doc.events { s with out := s.out ++ doc.markup html s.inHead } := by
  induction doc generalizing s with
  | nil =>
      rw [Doc.markup, String.append_empty]
      rfl
  | leaf event rest ih =>
      rw [Doc.markup, String.utf8ByteSize_append] at fits
      have below : s.out.utf8ByteSize + s.closesLen < limit := by omega
      have next := @ih (s.push (event.val.markup html)) ⟨outside.image, outside.depth⟩ flat (by
        change (s.out ++ event.val.markup html).utf8ByteSize + s.closesLen + _ < limit
        rw [String.utf8ByteSize_append]
        change _ + (rest.markup html s.inHead).utf8ByteSize < limit
        omega)
      refine runs_cons.mpr ⟨_, (step_write outside.image below).trans (write_markup (by omega)), ?_⟩
      rw [Doc.markup, ← String.append_assoc]
      exact next
  | element tag children rest ihChildren ihRest =>
      rw [Doc.flat, Bool.and_eq_true, Bool.and_eq_true] at flat
      obtain ⟨⟨apart, flatChildren⟩, flatRest⟩ := flat
      -- the element alone is followed by the rest
      have joins {written : String} (first : Runs html limit s (Doc.element tag children .nil).events
            { s with out := s.out ++ written })
          (fits : s.out.utf8ByteSize + s.closesLen + (written ++ rest.markup html s.inHead).utf8ByteSize < limit) :
          Runs html limit s (Doc.element tag children rest).events
            { s with out := s.out ++ (written ++ rest.markup html s.inHead) } := by
        rw [String.utf8ByteSize_append] at fits
        have last := @ihRest { s with out := s.out ++ written } ⟨outside.image, outside.depth⟩ flatRest (by
          dsimp only
          rw [String.utf8ByteSize_append]
          omega)
        have split_ : (Doc.element tag children rest).events =
            (Doc.element tag children .nil).events ++ rest.events := by
          simp [Doc.events]
        rw [split_, ← String.append_assoc]
        exact runs_append.mpr ⟨_, first, last⟩
      by_cases image : ∃ url, tag = .image url
      · obtain ⟨url, rfl⟩ := image
        have fits_ := fits
        rw [Doc.markup, String.utf8ByteSize_append] at fits_
        exact joins (runs_image outside (by omega)) fits
      · have other (url : String) (same : tag = .image url) : False := image ⟨url, same⟩
        have fits_ := fits
        rw [markup_element other, String.utf8ByteSize_append, String.utf8ByteSize_append,
          String.utf8ByteSize_append] at fits_
        have first := @runs_tag html limit s tag children (children.markup html (s.inHead || tag == .tableHead))
          outside other apart (by omega) (fun u outside' head small => by
            rw [← head]
            exact ihChildren outside' (by rw [head]; exact flatChildren) (by rw [head]; exact small))
        rw [markup_element other] at fits ⊢
        rw [@String.append_assoc s.out, @String.append_assoc s.out] at first
        exact joins first fits

/-- The ceiling is not seen below it: a document whose HTML is shorter is rendered to that
HTML, whatever is reserved, trimmed or measured on the way. -/
theorem renderEvents_faithful (html : HtmlEscape) (limit : ℕ) (doc : Doc) (flat : doc.flat false = true)
    (fits : (doc.markup html false).utf8ByteSize < limit) :
    renderEvents html limit doc.events = doc.markup html false := by
  have runs := @runs_markup html limit .start doc ⟨rfl, rfl⟩ flat (by
    change 0 + 0 + (doc.markup html false).utf8ByteSize < limit
    omega)
  rw [renderEvents, show doc.events.foldlM (Renderer.step html limit) .start = _ from runs]
  exact String.empty_append

/-- A heading, and a paragraph with a link, an image and an address that is none. -/
def sampleDoc : Doc :=
  .element (.heading .h1) (.leaf ⟨.text "a < b", rfl⟩ .nil)
    (.element .paragraph
      (.element (.link "https://e.org/?q=\"x\"") (.leaf ⟨.text "home", rfl⟩ .nil)
        (.element (.image "http://e.org/i.png") (.leaf ⟨.code "logo", rfl⟩ .nil)
          (.element (.link "javascript:alert(1)") (.leaf ⟨.text "plain", rfl⟩ .nil) .nil)))
      .nil)

theorem sampleDoc_faithful : renderEvents documentedEscape 300 sampleDoc.events =
    "<h1>a &lt; b</h1><p><a href=\"https://e.org/?q=&quot;x&quot;\" rel=\"nofollow noopener noreferrer\">home</a>" ++
      "<img src=\"http://e.org/i.png\" alt=\"logo\" loading=\"lazy\" referrerpolicy=\"no-referrer\">plain</p>" := by
  rw [renderEvents_faithful documentedEscape 300 sampleDoc (by decide +kernel) (by decide +kernel)]
  decide +kernel

end Pypiron.Markdown
