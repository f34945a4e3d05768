import Mathlib.Algebra.GroupWithZero.Nat
import Pypiron.Markup
import Pypiron.PrivateNames

/-! Project descriptions as HTML: the renderer walks the events of a Markdown parser and
writes a fixed set of tags under a size ceiling. The parser gives the events of a
document tree. -/
namespace Pypiron.Markdown

/-! ### Events -/

inductive Level where
  | h1 | h2 | h3 | h4 | h5 | h6
  deriving DecidableEq

/-- `other` stands for the tags that are not rendered: HTML blocks, definition lists,
footnotes, super- and subscripts and metadata blocks. -/
inductive Tag where
  | paragraph
  | heading (level : Level)
  | blockQuote
  | codeBlock
  | list (start : Option ℕ)
  | item
  | emphasis
  | strong
  | strikethrough
  | table
  | tableHead
  | tableRow
  | tableCell
  | link (destUrl : String)
  | image (destUrl : String)
  | other
  deriving DecidableEq

inductive TagEnd where
  | tableHead
  | image
  | other
  deriving DecidableEq

def Tag.toEnd : Tag → TagEnd
  | .tableHead => .tableHead
  | .image _ => .image
  | _ => .other

/-- `other` stands for what is dropped: raw HTML, math and footnote references. -/
inductive Event where
  | start (tag : Tag)
  | endTag (tag : TagEnd)
  | text (text : String)
  | code (text : String)
  | softBreak
  | hardBreak
  | rule
  | taskListMarker (checked : Bool)
  | other
  deriving DecidableEq

/-! ### Escaping -/

def escapeText (c : Char) : List Char :=
  if c = '&' then "&amp;".toList
  else if c = '<' then "&lt;".toList
  else if c = '>' then "&gt;".toList
  else [c]

def escapeAttribute (c : Char) : List Char :=
  if c = '"' then "&quot;".toList else escapeText c

/-- The escaping functions, as their documentation gives them. -/
structure HtmlEscape where
  encodeText : String → String
  encodeDoubleQuotedAttribute : String → String
  encodeText_eq : ∀ text, (encodeText text).toList = text.toList.flatMap escapeText
  encodeAttribute_eq : ∀ text,
    (encodeDoubleQuotedAttribute text).toList = text.toList.flatMap escapeAttribute

/-- The escaping functions, as they are documented. -/
def documentedEscape : HtmlEscape where
  encodeText text := String.ofList (text.toList.flatMap escapeText)
  encodeDoubleQuotedAttribute text := String.ofList (text.toList.flatMap escapeAttribute)
  encodeText_eq _ := String.toList_ofList
  encodeAttribute_eq _ := String.toList_ofList

/-! ### The renderer -/

def maxRenderedBytes : ℕ := 2 * 1024 * 1024

def truncationNotice : String := "<p><em>… description truncated …</em></p>"

def lowerByte (byte : UInt8) : UInt8 := if 65 ≤ byte ∧ byte ≤ 90 then byte + 32 else byte

def eqIgnoreAsciiCase (a b : Bytes) : Bool := a.map lowerByte == b.map lowerByte

def trimStart (text : String) : String := String.ofList (text.toList.dropWhile isWhiteSpace)

def safeHref (url : String) : Option String :=
  let b := utf8 (trimStart url)
  let schemeOk := (7 ≤ b.length && eqIgnoreAsciiCase (b.take 7) (utf8 "http://")) ||
    (8 ≤ b.length && eqIgnoreAsciiCase (b.take 8) (utf8 "https://"))
  if schemeOk then some (trim url) else none

def fitsInRender (limit : ℕ) (url : String) : Bool := url.utf8ByteSize ≤ limit

/-- The characters from the front that take `max` bytes at most. -/
def takeBytes : ℕ → List Char → List Char
  | _, [] => []
  | max, c :: text => if c.utf8Size ≤ max then c :: takeBytes (max - c.utf8Size) text else []

def trimTo (s : String) (max : ℕ) : String :=
  if s.utf8ByteSize ≤ max then s else String.ofList (takeBytes max s.toList)

def headingTags : Level → String × String
  | .h1 => ("h1", "</h1>")
  | .h2 => ("h2", "</h2>")
  | .h3 => ("h3", "</h3>")
  | .h4 => ("h4", "</h4>")
  | .h5 => ("h5", "</h5>")
  | .h6 => ("h6", "</h6>")

section Render
variable (html : HtmlEscape) (limit : ℕ)

def linkTag (href : String) : String :=
  "<a href=\"" ++ html.encodeDoubleQuotedAttribute href ++ "\" rel=\"nofollow noopener noreferrer\">"

def imageTag (src alt : String) : String :=
  "<img src=\"" ++ html.encodeDoubleQuotedAttribute src ++ "\" alt=\"" ++
    html.encodeDoubleQuotedAttribute alt ++ "\" loading=\"lazy\" referrerpolicy=\"no-referrer\">"

def openClose : Tag → String × String
  | .paragraph => ("<p>", "</p>")
  | .heading level => ("<" ++ (headingTags level).1 ++ ">", (headingTags level).2)
  | .blockQuote => ("<blockquote>", "</blockquote>")
  | .codeBlock => ("<pre><code>", "</code></pre>")
  | .list (some _) => ("<ol>", "</ol>")
  | .list none => ("<ul>", "</ul>")
  | .item => ("<li>", "</li>")
  | .emphasis => ("<em>", "</em>")
  | .strong => ("<strong>", "</strong>")
  | .strikethrough => ("<del>", "</del>")
  | .table => ("<table>", "</table>")
  | .tableRow => ("<tr>", "</tr>")
  | .link destUrl => match (safeHref destUrl).filter (fitsInRender limit) with
    | some href => (linkTag html href, "</a>")
    | none => ("", "")
  | _ => ("", "")

/-- What is escaped into `out`, and whether that is the whole text. -/
def pushEscaped (out text : String) (room : ℕ) : String × Bool :=
  let source := trimTo text room
  let escaped := html.encodeText source
  let written := trimTo escaped room
  (out ++ written, source.utf8ByteSize == text.utf8ByteSize &&
    written.utf8ByteSize == escaped.utf8ByteSize)

/-- `closes` is the stack of close tags, its top first. -/
structure Renderer where
  out : String
  closes : List String
  closesLen : ℕ
  image : Option (Option String × String)
  imageDepth : ℕ
  inHead : Bool

def Renderer.start : Renderer := ⟨"", [], 0, none, 0, false⟩

def Renderer.room (s : Renderer) : ℕ := limit - (s.out.utf8ByteSize + s.closesLen)

def Renderer.push (s : Renderer) (text : String) : Renderer := { s with out := s.out ++ text }

def Renderer.opens (s : Renderer) (open_ close : String) : Renderer :=
  { s with
    out := s.out ++ open_, closes := close :: s.closes, closesLen := s.closesLen + close.utf8ByteSize }

/-- A tag whose open string does not fit is dropped, and owes an empty close. -/
def Renderer.enter (s : Renderer) (tags : String × String) : Renderer :=
  if tags.1.utf8ByteSize + tags.2.utf8ByteSize ≤ s.room limit then s.opens tags.1 tags.2
  else { s with closes := "" :: s.closes }

def Renderer.pop (s : Renderer) : Renderer :=
  match s.closes with
  | c :: closes =>
    { s with closes, closesLen := s.closesLen - c.utf8ByteSize, out := s.out ++ c }
  | [] => s

/-- An event inside the alt span of an image. -/
def Renderer.collect (s : Renderer) (src : Option String) (alt : String) : Event → Renderer
  | .start (.image _) => { s with imageDepth := s.imageDepth + 1 }
  | .endTag .image =>
    if 0 < s.imageDepth then { s with imageDepth := s.imageDepth - 1 }
    else
      let done := { s with image := none }
      match src with
      | some src =>
        let tag := imageTag html src alt
        if tag.utf8ByteSize ≤ s.room limit then done.push tag else done
      | none => done
  | .text t => { s with image := some (src, alt ++ trimTo t (limit - alt.utf8ByteSize)) }
  | .code t => { s with image := some (src, alt ++ trimTo t (limit - alt.utf8ByteSize)) }
  | _ => s

/-- The render goes on where the text was written whole. -/
def Renderer.wrote (s : Renderer) (out : String) (whole : Bool) : Except Renderer Renderer :=
  if whole then .ok { s with out } else .error { s with out }

/-- An event outside of images. An error is a render that stops there. -/
def Renderer.write (s : Renderer) : Event → Except Renderer Renderer
  | .start (.image destUrl) =>
    .ok { s with image := some ((safeHref destUrl).filter (fitsInRender limit), "") }
  | .start .tableHead => .ok { s.opens "<thead><tr>" "</tr></thead>" with inHead := true }
  | .start .tableCell =>
    .ok (s.opens (if s.inHead then "<th>" else "<td>") (if s.inHead then "</th>" else "</td>"))
  | .start tag => .ok (s.enter limit (openClose html limit tag))
  | .endTag .tableHead => .ok { s with inHead := false }.pop
  | .endTag _ => .ok s.pop
  | .text t =>
    let written := pushEscaped html s.out t (s.room limit)
    s.wrote written.1 written.2
  | .code t =>
    let written := pushEscaped html (s.out ++ "<code>") t (s.room limit - "<code></code>".utf8ByteSize)
    s.wrote (written.1 ++ "</code>") written.2
  | .softBreak => .ok (s.push "\n")
  | .hardBreak => .ok (s.push "<br>")
  | .rule => .ok (s.push "<hr>")
  | .taskListMarker done => .ok (s.push (if done then "[x] " else "[ ] "))
  | .other => .ok s

def Renderer.step (s : Renderer) (event : Event) : Except Renderer Renderer :=
  if s.room limit = 0 then .error s
  else match s.image with
    | some (src, alt) => .ok (s.collect html limit src alt event)
    | none => s.write html limit event

/-- The close tags still owed, and the notice. -/
def Renderer.truncate (s : Renderer) : String :=
  s.closes.foldl (· ++ ·) s.out ++ truncationNotice

def renderEvents (events : List Event) : String :=
  match events.foldlM (Renderer.step html limit) Renderer.start with
  | .ok s => s.out
  | .error s => s.truncate

def renderLimited (events : List Event) : String := renderEvents html maxRenderedBytes events

end Render

/-! ### Documents -/

def Event.isLeaf : Event → Bool
  | .start _ | .endTag _ => false
  | _ => true

abbrev Leaf := { event : Event // event.isLeaf = true }

/-- What the parser reads: a sequence of elements, each around a sequence, and of leaves. -/
inductive Doc where
  | nil
  | element (tag : Tag) (children rest : Doc)
  | leaf (event : Leaf) (rest : Doc)

def Doc.events : Doc → List Event
  | .nil => []
  | .element tag children rest => .start tag :: (children.events ++ .endTag tag.toEnd :: rest.events)
  | .leaf event rest => event.val :: rest.events

/-! ### The vocabulary -/

def elementNames : List (List Char) :=
  ["p", "h1", "h2", "h3", "h4", "h5", "h6", "blockquote", "pre", "code", "ol", "ul", "li", "em",
    "strong", "del", "table", "thead", "tr", "th", "td"].map String.toList

def singleNames : List (List Char) := ["br", "hr"].map String.toList

/-- The URL of a link or an image: it has no quote, and its scheme is HTTP. -/
def webUrl (v : List Char) : Bool :=
  (v.take 7).map Char.toLower == "http://".toList || (v.take 8).map Char.toLower == "https://".toList

def unquoted (v : List Char) : List Char := v.takeWhile (· ≠ '"')

/-- An attribute with a URL between what stands before and after it. -/
def holdsUrl (before after body : List Char) : Bool :=
  let url := unquoted (body.drop before.length)
  body == before ++ (url ++ after) && webUrl url

/-- The same with a second attribute, which may hold any text. -/
def holdsUrlAndText (before between after body : List Char) : Bool :=
  let url := unquoted (body.drop before.length)
  let text := unquoted ((body.drop before.length).drop (url.length + between.length))
  body == before ++ (url ++ (between ++ (text ++ after))) && webUrl url

def isLink : List Char → Bool :=
  holdsUrl "a href=\"".toList "\" rel=\"nofollow noopener noreferrer\"".toList

def isImage : List Char → Bool :=
  holdsUrlAndText "img src=\"".toList "\" alt=\"".toList
    "\" loading=\"lazy\" referrerpolicy=\"no-referrer\"".toList

/-- The tags a description may have, each with its attributes. -/
def kind (body : List Char) : Option Markup.TagKind :=
  if body ∈ elementNames then some (.opens body)
  else if isLink body then some (.opens ['a'])
  else if body ∈ singleNames ∨ isImage body then some .single
  else match body with
    | '/' :: name => if name ∈ ['a'] :: elementNames then some (.closes name) else none
    | _ => none

/-! ### Text -/

section Text
variable {html : HtmlEscape}

theorem plain_escapeText (c : Char) : Markup.Plain (escapeText c) := by
  unfold escapeText
  split
  · decide
  · split
    · decide
    · split
      · decide
      · simp_all [Markup.Plain]

theorem plain_escapeAttribute (c : Char) : Markup.Plain (escapeAttribute c) := by
  unfold escapeAttribute
  split
  · decide
  · exact plain_escapeText c

theorem quote_escapeAttribute (c : Char) : '"' ∉ escapeAttribute c := by
  unfold escapeAttribute
  split
  · decide
  · unfold escapeText
    split
    · decide
    · split
      · decide
      · split
        · decide
        · simp_all [eq_comm]

theorem plain_encodeText (text : String) : Markup.Plain (html.encodeText text).toList := by
  rw [html.encodeText_eq]
  intro c member
  obtain ⟨d, -, within⟩ := List.mem_flatMap.mp member
  exact plain_escapeText d c within

theorem plain_encodeAttribute (text : String) :
    Markup.Plain (html.encodeDoubleQuotedAttribute text).toList := by
  rw [html.encodeAttribute_eq]
  intro c member
  obtain ⟨d, -, within⟩ := List.mem_flatMap.mp member
  exact plain_escapeAttribute d c within

theorem quote_encodeAttribute (text : String) : '"' ∉ (html.encodeDoubleQuotedAttribute text).toList := by
  rw [html.encodeAttribute_eq]
  intro member
  obtain ⟨d, -, within⟩ := List.mem_flatMap.mp member
  exact quote_escapeAttribute d within

theorem takeBytes_isPrefix (max : ℕ) (text : List Char) : takeBytes max text <+: text := by
  induction text generalizing max with
  | nil => exact List.prefix_rfl
  | cons c text ih =>
      rw [takeBytes]
      split
      · exact (List.prefix_cons_inj c).mpr (ih _)
      · exact List.nil_prefix

theorem takeBytes_size (max : ℕ) (text : List Char) : String.utf8Len (takeBytes max text) ≤ max := by
  induction text generalizing max with
  | nil => exact Nat.zero_le max
  | cons c text ih =>
      rw [takeBytes]
      split
      · have rest := ih (max - c.utf8Size)
        rw [String.utf8Len_cons]
        omega
      · exact Nat.zero_le max

theorem trimTo_isPrefix (s : String) (max : ℕ) : (trimTo s max).toList <+: s.toList := by
  unfold trimTo
  split
  · exact List.prefix_rfl
  · rw [String.toList_ofList]
    exact takeBytes_isPrefix max s.toList

theorem trimTo_size (s : String) (max : ℕ) : (trimTo s max).utf8ByteSize ≤ max := by
  unfold trimTo
  split
  · assumption
  · rw [String.utf8ByteSize_ofList]
    exact takeBytes_size max s.toList

theorem trimTo_self {s : String} {max : ℕ} (fits : s.utf8ByteSize ≤ max) : trimTo s max = s :=
  if_pos fits

theorem plain_trimTo {s : String} (plain : Markup.Plain s.toList) (max : ℕ) :
    Markup.Plain (trimTo s max).toList :=
  fun c member => plain c ((trimTo_isPrefix s max).subset member)

end Text

/-! ### URLs -/

/-- The first byte of a character that is not ASCII is not an ASCII byte. -/
theorem utf8EncodeChar_wide {c : Char} (wide : 128 ≤ c.toNat) :
    ∃ byte rest, String.utf8EncodeChar c = byte :: rest ∧ 128 ≤ byte.toNat := by
  have high {n bound mark : ℕ} (positive : 0 < bound) (mark_le : 128 ≤ mark) (small : bound + mark ≤ 256) :
      128 ≤ (UInt8.ofNat (n % bound + mark)).toNat := by
    have below := Nat.mod_lt n positive
    rw [UInt8.toNat_ofNat', Nat.mod_eq_of_lt (by omega)]
    omega
  have wide : ¬c.val.toNat ≤ 127 := Nat.not_le_of_lt wide
  rw [String.utf8EncodeChar, if_neg wide]
  split
  · exact ⟨_, _, rfl, high (by decide) (by decide) (by decide)⟩
  · split
    · exact ⟨_, _, rfl, high (by decide) (by decide) (by decide)⟩
    · exact ⟨_, _, rfl, high (by decide) (by decide) (by decide)⟩

theorem toLower_ascii {c : Char} (ascii : c.toNat < 128) : c.toLower.toNat < 128 := by
  rw [toNat_toLower]
  split
  · rename_i upper
    have range := isUpper_iff.mp upper
    omega
  · exact ascii

theorem lowerByte_ascii {c : Char} (ascii : c.toNat < 128) :
    lowerByte (UInt8.ofNat c.toNat) = UInt8.ofNat c.toLower.toNat := by
  apply UInt8.toNat_inj.mp
  have same : (UInt8.ofNat c.toNat).toNat = c.toNat := by
    rw [UInt8.toNat_ofNat', Nat.mod_eq_of_lt (by omega)]
  rw [UInt8.toNat_ofNat', Nat.mod_eq_of_lt (by have := toLower_ascii ascii; omega), toNat_toLower]
  simp only [lowerByte, UInt8.le_iff_toNat_le, same, isUpper_iff, show (65 : UInt8).toNat = 65 from rfl,
    show (90 : UInt8).toNat = 90 from rfl]
  split
  · rw [UInt8.toNat_add, same, show (32 : UInt8).toNat = 32 from rfl]
    omega
  · exact same

theorem lowerByte_wide {byte : UInt8} (wide : 128 ≤ byte.toNat) : lowerByte byte = byte := by
  refine if_neg fun range => ?_
  have below := UInt8.le_iff_toNat_le.mp range.2
  have : (90 : UInt8).toNat = 90 := rfl
  omega

/-- Bytes that begin with an ASCII word, but for case, are those of characters that do. -/
theorem lower_of_bytes {word text : List Char} (ascii : ∀ c ∈ word, c.toNat < 128)
    (same : ((text.flatMap String.utf8EncodeChar).take word.length).map lowerByte =
      word.map fun c => UInt8.ofNat c.toNat) :
    (text.take word.length).map Char.toLower = word := by
  induction word generalizing text with
  | nil => rfl
  | cons d word ih =>
      cases text with
      | nil => cases same
      | cons c text =>
          have least : d.toNat < 128 := ascii d List.mem_cons_self
          by_cases narrow : c.toNat < 128
          · rw [List.flatMap_cons, utf8EncodeChar_ascii narrow] at same
            obtain ⟨head, tail⟩ := List.cons.inj same
            rw [lowerByte_ascii narrow] at head
            change c.toLower :: (text.take word.length).map Char.toLower = d :: word
            rw [byte_inj (toLower_ascii narrow) least head,
              ih (fun e member => ascii e (List.mem_cons_of_mem d member)) tail]
          · obtain ⟨byte, rest, encoded, wide⟩ := utf8EncodeChar_wide (Nat.le_of_not_lt narrow)
            rw [List.flatMap_cons, encoded] at same
            have head := (List.cons.inj same).1
            rw [lowerByte_wide wide] at head
            rw [head, UInt8.toNat_ofNat', Nat.mod_eq_of_lt (by omega)] at wide
            omega

/-- Nothing is trimmed off a text's end before its last character that is no space. -/
theorem trimEnd_append {space : Char → Bool} {start rest : List Char}
    (solid : ∃ c ∈ start.getLast?, space c = false) :
    ∃ rest', ((start ++ rest).reverse.dropWhile space).reverse = start ++ rest' := by
  obtain ⟨c, last, solid⟩ := solid
  have stops : start.reverse.dropWhile space = start.reverse := by
    rw [Option.mem_def, ← List.head?_reverse] at last
    cases backwards : start.reverse with
    | nil => rfl
    | cons d others =>
        rw [backwards] at last
        cases last
        exact List.dropWhile_cons_of_neg (by simp [solid])
  rw [List.reverse_append, List.dropWhile_append]
  split
  · rw [stops, List.reverse_reverse]
    exact ⟨[], (List.append_nil start).symm⟩
  · rw [List.reverse_append, List.reverse_reverse]
    exact ⟨_, rfl⟩

/-- A character of a scheme: neither case folding nor escaping changes it, and it is no
space. -/
structure SchemeChar (c : Char) : Prop where
  ascii : c.toNat < 128
  lowered : c.toLower = c
  bare : escapeAttribute c = [c]
  solid : isWhiteSpace c = false

theorem schemeChars {word : List Char} (spelled : (word.all fun c => Decidable.decide (c.toNat < 128) &&
    c.toLower == c && escapeAttribute c == [c] && !isWhiteSpace c) = true) : ∀ c ∈ word, SchemeChar c := by
  intro c member
  have spelled := List.all_eq_true.mp spelled c member
  simp only [Bool.and_eq_true, decide_eq_true_eq, beq_iff_eq, Bool.not_eq_true'] at spelled
  obtain ⟨⟨⟨ascii, lowered⟩, bare⟩, solid⟩ := spelled
  exact ⟨ascii, lowered, bare, solid⟩

/-- A word that is neither trimmed nor escaped still begins the text. -/
theorem lower_of_trimmed {word text : List Char} (nonempty : word ≠ [])
    (scheme : ∀ c ∈ word, SchemeChar c) (same : (text.take word.length).map Char.toLower = word) :
    (((text.reverse.dropWhile isWhiteSpace).reverse.flatMap escapeAttribute).take word.length).map
      Char.toLower = word := by
  obtain ⟨start, rest, split_, length⟩ : ∃ start rest, text = start ++ rest ∧ start = text.take word.length :=
    ⟨_, _, (List.take_append_drop word.length text).symm, rfl⟩
  rw [← length] at same
  have size : start.length = word.length := by rw [← same, List.length_map]
  have kept : ∃ c ∈ start.getLast?, isWhiteSpace c = false := by
    obtain ⟨d, last⟩ : ∃ d, word.getLast? = some d := ⟨_, List.getLast?_eq_some_getLast nonempty⟩
    rw [← same, List.getLast?_map, Option.map_eq_some_iff] at last
    obtain ⟨c, last, -⟩ := last
    have folded := scheme c.toLower (same ▸ List.mem_map_of_mem (List.mem_of_getLast? last))
    exact ⟨c, last, (isWhiteSpace_eq folded.lowered).symm.trans folded.solid⟩
  have plain : start.flatMap escapeAttribute = start := by
    rw [List.flatMap_congr (g := fun c => [c]), List.flatMap_singleton']
    intro c member
    have folded := scheme c.toLower (same ▸ List.mem_map_of_mem member)
    have other {d : Char} (symbol : d.toLower = d) (escaped : escapeAttribute d ≠ [d]) : c ≠ d := by
      rintro rfl
      rw [symbol] at folded
      exact escaped folded.bare
    rw [escapeAttribute, if_neg (other rfl (by decide)), escapeText, if_neg (other rfl (by decide)),
      if_neg (other rfl (by decide)), if_neg (other rfl (by decide))]
  obtain ⟨rest', trimmed⟩ := @trimEnd_append isWhiteSpace start rest kept
  rw [split_, trimmed, List.flatMap_append, plain, ← size, List.take_left', same]
  rfl

theorem safeHref_webUrl {html : HtmlEscape} {url href : String} (safe : safeHref url = some href) :
    webUrl (html.encodeDoubleQuotedAttribute href).toList = true := by
  rw [safeHref] at safe
  split at safe
  · rename_i scheme
    cases safe
    have bytes (text : String) : utf8 text = text.toList.flatMap String.utf8EncodeChar := by
      rw [utf8, ← String.utf8Encode_toList, List.utf8Encode]
      simp
    have begins {word : String} (nonempty : word.toList ≠ []) (chars : ∀ c ∈ word.toList, SchemeChar c)
        (same : eqIgnoreAsciiCase ((utf8 (trimStart url)).take word.toList.length) (utf8 word) = true) :
        ((html.encodeDoubleQuotedAttribute (trim url)).toList.take word.toList.length).map Char.toLower =
          word.toList := by
      have encoded : utf8 word = word.toList.map fun c => UInt8.ofNat c.toNat := by
        rw [bytes, List.flatMap_congr fun c member => utf8EncodeChar_ascii (chars c member).ascii,
          ← List.map_eq_flatMap]
      rw [html.encodeAttribute_eq, trim, String.toList_ofList]
      refine lower_of_trimmed nonempty chars ?_
      refine lower_of_bytes (fun c member => (chars c member).ascii) ?_
      rw [eqIgnoreAsciiCase, beq_iff_eq, encoded, bytes, trimStart, String.toList_ofList, List.map_map] at same
      rw [same]
      refine List.map_congr_left fun c member => ?_
      rw [Function.comp_apply, lowerByte_ascii (chars c member).ascii, (chars c member).lowered]
    simp only [Bool.or_eq_true, Bool.and_eq_true] at scheme
    rw [webUrl, Bool.or_eq_true]
    refine scheme.imp ?_ ?_
    · rintro ⟨-, same⟩
      exact beq_iff_eq.mpr (@begins "http://" (by decide) (schemeChars (by decide)) same)
    · rintro ⟨-, same⟩
      exact beq_iff_eq.mpr (@begins "https://" (by decide) (schemeChars (by decide)) same)
  · cases safe

/-! ### Tags -/

/-- The tags of the renderer hold no other, so that each is read as one. -/
theorem wraps_element {name : List Char} (known : name ∈ elementNames) :
    Markup.Wraps kind ('<' :: (name ++ ['>'])) ('<' :: ('/' :: name ++ ['>'])) := by
  have plain : ∀ name ∈ elementNames, Markup.Plain name := by decide
  refine Markup.wraps_tag (plain name known) ?_ (if_pos known) ?_
  · intro c member
    obtain rfl | within := List.mem_cons.mp member
    · decide
    · exact plain name known c within
  · have closing : ∀ name ∈ elementNames, kind ('/' :: name) = some (.closes name) := by decide
    exact closing name known

theorem leads_single {body : List Char} (names : List (List Char)) (plain : Markup.Plain body)
    (known : kind body = some .single) : Markup.Leads kind names ('<' :: (body ++ ['>'])) names :=
  Markup.leads_tag plain known rfl

theorem unquoted_append {v rest : List Char} (bare : '"' ∉ v) : unquoted (v ++ '"' :: rest) = v := by
  unfold unquoted
  rw [List.takeWhile_append_of_pos]
  · simp
  · intro c member
    simp only [decide_not, Bool.not_eq_eq_eq_not, Bool.not_true, decide_eq_false_iff_not]
    rintro rfl
    exact bare member

theorem notMem_elementNames {body : List Char} (long : 12 ≤ body.length) : body ∉ elementNames := by
  intro member
  have short : ∀ name ∈ elementNames, name.length < 12 := by decide
  have := short body member
  omega

theorem holdsUrl_append {before url after : List Char} (bare : '"' ∉ url)
    (quote : after.head? = some '"') (web : webUrl url = true) :
    holdsUrl before after (before ++ (url ++ after)) = true := by
  cases after with
  | nil => cases quote
  | cons c after =>
      cases quote
      rw [holdsUrl, List.drop_left, unquoted_append bare, web, Bool.and_true, beq_self_eq_true]

theorem holdsUrlAndText_append {before url between text after : List Char} (bare : '"' ∉ url)
    (bare' : '"' ∉ text) (quote : between.head? = some '"') (quote' : after.head? = some '"')
    (web : webUrl url = true) :
    holdsUrlAndText before between after (before ++ (url ++ (between ++ (text ++ after)))) = true := by
  cases between with
  | nil => cases quote
  | cons c between =>
      cases after with
      | nil => cases quote'
      | cons d after =>
          cases quote
          cases quote'
          have beyond : (url ++ ('"' :: between ++ (text ++ '"' :: after))).drop
              (url.length + ('"' :: between).length) = text ++ '"' :: after := by
            rw [← List.append_assoc, ← List.length_append, List.drop_left]
          have first : unquoted (url ++ ('"' :: between ++ (text ++ '"' :: after))) = url :=
            unquoted_append bare
          rw [holdsUrlAndText, List.drop_left, first, beyond, unquoted_append bare', web, Bool.and_true,
            beq_self_eq_true]

theorem head_of_isLink {body : List Char} (link : isLink body = true) : body.head? = some 'a' := by
  rw [isLink, holdsUrl, Bool.and_eq_true, beq_iff_eq] at link
  rw [link.1]
  rfl

theorem wraps_named (open_ close : String) (name : List Char) (spelled : name ∈ elementNames ∧
    open_.toList = '<' :: (name ++ ['>']) ∧ close.toList = '<' :: ('/' :: name ++ ['>'])) :
    Markup.Wraps kind open_.toList close.toList := by
  obtain ⟨known, opens, closes⟩ := spelled
  rw [opens, closes]
  exact wraps_element known

theorem wraps_nested (open_ close : String) (outer inner : List Char)
    (known : outer ∈ elementNames ∧ inner ∈ elementNames)
    (spelled : open_.toList = '<' :: (outer ++ ['>']) ++ '<' :: (inner ++ ['>']) ∧
      close.toList = '<' :: ('/' :: inner ++ ['>']) ++ '<' :: ('/' :: outer ++ ['>'])) :
    Markup.Wraps kind open_.toList close.toList := by
  obtain ⟨opens, closes⟩ := spelled
  rw [opens, closes]
  exact (wraps_element known.1).nest (wraps_element known.2)

section Render
variable {html : HtmlEscape} {limit : ℕ}

theorem wraps_link {href : String}
    (web : webUrl (html.encodeDoubleQuotedAttribute href).toList = true) :
    Markup.Wraps kind (linkTag html href).toList "</a>".toList := by
  let before := "a href=\"".toList
  let after := "\" rel=\"nofollow noopener noreferrer\"".toList
  let url := (html.encodeDoubleQuotedAttribute href).toList
  have opens : (linkTag html href).toList = '<' :: (before ++ (url ++ after) ++ ['>']) := by
    rw [linkTag, String.toList_append, String.toList_append,
      show "<a href=\"".toList = '<' :: before by decide,
      show "\" rel=\"nofollow noopener noreferrer\">".toList = after ++ ['>'] by decide]
    simp only [url, List.cons_append, List.append_assoc]
  have plain : Markup.Plain (before ++ (url ++ after)) := by
    have ends : Markup.Plain (before ++ after) := by decide
    intro c member
    rw [List.mem_append, List.mem_append] at member
    obtain within | within | within := member
    · exact ends c (List.mem_append_left after within)
    · exact plain_encodeAttribute href c within
    · exact ends c (List.mem_append_right before within)
  have known : kind (before ++ (url ++ after)) = some (.opens ['a']) := by
    have long : 12 ≤ after.length := by decide
    have link : isLink (before ++ (url ++ after)) = true :=
      holdsUrl_append (quote_encodeAttribute href) (by decide) web
    have other := @notMem_elementNames (before ++ (url ++ after))
      (by simp only [List.length_append]; omega)
    exact (if_neg other).trans (if_pos link)
  rw [opens, show "</a>".toList = '<' :: ('/' :: ['a'] ++ ['>']) by decide]
  exact Markup.wraps_tag plain (by decide) known (by decide)

theorem leads_image {src : String} (alt : String) (names : List (List Char))
    (web : webUrl (html.encodeDoubleQuotedAttribute src).toList = true) :
    Markup.Leads kind names (imageTag html src alt).toList names := by
  let before := "img src=\"".toList
  let between := "\" alt=\"".toList
  let after := "\" loading=\"lazy\" referrerpolicy=\"no-referrer\"".toList
  let url := (html.encodeDoubleQuotedAttribute src).toList
  let text := (html.encodeDoubleQuotedAttribute alt).toList
  have tag : (imageTag html src alt).toList =
      '<' :: (before ++ (url ++ (between ++ (text ++ after))) ++ ['>']) := by
    rw [imageTag, String.toList_append, String.toList_append, String.toList_append, String.toList_append,
      show "<img src=\"".toList = '<' :: before by decide,
      show "\" loading=\"lazy\" referrerpolicy=\"no-referrer\">".toList = after ++ ['>'] by decide]
    simp only [url, text, between, List.cons_append, List.append_assoc]
  have plain : Markup.Plain (before ++ (url ++ (between ++ (text ++ after)))) := by
    have ends : Markup.Plain (before ++ between ++ after) := by decide
    intro c member
    rw [List.mem_append, List.mem_append, List.mem_append, List.mem_append] at member
    obtain within | within | within | within | within := member
    · exact ends c (List.mem_append_left after (List.mem_append_left between within))
    · exact plain_encodeAttribute src c within
    · exact ends c (List.mem_append_left after (List.mem_append_right before within))
    · exact plain_encodeAttribute alt c within
    · exact ends c (List.mem_append_right (before ++ between) within)
  have known : kind (before ++ (url ++ (between ++ (text ++ after)))) = some .single := by
    have long : 12 ≤ after.length := by decide
    have image : isImage (before ++ (url ++ (between ++ (text ++ after)))) = true :=
      holdsUrlAndText_append (quote_encodeAttribute src) (quote_encodeAttribute alt) (by decide) (by decide)
        web
    have link : ¬isLink (before ++ (url ++ (between ++ (text ++ after)))) = true := by
      intro link
      cases (head_of_isLink link).symm.trans (show _ = some 'i' from rfl)
    have other := @notMem_elementNames (before ++ (url ++ (between ++ (text ++ after))))
      (by simp only [List.length_append]; omega)
    exact (if_neg other).trans ((if_neg link).trans (if_pos (.inr image)))
  rw [tag]
  exact leads_single names plain known

theorem wraps_openClose (tag : Tag) :
    Markup.Wraps kind (openClose html limit tag).1.toList (openClose html limit tag).2.toList := by
  cases tag with
  | paragraph => exact wraps_named "<p>" "</p>" ['p'] (by decide)
  | heading level =>
      cases level with
      | h1 => exact wraps_named "<h1>" "</h1>" ['h', '1'] (by decide)
      | h2 => exact wraps_named "<h2>" "</h2>" ['h', '2'] (by decide)
      | h3 => exact wraps_named "<h3>" "</h3>" ['h', '3'] (by decide)
      | h4 => exact wraps_named "<h4>" "</h4>" ['h', '4'] (by decide)
      | h5 => exact wraps_named "<h5>" "</h5>" ['h', '5'] (by decide)
      | h6 => exact wraps_named "<h6>" "</h6>" ['h', '6'] (by decide)
  | blockQuote => exact wraps_named "<blockquote>" "</blockquote>" "blockquote".toList (by decide)
  | codeBlock =>
      exact wraps_nested "<pre><code>" "</code></pre>" "pre".toList "code".toList (by decide) (by decide)
  | list start =>
      cases start with
      | none => exact wraps_named "<ul>" "</ul>" ['u', 'l'] (by decide)
      | some _ => exact wraps_named "<ol>" "</ol>" ['o', 'l'] (by decide)
  | item => exact wraps_named "<li>" "</li>" ['l', 'i'] (by decide)
  | emphasis => exact wraps_named "<em>" "</em>" ['e', 'm'] (by decide)
  | strong => exact wraps_named "<strong>" "</strong>" "strong".toList (by decide)
  | strikethrough => exact wraps_named "<del>" "</del>" ['d', 'e', 'l'] (by decide)
  | table => exact wraps_named "<table>" "</table>" "table".toList (by decide)
  | tableRow => exact wraps_named "<tr>" "</tr>" ['t', 'r'] (by decide)
  | link destUrl =>
      rw [openClose]
      split
      · rename_i href safe
        exact wraps_link (safeHref_webUrl (Option.filter_eq_some_iff.mp safe).1)
      · exact Markup.Wraps.nil
  | tableHead => exact Markup.Wraps.nil
  | tableCell => exact Markup.Wraps.nil
  | image destUrl => exact Markup.Wraps.nil
  | other => exact Markup.Wraps.nil

end Render
end Pypiron.Markdown
