import Pypiron.Markdown

/-! What a description may do to the page it stands on: the rendered text is read as tags
of the vocabulary, each closed in its place, whether the document ends or the ceiling
cuts it. -/
namespace Pypiron.Markdown
open Markup (Leads Owes Wraps)

variable {html : HtmlEscape} {limit : ℕ}

/-- The close tags on the stack are owed to what has been written, and they are counted.
The one tag that may pass the ceiling is the opening of a table head. -/
structure Renderer.Contained (html : HtmlEscape) (limit : ℕ) (s : Renderer) : Prop where
  read : ∃ names, Leads kind [] s.out.toList names ∧ Owes kind names (s.closes.map String.toList)
  owed : s.closesLen = (s.closes.map String.utf8ByteSize).sum
  bounded : s.out.utf8ByteSize + s.closesLen ≤ limit + 23
  src : ∀ src alt, s.image = some (some src, alt) →
    webUrl (html.encodeDoubleQuotedAttribute src).toList = true

/-- Where a step ends, whether the render goes on or not. -/
def reached : Except Renderer Renderer → Renderer
  | .ok s => s
  | .error s => s

namespace Renderer.Contained
variable {s : Renderer}

theorem push (contained : s.Contained html limit) {text : String}
    (even : ∀ names, Leads kind names text.toList names)
    (fits : s.out.utf8ByteSize + s.closesLen + text.utf8ByteSize ≤ limit + 23) :
    (s.push text).Contained html limit := by
  obtain ⟨⟨names, read, owes⟩, owed, bounded, src⟩ := contained
  refine ⟨⟨names, ?_, owes⟩, owed, ?_, src⟩
  · change Leads kind [] (s.out ++ text).toList names
    rw [String.toList_append]
    exact read.append (even names)
  · change (s.out ++ text).utf8ByteSize + s.closesLen ≤ limit + 23
    rw [String.utf8ByteSize_append]
    omega

theorem opens (contained : s.Contained html limit) {open_ close : String}
    (wraps : Wraps kind open_.toList close.toList)
    (fits : s.out.utf8ByteSize + s.closesLen + (open_.utf8ByteSize + close.utf8ByteSize) ≤ limit + 23) :
    (s.opens open_ close).Contained html limit := by
  obtain ⟨⟨names, read, owes⟩, owed, bounded, src⟩ := contained
  obtain ⟨names', opened, closed⟩ := wraps names
  refine ⟨⟨names', ?_, names, closed, owes⟩, ?_, ?_, src⟩
  · change Leads kind [] (s.out ++ open_).toList names'
    rw [String.toList_append]
    exact read.append opened
  · change s.closesLen + close.utf8ByteSize = ((close :: s.closes).map String.utf8ByteSize).sum
    rw [List.map_cons, List.sum_cons, owed, Nat.add_comm]
  · change (s.out ++ open_).utf8ByteSize + (s.closesLen + close.utf8ByteSize) ≤ limit + 23
    rw [String.utf8ByteSize_append]
    omega

theorem pop (contained : s.Contained html limit) : s.pop.Contained html limit := by
  have ⟨⟨names, read, owes⟩, owed, bounded, src⟩ := contained
  unfold Renderer.pop
  split
  · rename_i c closes stacked
    rw [stacked] at owes owed
    obtain ⟨rest, closed, owes⟩ := owes
    rw [List.map_cons, List.sum_cons] at owed
    refine ⟨⟨rest, ?_, owes⟩, ?_, ?_, src⟩
    · change Leads kind [] (s.out ++ c).toList rest
      rw [String.toList_append]
      exact read.append closed
    · change s.closesLen - c.utf8ByteSize = (closes.map String.utf8ByteSize).sum
      rw [owed, Nat.add_sub_cancel_left]
    · change (s.out ++ c).utf8ByteSize + (s.closesLen - c.utf8ByteSize) ≤ limit + 23
      rw [String.utf8ByteSize_append]
      omega
  · exact contained

/-- What the invariant says nothing of may change. -/
theorem same {t : Renderer} (contained : s.Contained html limit) (out : t.out = s.out)
    (closes : t.closes = s.closes) (closesLen : t.closesLen = s.closesLen)
    (src : ∀ src alt, t.image = some (some src, alt) →
      webUrl (html.encodeDoubleQuotedAttribute src).toList = true) : t.Contained html limit := by
  obtain ⟨read, owed, bounded, -⟩ := contained
  exact ⟨by rw [out, closes]; exact read, by rw [closes, closesLen]; exact owed,
    by rw [out, closesLen]; exact bounded, src⟩

theorem start : Renderer.start.Contained html limit :=
  ⟨⟨[], Markup.Leads.nil, rfl⟩, rfl, Nat.zero_le _, fun _ _ none_ => by cases none_⟩

theorem collect (contained : s.Contained html limit) {src : Option String} {alt : String}
    (image : s.image = some (src, alt)) (event : Event) :
    (s.collect html limit src alt event).Contained html limit := by
  have kept (alt' : String) : ∀ src' alt, some (src, alt') = some (some src', alt) →
      webUrl (html.encodeDoubleQuotedAttribute src').toList = true := by
    intro src' alt'' found
    cases found
    exact contained.src src' alt image
  have done_ : { s with image := none }.Contained html limit :=
    contained.same rfl rfl rfl fun _ _ none_ => by cases none_
  unfold Renderer.collect
  split
  · exact contained.same rfl rfl rfl contained.src
  · split
    · exact contained.same rfl rfl rfl contained.src
    · split
      · rename_i src
        dsimp only
        split
        · rename_i fits
          refine done_.push (fun names => leads_image alt names (contained.src src alt image)) ?_
          have bounded := contained.bounded
          unfold Renderer.room at fits
          dsimp only
          omega
        · exact done_
      · exact done_
  · exact contained.same rfl rfl rfl (kept _)
  · exact contained.same rfl rfl rfl (kept _)
  · exact contained

/-- What is escaped is read as text, and it takes no more than the room. -/
theorem pushEscaped_spec (out text : String) (room : ℕ) :
    ∃ written, (pushEscaped html out text room).1 = out ++ written ∧ Markup.Plain written.toList ∧
      written.utf8ByteSize ≤ room :=
  ⟨_, rfl, plain_trimTo (plain_encodeText _) _, trimTo_size _ _⟩

/-- Where there is room at all, one short text passes the ceiling by little. -/
theorem pushShort (contained : s.Contained html limit) (below : s.out.utf8ByteSize + s.closesLen < limit)
    (text : String) (even : ∀ names, Leads kind names text.toList names)
    (short : text.utf8ByteSize ≤ 24) : (s.push text).Contained html limit :=
  contained.push even (by omega)

theorem pushTag (contained : s.Contained html limit) (below : s.out.utf8ByteSize + s.closesLen < limit)
    (text : String) (body : List Char) (spelled : kind body = some .single ∧
      Markup.Plain body ∧ text.toList = '<' :: (body ++ ['>']))
    (short : text.utf8ByteSize ≤ 24) : (s.push text).Contained html limit := by
  obtain ⟨single, plain, spelled⟩ := spelled
  refine contained.pushShort below text (fun names => ?_) short
  rw [spelled]
  exact leads_single names plain single

theorem writeTag (contained : s.Contained html limit) (below : s.out.utf8ByteSize + s.closesLen < limit)
    (tag : Tag) :
    (s.enter limit (openClose html limit tag)).Contained html limit := by
  unfold Renderer.enter
  split
  · rename_i fits
    refine contained.opens (wraps_openClose tag) ?_
    unfold Renderer.room at fits
    omega
  · obtain ⟨⟨names, read, owes⟩, owed, bounded, src⟩ := contained
    refine ⟨⟨names, read, names, Markup.Leads.nil, owes⟩, ?_, bounded, src⟩
    rw [owed]
    exact (Nat.zero_add _).symm

theorem writeStart (contained : s.Contained html limit) (below : s.out.utf8ByteSize + s.closesLen < limit)
    (tag : Tag) : (reached (s.write html limit (.start tag))).Contained html limit := by
  cases tag with
  | image destUrl =>
      refine contained.same rfl rfl rfl fun src alt found => ?_
      obtain ⟨safe, -⟩ := Option.filter_eq_some_iff.mp (Prod.mk.inj (Option.some.inj found)).1
      exact safeHref_webUrl safe
  | tableHead =>
      have wraps := wraps_nested "<thead><tr>" "</tr></thead>" "thead".toList "tr".toList (by decide)
        (by decide)
      have size : "<thead><tr>".utf8ByteSize + "</tr></thead>".utf8ByteSize = 24 := by decide
      have opened := contained.opens wraps (by omega)
      exact opened.same rfl rfl rfl opened.src
  | tableCell =>
      have head := wraps_named "<th>" "</th>" ['t', 'h'] (by decide)
      have body := wraps_named "<td>" "</td>" ['t', 'd'] (by decide)
      have size : "<th>".utf8ByteSize + "</th>".utf8ByteSize = 9 := by decide
      have size' : "<td>".utf8ByteSize + "</td>".utf8ByteSize = 9 := by decide
      change (s.opens (if s.inHead then "<th>" else "<td>")
        (if s.inHead then "</th>" else "</td>")).Contained html limit
      cases s.inHead with
      | true => exact contained.opens head (by simp only [if_true]; omega)
      | false => exact contained.opens body (by simp only [Bool.false_eq_true, if_false]; omega)
  | paragraph => exact contained.writeTag below .paragraph
  | heading level => exact contained.writeTag below (.heading level)
  | blockQuote => exact contained.writeTag below .blockQuote
  | codeBlock => exact contained.writeTag below .codeBlock
  | list start => exact contained.writeTag below (.list start)
  | item => exact contained.writeTag below .item
  | emphasis => exact contained.writeTag below .emphasis
  | strong => exact contained.writeTag below .strong
  | strikethrough => exact contained.writeTag below .strikethrough
  | table => exact contained.writeTag below .table
  | tableRow => exact contained.writeTag below .tableRow
  | link destUrl => exact contained.writeTag below (.link destUrl)
  | other => exact contained.writeTag below .other

/-- Both outcomes of an escaped text write the same. -/
theorem reached_wrote (whole : Bool) (out : String) : reached (s.wrote out whole) = { s with out } := by
  cases whole <;> rfl

theorem write (contained : s.Contained html limit) (below : s.out.utf8ByteSize + s.closesLen < limit)
    (event : Event) : (reached (s.write html limit event)).Contained html limit := by
  have room : s.room limit = limit - (s.out.utf8ByteSize + s.closesLen) := rfl
  cases event with
  | start tag => exact contained.writeStart below tag
  | endTag tag =>
      cases tag with
      | tableHead =>
          have outside : { s with inHead := false }.Contained html limit :=
            contained.same rfl rfl rfl contained.src
          exact outside.pop
      | image => exact contained.pop
      | other => exact contained.pop
  | text t =>
      obtain ⟨written, out, plain, size⟩ := @pushEscaped_spec html s.out t (s.room limit)
      have pushed := contained.push (fun names => Markup.leads_plain plain) (by omega)
      rw [Renderer.write, reached_wrote, out]
      exact pushed
  | code t =>
      obtain ⟨written, out, plain, size⟩ := @pushEscaped_spec html (s.out ++ "<code>") t
        (s.room limit - "<code></code>".utf8ByteSize)
      have whole : "<code></code>".utf8ByteSize = "<code>".utf8ByteSize + "</code>".utf8ByteSize := by decide
      have short : "<code></code>".utf8ByteSize = 13 := by decide
      have pushed := @push html limit s contained ("<code>" ++ written ++ "</code>") (fun names => by
        obtain ⟨names', opened, closed⟩ := wraps_named "<code>" "</code>" "code".toList (by decide) names
        rw [String.toList_append, String.toList_append]
        exact (opened.append (Markup.leads_plain plain)).append closed) (by
          rw [String.utf8ByteSize_append, String.utf8ByteSize_append]
          omega)
      rw [Renderer.write, reached_wrote, out, String.append_assoc, String.append_assoc,
        ← @String.append_assoc "<code>" written]
      exact pushed
  | softBreak => exact contained.pushShort below "\n" (fun _ => Markup.leads_plain (by decide)) (by decide)
  | hardBreak => exact contained.pushTag below "<br>" ['b', 'r'] (by decide) (by decide)
  | rule => exact contained.pushTag below "<hr>" ['h', 'r'] (by decide) (by decide)
  | taskListMarker done =>
      cases done with
      | true => exact contained.pushShort below "[x] " (fun _ => Markup.leads_plain (by decide)) (by decide)
      | false => exact contained.pushShort below "[ ] " (fun _ => Markup.leads_plain (by decide)) (by decide)
  | other => exact contained

theorem step (contained : s.Contained html limit) (event : Event) :
    (reached (s.step html limit event)).Contained html limit := by
  unfold Renderer.step
  split
  · exact contained
  · rename_i room
    have below : s.out.utf8ByteSize + s.closesLen < limit := by
      unfold Renderer.room at room
      omega
    split
    · rename_i src alt image
      exact contained.collect image event
    · exact contained.write below event

theorem run (contained : s.Contained html limit) (events : List Event) :
    (reached (events.foldlM (Renderer.step html limit) s)).Contained html limit := by
  induction events generalizing s with
  | nil => exact contained
  | cons event events ih =>
      have next := contained.step event
      rw [List.foldlM_cons]
      cases stepped : s.step html limit event with
      | ok t =>
          rw [stepped] at next
          exact ih next
      | error t =>
          rw [stepped] at next
          exact next

end Renderer.Contained

/-! ### Documents -/

/-- The events are all written, and end in `t`. -/
def Runs (html : HtmlEscape) (limit : ℕ) (s : Renderer) (events : List Event) (t : Renderer) : Prop :=
  events.foldlM (Renderer.step html limit) s = .ok t

theorem runs_cons {s t : Renderer} {event : Event} {events : List Event} :
    Runs html limit s (event :: events) t ↔
      ∃ u, s.step html limit event = .ok u ∧ Runs html limit u events t := by
  rw [Runs, List.foldlM_cons]
  cases s.step html limit event with
  | error u =>
      constructor
      · intro failed
        cases failed
      · rintro ⟨_, failed, -⟩
        cases failed
  | ok u =>
      constructor
      · exact fun rest => ⟨u, rfl, rest⟩
      · rintro ⟨_, same, rest⟩
        cases same
        exact rest

theorem runs_append {s t : Renderer} {events more : List Event} :
    Runs html limit s (events ++ more) t ↔
      ∃ u, Runs html limit s events u ∧ Runs html limit u more t := by
  induction events generalizing s with
  | nil =>
      constructor
      · exact fun rest => ⟨s, rfl, rest⟩
      · rintro ⟨_, same, rest⟩
        cases same
        exact rest
  | cons event events ih =>
      simp only [List.cons_append, runs_cons, ih]
      constructor
      · rintro ⟨u, stepped, v, first, rest⟩
        exact ⟨v, ⟨u, stepped, first⟩, rest⟩
      · rintro ⟨v, ⟨u, stepped, first⟩, rest⟩
        exact ⟨u, stepped, v, first, rest⟩

theorem step_ok {s t : Renderer} {event : Event} (stepped : s.step html limit event = .ok t) :
    (∃ src alt, s.image = some (src, alt) ∧ t = s.collect html limit src alt event) ∨
      (s.image = none ∧ s.write html limit event = .ok t) := by
  unfold Renderer.step at stepped
  split at stepped
  · cases stepped
  · split at stepped
    · rename_i src alt image
      exact .inl ⟨src, alt, image, (Except.ok.inj stepped).symm⟩
    · rename_i image
      exact .inr ⟨image, stepped⟩

/-- In an alt span, a document leaves all but the alt text as it was. -/
structure Renderer.Collected (s t : Renderer) (src : Option String) : Prop where
  closes : t.closes = s.closes
  depth : t.imageDepth = s.imageDepth
  image : ∃ alt, t.image = some (src, alt)

theorem Renderer.Collected.trans {s t u : Renderer} {src : Option String} (first : s.Collected t src)
    (second : t.Collected u src) : s.Collected u src :=
  ⟨second.closes.trans first.closes, second.depth.trans first.depth, second.image⟩

theorem collect_leaf {s : Renderer} {src : Option String} {alt : String} (image : s.image = some (src, alt))
    (leaf : Leaf) : s.Collected (s.collect html limit src alt leaf.val) src := by
  obtain ⟨event, isLeaf⟩ := leaf
  cases event with
  | start tag => cases isLeaf
  | endTag tag => cases isLeaf
  | text t => exact ⟨rfl, rfl, _, rfl⟩
  | code t => exact ⟨rfl, rfl, _, rfl⟩
  | softBreak => exact ⟨rfl, rfl, alt, image⟩
  | hardBreak => exact ⟨rfl, rfl, alt, image⟩
  | rule => exact ⟨rfl, rfl, alt, image⟩
  | taskListMarker done => exact ⟨rfl, rfl, alt, image⟩
  | other => exact ⟨rfl, rfl, alt, image⟩

theorem collect_tag {s : Renderer} {src : Option String} {alt : String} {tag : Tag}
    (other : ∀ url, tag ≠ .image url) :
    s.collect html limit src alt (.start tag) = s ∧ s.collect html limit src alt (.endTag tag.toEnd) = s := by
  cases tag with
  | image url => exact absurd rfl (other url)
  | _ => exact ⟨rfl, rfl⟩

theorem runs_collected {s t : Renderer} {src : Option String} {alt : String} {doc : Doc}
    (image : s.image = some (src, alt)) (runs : Runs html limit s doc.events t) : s.Collected t src := by
  have stepped {s t : Renderer} {alt : String} {event : Event} (image : s.image = some (src, alt))
      (stepped : s.step html limit event = .ok t) : t = s.collect html limit src alt event := by
    obtain ⟨src', alt', image', same⟩ | ⟨none_, -⟩ := step_ok stepped
    · cases image.symm.trans image'
      exact same
    · cases image.symm.trans none_
  induction doc generalizing s t alt with
  | nil =>
      cases runs
      exact ⟨rfl, rfl, alt, image⟩
  | leaf event rest ih =>
      obtain ⟨u, first, remains⟩ := runs_cons.mp runs
      have collected := @collect_leaf html limit s src alt image event
      rw [← stepped image first] at collected
      obtain ⟨alt', image'⟩ := collected.image
      exact collected.trans (ih image' remains)
  | element tag children rest ihChildren ihRest =>
      obtain ⟨u, first, opened⟩ := runs_cons.mp runs
      obtain ⟨v, within, closing⟩ := runs_append.mp opened
      obtain ⟨w, last, remains⟩ := runs_cons.mp closing
      have started := stepped image first
      by_cases nested : ∃ url, tag = .image url
      · obtain ⟨url, rfl⟩ := nested
        have image' : u.image = some (src, alt) := by rw [started]; exact image
        have inner := ihChildren image' within
        obtain ⟨alt', image'⟩ := inner.image
        have deep : v.imageDepth = s.imageDepth + 1 := by rw [inner.depth, started]; rfl
        have ended : w = { v with imageDepth := v.imageDepth - 1 } :=
          (stepped image' last).trans (if_pos (by omega))
        have collected : s.Collected w src := by
          rw [ended]
          refine ⟨inner.closes.trans (by rw [started]; rfl), ?_, alt', image'⟩
          change v.imageDepth - 1 = s.imageDepth
          omega
        exact collected.trans (ihRest (by rw [ended]; exact image') remains)
      · have plain := @collect_tag html limit s src alt tag (fun url same => nested ⟨url, same⟩)
        obtain rfl : u = s := started.trans plain.1
        have inner := ihChildren image within
        obtain ⟨alt', image'⟩ := inner.image
        have plain' := @collect_tag html limit v src alt' tag (fun url same => nested ⟨url, same⟩)
        obtain rfl : w = v := (stepped image' last).trans plain'.2
        exact inner.trans (ihRest image' remains)

/-- Outside of images. -/
structure Renderer.Outside (s : Renderer) : Prop where
  image : s.image = none
  depth : s.imageDepth = 0

/-- A start tag other than an image owes one close tag, which may be empty. -/
theorem write_start {s t : Renderer} {tag : Tag} (outside : s.Outside) (other : ∀ url, tag ≠ .image url)
    (written : s.write html limit (.start tag) = .ok t) :
    t.Outside ∧ ∃ close, t.closes = close :: s.closes := by
  obtain ⟨image, depth⟩ := outside
  have general (written : t = s.enter limit (openClose html limit tag)) :
      t.Outside ∧ ∃ close, t.closes = close :: s.closes := by
    unfold Renderer.enter at written
    split at written
    · subst written
      exact ⟨⟨image, depth⟩, _, rfl⟩
    · subst written
      exact ⟨⟨image, depth⟩, _, rfl⟩
  cases tag with
  | image url => exact absurd rfl (other url)
  | tableHead =>
      cases written
      exact ⟨⟨image, depth⟩, _, rfl⟩
  | tableCell =>
      cases written
      exact ⟨⟨image, depth⟩, _, rfl⟩
  | _ => exact general (Except.ok.inj written).symm

theorem pop_cons {s : Renderer} {close : String} {closes : List String} (outside : s.Outside)
    (stacked : s.closes = close :: closes) : s.pop.Outside ∧ s.pop.closes = closes := by
  unfold Renderer.pop
  rw [stacked]
  exact ⟨⟨outside.image, outside.depth⟩, rfl⟩

theorem write_end {s t : Renderer} {close : String} {closes : List String} {tag : TagEnd}
    (outside : s.Outside) (stacked : s.closes = close :: closes)
    (written : s.write html limit (.endTag tag) = .ok t) : t.Outside ∧ t.closes = closes := by
  cases tag with
  | tableHead =>
      cases written
      have flat : { s with inHead := false }.Outside := ⟨outside.image, outside.depth⟩
      exact pop_cons flat stacked
  | image =>
      cases written
      exact pop_cons outside stacked
  | other =>
      cases written
      exact pop_cons outside stacked

theorem wrote_ok {s t : Renderer} {out : String} {whole : Bool} (outside : s.Outside)
    (written : s.wrote out whole = .ok t) : t.Outside ∧ t.closes = s.closes := by
  unfold Renderer.wrote at written
  split at written
  · cases written
    exact ⟨⟨outside.image, outside.depth⟩, rfl⟩
  · cases written

theorem write_leaf {s t : Renderer} {leaf : Leaf} (outside : s.Outside)
    (written : s.write html limit leaf.val = .ok t) : t.Outside ∧ t.closes = s.closes := by
  obtain ⟨event, isLeaf⟩ := leaf
  obtain ⟨image, depth⟩ := outside
  cases event with
  | start tag => cases isLeaf
  | endTag tag => cases isLeaf
  | text t =>
      exact wrote_ok ⟨image, depth⟩ written
  | code t =>
      exact wrote_ok ⟨image, depth⟩ written
  | _ =>
      cases written
      exact ⟨⟨image, depth⟩, rfl⟩

theorem collect_end {s : Renderer} {src : Option String} {alt : String} (shallow : s.imageDepth = 0) :
    (s.collect html limit src alt (.endTag .image)).Outside ∧
      (s.collect html limit src alt (.endTag .image)).closes = s.closes := by
  rw [Renderer.collect, if_neg (Nat.not_lt.mpr shallow.le)]
  cases src with
  | none => exact ⟨⟨rfl, shallow⟩, rfl⟩
  | some src =>
      dsimp only
      split
      · exact ⟨⟨rfl, shallow⟩, rfl⟩
      · exact ⟨⟨rfl, shallow⟩, rfl⟩

theorem step_outside {s t : Renderer} {event : Event} (outside : s.Outside)
    (stepped : s.step html limit event = .ok t) : s.write html limit event = .ok t := by
  obtain ⟨src, alt, image, -⟩ | ⟨-, written⟩ := step_ok stepped
  · cases outside.image.symm.trans image
  · exact written

/-- Outside of images, a whole document leaves the stack as it found it. -/
theorem runs_settled {s t : Renderer} {doc : Doc} (outside : s.Outside)
    (runs : Runs html limit s doc.events t) : t.Outside ∧ t.closes = s.closes := by
  induction doc generalizing s t with
  | nil =>
      cases runs
      exact ⟨outside, rfl⟩
  | leaf event rest ih =>
      obtain ⟨u, first, remains⟩ := runs_cons.mp runs
      obtain ⟨outside', same⟩ := write_leaf outside (step_outside outside first)
      obtain ⟨outside'', same'⟩ := ih outside' remains
      exact ⟨outside'', same'.trans same⟩
  | element tag children rest ihChildren ihRest =>
      obtain ⟨u, first, opened⟩ := runs_cons.mp runs
      obtain ⟨v, within, closing⟩ := runs_append.mp opened
      obtain ⟨w, last, remains⟩ := runs_cons.mp closing
      have started := step_outside outside first
      suffices settled : w.Outside ∧ w.closes = s.closes by
        obtain ⟨outside', same⟩ := ihRest settled.1 remains
        exact ⟨outside', same.trans settled.2⟩
      by_cases image : ∃ url, tag = .image url
      · obtain ⟨url, rfl⟩ := image
        cases started
        have collected := runs_collected rfl within
        obtain ⟨alt, image'⟩ := collected.image
        obtain ⟨src', alt', -, rfl⟩ | ⟨none_, -⟩ := step_ok last
        · obtain ⟨outside', same⟩ := @collect_end html limit v src' alt' (collected.depth.trans outside.depth)
          exact ⟨outside', same.trans collected.closes⟩
        · cases image'.symm.trans none_
      · obtain ⟨outside', close, stacked⟩ := write_start outside (fun url same => image ⟨url, same⟩) started
        obtain ⟨outside'', same⟩ := ihChildren outside' within
        exact write_end outside'' (same.trans stacked) (step_outside outside'' last)

/-! ### The rendered text -/

theorem foldl_append (closes : List String) (out : String) :
    (closes.foldl (· ++ ·) out).toList = out.toList ++ (closes.map String.toList).flatten ∧
      (closes.foldl (· ++ ·) out).utf8ByteSize = out.utf8ByteSize + (closes.map String.utf8ByteSize).sum := by
  induction closes generalizing out with
  | nil => exact ⟨(List.append_nil _).symm, rfl⟩
  | cons close closes ih =>
      obtain ⟨text, size⟩ := ih (out ++ close)
      rw [String.toList_append] at text
      rw [String.utf8ByteSize_append] at size
      constructor
      · rw [List.foldl_cons, text, List.map_cons, List.flatten_cons, List.append_assoc]
      · rw [List.foldl_cons, size, List.map_cons, List.sum_cons, Nat.add_assoc]

theorem leads_truncationNotice : Leads kind [] truncationNotice.toList [] := by
  obtain ⟨names, opened, closed⟩ := wraps_nested "<p><em>" "</em></p>" ['p'] ['e', 'm'] (by decide)
    (by decide) []
  have plain : Markup.Plain "… description truncated …".toList := by decide
  have whole : truncationNotice.toList =
      "<p><em>".toList ++ "… description truncated …".toList ++ "</em></p>".toList := by decide
  rw [whole]
  exact (opened.append (Markup.leads_plain plain)).append closed

/-- Whatever the document and wherever the ceiling cuts it, the render is text and tags of
the vocabulary in proper nesting. It passes the ceiling by the notice and 23 bytes at most,
and the pending close tags are counted right all along. -/
theorem renderEvents_contained (html : HtmlEscape) (limit : ℕ) (doc : Doc) :
    Markup.Accepts kind (renderEvents html limit doc.events).toList ∧
    (renderEvents html limit doc.events).utf8ByteSize ≤ limit + 23 + truncationNotice.utf8ByteSize ∧
    ∀ events s, Runs html limit .start events s →
      s.closesLen = (s.closes.map String.utf8ByteSize).sum := by
  have contained := (@Renderer.Contained.start html limit).run doc.events
  rw [renderEvents]
  refine ⟨?_, ?_, ?_⟩
  · cases ran : doc.events.foldlM (Renderer.step html limit) .start with
    | ok s =>
        rw [ran] at contained
        obtain ⟨names, read, owes⟩ := contained.read
        rw [show (reached (.ok s)).closes = [] from (runs_settled ⟨rfl, rfl⟩ ran).2] at owes
        cases owes
        exact read
    | error s =>
        rw [ran] at contained
        obtain ⟨names, read, owes⟩ := contained.read
        change Leads kind [] s.truncate.toList []
        rw [Renderer.truncate, String.toList_append, (foldl_append s.closes s.out).1]
        exact (read.append owes.drain).append leads_truncationNotice
  · have bounded := contained.bounded
    cases ran : doc.events.foldlM (Renderer.step html limit) .start with
    | ok s =>
        rw [ran] at bounded
        change s.out.utf8ByteSize + s.closesLen ≤ limit + 23 at bounded
        dsimp only
        omega
    | error s =>
        have owed := contained.owed
        rw [ran] at bounded owed
        change s.out.utf8ByteSize + s.closesLen ≤ limit + 23 at bounded
        change s.closesLen = (s.closes.map String.utf8ByteSize).sum at owed
        dsimp only [Renderer.truncate]
        rw [String.utf8ByteSize_append, (foldl_append s.closes s.out).2]
        omega
  · intro events s ran
    have contained := (@Renderer.Contained.start html limit).run events
    rw [show events.foldlM (Renderer.step html limit) .start = .ok s from ran] at contained
    exact contained.owed

end Pypiron.Markdown
