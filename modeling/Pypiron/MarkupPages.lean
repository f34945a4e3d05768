import Mathlib.Data.List.Basic

/-! Reading a page back: its text and tags one after the other, and the attributes of a
tag, each a name with a quoted value. -/
namespace MarkupPages

/-- Text is read character by character, a tag as a whole. -/
inductive Token where
  | char (c : Char)
  | tag (body : List Char)
  deriving DecidableEq

/-- The first argument is what has been read of the tag the text stands in. -/
def lex : Option (List Char) → List Char → Option (List Token)
  | none, [] => some []
  | some _, [] => none
  | none, c :: text =>
    if c = '<' then lex (some []) text
    else if c = '>' then none
    else (lex none text).map (.char c :: ·)
  | some body, c :: text =>
    if c = '<' then none
    else if c = '>' then (lex none text).map (.tag body :: ·)
    else lex (some (body ++ [c])) text

/-- Between tags, the text is read as these tokens, whatever comes after. -/
def Reads (text : List Char) (tokens : List Token) : Prop :=
  ∀ more, lex none (text ++ more) = (lex none more).map (tokens ++ ·)

def Bracketless (text : List Char) : Prop := '<' ∉ text ∧ '>' ∉ text

instance : Decidable (Bracketless text) := inferInstanceAs (Decidable (_ ∧ _))

theorem Bracketless.append {text more : List Char} (first : Bracketless text) (second : Bracketless more) :
    Bracketless (text ++ more) :=
  ⟨fun member => (List.mem_append.mp member).elim first.1 second.1,
    fun member => (List.mem_append.mp member).elim first.2 second.2⟩

theorem Reads.nil : Reads [] [] := by
  intro more
  rw [List.nil_append]
  exact Option.map_id'.symm

theorem Reads.append {text more : List Char} {tokens tokens' : List Token} (first : Reads text tokens)
    (second : Reads more tokens') : Reads (text ++ more) (tokens ++ tokens') := by
  intro rest
  rw [List.append_assoc, first, second, Option.map_map]
  exact congrArg (Option.map · _) (funext fun _ => (List.append_assoc _ _ _).symm)

theorem Reads.lex {text : List Char} {tokens : List Token} (reads : Reads text tokens) :
    lex none text = some tokens := by
  have whole := reads []
  rw [List.append_nil] at whole
  rw [whole, MarkupPages.lex, Option.map_some, List.append_nil]

theorem reads_text {text : List Char} (plain : Bracketless text) : Reads text (text.map .char) := by
  induction text with
  | nil => exact Reads.nil
  | cons c text ih =>
      intro more
      obtain ⟨opens, closes⟩ := plain
      rw [List.mem_cons, not_or] at opens closes
      rw [List.cons_append, MarkupPages.lex, if_neg (Ne.symm opens.1), if_neg (Ne.symm closes.1),
        ih ⟨opens.2, closes.2⟩ more, Option.map_map]
      rfl

theorem lex_inside {body text more : List Char} (plain : Bracketless text) :
    lex (some body) (text ++ more) = lex (some (body ++ text)) more := by
  induction text generalizing body with
  | nil => rw [List.nil_append, List.append_nil]
  | cons c text ih =>
      obtain ⟨opens, closes⟩ := plain
      rw [List.mem_cons, not_or] at opens closes
      rw [List.cons_append, MarkupPages.lex, if_neg (Ne.symm opens.1), if_neg (Ne.symm closes.1),
        ih ⟨opens.2, closes.2⟩, List.append_assoc]
      rfl

theorem reads_tag {body : List Char} (plain : Bracketless body) : Reads ('<' :: (body ++ ['>'])) [.tag body] := by
  intro more
  rw [List.cons_append, MarkupPages.lex, if_pos rfl, List.append_assoc, lex_inside plain]
  rfl

/-! ### Attributes -/

/-- What is read of attributes, and the name or the value the text stands in. -/
structure Attributes where
  done : List (List Char × List Char)
  name : List Char
  value : Option (List Char)
  deriving DecidableEq

def Attributes.step (s : Attributes) (c : Char) : Attributes :=
  match s.value with
  | none => if c = '"' then { s with value := some [] } else { s with name := s.name ++ [c] }
  | some value =>
    if c = '"' then ⟨s.done ++ [(s.name, value)], [], none⟩ else { s with value := some (value ++ [c]) }

/-- The name of an attribute stands between a blank and an equals sign. -/
def attributeName : List Char → Option (List Char)
  | ' ' :: text => if text.getLast? = some '=' then some text.dropLast else none
  | _ => none

/-- Attributes end outside of names and values. -/
def attributes (text : List Char) : Option (List (List Char × List Char)) :=
  let s := text.foldl Attributes.step ⟨[], [], none⟩
  if s.name = [] ∧ s.value = none then
    s.done.mapM fun entry => (attributeName entry.1).map (·, entry.2)
  else none

/-- An attribute as it is written. -/
def spell (entry : List Char × List Char) : List Char :=
  (' ' :: (entry.1 ++ ['='])) ++ '"' :: (entry.2 ++ ['"'])

theorem foldl_name {text name : List Char} {done : List (List Char × List Char)} (bare : '"' ∉ text) :
    text.foldl Attributes.step ⟨done, name, none⟩ = ⟨done, name ++ text, none⟩ := by
  induction text generalizing name with
  | nil => rw [List.append_nil]; rfl
  | cons c text ih =>
      rw [List.mem_cons, not_or] at bare
      rw [List.foldl_cons, Attributes.step]
      dsimp only
      rw [if_neg (Ne.symm bare.1), ih bare.2, List.append_assoc]
      rfl

theorem foldl_value {text name value : List Char} {done : List (List Char × List Char)} (bare : '"' ∉ text) :
    text.foldl Attributes.step ⟨done, name, some value⟩ = ⟨done, name, some (value ++ text)⟩ := by
  induction text generalizing value with
  | nil => rw [List.append_nil]; rfl
  | cons c text ih =>
      rw [List.mem_cons, not_or] at bare
      rw [List.foldl_cons, Attributes.step]
      dsimp only
      rw [if_neg (Ne.symm bare.1), ih bare.2, List.append_assoc]
      rfl

theorem foldl_spell {entry : List Char × List Char} {done : List (List Char × List Char)}
    (bareName : '"' ∉ entry.1) (bareValue : '"' ∉ entry.2) :
    (spell entry).foldl Attributes.step ⟨done, [], none⟩ =
      ⟨done ++ [(' ' :: (entry.1 ++ ['=']), entry.2)], [], none⟩ := by
  have bare : '"' ∉ ' ' :: (entry.1 ++ ['=']) := by
    simp [bareName]
  rw [spell, List.foldl_append, foldl_name bare, List.foldl_cons, Attributes.step]
  dsimp only
  rw [if_pos rfl, List.foldl_append, foldl_value bareValue]
  rfl

theorem attributeName_spelled (name : List Char) : attributeName (' ' :: (name ++ ['='])) = some name := by
  rw [attributeName, List.getLast?_concat, if_pos rfl, List.dropLast_concat]

/-- Attributes without quotes in names and values are read as they were written. -/
theorem attributes_spelled {entries : List (List Char × List Char)}
    (bare : ∀ entry ∈ entries, '"' ∉ entry.1 ∧ '"' ∉ entry.2) :
    attributes (entries.flatMap spell) = some entries := by
  have folded (done : List (List Char × List Char)) :
      (entries.flatMap spell).foldl Attributes.step ⟨done, [], none⟩ =
        ⟨done ++ entries.map fun entry => (' ' :: (entry.1 ++ ['=']), entry.2), [], none⟩ := by
    induction entries generalizing done with
    | nil => rw [List.map_nil, List.append_nil]; rfl
    | cons entry entries ih =>
        have ⟨bareName, bareValue⟩ := bare entry List.mem_cons_self
        rw [List.flatMap_cons, List.foldl_append, foldl_spell bareName bareValue,
          ih fun other member => bare other (List.mem_cons_of_mem entry member), List.append_assoc]
        rfl
  have named : (entries.map fun entry => (' ' :: (entry.1 ++ ['=']), entry.2)).mapM
      (fun entry => (attributeName entry.1).map (·, entry.2)) = some entries := by
    clear bare folded
    induction entries with
    | nil => rfl
    | cons entry entries ih =>
        rw [List.map_cons, List.mapM_cons, ih, attributeName_spelled]
        rfl
  rw [attributes, folded, List.nil_append]
  exact (if_pos ⟨rfl, rfl⟩).trans named

/-! ### Elements -/

/-- An element as it is read: its attributes, and the text after its open tag. -/
abbrev Element := List (List Char × List Char) × List Char

/-- The attributes of a tag, if it opens an element of this name. -/
def attributesOf (name body : List Char) : Option (List (List Char × List Char)) :=
  if name.isPrefixOf body then
    match body.drop name.length with
    | ' ' :: rest => attributes (' ' :: rest)
    | _ => none
  else none

def textAfter : List Token → List Char
  | .char c :: tokens => c :: textAfter tokens
  | _ => []

/-- The elements of a name, in order. -/
def elements (name : List Char) : List Token → List Element
  | [] => []
  | .char _ :: tokens => elements name tokens
  | .tag body :: tokens =>
    match attributesOf name body with
    | some attributes => (attributes, textAfter tokens) :: elements name tokens
    | none => elements name tokens

/-- Wherever the text stands before a tag or the end, these elements are read of it. -/
def Shows (name text : List Char) (found : List Element) : Prop :=
  ∃ tokens, Reads text tokens ∧ ∀ rest, textAfter rest = [] →
    elements name (tokens ++ rest) = found ++ elements name rest ∧ textAfter (tokens ++ rest) = []

variable {name text more : List Char}

theorem Shows.nil : Shows name [] [] :=
  ⟨[], Reads.nil, fun _ ends => ⟨rfl, ends⟩⟩

theorem Shows.append {found found' : List Element} (first : Shows name text found)
    (second : Shows name more found') : Shows name (text ++ more) (found ++ found') := by
  obtain ⟨tokens, reads, shows⟩ := first
  obtain ⟨tokens', reads', shows'⟩ := second
  refine ⟨tokens ++ tokens', reads.append reads', fun rest ends => ?_⟩
  obtain ⟨shown', ends'⟩ := shows' rest ends
  obtain ⟨shown, ends⟩ := shows (tokens' ++ rest) ends'
  rw [List.append_assoc, shown, shown', List.append_assoc]
  exact ⟨rfl, ends⟩

theorem elements_text (text : List Char) (rest : List Token) :
    elements name (text.map .char ++ rest) = elements name rest := by
  induction text with
  | nil => rfl
  | cons c text ih => exact ih

theorem textAfter_text (text : List Char) {rest : List Token} (ends : textAfter rest = []) :
    textAfter (text.map .char ++ rest) = text := by
  induction text with
  | nil => exact ends
  | cons c text ih => exact congrArg (c :: ·) ih

/-- A tag with the text after it. -/
theorem shows_tag {body : List Char} (plain : Bracketless body) (plainText : Bracketless text) :
    Shows name ('<' :: (body ++ ['>']) ++ text)
      ((attributesOf name body).map (·, text)).toList := by
  refine ⟨.tag body :: text.map .char, (reads_tag plain).append (reads_text plainText), fun rest ends => ?_⟩
  refine ⟨?_, rfl⟩
  rw [List.cons_append, elements]
  cases attributesOf name body with
  | none => exact elements_text text rest
  | some attributes =>
      dsimp only
      rw [textAfter_text text ends, elements_text]
      rfl

theorem Shows.flatMap {items : List α} {write : α → List Char} {found : α → List Element}
    (each : ∀ item ∈ items, Shows name (write item) (found item)) :
    Shows name (items.flatMap write) (items.flatMap found) := by
  induction items with
  | nil => exact Shows.nil
  | cons item items ih =>
      exact (each item List.mem_cons_self).append
        (ih fun other member => each other (List.mem_cons_of_mem item member))

theorem Shows.elements {found : List Element} (shows : Shows name text found) :
    (lex none text).map (elements name) = some found := by
  obtain ⟨tokens, reads, shows⟩ := shows
  have shown := (shows [] rfl).1
  rw [List.append_nil] at shown
  rw [reads.lex, Option.map_some, shown]
  exact congrArg some (List.append_nil found)

/-- The attributes of a tag are those spelled in it. -/
theorem attributesOf_spelled {entries : List (List Char × List Char)} (nonempty : entries ≠ [])
    (bare : ∀ entry ∈ entries, '"' ∉ entry.1 ∧ '"' ∉ entry.2) :
    attributesOf name (name ++ entries.flatMap spell) = some entries := by
  rw [attributesOf, if_pos (List.isPrefixOf_iff_prefix.mpr (List.prefix_append _ _)), List.drop_left]
  cases entries with
  | nil => exact absurd rfl nonempty
  | cons entry entries => exact attributes_spelled bare

end MarkupPages
