import Mathlib.Data.List.Basic

/-! Reading marked-up text character by character: what stands between angle brackets
is a tag, and the tags open, close or stand alone. Text is accepted if every tag is one
of the vocabulary and every element is closed in the order it was opened. -/
namespace Markup

inductive TagKind where
  | opens (name : List Char)
  | closes (name : List Char)
  | single
  deriving DecidableEq

/-- The elements that are open, innermost first, and what has been read of a tag. -/
structure Scan where
  stack : List (List Char)
  inside : Option (List Char)
  deriving DecidableEq

variable (kind : List Char → Option TagKind)

def enter (stack : List (List Char)) : TagKind → Option (List (List Char))
  | .opens name => some (name :: stack)
  | .closes name => match stack with
    | top :: rest => if top = name then some rest else none
    | [] => none
  | .single => some stack

def Scan.step (s : Scan) (c : Char) : Option Scan :=
  match s.inside with
  | none =>
    if c = '<' then some { s with inside := some [] }
    else if c = '>' then none
    else some s
  | some body =>
    if c = '<' then none
    else if c = '>' then
      (kind body).bind fun tag => (enter s.stack tag).map fun stack => ⟨stack, none⟩
    else some { s with inside := some (body ++ [c]) }

def scan (s : Scan) (text : List Char) : Option Scan := text.foldlM (Scan.step kind) s

/-- Between tags, the text leads from one stack of open elements to another. -/
def Leads (names : List (List Char)) (text : List Char) (names' : List (List Char)) : Prop :=
  scan kind ⟨names, none⟩ text = some ⟨names', none⟩

def Accepts (text : List Char) : Prop := Leads kind [] text []

instance : Decidable (Leads kind names text names') :=
  inferInstanceAs (Decidable (scan kind ⟨names, none⟩ text = some ⟨names', none⟩))

instance : Decidable (Accepts kind text) := inferInstanceAs (Decidable (Leads kind [] text []))

/-- Text that holds no angle bracket. -/
def Plain (text : List Char) : Prop := ∀ c ∈ text, c ≠ '<' ∧ c ≠ '>'

instance : Decidable (Plain text) :=
  decidable_of_iff (text.all fun c => c != '<' && c != '>') (by simp [Plain])

variable {kind} {names names' names'' : List (List Char)} {text more : List Char}

theorem Leads.nil : Leads kind names [] names := rfl

theorem Leads.append (first : Leads kind names text names') (second : Leads kind names' more names'') :
    Leads kind names (text ++ more) names'' := by
  rw [Leads, scan, List.foldlM_append, show text.foldlM (Scan.step kind) ⟨names, none⟩ = _ from first]
  exact second

theorem scan_inside {body : List Char} (plain : Plain text) :
    scan kind ⟨names, some body⟩ text = some ⟨names, some (body ++ text)⟩ := by
  induction text generalizing body with
  | nil => simp [scan]
  | cons c text ih =>
      have ⟨notOpen, notClose⟩ := plain c List.mem_cons_self
      have rest := @ih (body ++ [c]) fun d member => plain d (List.mem_cons_of_mem c member)
      rw [scan, List.foldlM_cons, Scan.step]
      simp only [notOpen, notClose, if_false]
      rw [show body ++ c :: text = body ++ [c] ++ text by simp]
      exact rest

theorem leads_plain (plain : Plain text) : Leads kind names text names := by
  induction text with
  | nil => rfl
  | cons c text ih =>
      have ⟨notOpen, notClose⟩ := plain c List.mem_cons_self
      have rest := ih fun d member => plain d (List.mem_cons_of_mem c member)
      rw [Leads, scan, List.foldlM_cons, Scan.step]
      simp only [notOpen, notClose, if_false]
      exact rest

theorem leads_tag {tag : TagKind} (plain : Plain text) (known : kind text = some tag)
    (entered : enter names tag = some names') : Leads kind names ('<' :: (text ++ ['>'])) names' := by
  have inside := @scan_inside kind names text [] plain
  rw [scan] at inside
  rw [Leads, scan, List.foldlM_cons, Scan.step]
  simp only [if_true]
  change (text ++ ['>']).foldlM (Scan.step kind) ⟨names, some []⟩ = _
  rw [List.foldlM_append, inside]
  change [('>' : Char)].foldlM (Scan.step kind) ⟨names, some ([] ++ text)⟩ = _
  simp [Scan.step, known, entered]

/-- The open tag of an element and the close tag that is still owed for it. -/
def Wraps (kind : List Char → Option TagKind) (open_ close : List Char) : Prop :=
  ∀ names, ∃ names', Leads kind names open_ names' ∧ Leads kind names' close names

theorem Wraps.nil : Wraps kind [] [] := fun names => ⟨names, .nil, .nil⟩

theorem Wraps.nest {open_ close innerOpen innerClose : List Char} (outer : Wraps kind open_ close)
    (inner : Wraps kind innerOpen innerClose) :
    Wraps kind (open_ ++ innerOpen) (innerClose ++ close) := by
  intro names
  obtain ⟨middle, opened, closed⟩ := outer names
  obtain ⟨last, innerOpened, innerClosed⟩ := inner middle
  exact ⟨last, opened.append innerOpened, innerClosed.append closed⟩

theorem wraps_tag {body closing name : List Char} (plain : Plain body) (closingPlain : Plain closing)
    (opens : kind body = some (.opens name)) (closes : kind closing = some (.closes name)) :
    Wraps kind ('<' :: (body ++ ['>'])) ('<' :: (closing ++ ['>'])) := by
  intro names
  exact ⟨name :: names, leads_tag plain opens rfl, leads_tag closingPlain closes (by simp [enter])⟩

/-- The close tags owed, innermost first, lead back to where no element is open. -/
def Owes (kind : List Char → Option TagKind) : List (List Char) → List (List Char) → Prop
  | names, [] => names = []
  | names, close :: closes => ∃ rest, Leads kind names close rest ∧ Owes kind rest closes

theorem Owes.drain {closes : List (List Char)} (owes : Owes kind names closes) :
    Leads kind names closes.flatten [] := by
  induction closes generalizing names with
  | nil =>
      cases owes
      rfl
  | cons close closes ih =>
      obtain ⟨rest, closed, owes⟩ := owes
      exact closed.append (ih owes)

end Markup
