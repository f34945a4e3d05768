import Mathlib.Algebra.BigOperators.Group.Finset.Basic
import Mathlib.Data.List.Sort
import Pypiron.KeyedMap
import Pypiron.Sidecar
import Pypiron.Text
import Pypiron.Worklist

/-! Dependency following: an include list, and everything that the requirements
of the wanted releases reach, each project with the versions wanted of it. -/
namespace Pypiron.Deps
open KeyedMap

/-- What is read with code from outside the repository: versions and specifiers,
the form that a specifier prints in, and the letters and digits of a marker. -/
structure Pep440 (V S : Type) where
  parseVersion : String → Option V
  parseSpecifiers : String → Option S
  print : S → String
  contains : S → V → Bool
  isAlphanumeric : Char → Bool

variable {V S : Type}

structure PackageSpec (S : Type) where
  name : String
  specifiers : Option S

/-- The versions taken of one project, as specifier strings; `none` takes every
version. -/
abbrev Want := Option (Finset String)

/-- Release version to its `Requires-Dist` entries. -/
abbrev DepsMemo := KeyedMap String (List String)

/-- One requirement, as far as following it needs: the extras it asks of the
project it names, and the requirer's extras it belongs to, if any. -/
structure Requirement (S : Type) where
  name : String
  specifiers : Option S
  extras : List String
  onlyFor : List String

/-- What a `Requires-Dist` entry parses to: nothing for one that no index can
serve, and a panic where the parser slices inside a character. -/
inductive Parsed (S : Type) where
  | requirement (req : Requirement S)
  | dropped
  | panics

section Parse
variable (pep : Pep440 V S)

def trimChars (text : List Char) : List Char :=
  ((text.dropWhile isWhiteSpace).reverse.dropWhile isWhiteSpace).reverse

/-- The length of a marker's next token. -/
def tokenLength (rest : List Char) : ℕ :=
  match rest with
  | [] => 0
  | c :: after =>
    if c = '"' ∨ c = '\'' then
      match after.findIdx? (· = c) with
      | some i => i + 2
      | none => rest.length
    else if pep.isAlphanumeric c ∨ c = '_' then
      (rest.findIdx? fun c => !(pep.isAlphanumeric c || c = '_')).getD rest.length
    else
      match rest.findIdx? fun c => pep.isAlphanumeric c || "_\"' ()".toList.contains c with
      | some (i + 1) => i + 1
      | _ => 1

/-- A marker's tokens, as many as its length allows. -/
def tokens : ℕ → List Char → List (List Char)
  | 0, _ => []
  | fuel + 1, rest =>
    match rest.dropWhile isWhiteSpace with
    | [] => []
    | c :: after =>
      let length := tokenLength pep (c :: after)
      (c :: after).take length :: tokens fuel ((c :: after).drop length)

/-- What stands between a token's quotes; the token of an unclosed quote ends with
the marker, and its last byte is taken for the closing one. -/
def quoted (token : List Char) : Except Unit (Option String) :=
  match token with
  | c :: rest =>
    if c = '"' ∨ c = '\'' then
      match rest.getLast? with
      | none => .ok none
      | some last =>
        if last.utf8Size = 1 then .ok (some (normalizePkgName (String.ofList rest.dropLast)))
        else .error ()
    else .ok none
  | [] => .ok none

/-- The extras a marker names with `extra == "…"`, either way round. -/
def extrasOf : List (List Char) → Except Unit (List String)
  | left :: mid :: right :: rest => do
    let here ←
      if mid = "==".toList then
        if left = "extra".toList then quoted right
        else if right = "extra".toList then quoted left
        else pure none
      else pure none
    let others ← extrasOf (mid :: right :: rest)
    pure (here.toList ++ others)
  | _ => pure []

def markerExtras (marker : String) : Except Unit (List String) :=
  extrasOf (tokens pep marker.toList.length marker.toList)

/-- Platform and Python markers are ignored; only the `extra` ones matter. A
direct reference is no index's to serve. -/
def parseRequirement (text : String) : Parsed S :=
  let (req, marker) := (splitOnce ';' text).getD (text, "")
  let req := trimChars req.toList
  let isName (c : Char) : Bool := c.isAlphanum || c = '-' || c = '_' || c = '.'
  let rest := (req.dropWhile isName).dropWhile isWhiteSpace
  let split : Option (List String × List Char) := match rest with
    | '[' :: opened => (splitOnce ']' (String.ofList opened)).map fun (list, after) =>
      (((list.splitOn ",").map fun extra => normalizePkgName (String.ofList (trimChars extra.toList))).filter
        (· ≠ ""), after.toList)
    | _ => some ([], rest)
  if '@' ∈ req then .dropped
  else match checkedPkgName (String.ofList (req.takeWhile isName)), split with
    | some name, some (extras, rest) =>
      let range := trimChars
        (((trimChars rest).dropWhile (· = '(')).reverse.dropWhile (· = ')')).reverse
      match markerExtras pep marker with
      | .ok onlyFor => .requirement
          ⟨name, if range = [] then none else pep.parseSpecifiers (String.ofList range), extras, onlyFor⟩
      | .error _ => .panics
    | _, _ => .dropped

end Parse

/-! ### Wants -/

section Closure
variable (pep : Pep440 V S) (isPrivate : String → Bool)

def widen (want : Want) (specifiers : Option S) : Want :=
  match want, specifiers with
  | some set, some s => some (insert (pep.print s) set)
  | _, _ => none

/-- A want takes a version that one of its specifiers, read back, contains. -/
def takes (want : Want) (version : String) : Prop :=
  ∀ set ∈ want, ∃ v ∈ pep.parseVersion version, ∃ text ∈ set, ∃ s ∈ pep.parseSpecifiers text,
    pep.contains s v = true

instance (want : Want) (version : String) : Decidable (takes pep want version) := by
  unfold takes
  infer_instance

/-- The requirements of the releases that are wanted, each once. -/
def requires (memo : DepsMemo) (want : Want) : List String :=
  (((memo.entries.filter fun release => takes pep want release.1).flatMap (·.2)).dedup).insertionSort
    (· ≤ ·)

/-- The versions wanted of each project, and the extras followed of it. -/
structure Wants where
  wants : KeyedMap String Want
  extras : KeyedMap String (Finset String)

def Wants.on (s : Wants) (name : String) : Finset String := (s.extras.lookup name).getD ∅

def isListed (roots : List (PackageSpec S)) (name : String) : Bool :=
  (roots.map PackageSpec.name).contains name

variable (listed : String → Bool)

/-- A requirement counts for a listed requirer, always if it belongs to no extra,
and else once one of its extras is followed. -/
def Wants.active (s : Wants) (name : String) (req : Requirement S) : Bool :=
  listed name || req.onlyFor.isEmpty || req.onlyFor.any fun extra => extra ∈ s.on name

/-- Want what a requirement asks for. -/
def Wants.grow (s : Wants) (req : Requirement S) : Wants where
  wants := s.wants.insert req.name
    (widen pep ((s.wants.lookup req.name).getD (some ∅)) req.specifiers)
  extras := s.extras.insert req.name (s.on req.name ∪ req.extras.toFinset)

/-- Whether it asks for more of its project than was wanted. -/
def Wants.grows (s : Wants) (req : Requirement S) : Bool :=
  s.wants.lookup req.name ≠ (s.grow pep req).wants.lookup req.name ∨
    (s.on req.name).card < ((s.grow pep req).on req.name).card

/-- Follow one requirement; its project is revisited when more is wanted of it.
A listed project keeps its own versions and a private one is not followed. -/
def follow (name : String) (s : Wants × List String) (text : String) :
    Option (Wants × List String) :=
  match parseRequirement pep text with
  | .panics => none
  | .dropped => some s
  | .requirement req =>
    if !s.1.active listed name req || listed req.name || isPrivate req.name then some s
    else some (s.1.grow pep req, if s.1.grows pep req then req.name :: s.2 else s.2)

/-- Follow what a project's wanted releases require. -/
def follows (memos : KeyedMap String DepsMemo) (name : String) (s : Wants) :
    Option (Wants × List String) :=
  match memos.lookup name, s.wants.lookup name with
  | some memo, some want => (requires pep memo want).foldlM (follow pep isPrivate listed name) (s, [])
  | _, _ => some (s, [])

/-- One turn of the loop, which a panic ends. -/
def visit (memos : KeyedMap String DepsMemo) (name : String) (s : Option Wants) :
    Option Wants × List String :=
  match s.bind (follows pep isPrivate listed memos name) with
  | some (s, pushed) => (some s, pushed)
  | none => (none, [])

/-- The listed packages, each with the versions it lists. -/
def rootWants (roots : List (PackageSpec S)) : KeyedMap String Want :=
  roots.foldl (fun wants spec => wants.insert spec.name
    (widen pep ((wants.lookup spec.name).getD (some ∅)) spec.specifiers)) ∅

/-! ### How long it takes -/

def requirements (memos : KeyedMap String DepsMemo) : List (Requirement S) :=
  (memos.entries.flatMap fun memo => memo.2.entries.flatMap (·.2)).filterMap fun text =>
    match parseRequirement pep text with
    | .requirement req => some req
    | _ => none

def names (memos : KeyedMap String DepsMemo) : Finset String :=
  ((requirements pep memos).map Requirement.name).toFinset

def specs (memos : KeyedMap String DepsMemo) : Finset String :=
  ((requirements pep memos).filterMap fun req => req.specifiers.map pep.print).toFinset

def extraNames (memos : KeyedMap String DepsMemo) : Finset String :=
  ((requirements pep memos).flatMap Requirement.extras).toFinset

/-- How often what is wanted of a project can still grow. -/
def wantRoom (memos : KeyedMap String DepsMemo) : Option Want → ℕ
  | none => (specs pep memos).card + 2
  | some (some set) => (specs pep memos \ set).card + 1
  | some none => 0

def room (memos : KeyedMap String DepsMemo) (s : Wants) : ℕ :=
  ∑ name ∈ names pep memos,
    (wantRoom pep memos (s.wants.lookup name) + (extraNames pep memos \ s.on name).card)

def start (roots : List (PackageSpec S)) : Wants := ⟨rootWants pep roots, ∅⟩

/-- Everything an include list reaches, over the releases read so far. -/
def closure (roots : List (PackageSpec S)) (memos : KeyedMap String DepsMemo) :
    Option (KeyedMap String Want) :=
  let queue := (start pep roots).wants.keys
  (Worklist.run (visit pep isPrivate (isListed roots) memos)
    (room pep memos (start pep roots) + queue.length) (some (start pep roots)) queue).1.map Wants.wants

end Closure
end Pypiron.Deps
