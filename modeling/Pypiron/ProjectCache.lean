import Pypiron.Sidecar
import Pypiron.TalliedMap

/-! The project pages a node keeps in memory. A page is cached only under a
render claim whose token still stands; an invalidation or a bucket switch takes
the token away. -/
namespace Pypiron.ProjectCache
open KeyedMap

/-! ### Keys -/

def keySep : Char := Char.ofNat 0x1f

/-- A normalized package name, which never holds the separator. -/
structure PkgName where
  name : String
  clean : keySep ∉ name.toList

/-- The key of one page: the package and the version, empty for the latest view. -/
def key (pkg : PkgName) (version : Option String) : String :=
  pkg.name ++ String.singleton keySep ++ version.getD ""

def packagePrefix (pkg : PkgName) : String := pkg.name ++ String.singleton keySep

def startsWith (text pre : String) : Bool := Decidable.decide (pre.toList <+: text.toList)

/-! ### Entries -/

def entryOverheadBytes : ℕ := 256

structure Entry where
  body : Bytes
  fetched : ℕ
  deriving DecidableEq

def Entry.weight (entry : Entry) : ℕ := entryOverheadBytes + entry.body.length

/-- Whether the entry is younger than the time to live. -/
def Entry.live (ttl now : ℕ) (entry : Entry) : Bool := now - entry.fetched < ttl

/-- A token is named by the number of the lookup that made it. -/
abbrev Token := ℕ

/-- The key and the token a claim was given; none for an obsolete generation. -/
abbrev RenderClaim := Option (String × Token)

structure Entries extends TalliedMap String Entry where
  generation : ℕ
  refilling : KeyedMap String Token

inductive Lookup where
  | fresh (body : Bytes)
  | stale (body : Bytes)
  | mustRender (claim : RenderClaim)
  deriving DecidableEq

namespace Entries

def empty : Entries := ⟨.empty, 0, ∅⟩

def reconcileGeneration (generation : ℕ) (entries : Entries) : Entries :=
  if generation > entries.generation then ⟨.empty, generation, ∅⟩ else entries

def insert (key : String) (entry : Entry) (entries : Entries) : Option Entries :=
  (entries.toTalliedMap.insert Entry.weight key entry).map fun pages =>
    { entries with toTalliedMap := pages }

def removePrefix (pre : String) (entries : Entries) : Option Entries :=
  (entries.toTalliedMap.retain Entry.weight fun key _ => !startsWith key pre).map fun pages =>
    { entries with
      toTalliedMap := pages
      refilling := KeyedMap.retain (fun key _ => !startsWith key pre) entries.refilling }

def enforceCap (maxBytes ttl now : ℕ) (entries : Entries) : Option Entries :=
  (entries.toTalliedMap.enforceCap Entry.weight maxBytes (Entry.live ttl now)).map fun pages =>
    { entries with toTalliedMap := pages }

/-- The token that stands for the key, made now where there is none. -/
def claim (key : String) (fresh : Token) (entries : Entries) : Lookup × Entries :=
  match entries.refilling.lookup key with
  | some token => (.mustRender (some (key, token)), entries)
  | none => (.mustRender (some (key, fresh)),
      { entries with refilling := entries.refilling.insert key fresh })

def get (ttl : ℕ) (key : String) (generation now : ℕ) (fresh : Token) (entries : Entries) :
    Lookup × Entries :=
  let entries := entries.reconcileGeneration generation
  if generation < entries.generation then (.mustRender none, entries)
  else match entries.map.lookup key with
    | some entry =>
      if entry.live ttl now then (.fresh entry.body, entries)
      else if (entries.refilling.lookup key).isSome then (.stale entry.body, entries)
      else entries.claim key fresh
    | none => entries.claim key fresh

/-- Cache a page if the claim's token still stands. -/
def put (maxBytes ttl : ℕ) (body : Bytes) (claim : RenderClaim) (now : ℕ) (entries : Entries) :
    Option Entries :=
  match claim with
  | none => some entries
  | some (key, token) =>
    if entries.refilling.lookup key ≠ some token then some entries
    else ({ entries with refilling := entries.refilling.erase key }.insert key ⟨body, now⟩).bind
      (enforceCap maxBytes ttl now)

def invalidatePackage (pkg : PkgName) (entries : Entries) : Option Entries :=
  entries.removePrefix (packagePrefix pkg)

end Entries

/-! ### Claims -/

/-- The cache and the claims that have not been dropped, each named by the
number of the lookup that gave it. -/
structure State where
  entries : Entries
  claims : KeyedMap ℕ RenderClaim

def holds (token : Token) : RenderClaim → ℕ
  | some (_, held) => if held = token then 1 else 0
  | none => 0

/-- References to a token: the table's and those of the live claims. -/
def State.strongCount (token : Token) (s : State) : ℕ :=
  total (fun current => if current = token then 1 else 0) s.entries.refilling +
    total (holds token) s.claims

/-- The last live claim to a token that stands takes the token with it. -/
def State.dropClaim (i : ℕ) (s : State) : State :=
  match s.claims.lookup i with
  | some (some (key, token)) =>
    if s.entries.refilling.lookup key = some token ∧ s.strongCount token = 2 then
      ⟨{ s.entries with refilling := s.entries.refilling.erase key }, s.claims.erase i⟩
    else ⟨s.entries, s.claims.erase i⟩
  | _ => ⟨s.entries, s.claims.erase i⟩

/-- A put uses its claim up, but the claim is dropped under a lock of its own. -/
inductive Event where
  | get (key : String) (generation now : ℕ)
  | put (claim : ℕ) (body : Bytes) (now : ℕ)
  | drop (claim : ℕ)
  | invalidatePackage (pkg : PkgName)

def step (ttl maxBytes n : ℕ) (s : State) : Event → Option (State × Option Lookup)
  | .get key generation now =>
    match s.entries.get ttl key generation now n with
    | (.mustRender claim, entries) =>
      some (⟨entries, s.claims.insert n claim⟩, some (.mustRender claim))
    | (lookup, entries) => some (⟨entries, s.claims⟩, some lookup)
  | .put i body now =>
    match s.claims.lookup i with
    | some claim =>
      (s.entries.put maxBytes ttl body claim now).map fun entries => (⟨entries, s.claims⟩, none)
    | none => some (s, none)
  | .drop i => some (s.dropClaim i, none)
  | .invalidatePackage pkg =>
    (s.entries.invalidatePackage pkg).map fun entries => (⟨entries, s.claims⟩, none)

/-- The state before the `n`-th event, undefined once a count has wrapped. -/
def states (ttl maxBytes : ℕ) (events : ℕ → Event) : ℕ → Option State
  | 0 => some ⟨.empty, ∅⟩
  | n + 1 => (states ttl maxBytes events n).bind fun s =>
      (step ttl maxBytes n s (events n)).map Prod.fst

/-- What the `n`-th event tells its caller. -/
def lookups (ttl maxBytes : ℕ) (events : ℕ → Event) (n : ℕ) : Option Lookup :=
  (states ttl maxBytes events n).bind fun s => (step ttl maxBytes n s (events n)).bind Prod.snd

end Pypiron.ProjectCache
