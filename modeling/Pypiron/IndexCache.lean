import Mathlib.Data.Finset.Basic
import Pypiron.Sidecar
import Pypiron.TalliedMap

/-! The index pages a node keeps in memory. Loads run outside the lock, so one
started for an earlier bucket selection may fill the cache of a later one. -/
namespace Pypiron.IndexCache

/-- One representation of an index and the tag that identifies it. -/
structure Variant where
  body : Bytes
  etag : String
  deriving DecidableEq

inductive Cached where
  | present (identity : Variant) (gzip : Option Variant)
  | missing
  deriving DecidableEq

def entryOverheadBytes : ℕ := 256

def Cached.weight : Cached → ℕ
  | present identity gzip =>
    entryOverheadBytes + (identity.body.length + (gzip.map fun g => g.body.length).getD 0)
  | missing => entryOverheadBytes

def Cached.intoPair : Cached → Option (Variant × Option Variant)
  | present identity gzip => some (identity, gzip)
  | missing => none

/-- The hash in quotes and the encoder, `none` where it errs. -/
structure Codec where
  quotedSha256 : Bytes → String
  encode : Bytes → Option Bytes

def gzipMinBytes : ℕ := 1024

def gzipKeepRatioPct : ℕ := 90

def Codec.maybeGzip (c : Codec) (identity : Bytes) : Option Variant :=
  if identity.length < gzipMinBytes then none
  else match c.encode identity with
    | none => none
    | some compressed =>
      if compressed.length * 100 > identity.length * gzipKeepRatioPct then none
      else some ⟨compressed, c.quotedSha256 compressed⟩

def Codec.build (c : Codec) (bytes : Bytes) : Cached :=
  .present ⟨bytes, c.quotedSha256 bytes⟩ (c.maybeGzip bytes)

def Codec.reuseOrBuild (c : Codec) (stale : Option Cached) (bytes : Bytes) : Cached :=
  match stale with
  | some (.present identity gzip) =>
    if identity.etag = c.quotedSha256 bytes then .present identity gzip else c.build bytes
  | _ => c.build bytes

structure Entry where
  cached : Cached
  fetched : ℕ

def Entry.weight (entry : Entry) : ℕ := entry.cached.weight

/-- Whether the entry is younger than the time to live. -/
def Entry.live (ttl now : ℕ) (entry : Entry) : Bool := now - entry.fetched < ttl

structure Entries extends TalliedMap String Entry where
  generation : ℕ
  refilling : Finset String

namespace Entries

def empty : Entries := ⟨.empty, 0, ∅⟩

def reconcileGeneration (generation : ℕ) (entries : Entries) : Entries :=
  if entries.generation ≠ generation then ⟨.empty, generation, ∅⟩ else entries

def insert (key : String) (entry : Entry) (entries : Entries) : Option Entries :=
  (entries.toTalliedMap.insert Entry.weight key entry).map fun pages =>
    { entries with toTalliedMap := pages }

def remove (key : String) (entries : Entries) : Option Entries :=
  (entries.toTalliedMap.remove Entry.weight key).map fun pages =>
    { entries with toTalliedMap := pages }

def enforceCap (maxBytes ttl now : ℕ) (entries : Entries) : Option Entries :=
  (entries.toTalliedMap.enforceCap Entry.weight maxBytes (Entry.live ttl now)).map fun pages =>
    { entries with toTalliedMap := pages }

end Entries

/-! ### Requests -/

inductive Next where
  | serve (pair : Option (Variant × Option Variant))
  | load (stale : Option Cached) (claimed : Bool)

/-- What a request does, decided under one lock. -/
def Entries.next (ttl : ℕ) (key : String) (generation now : ℕ) (entries : Entries) :
    Next × Entries :=
  let entries := entries.reconcileGeneration generation
  match entries.map.lookup key with
  | some entry =>
    if entry.live ttl now then (.serve entry.cached.intoPair, entries)
    else if key ∈ entries.refilling then (.serve entry.cached.intoPair, entries)
    else (.load (some entry.cached) true,
      { entries with refilling := Insert.insert key entries.refilling })
  | none => (.load none false, entries)

/-- How far a load is; `returning none` is one that failed or was cancelled. -/
inductive Stage where
  | loading (stale : Option Cached)
  | built (cached : Cached)
  | returning (result : Option Cached)

/-- A request that reads storage, from its decision to its return. -/
structure Load where
  key : String
  generation : ℕ
  claimed : Bool
  stage : Stage

inductive Answer where
  | bytes (bytes : Bytes)
  | notFound
  | failed

def Answer.stage (c : Codec) (stale : Option Cached) : Answer → Stage
  | bytes b => .built (c.reuseOrBuild stale b)
  | notFound => .built .missing
  | failed => .returning none

structure Response where
  key : String
  generation : ℕ
  pair : Option (Variant × Option Variant)

/-- Requests, and what storage, the runtime and the writers of indexes do. -/
inductive Event where
  | get (key : String) (generation now : ℕ)
  | read (load : ℕ) (answer : Answer)
  | abandon (load : ℕ)
  | fill (load : ℕ) (now : ℕ)
  | finish (load : ℕ)
  | invalidate (key : String)

structure State where
  entries : Entries
  loads : KeyedMap ℕ Load

/-- One event; a load is named by the number of the request it serves, and an
event for a load that is not at that point does nothing. -/
def step (c : Codec) (ttl maxBytes n : ℕ) (s : State) : Event → Option (State × Option Response)
  | .get key generation now =>
    match s.entries.next ttl key generation now with
    | (.serve pair, entries) => some (⟨entries, s.loads⟩, some ⟨key, generation, pair⟩)
    | (.load stale claimed, entries) =>
      some (⟨entries, s.loads.insert n ⟨key, generation, claimed, .loading stale⟩⟩, none)
  | .read i answer =>
    match s.loads.lookup i with
    | some ⟨key, generation, claimed, .loading stale⟩ =>
      some (⟨s.entries, s.loads.insert i ⟨key, generation, claimed, answer.stage c stale⟩⟩, none)
    | _ => some (s, none)
  | .abandon i =>
    match s.loads.lookup i with
    | some ⟨key, generation, claimed, .loading _⟩
    | some ⟨key, generation, claimed, .built _⟩ =>
      some (⟨s.entries, s.loads.insert i ⟨key, generation, claimed, .returning none⟩⟩, none)
    | _ => some (s, none)
  | .fill i now =>
    match s.loads.lookup i with
    | some ⟨key, generation, claimed, .built cached⟩ =>
      (((s.entries.reconcileGeneration generation).insert key ⟨cached, now⟩).bind
        (Entries.enforceCap maxBytes ttl now)).map fun entries =>
          (⟨entries, s.loads.insert i ⟨key, generation, claimed, .returning (some cached)⟩⟩, none)
    | _ => some (s, none)
  | .finish i =>
    match s.loads.lookup i with
    | some ⟨key, generation, claimed, .returning result⟩ =>
      let refilling := if claimed then s.entries.refilling.erase key else s.entries.refilling
      some (⟨{ s.entries with refilling := refilling }, s.loads.erase i⟩,
        result.map fun cached => ⟨key, generation, cached.intoPair⟩)
    | _ => some (s, none)
  | .invalidate key => (s.entries.remove key).map fun entries => (⟨entries, s.loads⟩, none)

/-- The state before the `n`-th event, undefined once a count has wrapped. -/
def states (c : Codec) (ttl maxBytes : ℕ) (events : ℕ → Event) : ℕ → Option State
  | 0 => some ⟨.empty, ∅⟩
  | n + 1 => (states c ttl maxBytes events n).bind fun s =>
      (step c ttl maxBytes n s (events n)).map Prod.fst

/-- What the `n`-th event answers a request. -/
def response (c : Codec) (ttl maxBytes : ℕ) (events : ℕ → Event) (n : ℕ) : Option Response :=
  (states c ttl maxBytes events n).bind fun s =>
    (step c ttl maxBytes n s (events n)).bind Prod.snd

end Pypiron.IndexCache
