import Mathlib.Data.List.ReduceOption
import Pypiron.SidecarCache
import Pypiron.VerifyIndex.Agreement

/-! A rebuild with the memo lists what it would list without: each sidecar and each digest
it shows stood in the bucket after its own listing, whatever the memo held and whoever
wrote meanwhile. The memo itself stays below its ceiling. -/
namespace Pypiron.SidecarCache
open KeyedMap
open VerifyIndex (FileMetadata has isArtifact sidecarSuffix suffixText)
open Contention (Changes Stood Noted)
open Program (Lawful)
open ThreadPool (Trace Performed Answered Underway Contract Leads)

variable {codec : Codec} {run : ℕ → ThreadPool.Config Store Call Op Op.Ans String Listed}

/-! ### The plain rebuild -/

section Plain
variable (codec)

/-- The entry of a settled record. -/
def shown (listing : Listing) (filename : String) (metadata : Option Bytes) (sc : Sidecar) :
    Option FileMetadata :=
  if Publish.listed (listing.record filename (some sc)) listing.claim then
    some (.fromSidecar filename sc
      (if has listing.names filename .metadata then metadata.map codec.sha256 else none)
      (has listing.names filename .provenance))
  else none

/-- What is made of a record: a bare one has the sidecar that was made for it, if any. -/
def settled (listing : Listing) (filename : String) (metadata : Option Bytes) (made known : Option Sidecar) :
    Option FileMetadata :=
  (if classifyRecord (listing.record filename known) = .bare then made else known).bind
    (shown codec listing filename metadata)

/-- An artifact's entry from what its sidecar and its companion hold, with no memo. -/
def entryOf (listing : Listing) (sidecar metadata : Option Bytes) (made : Option Sidecar)
    (filename : String) : Option FileMetadata :=
  if listing.reads filename then
    (sidecar.bind codec.sidecar).bind fun sc => settled codec listing filename metadata made (some sc)
  else settled codec listing filename metadata made none

end Plain

/-! ### What holds of a run -/

section Facts
variable (codec run)

def cells (place : Place) (now : ℕ) : VersionedCell Bytes := (run now).store.objects place

/-- Every value of the memo was read under a detector that had been issued. -/
structure Sound (now bucket : ℕ) (pkg : String) (memo : PackageSidecars) : Prop where
  sidecars : ∀ filename etag sc, memo.sidecars.lookup filename = some (etag, sc) →
    Noted (cells run ⟨bucket, pkg, filename ++ sidecarSuffix⟩) codec.sidecar now etag sc
  metadata : ∀ filename etag sha, memo.metadata.lookup filename = some (etag, sha) →
    Noted (cells run ⟨bucket, pkg, filename ++ suffixText .metadata⟩)
      (fun bytes => some (codec.sha256 bytes)) now etag sha

/-- The invariant of a run: what was memoized up to now was sound. -/
def Holds (now : ℕ) : Prop :=
  ∀ instant, instant ≤ now → ∀ bucket pkg memo,
    (run instant).store.memo.map.lookup (bucket, pkg) = some memo → Sound codec run instant bucket pkg memo

def permits (now : ℕ) : Op → Prop
  | .put bucket pkg memo => Sound codec run now bucket pkg memo
  | _ => True

/-- The sidecar made for a bare body: only an authoring rebuild has one, and it stood there as
it was written, or was read there. -/
def Made (listing : Listing) (first last : ℕ) (filename : String) (made : Option Sidecar) : Prop :=
  ∀ sc, made = some sc → listing.authoring = true ∧
    ∃ bytes, Stood (cells run (listing.sidecarPlace filename)) first last (some bytes) ∧
      (bytes = codec.toVec sc ∨ codec.sidecar bytes = some sc)

/-- The entry is what the plain rebuild derives from contents that stood there meanwhile. -/
def Loaded (listing : Listing) (first last : ℕ) (filename : String) (entry : Option FileMetadata) : Prop :=
  ∃ sidecar metadata made,
    Stood (cells run (listing.sidecarPlace filename)) first last sidecar ∧
    Stood (cells run (listing.metadataPlace filename)) first last metadata ∧
    Made codec run listing first last filename made ∧
    entry = entryOf codec listing sidecar metadata made filename

/-- A listing that a call took at `first`, under a claim it had read. -/
structure Took (call : Call) (start first : ℕ) (listing : Listing) : Prop where
  since : start ≤ first
  bucket : listing.bucket = call.bucket
  pkg : listing.pkg = call.pkg
  authoring : listing.authoring = call.authoring
  lists : Lists (run first).store listing.bucket listing.pkg listing.entries
  claim : ∃ instant, start ≤ instant ∧ instant ≤ first ∧
    listing.claim = ((run instant).store.claims call.bucket call.pkg).bind Origin.ofState

/-- What a call that succeeds returns. -/
def AsStored (call : Call) (start now : ℕ) (result : Listed) : Prop :=
  ∃ listing first entries, Took run call start first listing ∧ first ≤ now ∧
    List.Forall₂ (fun artifact => Loaded codec run listing first now artifact.name)
      listing.artifacts entries ∧
    result = (entries.reduceOption, listing.artifacts.map fun entry => (entry.name, entry.size))

def contract : Contract Call Op String Listed where
  permits _ _ _ now op := permits codec run now op
  post _ call start now result := Lawful.Yields (fun now => AsStored codec run call start now) now result

end Facts

variable (trace : Trace (rebuilds codec) run)

section History
include trace

theorem store_cases (now : ℕ) :
    (∃ thread call op answer, Performed (rebuilds codec) run thread now call op answer) ∨
      Drifts (run now).store (run (now + 1)).store ∨ (run (now + 1)).store = (run now).store := by
  obtain performed | ⟨thread, call, _, next⟩ | ⟨drifts, _⟩ | ⟨thread, task, _, same, _⟩ | paused :=
    trace.cases now
  · exact .inl performed
  · rw [next]
    exact .inr (.inr rfl)
  · exact .inr (.inl drifts)
  · exact .inr (.inr same)
  · rw [paused]
    exact .inr (.inr rfl)

omit trace in
theorem changes_write (store : Store) (place place' : Place) {cell : VersionedCell Bytes}
    (changes : Changes (store.objects place) cell) :
    Changes (store.objects place') ((store.write place cell).objects place') := by
  change Changes _ (Function.update store.objects place cell place')
  by_cases mine : place' = place
  · subst mine
    rwa [Function.update_self]
  · rw [Function.update_of_ne mine]
    exact .kept

theorem cells_change (place : Place) (now : ℕ) : Changes (cells run place now) (cells run place (now + 1)) := by
  unfold cells
  obtain ⟨thread, call, op, answer, _, _, performs, _⟩ | drifts | same := store_cases trace now
  · generalize (run (now + 1)).store = after at performs
    cases performs with
    | created bytes _ | createLost bytes _ _ => exact changes_write _ _ _ (Changes.written bytes)
    | deleted | deleteLost => exact changes_write _ _ _ Changes.removed
    | superseded _ _ _ _ drifts => exact drifts.objects place
    | claimRead | claimUnread | listed | unlisted | got | unread | occupied | createFailed
      | deleteFailed | taken | put => exact .kept
  · exact drifts.objects place
  · rw [same]
    exact .kept

omit trace in
/-- What is listed with a detector stands there under it. -/
theorem listed_etag {listing : Listing} {first etag : ℕ} {name : String}
    (lists : Lists (run first).store listing.bucket listing.pkg listing.entries)
    (detected : listing.etag name = some etag) :
    ∃ body, (cells run (listing.place name) first).get = some (body, etag) := by
  obtain ⟨entry, found, reported⟩ := Option.bind_eq_some_iff.mp detected
  have named : entry.name = name := by simpa using List.find?_some found
  obtain ⟨body, number, stands, _, only⟩ := lists.truthful entry (List.mem_of_find?_eq_some found)
  obtain rfl := only etag reported
  exact ⟨body, by rw [← named]; exact stands⟩

end History

/-! ### Requests -/

section Requests
variable {thread start world : ℕ} {call : Call}

variable (codec run thread call) in
/-- A call keeps to its contract from here on, and what it yields is so. -/
abbrev Keeps {α : Type} (world : ℕ) (program : RebuildM α) (holds : ℕ → α → Prop) : Prop :=
  Lawful (permits codec run) (Answered (rebuilds codec) run (Holds codec run) thread call)
    (Lawful.Yields holds) world program

theorem keeps_pure {α : Type} {value : α} {holds : ℕ → α → Prop}
    (yields : ∀ now, world ≤ now → holds now value) :
    Keeps codec run thread call world (pure value) holds := Lawful.yield_pure yields

theorem keeps_bail {α : Type} {text : String} {holds : ℕ → α → Prop} :
    Keeps codec run thread call world (Program.bail text : RebuildM α) holds := Lawful.yield_bail

theorem Keeps.bind {α β : Type} {holds : ℕ → α → Prop} {holds' : ℕ → β → Prop} {program : RebuildM α}
    {rest : α → RebuildM β} (first : Keeps codec run thread call world program holds)
    (second : ∀ now, world ≤ now → ∀ value, holds now value →
      Keeps codec run thread call now (rest value) holds') :
    Keeps codec run thread call world (program >>= rest) holds' := first.yield_bind second

theorem keeps_readOriginClaim (bucket : ℕ) (pkg : String) :
    Keeps codec run thread call world (readOriginClaim bucket pkg) fun now claim =>
      ∃ instant, world ≤ instant ∧ instant ≤ now ∧ claim = (run instant).store.claims bucket pkg := by
  refine ThreadPool.yield_call (fun _ _ => trivial) fun instant answer claim le performed _ told now less => ?_
  refine ⟨instant, le, less.le, ?_⟩
  obtain ⟨_, _, performs, _⟩ := performed
  generalize (run (instant + 1)).store = after at performs
  cases performs with
  | claimRead => exact (Except.ok.inj told).symm
  | claimUnread => cases told

theorem keeps_listDirEntries (bucket : ℕ) (pkg : String) :
    Keeps codec run thread call world (listDirEntries bucket pkg) fun now entries =>
      ∃ instant, world ≤ instant ∧ instant ≤ now ∧ Lists (run instant).store bucket pkg entries := by
  refine ThreadPool.yield_call (fun _ _ => trivial) fun instant answer entries le performed _ told now less => ?_
  refine ⟨instant, le, less.le, ?_⟩
  obtain ⟨_, _, performs, _⟩ := performed
  generalize (run (instant + 1)).store = after at performs
  cases performs with
  | listed lists =>
      cases told
      exact lists
  | unlisted => cases told

theorem keeps_finishInterruptedSupersedes (bucket : ℕ) (pkg : String) (marked : List String) :
    Keeps codec run thread call world (finishInterruptedSupersedes bucket pkg marked) fun _ _ => True :=
  ThreadPool.yield_call (fun _ _ => trivial) fun _ _ _ _ _ _ _ _ _ => trivial

theorem keeps_getBytes (place : Place) : Keeps codec run thread call world (getBytes place)
    fun now content => Stood (cells run place) world now content := by
  refine ThreadPool.yield_call (fun _ _ => trivial) fun instant answer content le performed _ told now less => ?_
  refine ⟨instant, le, less.le, ?_⟩
  obtain ⟨_, _, performs, _⟩ := performed
  generalize (run (instant + 1)).store = after at performs
  cases performs with
  | got => exact Except.ok.inj told
  | unread => cases told

theorem keeps_putIfAbsent (place : Place) (bytes : Bytes) :
    Keeps codec run thread call world (putIfAbsent place bytes) fun now created =>
      created = true → Stood (cells run place) world now (some bytes) := by
  refine ThreadPool.yield_call (fun _ _ => trivial) fun instant answer created le performed _ told now less sure => ?_
  refine ⟨instant + 1, Nat.le_succ_of_le le, less, ?_⟩
  obtain ⟨_, _, performs, _⟩ := performed
  generalize after_ : (run (instant + 1)).store = after at performs
  cases performs with
  | created _ missing =>
      rw [cells, after_]
      change (Function.update (run instant).store.objects place _ place).value = some bytes
      rw [Function.update_self, VersionedCell.value_write]
  | occupied | createFailed | createLost =>
      subst sure
      cases told

theorem keeps_deleteKeys (place : Place) :
    Keeps codec run thread call world (deleteKeys place) fun _ _ => True :=
  ThreadPool.yield_call (fun _ _ => trivial) fun _ _ _ _ _ _ _ _ _ => trivial

theorem keeps_putMemo (bucket : ℕ) (pkg : String) {memo : PackageSidecars}
    (sound : ∀ now, world ≤ now → Sound codec run now bucket pkg memo) :
    Keeps codec run thread call world (putMemo bucket pkg memo) fun _ _ => True :=
  ThreadPool.yield_call sound fun _ _ _ _ _ _ _ _ _ => trivial

end Requests

/-! ### Memos -/

section Memos
variable {now bucket first : ℕ} {pkg : String} {memo fresh : PackageSidecars} {listing : Listing}

theorem Sound.mono {later : ℕ} (sound : Sound codec run now bucket pkg memo) (le : now ≤ later) :
    Sound codec run later bucket pkg memo where
  sidecars filename etag sc found := (sound.sidecars filename etag sc found).mono le
  metadata filename etag sha found := (sound.metadata filename etag sha found).mono le

theorem Sound.empty : Sound codec run now bucket pkg .empty where
  sidecars filename etag sc found := by simp [PackageSidecars.empty] at found
  metadata filename etag sha found := by simp [PackageSidecars.empty] at found

theorem Sound.noteSidecar {filename : String} {etag : Option ℕ} {sc : Sidecar}
    (sound : Sound codec run now bucket pkg memo)
    (noted : ∀ number, etag = some number →
      Noted (cells run ⟨bucket, pkg, filename ++ sidecarSuffix⟩) codec.sidecar now number sc) :
    Sound codec run now bucket pkg (memo.noteSidecar filename etag sc) := by
  cases etag with
  | none => exact sound
  | some number =>
      refine ⟨fun filename' etag' sc' found => ?_, sound.metadata⟩
      change (memo.sidecars.insert filename (number, sc)).lookup filename' = some (etag', sc') at found
      rw [lookup_insert_eq] at found
      split at found
      · rename_i same
        cases found
        subst same
        exact noted number rfl
      · exact sound.sidecars filename' etag' sc' found

theorem Sound.noteMetadata {filename : String} {etag : Option ℕ} {sha : Option String}
    (sound : Sound codec run now bucket pkg memo)
    (noted : ∀ number digest, etag = some number → sha = some digest →
      Noted (cells run ⟨bucket, pkg, filename ++ suffixText .metadata⟩)
        (fun bytes => some (codec.sha256 bytes)) now number digest) :
    Sound codec run now bucket pkg (memo.noteMetadata filename etag sha) := by
  cases etag with
  | none => exact sound
  | some number =>
      cases sha with
      | none => exact sound
      | some digest =>
          refine ⟨sound.sidecars, fun filename' etag' sha' found => ?_⟩
          change (memo.metadata.insert filename (number, digest)).lookup filename' = some (etag', sha') at found
          rw [lookup_insert_eq] at found
          split at found
          · rename_i same
            cases found
            subst same
            exact noted number digest rfl rfl
          · exact sound.metadata filename' etag' sha' found

theorem Listing.known_some {V : Type} {etag : Option ℕ} {filename : String} {values : KeyedMap String (ℕ × V)}
    {value : V} (hit : Listing.known etag filename values = some value) :
    ∃ number, etag = some number ∧ values.lookup filename = some (number, value) := by
  obtain ⟨number, rfl, rest⟩ := Option.bind_eq_some_iff.mp hit
  obtain ⟨⟨seen, stored⟩, kept, rfl⟩ := Option.map_eq_some_iff.mp rest
  obtain ⟨found, same⟩ := Option.filter_eq_some_iff.mp kept
  obtain rfl : seen = number := by simpa using same
  exact ⟨seen, rfl, found⟩

include trace

/-- A memoized value whose detector is listed again stood there since the listing. -/
theorem reused {V : Type} {reads : Bytes → Option V} {name : String} {etag : ℕ} {value : V}
    (lists : Lists (run first).store listing.bucket listing.pkg listing.entries) (le : first ≤ now)
    (detected : listing.etag name = some etag)
    (noted : Noted (cells run (listing.place name)) reads now etag value) :
    ∃ bytes, Stood (cells run (listing.place name)) first now (some bytes) ∧ reads bytes = some value := by
  obtain ⟨body, stands⟩ := listed_etag lists detected
  exact noted.stood (cells_change trace _) stands le

/-- A value read since the listing may be memoized under the listed detector. -/
theorem noted_of_stood {V : Type} {reads : Bytes → Option V} {name : String} {etag : ℕ} {value : V}
    {bytes : Bytes} (lists : Lists (run first).store listing.bucket listing.pkg listing.entries)
    (detected : listing.etag name = some etag)
    (stood : Stood (cells run (listing.place name)) first now (some bytes)) (reading : reads bytes = some value) :
    Noted (cells run (listing.place name)) reads now etag value := by
  obtain ⟨body, stands⟩ := listed_etag lists detected
  obtain ⟨seen, from_, upto, held⟩ := stood
  have issued := Contention.issued_le (cells_change trace (listing.place name)) from_
  exact ⟨seen, bytes, upto, (VersionedCell.etag_lt_issued stands).trans_le issued, held, reading⟩

end Memos

/-! ### Taking and putting -/

section Held
variable {inner rest next : Inner} {bucket : ℕ} {pkg : String} {memo : PackageSidecars}

theorem take_cases (took : take inner bucket pkg = some (memo, rest)) :
    (inner.map.lookup (bucket, pkg) = some memo ∨ memo = .empty) ∧
      ∀ key held, rest.map.lookup key = some held → inner.map.lookup key = some held := by
  unfold take at took
  split at took
  · rename_i found
    obtain ⟨rest', removed, same⟩ := Option.map_eq_some_iff.mp took
    cases same
    exact ⟨.inl found, fun _ _ => TalliedMap.lookup_of_remove removed⟩
  · cases took
    exact ⟨.inr rfl, fun _ _ held => held⟩

theorem put_cases {key : ℕ × String} {held : PackageSidecars} (kept : put inner bucket pkg memo = some next)
    (found : next.map.lookup key = some held) :
    (key = (bucket, pkg) ∧ held = memo) ∨ inner.map.lookup key = some held := by
  unfold put at kept
  split at kept
  · cases kept
    exact .inr found
  · obtain ⟨rest, removed, inserted⟩ := Option.bind_eq_some_iff.mp kept
    obtain mine | older := TalliedMap.lookup_of_insert inserted found
    · exact .inl mine
    · right
      unfold makeRoom at older
      split at older
      · cases older
      · exact TalliedMap.lookup_of_remove removed older

/-- The files that are counted are those that are held, and they stay below the ceiling. -/
structure Counted (inner : Inner) : Prop where
  exact : inner.Exact PackageSidecars.len
  bounded : inner.bodyBytes ≤ maxFiles

theorem Counted.empty : Counted .empty := ⟨.empty _, Nat.zero_le _⟩

/-- A memo can always be taken. -/
theorem Counted.take (counted : Counted inner) (bucket : ℕ) (pkg : String) :
    ∃ memo rest, take inner bucket pkg = some (memo, rest) ∧ Counted rest := by
  obtain ⟨rest, removed, exact, fewer, _⟩ := counted.exact.remove (bucket, pkg)
  unfold SidecarCache.take
  cases inner.map.lookup (bucket, pkg) with
  | none => exact ⟨_, inner, rfl, counted⟩
  | some memo => exact ⟨memo, rest, by simp only [removed, Option.map_some], exact, fewer.trans counted.bounded⟩

theorem Counted.makeRoom (counted : Counted inner) {files : ℕ} (fits : files ≤ maxFiles) :
    (makeRoom inner files).Exact PackageSidecars.len ∧ (makeRoom inner files).bodyBytes + files ≤ maxFiles := by
  unfold SidecarCache.makeRoom
  split
  · exact ⟨.empty _, (Nat.zero_add files).trans_le fits⟩
  · rename_i roomy
    exact ⟨counted.exact, Nat.le_of_not_lt roomy⟩

/-- A memo can always be put. -/
theorem Counted.put (counted : Counted inner) (bucket : ℕ) (pkg : String) (memo : PackageSidecars) :
    ∃ next, put inner bucket pkg memo = some next ∧ Counted next := by
  unfold SidecarCache.put
  split
  · exact ⟨inner, rfl, counted⟩
  · rename_i worth
    have fits : memo.len ≤ maxFiles := by
      by_contra large
      exact worth (Bool.or_eq_true_iff.mpr (.inr (decide_eq_true (Nat.lt_of_not_le large))))
    obtain ⟨rest, removed, exact, fewer, _⟩ := counted.exact.remove (bucket, pkg)
    have left : Counted rest := ⟨exact, fewer.trans counted.bounded⟩
    obtain ⟨exact, room⟩ := left.makeRoom fits
    obtain ⟨next, inserted, exact', _⟩ := exact.insert (bucket, pkg) memo
    rw [removed]
    exact ⟨next, inserted, exact', (TalliedMap.bodyBytes_insert_le inserted).trans room⟩

end Held

/-! ### The load of a package -/

section Load
variable {thread world first : ℕ} {call : Call} {listing : Listing} {memo fresh : PackageSidecars}

theorem stood_at (place : Place) {now : ℕ} (le : first ≤ now) :
    Stood (cells run place) first now (cells run place first).value := ⟨first, le_rfl, le, rfl⟩

theorem Made.none {now : ℕ} {filename : String} : Made codec run listing first now filename none :=
  fun _ same => by cases same

theorem Made.mono {now later : ℕ} {filename : String} {made : Option Sidecar}
    (making : Made codec run listing first now filename made) (le : now ≤ later) :
    Made codec run listing first later filename made := by
  intro sc same
  obtain ⟨authors, bytes, stood, reading⟩ := making sc same
  exact ⟨authors, bytes, stood.widen le_rfl le, reading⟩

theorem Loaded.mono {now later : ℕ} {filename : String} {entry : Option FileMetadata}
    (loaded : Loaded codec run listing first now filename entry) (le : now ≤ later) :
    Loaded codec run listing first later filename entry := by
  obtain ⟨sidecar, metadata, made, stood, stood', making, same⟩ := loaded
  exact ⟨sidecar, metadata, made, stood.widen le_rfl le, stood'.widen le_rfl le, making.mono le, same⟩

theorem keeps_readListedSidecar (place : Place) :
    Keeps codec run thread call world (readListedSidecar codec place) fun now found =>
      ∃ content, Stood (cells run place) world now content ∧ found = content.bind codec.sidecar := by
  refine (keeps_getBytes place).bind fun now le content stood => ?_
  exact keeps_pure fun later beyond => ⟨content, stood.widen le_rfl beyond, rfl⟩

include trace in
theorem keeps_readSidecar (lists : Lists (run first).store listing.bucket listing.pkg listing.entries)
    (le : first ≤ world) (sound : Sound codec run world listing.bucket listing.pkg memo) (filename : String) :
    Keeps codec run thread call world (readSidecar codec listing memo filename) fun now found =>
      ∃ content, Stood (cells run (listing.sidecarPlace filename)) first now content ∧
        found = content.bind codec.sidecar := by
  unfold readSidecar
  split
  · rename_i sc hit
    obtain ⟨number, detected, found⟩ := Listing.known_some hit
    obtain ⟨bytes, stood, reading⟩ := reused trace lists le detected (sound.sidecars _ _ _ found)
    refine keeps_pure fun now le' => ⟨some bytes, stood.widen le_rfl le', ?_⟩
    rw [Option.bind_some, reading]
  · refine (keeps_readListedSidecar _).weaken fun now le' result yields found same => ?_
    obtain ⟨content, stood, rfl⟩ := yields found same
    exact ⟨content, stood.widen le le_rfl, rfl⟩

include trace in
theorem keeps_readCompanion (lists : Lists (run first).store listing.bucket listing.pkg listing.entries)
    (le : first ≤ world) (sound : Sound codec run world listing.bucket listing.pkg memo) (filename : String) :
    Keeps codec run thread call world (readCompanion codec listing memo filename) fun now sha =>
      ∃ content, Stood (cells run (listing.metadataPlace filename)) first now content ∧
        sha = if has listing.names filename .metadata then content.map codec.sha256 else none := by
  unfold readCompanion
  split
  · split
    · rename_i sha hit
      obtain ⟨number, detected, found⟩ := Listing.known_some hit
      obtain ⟨bytes, stood, reading⟩ := reused trace lists le detected (sound.metadata _ _ _ found)
      exact keeps_pure fun now le' => ⟨some bytes, stood.widen le_rfl le', reading.symm⟩
    · refine (keeps_getBytes _).bind fun now le' content stood => ?_
      exact keeps_pure fun later beyond => ⟨content, stood.widen le beyond, rfl⟩
  · exact keeps_pure fun now le' => ⟨_, stood_at _ (le.trans le'), rfl⟩

theorem keeps_retract (place : Place) (fabricated : Bytes) :
    Keeps codec run thread call world (retract place fabricated) fun _ _ => True := by
  refine (keeps_getBytes place).bind fun now le current _ => ?_
  split
  · exact keeps_deleteKeys place
  · exact keeps_pure fun _ _ => trivial

theorem keeps_confirmBackfill (authors : listing.authoring = true) {filename : String} {sc : Sidecar}
    (stood : Stood (cells run (listing.sidecarPlace filename)) first world (some (codec.toVec sc))) :
    Keeps codec run thread call world (confirmBackfill codec listing filename sc) fun now made =>
      Made codec run listing first now filename made := by
  refine (keeps_getBytes _).bind fun now le body _ => ?_
  split
  · refine keeps_pure fun later beyond sc' same => ?_
    cases same
    exact ⟨authors, codec.toVec sc, stood.widen le_rfl (le.trans beyond), .inl rfl⟩
  · exact (keeps_retract _ _).bind fun _ _ _ _ => keeps_pure fun _ _ => .none

theorem keeps_createSidecar (authors : listing.authoring = true) (le : first ≤ world) (filename : String)
    (sc : Sidecar) : Keeps codec run thread call world (createSidecar codec listing filename sc)
      fun now made => Made codec run listing first now filename made := by
  refine (keeps_putIfAbsent _ _).bind fun now le' created stored => ?_
  split
  · rename_i sure
    exact keeps_confirmBackfill authors ((stored sure).widen le le_rfl)
  · refine (keeps_readListedSidecar _).weaken fun later beyond result yields made same sc' found => ?_
    obtain ⟨content, stood, rfl⟩ := yields made same
    obtain ⟨bytes, rfl, reading⟩ := Option.bind_eq_some_iff.mp found
    exact ⟨authors, bytes, stood.widen (le.trans le') le_rfl, .inr reading⟩

theorem keeps_backfillSidecar (authors : listing.authoring = true) (le : first ≤ world) (entry : FileEntry) :
    Keeps codec run thread call world (backfillSidecar codec listing entry) fun now made =>
      Made codec run listing first now entry.name made := by
  refine (keeps_getBytes _).bind fun now le' body _ => ?_
  split
  · exact keeps_pure fun _ _ => .none
  · split
    · exact keeps_bail
    · exact keeps_createSidecar authors (le.trans le') entry.name _

/-- A bare record comes out with what was made for it, any other as it is. -/
theorem keeps_settle (le : first ≤ world) (entry : FileEntry) (known : Option Sidecar) :
    Keeps codec run thread call world (settle codec listing entry known) fun now result =>
      ∃ made, Made codec run listing first now entry.name made ∧
        result = if classifyRecord (listing.record entry.name known) = .bare then made else known := by
  unfold settle
  split
  · rename_i both
    obtain ⟨authors, bare⟩ := Bool.and_eq_true_iff.mp both
    refine (keeps_backfillSidecar authors le entry).weaken fun now le' result yields made same => ?_
    exact ⟨made, yields made same, (if_pos (beq_iff_eq.mp bare)).symm⟩
  · refine keeps_pure fun now le' => ⟨none, .none, ?_⟩
    split
    · rename_i bare
      cases known with
      | none => rfl
      | some sc => exact absurd bare (VerifyIndex.classify_some_ne_bare _ _ _)
    · rfl

include trace in
theorem keeps_indexFile (lists : Lists (run first).store listing.bucket listing.pkg listing.entries)
    (le : first ≤ world) (sound : Sound codec run world listing.bucket listing.pkg memo)
    (filling : Sound codec run world listing.bucket listing.pkg fresh) (filename : String) (sc : Sidecar) :
    Keeps codec run thread call world (indexFile codec listing memo fresh filename sc) fun now loaded =>
      ∃ metadata, Stood (cells run (listing.metadataPlace filename)) first now metadata ∧
        loaded.1 = shown codec listing filename metadata sc ∧
        Sound codec run now listing.bucket listing.pkg loaded.2 := by
  unfold indexFile
  split
  · rename_i shows
    refine (keeps_readCompanion trace lists le sound filename).bind fun now le' sha told => ?_
    obtain ⟨metadata, stood, rfl⟩ := told
    refine keeps_pure fun later beyond => ⟨metadata, stood.widen le_rfl beyond, ?_, ?_⟩
    · rw [shown, if_pos shows]
    · refine (filling.mono (le'.trans beyond)).noteMetadata fun number digest detected found => ?_
      split at found
      · obtain ⟨bytes, rfl, rfl⟩ := Option.map_eq_some_iff.mp found
        exact noted_of_stood trace lists detected (stood.widen le_rfl beyond) rfl
      · cases found
  · rename_i hides
    refine keeps_pure fun now le' => ⟨_, stood_at _ (le.trans le'), ?_, filling.mono le'⟩
    rw [shown, if_neg hides]

include trace in
theorem keeps_settleFile (lists : Lists (run first).store listing.bucket listing.pkg listing.entries)
    (le : first ≤ world) (sound : Sound codec run world listing.bucket listing.pkg memo)
    (filling : Sound codec run world listing.bucket listing.pkg fresh) (entry : FileEntry)
    (known : Option Sidecar) :
    Keeps codec run thread call world (settleFile codec listing memo fresh entry known) fun now loaded =>
      ∃ metadata made, Stood (cells run (listing.metadataPlace entry.name)) first now metadata ∧
        Made codec run listing first now entry.name made ∧
        loaded.1 = settled codec listing entry.name metadata made known ∧
        Sound codec run now listing.bucket listing.pkg loaded.2 := by
  refine (keeps_settle le entry known).bind fun now le' result told => ?_
  obtain ⟨made, making, same⟩ := told
  cases result with
  | none =>
      refine keeps_pure fun later beyond => ⟨_, made, stood_at _ (le.trans (le'.trans beyond)),
        making.mono beyond, ?_, filling.mono (le'.trans beyond)⟩
      rw [settled, ← same]
      rfl
  | some sc =>
      refine (keeps_indexFile trace lists (le.trans le') (sound.mono le') (filling.mono le') entry.name
        sc).weaken fun later beyond result yields loaded ok => ?_
      obtain ⟨metadata, stood, shows, sound'⟩ := yields loaded ok
      refine ⟨metadata, made, stood, making.mono beyond, ?_, sound'⟩
      rw [settled, ← same]
      exact shows

include trace in
theorem keeps_loadFileMetadata (lists : Lists (run first).store listing.bucket listing.pkg listing.entries)
    (le : first ≤ world) (sound : Sound codec run world listing.bucket listing.pkg memo)
    (filling : Sound codec run world listing.bucket listing.pkg fresh) (entry : FileEntry) :
    Keeps codec run thread call world (loadFileMetadata codec listing memo fresh entry) fun now loaded =>
      Loaded codec run listing first now entry.name loaded.1 ∧
        Sound codec run now listing.bucket listing.pkg loaded.2 := by
  unfold loadFileMetadata
  split
  · rename_i reads
    refine (keeps_readSidecar trace lists le sound entry.name).bind fun now le' found told => ?_
    obtain ⟨content, stood, same⟩ := told
    cases found with
    | none =>
        refine keeps_pure fun later beyond => ⟨⟨content, _, none, stood.widen le_rfl beyond,
          stood_at _ (le.trans (le'.trans beyond)), .none, ?_⟩, filling.mono (le'.trans beyond)⟩
        rw [entryOf, if_pos reads, ← same]
        rfl
    | some sc =>
        have filled : Sound codec run now listing.bucket listing.pkg
            (fresh.noteSidecar entry.name (listing.etag (entry.name ++ sidecarSuffix)) sc) := by
          refine (filling.mono le').noteSidecar fun number detected => ?_
          obtain ⟨bytes, rfl, reading⟩ := Option.bind_eq_some_iff.mp same.symm
          exact noted_of_stood trace lists detected stood reading
        refine (keeps_settleFile trace lists (le.trans le') (sound.mono le') filled entry
          (some sc)).weaken fun later beyond result yields loaded ok => ?_
        obtain ⟨metadata, made, stood', making, outcome, sound'⟩ := yields loaded ok
        refine ⟨⟨content, metadata, made, stood.widen le_rfl beyond, stood', making, ?_⟩, sound'⟩
        rw [entryOf, if_pos reads, ← same]
        exact outcome
  · rename_i fenced
    refine (keeps_settleFile trace lists le sound filling entry none).weaken
      fun later beyond result yields loaded ok => ?_
    obtain ⟨metadata, made, stood', making, outcome, sound'⟩ := yields loaded ok
    refine ⟨⟨_, metadata, made, stood_at _ (le.trans beyond), stood', making, ?_⟩, sound'⟩
    rw [entryOf, if_neg fenced]
    exact outcome

include trace in
theorem keeps_loadFiles (lists : Lists (run first).store listing.bucket listing.pkg listing.entries)
    (le : first ≤ world) (sound : Sound codec run world listing.bucket listing.pkg memo)
    (filling : Sound codec run world listing.bucket listing.pkg fresh) (artifacts : List FileEntry) :
    Keeps codec run thread call world (loadFiles codec listing memo artifacts fresh) fun now loaded =>
      ∃ entries, List.Forall₂ (fun artifact => Loaded codec run listing first now artifact.name)
        artifacts entries ∧ loaded.1 = entries.reduceOption ∧
        Sound codec run now listing.bucket listing.pkg loaded.2 := by
  induction artifacts generalizing world fresh with
  | nil => exact keeps_pure fun now le' => ⟨[], .nil, rfl, filling.mono le'⟩
  | cons artifact artifacts ih =>
      refine (keeps_loadFileMetadata trace lists le sound filling artifact).bind fun now le' loaded told => ?_
      obtain ⟨one, filled⟩ := told
      refine (ih (le.trans le') (sound.mono le') filled).bind fun now' le'' rest told' => ?_
      obtain ⟨entries, each, listed, filled'⟩ := told'
      refine keeps_pure fun later beyond => ⟨loaded.1 :: entries,
        .cons (one.mono (le''.trans beyond)) (each.imp fun _ _ one => one.mono beyond), ?_, filled'.mono beyond⟩
      rw [listed]
      cases loaded.1 with
      | none => rfl
      | some entry => rfl

theorem keeps_settledEntries (bucket : ℕ) (pkg : String) (authoring : Bool) :
    Keeps codec run thread call world (settledEntries bucket pkg authoring) fun now entries =>
      ∃ first, world ≤ first ∧ first ≤ now ∧ Lists (run first).store bucket pkg entries := by
  refine (keeps_listDirEntries bucket pkg).bind fun now le entries told => ?_
  obtain ⟨first, from_, upto, lists⟩ := told
  split
  · refine (keeps_finishInterruptedSupersedes bucket pkg _).bind fun now' le' _ _ => ?_
    refine (keeps_listDirEntries bucket pkg).weaken fun later beyond result yields entries' same => ?_
    obtain ⟨first', from', upto', lists'⟩ := yields entries' same
    exact ⟨first', (le.trans le').trans from', upto', lists'⟩
  · exact keeps_pure fun later beyond => ⟨first, from_, upto.trans beyond, lists⟩

theorem keeps_takeMemo (bucket : ℕ) (pkg : String) : Keeps codec run thread call world (takeMemo bucket pkg)
    fun now memo => Sound codec run now bucket pkg memo := by
  refine ThreadPool.yield_call (fun _ _ => trivial) fun instant answer memo le performed holds told now less => ?_
  cases told
  obtain ⟨_, _, performs, _⟩ := performed
  generalize (run (instant + 1)).store = after at performs
  cases performs with
  | taken took =>
      obtain ⟨held | rfl, _⟩ := take_cases took
      · exact (holds instant (Nat.le_succ instant) bucket pkg answer held).mono less.le
      · exact .empty

include trace in
theorem keeps_loadListing (lists : Lists (run first).store listing.bucket listing.pkg listing.entries)
    (le : first ≤ world) : Keeps codec run thread call world (loadListing codec listing) fun now result =>
      ∃ entries, List.Forall₂ (fun artifact => Loaded codec run listing first now artifact.name)
        listing.artifacts entries ∧
        result = (entries.reduceOption, listing.artifacts.map fun entry => (entry.name, entry.size)) := by
  refine (keeps_takeMemo listing.bucket listing.pkg).bind fun now le' memo sound => ?_
  refine (keeps_loadFiles trace lists (le.trans le') sound .empty listing.artifacts).bind
    fun now' _ loaded told => ?_
  obtain ⟨entries, each, listed, filled⟩ := told
  refine (keeps_putMemo _ _ fun later beyond => filled.mono beyond).bind fun later beyond _ _ => ?_
  refine keeps_pure fun last le'' => ⟨entries, each.imp fun _ _ one => one.mono (beyond.trans le''), ?_⟩
  rw [listed]

include trace in
theorem keeps_listArtifactsForClaim (start : ℕ) : Keeps codec run thread call start
    (listArtifactsForClaim codec call) fun now result => AsStored codec run call start now result := by
  refine (keeps_readOriginClaim call.bucket call.pkg).bind fun now le claim told => ?_
  obtain ⟨instant, from_, upto, rfl⟩ := told
  refine (keeps_settledEntries call.bucket call.pkg call.authoring).bind fun now' le' entries told => ?_
  obtain ⟨first, from', upto', lists⟩ := told
  refine (keeps_loadListing trace lists upto').weaken fun later beyond result yields listed same => ?_
  obtain ⟨entries', each, rfl⟩ := yields listed same
  exact ⟨_, first, entries', ⟨le.trans from', rfl, rfl, rfl, lists, instant, from_, upto.trans from', rfl⟩,
    upto'.trans beyond, each, rfl⟩

end Load

/-! ### Whole runs -/

section Runs
variable {now : ℕ}
include trace

/-- What one instant does to the memo. -/
theorem memo_step (now : ℕ) :
    (run (now + 1)).store.memo = (run now).store.memo ∨
    (∃ bucket pkg memo, take (run now).store.memo bucket pkg = some (memo, (run (now + 1)).store.memo)) ∨
    ∃ thread call bucket pkg memo,
      Performed (rebuilds codec) run thread now call (.put bucket pkg memo) () ∧
        put (run now).store.memo bucket pkg memo = some (run (now + 1)).store.memo := by
  obtain ⟨thread, call, op, answer, performed⟩ | drifts | same := store_cases trace now
  · have ⟨_, _, performs, _⟩ := performed
    generalize (run (now + 1)).store = after at performs
    cases performs with
    | taken took => exact .inr (.inl ⟨_, _, _, took⟩)
    | put kept => exact .inr (.inr ⟨thread, call, _, _, _, performed, kept⟩)
    | superseded _ _ _ _ drifts => exact .inl drifts.memo
    | claimRead | claimUnread | listed | unlisted | got | unread | created | occupied | createFailed
      | createLost | deleted | deleteFailed | deleteLost => exact .inl rfl
  · exact .inl drifts.memo
  · exact .inl (congrArg Store.memo same)

/-- A memo that is there was there before, or has just been put. -/
theorem memo_cases {bucket : ℕ} {pkg : String} {memo : PackageSidecars}
    (found : (run (now + 1)).store.memo.map.lookup (bucket, pkg) = some memo) :
    (run now).store.memo.map.lookup (bucket, pkg) = some memo ∨
      ∃ thread call, Performed (rebuilds codec) run thread now call (.put bucket pkg memo) () := by
  obtain same | ⟨_, _, _, took⟩ | ⟨thread, call, _, _, _, performed, kept⟩ := memo_step trace now
  · rw [same] at found
    exact .inl found
  · exact .inl ((take_cases took).2 _ _ found)
  · obtain ⟨same, rfl⟩ | older := put_cases kept found
    · cases same
      exact .inr ⟨thread, call, performed⟩
    · exact .inl older

theorem holds_succ (holds : Holds codec run now)
    (permitted : ∀ thread call op answer, Performed (rebuilds codec) run thread now call op answer →
      ∃ start, Underway (rebuilds codec) run thread call start now ∧
        (contract codec run).permits thread call start now op) : Holds codec run (now + 1) := by
  intro instant le bucket pkg memo found
  obtain before | rfl := Nat.le_succ_iff.mp le
  · exact holds instant before bucket pkg memo found
  · obtain older | ⟨thread, call, performed⟩ := memo_cases trace found
    · exact (holds now le_rfl bucket pkg memo older).mono (Nat.le_succ now)
    · obtain ⟨_, _, sound⟩ := permitted thread call _ _ performed
      exact Sound.mono sound (Nat.le_succ now)

/-- Whatever the memo held, a rebuild that succeeds shows, of every artifact of a listing it
took itself, what the rebuild without a memo derives from a sidecar and a companion that stood
in the bucket since that listing. -/
theorem listing_as_stored (idle : ∀ thread, (run 0).threads thread = none)
    (cold : (run 0).store.memo = .empty)
    (finished : (run now).threads thread = some (call, .done (.ok result))) :
    ∃ start, Underway (rebuilds codec) run thread call start now ∧
      AsStored codec run call start now result := by
  have initial : Holds codec run 0 := by
    intro instant le bucket pkg memo found
    obtain rfl := Nat.le_zero.mp le
    rw [cold] at found
    cases found
  obtain ⟨_, lawful⟩ := trace.lawful idle (contract codec run) initial
    (fun now holds => holds_succ trace holds)
    (fun thread start call _ _ => keeps_listArtifactsForClaim trace start) now
  obtain ⟨start, underway, kept⟩ := lawful thread call _ finished
  exact ⟨start, underway, kept now le_rfl result rfl⟩

theorem counted_succ (counted : Counted (run now).store.memo) : Counted (run (now + 1)).store.memo := by
  obtain same | ⟨bucket, pkg, _, took⟩ | ⟨_, _, bucket, pkg, memo, _, kept⟩ := memo_step trace now
  · rw [same]
    exact counted
  · obtain ⟨_, _, took', left⟩ := counted.take bucket pkg
    cases took.symm.trans took'
    exact left
  · obtain ⟨_, kept', full⟩ := counted.put bucket pkg memo
    cases kept.symm.trans kept'
    exact full

/-- The memo of a node never holds more files than the ceiling, counts them exactly, and
answers every take and every put. -/
theorem memo_bounded (cold : (run 0).store.memo = .empty) (now : ℕ) :
    (run now).store.memo.bodyBytes = total PackageSidecars.len (run now).store.memo.map ∧
      total PackageSidecars.len (run now).store.memo.map ≤ maxFiles ∧
      (∀ bucket pkg, ∃ memo rest, take (run now).store.memo bucket pkg = some (memo, rest)) ∧
      ∀ bucket pkg memo, ∃ next, put (run now).store.memo bucket pkg memo = some next := by
  have counted : Counted (run now).store.memo := by
    induction now with
    | zero =>
        rw [cold]
        exact .empty
    | succ now ih => exact counted_succ trace ih
  refine ⟨counted.exact, counted.exact ▸ counted.bounded, fun bucket pkg => ?_, fun bucket pkg memo => ?_⟩
  · obtain ⟨memo, rest, took, _⟩ := counted.take bucket pkg
    exact ⟨memo, rest, took⟩
  · obtain ⟨next, kept, _⟩ := counted.put bucket pkg memo
    exact ⟨next, kept⟩

end Runs

/-! ### What a rebuild reads -/

section Reads
variable {listing : Listing} {memo fresh : PackageSidecars}

/-- A read of what the memo does not know under the listed detector. -/
inductive Moved (listing : Listing) (memo : PackageSidecars) : Op → Prop where
  | sidecar (filename : String) (reads : listing.reads filename = true)
      (unknown : Listing.known (listing.etag (filename ++ sidecarSuffix)) filename memo.sidecars = none) :
      Moved listing memo (.getBytes (listing.sidecarPlace filename))
  | metadata (filename : String) (companion : has listing.names filename .metadata = true)
      (unknown : Listing.known (listing.etag (filename ++ suffixText .metadata)) filename memo.metadata = none) :
      Moved listing memo (.getBytes (listing.metadataPlace filename))

variable (listing memo) in
/-- Whatever it is told, the program makes no operation but such reads. -/
abbrev ReadsMoved {α : Type} (program : RebuildM α) : Prop :=
  Program.Issues (Moved listing memo) (fun _ => True) program

theorem ReadsMoved.bind {α β : Type} {program : RebuildM α} {rest : α → RebuildM β}
    (first : ReadsMoved listing memo program) (second : ∀ value, ReadsMoved listing memo (rest value)) :
    ReadsMoved listing memo (program >>= rest) := Program.Issues.bind first fun value _ => second value

theorem readsMoved_pure {α : Type} (value : α) : ReadsMoved listing memo (pure value : RebuildM α) := trivial

theorem readsMoved_getBytes {place : Place} (moved : Moved listing memo (.getBytes place)) :
    ReadsMoved listing memo (getBytes place) := by
  refine ⟨moved, fun answer => ?_⟩
  cases answer with
  | ok content => trivial
  | error text => trivial

theorem readsMoved_readSidecar {filename : String} (reads : listing.reads filename = true) :
    ReadsMoved listing memo (readSidecar codec listing memo filename) := by
  unfold readSidecar
  split
  · exact readsMoved_pure _
  · rename_i unknown
    exact (readsMoved_getBytes (.sidecar filename reads unknown)).bind fun _ => readsMoved_pure _

theorem readsMoved_readCompanion (filename : String) :
    ReadsMoved listing memo (readCompanion codec listing memo filename) := by
  unfold readCompanion
  split
  · rename_i companion
    split
    · exact readsMoved_pure _
    · rename_i unknown
      exact (readsMoved_getBytes (.metadata filename companion unknown)).bind fun _ => readsMoved_pure _
  · exact readsMoved_pure _

theorem readsMoved_settle (reader : listing.authoring = false) (entry : FileEntry) (known : Option Sidecar) :
    ReadsMoved listing memo (settle codec listing entry known) := by
  rw [settle, reader, Bool.false_and]
  exact readsMoved_pure _

theorem readsMoved_settleFile (reader : listing.authoring = false) (entry : FileEntry) (known : Option Sidecar) :
    ReadsMoved listing memo (settleFile codec listing memo fresh entry known) := by
  refine (readsMoved_settle reader entry known).bind fun sidecar => ?_
  cases sidecar with
  | none => exact readsMoved_pure _
  | some sc =>
      change ReadsMoved listing memo (indexFile codec listing memo fresh entry.name sc)
      unfold indexFile
      split
      · exact (readsMoved_readCompanion entry.name).bind fun _ => readsMoved_pure _
      · exact readsMoved_pure _

theorem readsMoved_loadFileMetadata (reader : listing.authoring = false) (entry : FileEntry) :
    ReadsMoved listing memo (loadFileMetadata codec listing memo fresh entry) := by
  unfold loadFileMetadata
  split
  · rename_i reads
    refine (readsMoved_readSidecar reads).bind fun sidecar => ?_
    cases sidecar with
    | none => exact readsMoved_pure _
    | some sc => exact readsMoved_settleFile reader entry (some sc)
  · exact readsMoved_settleFile reader entry none

/-- A listing that authors nothing writes nothing, and reads nothing whose detector stands. -/
theorem loadFiles_readsMoved (reader : listing.authoring = false) (artifacts : List FileEntry) :
    ReadsMoved listing memo (loadFiles codec listing memo artifacts fresh) := by
  induction artifacts generalizing fresh with
  | nil => exact readsMoved_pure _
  | cons entry entries ih =>
      exact (readsMoved_loadFileMetadata reader entry).bind fun loaded => ih.bind fun _ => readsMoved_pure _

/-- Once told the memo, a listing that authors nothing reads only what the memo does not know,
and its one write is of the memo. -/
theorem loadListing_reads_moved (codec : Codec) (listing : Listing) (reader : listing.authoring = false) :
    ∃ next, loadListing codec listing = .call (.take listing.bucket listing.pkg) next ∧
      ∀ memo, Program.Issues
        (fun op => Moved listing memo op ∨ ∃ fresh, op = .put listing.bucket listing.pkg fresh)
        (fun _ => True) (next memo) := by
  refine ⟨_, rfl, fun memo => ?_⟩
  have loads : ReadsMoved listing memo (loadFiles codec listing memo listing.artifacts .empty) :=
    loadFiles_readsMoved reader listing.artifacts
  refine (loads.mono fun op moved => .inl moved).bind fun loaded _ => ?_
  have puts : Program.Issues (fun op => Moved listing memo op ∨ ∃ fresh, op = .put listing.bucket listing.pkg fresh)
      (fun _ => True) (putMemo listing.bucket listing.pkg loaded.2) := ⟨.inr ⟨_, rfl⟩, fun _ => trivial⟩
  exact puts.bind fun _ _ => trivial

end Reads

/-! ### A wheel rebuilt twice -/

/-- Parsers that know one sidecar. -/
def plainCodec : Codec where
  sidecar := fun _ => some ⟨"7a", 1, "1", "", none, none, .flag false, some "private", 0, 0, false, none⟩
  status := fun _ => none
  claim := fun _ => none
  sha256 := fun _ => ""
  pep503ProjectHtml := fun _ _ _ => []
  pep691ProjectJson := fun _ _ _ => []
  inferVersion := fun _ => none
  lastModified := fun _ => none
  toVec := fun _ => []

abbrev WheelConfig := ThreadPool.Config Store Call Op Op.Ans String Listed

/-- A bucket of one wheel with its sidecar, and a node that has rebuilt nothing. -/
def wheelConfig : WheelConfig where
  store :=
    { objects := fun place =>
        if place = ⟨0, "pkg", "pkg-1.whl"⟩ ∨ place = ⟨0, "pkg", "pkg-1.whl.meta.json"⟩ then
          VersionedCell.empty.write [7] else .empty
      claims := fun _ _ => none
      memo := .empty }
  threads := fun _ => none

def wheelEntries : List FileEntry := [⟨"pkg-1.whl", 1, 0, some 0⟩, ⟨"pkg-1.whl.meta.json", 1, 0, some 0⟩]

theorem wheel_lists {store : Store} (same : store.objects = wheelConfig.store.objects) :
    Lists store 0 "pkg" wheelEntries := by
  constructor
  · intro name
    rw [same]
    change _ ↔ VersionedCell.get (if _ then _ else _) ≠ none
    by_cases wheel : name = "pkg-1.whl"
    · subst wheel
      simp [wheelEntries, VersionedCell.get, VersionedCell.write]
    · by_cases sidecar : name = "pkg-1.whl.meta.json"
      · subst sidecar
        simp [wheelEntries, VersionedCell.get, VersionedCell.write]
      · simp [wheelEntries, wheel, sidecar, VersionedCell.get, VersionedCell.empty]
  · intro entry listed
    rw [same]
    simp only [wheelEntries, List.mem_cons, List.not_mem_nil, or_false] at listed
    obtain rfl | rfl := listed
    · exact ⟨[7], 0, by rfl, rfl, fun _ told => (Option.some.inj told).symm⟩
    · exact ⟨[7], 0, by rfl, rfl, fun _ told => (Option.some.inj told).symm⟩

def wheelCall : Call := ⟨0, "pkg", false⟩

/-- The second rebuild of the wheel has ended. -/
def RebuiltTwice (config : WheelConfig) : Prop :=
  ∃ entry, config.threads 1 = some (wheelCall, .done (.ok ([entry], [("pkg-1.whl", 1)])))

/-- The second rebuild takes the memo of the first, and reads no object. -/
theorem wheelConfig_rebuilds : Leads (rebuilds plainCodec) RebuiltTwice wheelConfig := by
  refine .start 0 wheelCall rfl ?_
  refine .perform 0 rfl (.claimRead 0 "pkg") ?_
  refine .perform 0 rfl (.listed (wheel_lists rfl)) ?_
  refine .perform 0 rfl (.taken rfl) ?_
  refine .perform 0 rfl (.got ⟨0, "pkg", "pkg-1.whl.meta.json"⟩) ?_
  refine .perform 0 rfl (.put rfl) ?_
  refine .start 1 wheelCall rfl ?_
  refine .perform 1 rfl (.claimRead 0 "pkg") ?_
  refine .perform 1 rfl (.listed (wheel_lists rfl)) ?_
  refine .perform 1 rfl (.taken rfl) ?_
  refine .perform 1 rfl (.put rfl) ?_
  exact ⟨_, .refl, _, rfl⟩

theorem wheel_as_stored : ∃ run start now entry, Trace (rebuilds plainCodec) run ∧
    Underway (rebuilds plainCodec) run 1 wheelCall start now ∧
    AsStored plainCodec run wheelCall start now ([entry], [("pkg-1.whl", 1)]) := by
  obtain ⟨config, reaches, entry, finished⟩ := wheelConfig_rebuilds
  obtain ⟨run, trace, starts, now, rfl⟩ := ThreadPool.trace_of_reaches reaches
  have idle : ∀ thread, (run 0).threads thread = none := by rw [starts]; exact fun _ => rfl
  have cold : (run 0).store.memo = .empty := by rw [starts]; rfl
  obtain ⟨start, underway, stored⟩ := listing_as_stored trace idle cold finished
  exact ⟨run, start, now, entry, trace, underway, stored⟩

theorem wheel_bounded : ∃ run now, Trace (rebuilds plainCodec) run ∧ RebuiltTwice (run now) ∧
    total PackageSidecars.len (run now).store.memo.map ≤ maxFiles := by
  obtain ⟨config, reaches, finished⟩ := wheelConfig_rebuilds
  obtain ⟨run, trace, starts, now, rfl⟩ := ThreadPool.trace_of_reaches reaches
  have cold : (run 0).store.memo = .empty := by rw [starts]; rfl
  exact ⟨run, now, trace, finished, (memo_bounded trace cold now).2.1⟩

def wheelListing : Listing := ⟨0, "pkg", wheelEntries, none, false⟩

/-- What the first rebuild of the wheel has left. -/
def wheelMemo : PackageSidecars :=
  PackageSidecars.empty.noteSidecar "pkg-1.whl" (some 0)
    ⟨"7a", 1, "1", "", none, none, .flag false, some "private", 0, 0, false, none⟩

theorem wheel_unmoved (op : Op) : ¬Moved wheelListing wheelMemo op := by
  have named {suffix filename : String} (listed : wheelListing.names.contains (filename ++ suffix) = true) :
      stripSuffix suffix "pkg-1.whl" = some filename ∨ stripSuffix suffix "pkg-1.whl.meta.json" = some filename := by
    have names : filename ++ suffix ∈ ["pkg-1.whl", "pkg-1.whl.meta.json"] := by
      simpa [wheelListing, Listing.names, wheelEntries] using listed
    simp only [List.mem_cons, List.not_mem_nil, or_false] at names
    obtain same | same := names
    · exact .inl (same ▸ stripSuffix_append filename suffix)
    · exact .inr (same ▸ stripSuffix_append filename suffix)
  rintro (⟨filename, reads, unknown⟩ | ⟨filename, companion, _⟩)
  · rw [Listing.reads, Bool.and_eq_true] at reads
    obtain none_ | same := named reads.1
    · rw [show stripSuffix sidecarSuffix "pkg-1.whl" = none by decide] at none_
      cases none_
    · rw [show stripSuffix sidecarSuffix "pkg-1.whl.meta.json" = some "pkg-1.whl" by decide] at same
      obtain rfl := Option.some.inj same
      exact absurd unknown (by decide)
  · obtain none_ | none_ := named companion
    · rw [show stripSuffix (suffixText .metadata) "pkg-1.whl" = none by decide] at none_
      cases none_
    · rw [show stripSuffix (suffixText .metadata) "pkg-1.whl.meta.json" = none by decide] at none_
      cases none_

/-- Under that memo the wheel is listed without a read. -/
theorem wheel_reads_moved : ∃ next,
    loadListing plainCodec wheelListing = .call (.take 0 "pkg") next ∧
      Program.Issues (fun op => ∃ fresh, op = .put 0 "pkg" fresh) (fun _ => True) (next wheelMemo) := by
  obtain ⟨next, starts, issues⟩ := loadListing_reads_moved plainCodec wheelListing rfl
  exact ⟨next, starts, (issues wheelMemo).mono fun op allowed => allowed.resolve_left (wheel_unmoved op)⟩

end Pypiron.SidecarCache
