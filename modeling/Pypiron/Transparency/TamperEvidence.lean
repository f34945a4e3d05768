import Pypiron.Transparency.Verify

/-! What an accepted verification says about a fleet whose contents are arbitrary.
The digest is assumed to have no collisions, and nothing else. -/
namespace Pypiron.Transparency.VerifyChain
variable {Bytes : Type} (reader : Reader Bytes)

section Chains

/-- Every link is what its bytes parse to. -/
def Parsed (links : List (StoredLink Bytes)) : Prop :=
  ∀ entry ∈ links, reader.parseLink entry.bytes = .ok entry.link

/-- How a link follows the one before it. -/
def Follows (previous : Option (StoredLink Bytes)) (entry : StoredLink Bytes) : Prop :=
  match previous with
  | none => entry.link.prevSha256 = "" ∧ entry.seq = 0
  | some previous => entry.seq = previous.seq + 1 ∧
      entry.link.prevSha256 = reader.sha256Hex previous.bytes

/-- A gapless, hash-valid chain after `previous`. -/
def Linked : Option (StoredLink Bytes) → List (StoredLink Bytes) → Prop
  | _, [] => True
  | previous, entry :: rest => Follows reader previous entry ∧ Linked (some entry) rest

theorem checkFirst_nil {entry : StoredLink Bytes} (clean : checkFirst entry = []) :
    Follows reader none entry := by
  rw [checkFirst, List.append_eq_nil_iff] at clean
  refine ⟨?_, ?_⟩
  · by_contra named
    have fails : ¬entry.link.prevSha256.isEmpty := by
      rw [String.isEmpty_iff]
      exact named
    rw [if_pos fails] at clean
    cases clean.1
  · by_contra late
    rw [if_pos late] at clean
    cases clean.2

theorem checkNext_nil {previous entry : StoredLink Bytes}
    (clean : checkNext reader previous entry = []) : Follows reader (some previous) entry := by
  rw [checkNext, List.append_eq_nil_iff] at clean
  refine ⟨?_, ?_⟩
  · by_contra gap
    rw [if_pos gap] at clean
    cases clean.1
  · by_contra broken
    rw [if_pos broken] at clean
    cases clean.2

theorem checkLinks_nil {previous : Option (StoredLink Bytes)} {links : List (StoredLink Bytes)}
    (clean : checkLinks reader previous links = []) : Linked reader previous links := by
  induction links generalizing previous with
  | nil => trivial
  | cons entry rest ih =>
      unfold checkLinks at clean
      rw [List.append_eq_nil_iff, List.append_eq_nil_iff] at clean
      obtain ⟨⟨-, first⟩, rest⟩ := clean
      refine ⟨?_, ih rest⟩
      cases previous with
      | none => exact checkFirst_nil reader first
      | some previous => exact checkNext_nil reader first

variable {reader}

/-- The seq of a link is its position. -/
theorem Linked.seq_eq {previous : Option (StoredLink Bytes)} {links : List (StoredLink Bytes)}
    (linked : Linked reader previous links) {index : ℕ} {entry : StoredLink Bytes}
    (at_ : links[index]? = some entry) :
    entry.seq = (previous.elim 0 fun previous => previous.seq + 1) + index := by
  induction links generalizing previous index with
  | nil => cases at_
  | cons head rest ih =>
      obtain ⟨follows, linked⟩ := linked
      have first : head.seq = previous.elim 0 fun previous => previous.seq + 1 := by
        cases previous with
        | none => exact follows.2
        | some previous => exact follows.1
      cases index with
      | zero =>
          cases at_
          exact first
      | succ index =>
          have next := ih linked at_
          rw [Option.elim_some, first] at next
          omega

theorem Linked.position {links : List (StoredLink Bytes)} (linked : Linked reader none links)
    {entry : StoredLink Bytes} (member : entry ∈ links) : links[entry.seq]? = some entry := by
  obtain ⟨index, at_⟩ := List.mem_iff_getElem?.mp member
  have same := linked.seq_eq at_
  rw [Option.elim_none, Nat.zero_add] at same
  rw [same]
  exact at_

/-- Each link names the exact bytes of the one before it. -/
theorem Linked.names_previous {previous : Option (StoredLink Bytes)}
    {links : List (StoredLink Bytes)} (linked : Linked reader previous links) {index : ℕ}
    {before entry : StoredLink Bytes} (at_ : links[index]? = some before)
    (next : links[index + 1]? = some entry) :
    entry.link.prevSha256 = reader.sha256Hex before.bytes := by
  induction links generalizing previous index with
  | nil => cases at_
  | cons head rest ih =>
      cases index with
      | zero =>
          cases at_
          cases rest with
          | nil => cases next
          | cons second rest =>
              cases next
              exact linked.2.1.2
      | succ index => exact ih linked.2 at_ next

/-- Two parsed chains with the same bytes at one position agree up to it. -/
theorem Linked.take_eq (collisionFree : Function.Injective reader.sha256Hex)
    {xs ys : List (StoredLink Bytes)} (linkedX : Linked reader none xs)
    (linkedY : Linked reader none ys) (parsedX : Parsed reader xs) (parsedY : Parsed reader ys)
    {index : ℕ} {x y : StoredLink Bytes} (atX : xs[index]? = some x) (atY : ys[index]? = some y)
    (same : x.bytes = y.bytes) : xs.take (index + 1) = ys.take (index + 1) := by
  induction index generalizing x y with
  | zero =>
      have equal := entry_eq atX atY same
      rw [List.take_add_one, List.take_add_one, atX, atY, equal]
      rfl
  | succ index ih =>
      have equal := entry_eq atX atY same
      have insideX := (List.getElem?_eq_some_iff.mp atX).1
      have insideY := (List.getElem?_eq_some_iff.mp atY).1
      have beforeX := List.getElem?_eq_getElem (Nat.lt_of_succ_lt insideX)
      have beforeY := List.getElem?_eq_getElem (Nat.lt_of_succ_lt insideY)
      have named := linkedX.names_previous beforeX atX
      rw [equal, linkedY.names_previous beforeY atY] at named
      have earlier := ih beforeX beforeY (collisionFree named).symm
      rw [List.take_add_one, earlier, atX, equal, ← atY, ← List.take_add_one]
where
  entry_eq {index : ℕ} {x y : StoredLink Bytes} (atX : xs[index]? = some x)
      (atY : ys[index]? = some y) (same : x.bytes = y.bytes) : x = y := by
    have seqX := linkedX.seq_eq atX
    have seqY := linkedY.seq_eq atY
    have linkX := parsedX x (List.mem_of_getElem? atX)
    rw [same, parsedY y (List.mem_of_getElem? atY)] at linkX
    cases x
    cases y
    cases same
    cases linkX
    cases seqX.trans seqY.symm
    rfl

end Chains
section Commitments

/-- A file's commitment: the seq it was made at, the package, the file, its sha. -/
def commitments (links : List (StoredLink Bytes)) : List (ℕ × String × String × String) :=
  links.flatMap fun entry => entry.link.packages.flatMap fun (pkg, files) =>
    files.map fun (filename, sha) => (entry.seq, pkg, filename, sha)

def Committed (links : List (StoredLink Bytes)) (pkg filename sha : String) : Prop :=
  ∃ seq, (seq, pkg, filename, sha) ∈ commitments links

def recordCommitment (state : History × List FingerprintChange)
    (commitment : ℕ × String × String × String) : History × List FingerprintChange :=
  changesOfFile commitment.1 commitment.2.1 state commitment.2.2

theorem inChainShaChanges_eq (links : List (StoredLink Bytes)) :
    inChainShaChanges links = ((commitments links).foldl recordCommitment ([], [])).2 := by
  simp only [inChainShaChanges, commitments, List.foldl_flatMap, List.foldl_map, recordCommitment]

theorem recordCommitment_changes (state : History × List FingerprintChange)
    (commitment : ℕ × String × String × String) :
    state.2 <+: (recordCommitment state commitment).2 := List.prefix_append ..

theorem changes_grow (commitments : List (ℕ × String × String × String))
    (state : History × List FingerprintChange) :
    state.2 <+: (commitments.foldl recordCommitment state).2 := by
  induction commitments generalizing state with
  | nil => exact List.prefix_rfl
  | cons commitment rest ih => exact (recordCommitment_changes state commitment).trans (ih _)

/-- Without a finding, every commitment repeats the sha the history holds, and any
two commitments of one file name one sha. -/
theorem single_sha {commitments : List (ℕ × String × String × String)} {history : History}
    {changes : List FingerprintChange}
    (none_ : (commitments.foldl recordCommitment (history, changes)).2 = []) :
    (∀ seq pkg filename sha old from_, (seq, pkg, filename, sha) ∈ commitments →
      history.lookup (pkg, filename) = some (old, from_) → old = sha) ∧
    ∀ seq seq' pkg filename sha sha', (seq, pkg, filename, sha) ∈ commitments →
      (seq', pkg, filename, sha') ∈ commitments → sha = sha' := by
  induction commitments generalizing history changes with
  | nil => exact ⟨nofun, nofun⟩
  | cons commitment rest ih =>
      obtain ⟨seq, pkg, filename, sha⟩ := commitment
      have found : (recordCommitment (history, changes) (seq, pkg, filename, sha)).2 = [] :=
        List.prefix_nil.mp (none_ ▸ changes_grow rest _)
      have agrees (old : String) (from_ : ℕ)
          (held : history.lookup (pkg, filename) = some (old, from_)) : old = sha := by
        by_contra differs
        rw [recordCommitment, changesOfFile] at found
        simp only [held, ne_eq, differs, not_false_eq_true, if_true] at found
        simp at found
      have rest_ : (rest.foldl recordCommitment (((pkg, filename), (sha, seq)) :: history,
          (recordCommitment (history, changes) (seq, pkg, filename, sha)).2)).2 = [] := none_
      obtain ⟨repeats, single⟩ := ih rest_
      have here (later : ℕ) (other : String) (member : (later, pkg, filename, other) ∈ rest) :
          sha = other :=
        repeats later pkg filename other sha seq member List.lookup_cons_self
      refine ⟨?_, ?_⟩
      · intro later pkg' filename' other old from_ member held
        by_cases same : (pkg', filename') = (pkg, filename)
        · cases same
          obtain first | later := List.mem_cons.mp member
          · cases first
            exact agrees old from_ held
          · exact (agrees old from_ held).trans (here _ _ later)
        · obtain first | later := List.mem_cons.mp member
          · cases first
            exact absurd rfl same
          · refine repeats _ pkg' filename' other old from_ later ?_
            rw [List.lookup_cons, beq_eq_false_iff_ne.mpr same]
            exact held
      · intro one two pkg' filename' first second member member'
        obtain same | earlier := List.mem_cons.mp member
        · cases same
          obtain same | later := List.mem_cons.mp member'
          · cases same
            rfl
          · exact here _ _ later
        · obtain same | later := List.mem_cons.mp member'
          · cases same
            exact (here _ _ earlier).symm
          · exact single _ _ _ _ _ _ earlier later

theorem mem_mapInsert {V : Type} {map : List (String × V)} {key : String} {value : V}
    {entry : String × V} (member : entry ∈ mapInsert map key value) :
    entry = (key, value) ∨ entry ∈ map := by
  rw [mapInsert, List.mem_orderedInsert] at member
  exact member.imp_right fun kept => (List.mem_filter.mp kept).1

/-- What the replay holds was committed by some link. -/
theorem mem_replay {links : List ChainLink} {pkg : String} {files : FileShas}
    (member : (pkg, files) ∈ replay links) : ∃ link ∈ links, (pkg, files) ∈ link.packages := by
  suffices held : ∀ (links : List ChainLink) (state : Delta), (pkg, files) ∈
      links.foldl (fun state link => link.packages.foldl (fun state (pkg, files) =>
        if files.isEmpty then mapRemove state pkg else mapInsert state pkg files) state) state →
      (pkg, files) ∈ state ∨ ∃ link ∈ links, (pkg, files) ∈ link.packages by
    obtain empty | found := held links [] member
    · cases empty
    · exact found
  have package : ∀ (packages : Delta) (state : Delta), (pkg, files) ∈
      packages.foldl (fun state (pkg, files) =>
        if files.isEmpty then mapRemove state pkg else mapInsert state pkg files) state →
      (pkg, files) ∈ state ∨ (pkg, files) ∈ packages := by
    intro packages
    induction packages with
    | nil => exact fun state member => .inl member
    | cons entry rest ih =>
        intro state member
        obtain before | later := ih _ member
        · dsimp only at before
          split at before
          next => exact .inl (List.mem_filter.mp before).1
          next =>
            obtain same | kept := mem_mapInsert before
            · exact .inr (same ▸ List.mem_cons_self)
            · exact .inl kept
        · exact .inr (List.mem_cons_of_mem _ later)
  intro links
  induction links with
  | nil => exact fun state member => .inl member
  | cons link rest ih =>
      intro state member
      obtain before | ⟨later, inside, committed⟩ := ih _ member
      · exact (package link.packages state before).imp_right fun committed =>
          ⟨link, List.mem_cons_self, committed⟩
      · exact .inr ⟨later, List.mem_cons_of_mem _ inside, committed⟩

theorem committed_of_check {links : List (StoredLink Bytes)} {check : Check}
    (member : check ∈ checksOf (replay (links.map (·.link)))) :
    Committed links check.package check.filename check.sha := by
  obtain ⟨⟨pkg, files⟩, held, inside⟩ := List.mem_flatMap.mp member
  obtain ⟨⟨filename, sha⟩, file, rfl⟩ := List.mem_map.mp inside
  obtain ⟨link, source, committed⟩ := mem_replay held
  obtain ⟨entry, stored, rfl⟩ := List.mem_map.mp source
  exact ⟨entry.seq, List.mem_flatMap.mpr ⟨entry, stored, List.mem_flatMap.mpr
    ⟨(pkg, files), committed, List.mem_map.mpr ⟨(filename, sha), file, rfl⟩⟩⟩⟩

end Commitments
section Loading
variable {reader} {bucket : Bucket Bytes} {links : List (StoredLink Bytes)}

/-- Some key of the bucket is a chain link's. -/
def HasLink (bucket : Bucket Bytes) : Prop :=
  ∃ key seq, (bucket.get key).isSome ∧ seqFromKey key = some seq

theorem loadLinks_ok {entries : List (ℕ × String)} (loaded : loadLinks reader bucket entries = .ok links) :
    Parsed reader links ∧ links.length = entries.length := by
  induction entries generalizing links with
  | nil =>
      cases loaded
      exact ⟨nofun, rfl⟩
  | cons entry rest ih =>
      obtain ⟨seq, key⟩ := entry
      unfold loadLinks at loaded
      split at loaded
      next => cases loaded
      next => cases loaded
      next bytes _ =>
        split at loaded
        next => cases loaded
        next link parsed =>
          cases others : loadLinks reader bucket rest with
          | error error =>
              rw [others] at loaded
              cases loaded
          | ok later =>
              rw [others] at loaded
              cases loaded
              obtain ⟨restParsed, length⟩ := ih others
              exact ⟨List.forall_mem_cons.mpr ⟨parsed, restParsed⟩, congrArg (· + 1) length⟩

theorem loadChain_parsed (loaded : loadChain reader bucket = .ok links) : Parsed reader links := by
  unfold loadChain at loaded
  split at loaded
  next => cases loaded
  next => cases loaded
  next => exact (loadLinks_ok loaded).1

theorem loadChain_empty (loaded : loadChain reader bucket = .ok []) : ¬HasLink bucket := by
  rintro ⟨key, seq, held, chained⟩
  unfold loadChain at loaded
  split at loaded
  next => cases loaded
  next => cases loaded
  next keys listed =>
    have empty := (loadLinks_ok loaded).2
    rw [List.length_insertionSort, List.length_nil, eq_comm, List.length_eq_zero_iff,
      List.filterMap_eq_nil_iff] at empty
    have inside : key ∈ keys := by
      unfold Bucket.listAll at listed
      split at listed
      next => cases listed
      next =>
        cases listed
        rw [List.mem_filter]
        refine ⟨?_, ?_⟩
        · obtain ⟨bytes, found⟩ := Option.isSome_iff_exists.mp held
          obtain ⟨before, after, split, -⟩ := List.lookup_eq_some_iff.mp found
          rw [split]
          simp
        · unfold seqFromKey at chained
          cases stripped : stripPrefix chainPrefix key with
          | none =>
              rw [stripped] at chained
              cases chained
          | some rest => rfl
    have dropped := empty key inside
    rw [chained] at dropped
    cases dropped

theorem loadAll_ok {fleet : List (Bucket Bytes)} {chains : List (BucketChain Bytes)}
    (loaded : loadAll reader fleet = .ok chains) : chains.map (·.bucket) = fleet ∧
      ∀ chain ∈ chains, loadChain reader chain.bucket = .ok chain.links := by
  induction fleet generalizing chains with
  | nil =>
      cases loaded
      exact ⟨rfl, nofun⟩
  | cons bucket rest ih =>
      unfold loadAll at loaded
      split at loaded
      next => cases loaded
      next links found =>
        cases others : loadAll reader rest with
        | error error =>
            rw [others] at loaded
            cases loaded
        | ok later =>
            rw [others] at loaded
            cases loaded
            obtain ⟨buckets, loads⟩ := ih others
            exact ⟨congrArg (bucket :: ·) buckets, List.forall_mem_cons.mpr ⟨found, loads⟩⟩

theorem longest_mem {chains : List (BucketChain Bytes)} {best : BucketChain Bytes}
    (found : longest chains = some best) : best ∈ chains := by
  induction chains generalizing best with
  | nil => cases found
  | cons chain rest ih =>
      unfold longest at found
      split at found
      next other held =>
        split at found
        next =>
          cases found
          exact List.mem_cons_of_mem _ (ih held)
        next =>
          cases found
          exact List.mem_cons_self
      next =>
        cases found
        exact List.mem_cons_self

theorem longest_none {chains : List (BucketChain Bytes)} (none_ : longest chains = none) :
    chains = [] := by
  cases chains with
  | nil => rfl
  | cons chain rest =>
      unfold longest at none_
      split at none_
      next =>
        split at none_
        next => cases none_
        next => cases none_
      next => cases none_

end Loading

section Fleet
variable {reader}

/-- A clean chain all of whose links the reference repeats is a prefix of it. -/
theorem Linked.prefix_of_repeats (collisionFree : Function.Injective reader.sha256Hex)
    {own reference : List (StoredLink Bytes)} (linked : Linked reader none own)
    (linkedRef : Linked reader none reference) (parsed : Parsed reader own)
    (parsedRef : Parsed reader reference)
    (repeats : divergedAt reader reference own = none) : own <+: reference := by
  cases last : own.getLast? with
  | none =>
      rw [List.getLast?_eq_none_iff.mp last]
      exact List.nil_prefix
  | some entry =>
      have member := List.mem_of_getLast? last
      have at_ := linked.position member
      have agrees := List.find?_eq_none.mp repeats entry member
      split at agrees
      next sha held =>
        obtain ⟨before, after, split, -⟩ := List.lookup_eq_some_iff.mp held
        have stored : (entry.seq, sha) ∈ reference.map fun entry =>
            (entry.seq, reader.sha256Hex entry.bytes) := by
          rw [split]
          simp
        obtain ⟨twin, inside, same⟩ := List.mem_map.mp stored
        obtain ⟨seq, rfl⟩ := Prod.mk.inj same
        have digest : reader.sha256Hex twin.bytes = reader.sha256Hex entry.bytes := by
          by_contra differs
          exact agrees (decide_eq_true differs)
        have position := linkedRef.position inside
        rw [seq] at position
        have equal := linked.take_eq collisionFree linkedRef parsed parsedRef at_ position
          (collisionFree digest).symm
        have whole : own.length = entry.seq + 1 := by
          have final := List.getLast?_eq_getElem? (l := own)
          rw [last] at final
          have same := linked.seq_eq final.symm
          have inside := (List.getElem?_eq_some_iff.mp at_).1
          rw [Option.elim_none] at same
          omega
        rw [← whole, List.take_length] at equal
        rw [equal]
        exact List.take_prefix ..
      next => exact absurd rfl agrees

end Fleet
section Presence

/-- The bucket's sidecar for a file carries the committed sha. -/
def SidecarMatches (bucket : Bucket Bytes) (check : Check) : Prop :=
  ∃ bytes sidecar, bucket.get (artifactKey check.package check.filename ++ sidecarSuffix) = some bytes ∧
    reader.parseSidecar bytes = .ok sidecar ∧ sidecar.sha256 = check.sha

/-- No sidecar on this bucket, or one with exactly the committed sha. -/
def SidecarAgrees (bucket : Bucket Bytes) (check : Check) : Prop :=
  bucket.get (artifactKey check.package check.filename ++ sidecarSuffix) = none ∨
    SidecarMatches reader bucket check

/-- The file is present on this bucket, or one of the markers stands for it. -/
def AccountedFor (markers : List String) (bucket : Bucket Bytes) (check : Check) : Prop :=
  SidecarMatches reader bucket check ∧
      (bucket.get (artifactKey check.package check.filename)).isSome ∨
    ∃ marker ∈ markers, (bucket.get (artifactKey check.package check.filename ++ marker)).isSome

variable {reader} {bucket : Bucket Bytes} {check : Check} {presence : Presence}

theorem headExists_ok {key : String} {exists_ : Bool} (answered : bucket.headExists key = .ok exists_) :
    (bucket.get key).isSome = exists_ := by
  unfold Bucket.headExists at answered
  split at answered
  next => cases answered
  next =>
    cases answered
    rfl

theorem getBytes_ok {key : String} {bytes : Bytes} (answered : bucket.getBytes key = .ok bytes) :
    bucket.get key = some bytes := by
  unfold Bucket.getBytes at answered
  split at answered
  next => cases answered
  next held =>
    cases answered
    exact held
  next => cases answered

theorem getBytes_notFound {key : String} (answered : bucket.getBytes key = .error .notFound) :
    bucket.get key = none := by
  unfold Bucket.getBytes at answered
  split at answered
  next => cases answered
  next => cases answered
  next missing => exact missing

def absenceMarkers : List String := [tombstoneSuffix, mirrorQuarantinedSuffix]

theorem absence_ok {base : String} (answered : absence bucket base = .ok presence) :
    presence = .absent ∨
      presence = .covered ∧ ∃ marker ∈ absenceMarkers, (bucket.get (base ++ marker)).isSome := by
  unfold absence at answered
  cases tombstoned : bucket.headExists (base ++ tombstoneSuffix) with
  | error error =>
      rw [tombstoned] at answered
      cases answered
  | ok tombstone =>
      cases demoted : bucket.headExists (base ++ mirrorQuarantinedSuffix) with
      | error error =>
          rw [tombstoned, demoted] at answered
          cases answered
      | ok fence =>
          rw [tombstoned, demoted] at answered
          cases answered
          have held := headExists_ok tombstoned
          have held' := headExists_ok demoted
          cases tombstone with
          | true => exact .inr ⟨rfl, _, List.mem_cons_self, held⟩
          | false =>
              cases fence with
              | true => exact .inr ⟨rfl, _, List.mem_cons_of_mem _ List.mem_cons_self, held'⟩
              | false => exact .inl rfl

/-- A presence that is no violation comes with a sidecar that agrees, and one that
covers its file accounts for it. -/
theorem probePresence_ok
    (answered : probePresence reader bucket check.package check.filename check.sha = .ok presence)
    (fine : presenceViolation check presence = []) :
    SidecarAgrees reader bucket check ∧
      (presence = .absent ∨ presence.covers ∧ AccountedFor reader absenceMarkers bucket check) := by
  unfold probePresence at answered
  dsimp only at answered
  have missing (absent_ : absence bucket (artifactKey check.package check.filename) = .ok presence) :
      presence = .absent ∨ presence.covers ∧ AccountedFor reader absenceMarkers bucket check := by
    obtain gone | ⟨rfl, marked⟩ := absence_ok absent_
    · exact .inl gone
    · exact .inr ⟨rfl, .inr marked⟩
  split at answered
  next bytes read =>
    split at answered
    next sidecar parsed =>
      split at answered
      next same =>
        have agrees : SidecarMatches reader bucket check := ⟨bytes, sidecar, getBytes_ok read, parsed, same⟩
        split at answered
        next held =>
          cases answered
          exact ⟨.inr agrees, .inr ⟨rfl, .inl ⟨agrees, headExists_ok held⟩⟩⟩
        next => exact ⟨.inr agrees, missing answered⟩
        next => cases answered
      next =>
        cases answered
        cases fine
    next =>
      cases answered
      cases fine
  next unread => exact ⟨.inl (getBytes_notFound unread), missing answered⟩
  next => cases answered

theorem probeAll_ok {checks : List Check} {presences : List Presence}
    (answered : probeAll reader bucket checks = .ok presences) {index : ℕ}
    (at_ : checks[index]? = some check) : ∃ presence, presences[index]? = some presence ∧
      probePresence reader bucket check.package check.filename check.sha = .ok presence := by
  induction checks generalizing presences index with
  | nil => cases at_
  | cons first rest ih =>
      unfold probeAll at answered
      split at answered
      next => cases answered
      next presence probed =>
        cases others : probeAll reader bucket rest with
        | error error =>
            rw [others] at answered
            cases answered
        | ok later =>
            rw [others] at answered
            cases answered
            cases index with
            | zero =>
                cases at_
                exact ⟨presence, rfl, probed⟩
            | succ index => exact ih others at_

theorem probeFleet_ok {chains : List (BucketChain Bytes)} {checks : List Check}
    {seen : List (BucketChain Bytes × List Presence)}
    (answered : probeFleet reader chains checks = .ok seen) {chain : BucketChain Bytes}
    (member : chain ∈ chains) : ∃ presences, (chain, presences) ∈ seen ∧
      probeAll reader chain.bucket checks = .ok presences := by
  induction chains generalizing seen with
  | nil => cases member
  | cons first rest ih =>
      unfold probeFleet at answered
      split at answered
      next => cases answered
      next presences probed =>
        cases others : probeFleet reader rest checks with
        | error error =>
            rw [others] at answered
            cases answered
        | ok later =>
            rw [others] at answered
            cases answered
            obtain rfl | inside := List.mem_cons.mp member
            · exact ⟨presences, List.mem_cons_self, probed⟩
            · obtain ⟨own, held, probed⟩ := ih others inside
              exact ⟨own, List.mem_cons_of_mem _ held, probed⟩

theorem probeFleet_mem {chains : List (BucketChain Bytes)} {checks : List Check}
    {seen : List (BucketChain Bytes × List Presence)}
    (answered : probeFleet reader chains checks = .ok seen) {pair : BucketChain Bytes × List Presence}
    (member : pair ∈ seen) :
    pair.1 ∈ chains ∧ probeAll reader pair.1.bucket checks = .ok pair.2 := by
  induction chains generalizing seen with
  | nil =>
      cases answered
      cases member
  | cons first rest ih =>
      unfold probeFleet at answered
      split at answered
      next => cases answered
      next presences probed =>
        cases others : probeFleet reader rest checks with
        | error error =>
            rw [others] at answered
            cases answered
        | ok later =>
            rw [others] at answered
            cases answered
            obtain rfl | inside := List.mem_cons.mp member
            · exact ⟨List.mem_cons_self, probed⟩
            · obtain ⟨held, probed⟩ := ih others inside
              exact ⟨List.mem_cons_of_mem _ held, probed⟩

/-- Without a presence violation, every bucket's answer about a file is fine. -/
theorem presence_fine {checks : List Check} {seen : List (BucketChain Bytes × List Presence)}
    (none_ : presenceViolations checks seen = []) {pair : BucketChain Bytes × List Presence}
    (member : pair ∈ seen) {index : ℕ} (at_ : checks[index]? = some check)
    (answer : pair.2[index]? = some presence) : presenceViolation check presence = [] := by
  have rows := List.flatMap_eq_nil_iff.mp none_ pair member
  have zipped : (checks.zip pair.2)[index]? = some (check, presence) := by
    rw [List.getElem?_zip_eq_some]
    exact ⟨at_, answer⟩
  exact List.map_eq_nil_iff.mp (List.flatMap_eq_nil_iff.mp rows _ (List.mem_of_getElem? zipped))

/-- Without a violation each committed file has agreeing sidecars everywhere and is
accounted for somewhere. -/
theorem files_accounted {chains : List (BucketChain Bytes)} {checks : List Check}
    {seen : List (BucketChain Bytes × List Presence)} (some_ : chains ≠ [])
    (answered : probeFleet reader chains checks = .ok seen)
    (fine : presenceViolations checks seen = []) (held : vanished checks seen = [])
    (member : check ∈ checks) :
    (∀ chain ∈ chains, SidecarAgrees reader chain.bucket check) ∧
      ∃ chain ∈ chains, AccountedFor reader absenceMarkers chain.bucket check := by
  obtain ⟨index, at_⟩ := List.mem_iff_getElem?.mp member
  have view (chain : BucketChain Bytes) (inside : chain ∈ chains) :
      ∃ presences presence, (chain, presences) ∈ seen ∧ presences[index]? = some presence ∧
        SidecarAgrees reader chain.bucket check ∧ (presence = .absent ∨
          presence.covers ∧ AccountedFor reader absenceMarkers chain.bucket check) := by
    obtain ⟨presences, seen_, probed⟩ := probeFleet_ok answered inside
    obtain ⟨presence, answer, probe⟩ := probeAll_ok probed at_
    exact ⟨presences, presence, seen_, answer,
      probePresence_ok probe (presence_fine fine seen_ at_ answer)⟩
  refine ⟨fun chain inside => ?_, ?_⟩
  · obtain ⟨-, -, -, -, agrees, -⟩ := view chain inside
    exact agrees
  have numbered : (check, index) ∈ checks.zipIdx := List.mem_zipIdx_iff_getElem?.mpr at_
  have row := List.flatMap_eq_nil_iff.mp held _ numbered
  dsimp only at row
  split at row
  next covered =>
    rw [Bool.or_eq_true] at covered
    obtain covered | nowhere := covered
    · obtain ⟨⟨chain, presence⟩, answer, covers⟩ := List.any_eq_true.mp covered
      obtain ⟨⟨other, presences⟩, seen_, found⟩ := List.mem_filterMap.mp answer
      obtain ⟨own, at', same⟩ := Option.map_eq_some_iff.mp found
      cases same
      obtain ⟨inside, probed⟩ := probeFleet_mem answered seen_
      obtain ⟨twin, answer', probe⟩ := probeAll_ok probed at_
      cases answer'.symm.trans at'
      obtain ⟨-, gone | accounted⟩ := probePresence_ok probe (presence_fine fine seen_ at_ at')
      · rw [gone] at covers
        cases covers
      · exact ⟨other, inside, accounted.2⟩
    · -- no bucket answers absent, so the first one accounts for the file
      obtain ⟨chain, inside⟩ := List.exists_mem_of_ne_nil chains some_
      obtain ⟨presences, presence, seen_, answer, -, gone | accounted⟩ := view chain inside
      · rw [List.isEmpty_iff, List.filter_eq_nil_iff] at nowhere
        refine absurd (decide_eq_true gone) (nowhere (chain, presence) ?_)
        exact List.mem_filterMap.mpr ⟨(chain, presences), seen_, by rw [answer]; rfl⟩
      · exact ⟨chain, inside, accounted.2⟩
  next => cases row

end Presence
/-- What an accepted strict verification says about a fleet: there is no chain, or
one bucket's chain has every other as a prefix, commits each file under one sha,
and agrees with what the buckets hold. -/
def TamperEvident (reader : Reader Bytes) (markers : List String) (fleet : List (Bucket Bytes)) : Prop :=
  (∀ bucket ∈ fleet, ¬HasLink bucket) ∨
    ∃ reference ∈ fleet, ∃ links, loadChain reader reference = .ok links ∧ links ≠ [] ∧
      (∀ bucket ∈ fleet, ∃ own, loadChain reader bucket = .ok own ∧ own <+: links) ∧
      (∀ pkg filename sha sha', Committed links pkg filename sha →
        Committed links pkg filename sha' → sha = sha') ∧
      ∀ check ∈ checksOf (replay (links.map (·.link))),
        Committed links check.package check.filename check.sha ∧
        (∀ bucket ∈ fleet, SidecarAgrees reader bucket check) ∧
        ∃ bucket ∈ fleet, AccountedFor reader markers bucket check

section Accepted
variable {reader} {fleet : List (Bucket Bytes)} {chains : List (BucketChain Bytes)}

theorem integrity_clean (none_ : integrityViolations reader chains = []) {chain : BucketChain Bytes}
    (member : chain ∈ chains) : checkIntegrity reader chain.links = [] :=
  List.map_eq_nil_iff.mp (List.flatMap_eq_nil_iff.mp none_ chain member)

theorem referenceChain_mem {reference : BucketChain Bytes}
    (found : referenceChain reader chains = some reference) :
    reference ∈ chains ∧ reference.links ≠ [] := by
  have kept := List.mem_filter.mp (longest_mem found)
  rw [Bool.and_eq_true, Bool.not_eq_true', List.isEmpty_eq_false_iff] at kept
  exact ⟨kept.1, kept.2.2⟩

theorem divergences_nil {reference chain : BucketChain Bytes}
    (none_ : divergences reader reference chains = []) (member : chain ∈ chains)
    (clean : checkIntegrity reader chain.links = []) :
    divergedAt reader reference.links chain.links = none := by
  have row := List.flatMap_eq_nil_iff.mp none_ chain member
  have fine : ¬¬(checkIntegrity reader chain.links).isEmpty := by
    rw [clean]
    decide
  rw [if_neg fine] at row
  split at row
  next same => exact same
  next => cases row

/-- An accepted strict verification of a fleet whose digest has no collisions. -/
theorem accepted_evident (collisionFree : Function.Injective reader.sha256Hex)
    (accepted : runVerifyChain reader fleet true = .ok true) :
    TamperEvident reader absenceMarkers fleet := by
  unfold runVerifyChain at accepted
  split at accepted
  next => cases accepted
  next chains loaded =>
    obtain ⟨buckets, loads⟩ := loadAll_ok loaded
    have loadedOf (bucket : Bucket Bytes) (member : bucket ∈ fleet) :
        ∃ chain ∈ chains, chain.bucket = bucket := List.mem_map.mp (buckets ▸ member)
    dsimp only at accepted
    split at accepted
    next missing =>
      have clean : integrityViolations reader chains = [] :=
        List.isEmpty_iff.mp (Except.ok.inj accepted)
      refine .inl fun bucket member => ?_
      obtain ⟨chain, inside, rfl⟩ := loadedOf bucket member
      have dropped := List.filter_eq_nil_iff.mp (longest_none missing) chain inside
      rw [integrity_clean clean inside] at dropped
      have empty : chain.links = [] := by simpa using dropped
      exact loadChain_empty (empty ▸ loads chain inside)
    next reference found =>
      split at accepted
      next => cases accepted
      next seen probed =>
        have fine := Except.ok.inj accepted
        rw [Bool.not_eq_true', Bool.or_eq_false_iff, Bool.not_eq_false', Bool.true_and,
          Bool.not_eq_false', List.isEmpty_iff, List.isEmpty_iff] at fine
        obtain ⟨rows, single⟩ := fine
        rw [List.append_eq_nil_iff, List.append_eq_nil_iff, List.append_eq_nil_iff] at rows
        obtain ⟨⟨⟨clean, together⟩, present⟩, held⟩ := rows
        obtain ⟨member, nonempty⟩ := referenceChain_mem found
        have linked (chain : BucketChain Bytes) (inside : chain ∈ chains) :
            Linked reader none chain.links := checkLinks_nil reader (integrity_clean clean inside)
        refine .inr ⟨reference.bucket, buckets ▸ List.mem_map_of_mem member, reference.links,
          loads reference member, nonempty, fun bucket inFleet => ?_, ?_, fun check committed => ?_⟩
        · obtain ⟨chain, inside, rfl⟩ := loadedOf bucket inFleet
          exact ⟨chain.links, loads chain inside, (linked chain inside).prefix_of_repeats
            collisionFree (linked reference member) (loadChain_parsed (loads chain inside))
            (loadChain_parsed (loads reference member))
            (divergences_nil together inside (integrity_clean clean inside))⟩
        · rintro pkg filename sha sha' ⟨seq, first⟩ ⟨seq', second⟩
          rw [inChainShaChanges_eq] at single
          exact (single_sha single).2 _ _ _ _ _ _ first second
        · obtain ⟨agrees, chain, inside, accounted⟩ := files_accounted
            (List.ne_nil_of_mem member) probed present held committed
          refine ⟨committed_of_check committed, fun bucket inFleet => ?_,
            chain.bucket, buckets ▸ List.mem_map_of_mem inside, accounted⟩
          obtain ⟨own, inside, rfl⟩ := loadedOf bucket inFleet
          exact agrees own inside

end Accepted

/-- Two clean chains with the same bytes at one seq agree up to it, and an accepted
strict verification leaves no room for a rewritten file, on any fleet. -/
theorem verify_chain_tamper_evident (reader : Reader Bytes)
    (collisionFree : Function.Injective reader.sha256Hex) :
    (∀ xs ys, Parsed reader xs → Parsed reader ys → checkIntegrity reader xs = [] →
      checkIntegrity reader ys = [] → ∀ x ∈ xs, ∀ y ∈ ys, x.seq = y.seq → x.bytes = y.bytes →
        xs.take (x.seq + 1) = ys.take (x.seq + 1)) ∧
    ∀ fleet, runVerifyChain reader fleet true = .ok true → TamperEvident reader absenceMarkers fleet := by
  refine ⟨?_, fun fleet accepted => accepted_evident collisionFree accepted⟩
  intro xs ys parsedX parsedY cleanX cleanY x inX y inY seq same
  have linkedX : Linked reader none xs := checkLinks_nil reader cleanX
  have linkedY : Linked reader none ys := checkLinks_nil reader cleanY
  exact linkedX.take_eq collisionFree linkedY parsedX parsedY (linkedX.position inX)
    (seq ▸ linkedY.position inY) same

section Samples

def linkJson (link : ChainLink) : String := jsonObject [("seq", toString link.seq),
  ("prev-sha256", jsonString link.prevSha256), ("created", jsonString link.created),
  ("packages", jsonObject (link.packages.map fun (pkg, files) =>
    (pkg, jsonObject (files.map fun (filename, sha) => (filename, jsonString sha)))))]

def sixSha : String := "1ceea72dbd5639a5545e909457d6c0e0a855c1fcf3434a289b94cae2e2dc4c9c"
def attrsSha : String := "e4cb4b256e073e9e86cb653dedfbe07bc52c8480bbe952c75cea183084f5fce8"
def genesisDigest : String := "bbc746da1c7cd935528067391de18842fe578ba6f7b70e31f2cbb7fa54739dea"
def secondDigest : String := "73858fc10b61366475fcb537c466ad4054a591062aad610326ccbf3fabcaccdc"

def genesisLink : ChainLink := ⟨0, "", "2024-01-01T00:00:00Z", [("six", [("six-1.16.0.tar.gz", sixSha)])]⟩

def secondLink : ChainLink :=
  ⟨1, genesisDigest, "2024-01-02T00:00:00Z", [("attrs", [("attrs-23.1.0.tar.gz", attrsSha)])]⟩

def sixSidecar : Sidecar :=
  ⟨sixSha, 18, "1.16.0", "2024-01-01T00:00:00Z", none, none, .flag false, some "private", 0, 0, false, none⟩

/-- The documents of the samples with their digests, and no collision elsewhere. -/
def sampleReader : Reader String where
  parseLink text :=
    if text = linkJson genesisLink then .ok genesisLink
    else if text = linkJson secondLink then .ok secondLink
    else .error "expected value at line 1 column 1"
  parseSidecar text :=
    if text = sixSidecar.json then .ok sixSidecar else .error "expected value at line 1 column 1"
  sha256Hex text :=
    if text = linkJson genesisLink then genesisDigest
    else if text = linkJson secondLink then secondDigest
    else "sha256 of " ++ text

theorem sampleReader_injective : Function.Injective sampleReader.sha256Hex := by
  have apart (digest text : String) (hex : digest.toList.head? ≠ some 's') :
      digest ≠ "sha256 of " ++ text := by
    rintro rfl
    exact hex (by simp)
  have genesis (text : String) := apart genesisDigest text (by decide +kernel)
  have second (text : String) := apart secondDigest text (by decide +kernel)
  have differ : genesisDigest ≠ secondDigest := by decide +kernel
  intro a b same
  unfold sampleReader at same
  dsimp only at same
  split at same
  next first =>
    split at same
    next other => exact first.trans other.symm
    next =>
      split at same
      next => exact absurd same differ
      next => exact absurd same (genesis b)
  next =>
    split at same
    next first =>
      split at same
      next => exact absurd same.symm differ
      next =>
        split at same
        next other => exact first.trans other.symm
        next => exact absurd same (second b)
    next =>
      split at same
      next => exact absurd same.symm (genesis a)
      next =>
        split at same
        next => exact absurd same.symm (second a)
        next => exact (String.append_right_inj _).mp same

/-- A complete bucket, and one that lags by a link and by every file. -/
def sampleFleet : List (Bucket String) := [
  { name := "a"
    objects := [
      ("_transparency/chain/0000000000000000.json", linkJson genesisLink),
      ("_transparency/chain/0000000000000001.json", linkJson secondLink),
      ("packages/six/six-1.16.0.tar.gz", "six source archive"),
      ("packages/six/six-1.16.0.tar.gz.meta.json", sixSidecar.json),
      ("packages/attrs/attrs-23.1.0.tar.gz.tombstone", "\x7b\x7d")]
    failing := fun _ => none },
  { name := "b"
    objects := [("_transparency/chain/0000000000000000.json", linkJson genesisLink)]
    failing := fun _ => none }]

theorem sampleFleet_evident : runVerifyChain sampleReader sampleFleet true = .ok true ∧
    TamperEvident sampleReader absenceMarkers sampleFleet := by
  have accepted : runVerifyChain sampleReader sampleFleet true = .ok true := by decide +kernel
  exact ⟨accepted,
    (verify_chain_tamper_evident sampleReader sampleReader_injective).2 sampleFleet accepted⟩

/-- A bucket whose only committed file was demoted: its record is gone and the
fence stands. -/
def demotedBucket : Bucket String where
  name := "a"
  objects := [
    ("_transparency/chain/0000000000000000.json", linkJson genesisLink),
    ("packages/six/six-1.16.0.tar.gz.mirror-quarantined", "\x7b\x7d")]
  failing := fun _ => none

/-- A demotion fence alone satisfies the verification, with the file neither present
nor tombstoned anywhere. -/
theorem demoted_accepted : Function.Injective sampleReader.sha256Hex ∧
    runVerifyChain sampleReader [demotedBucket] true = .ok true ∧
    ¬TamperEvident sampleReader [tombstoneSuffix] [demotedBucket] := by
  refine ⟨sampleReader_injective, by decide +kernel, ?_⟩
  rintro (none_ | ⟨reference, member, links, loaded, -, -, -, files⟩)
  · exact none_ _ List.mem_cons_self ⟨"_transparency/chain/0000000000000000.json", 0,
      by decide +kernel, by decide +kernel⟩
  · obtain rfl := List.mem_singleton.mp member
    have genesis : loadChain sampleReader demotedBucket =
        .ok [⟨0, linkJson genesisLink, genesisLink⟩] := by decide +kernel
    cases genesis.symm.trans loaded
    obtain ⟨-, -, bucket, inside, accounted⟩ :=
      files ⟨"six", "six-1.16.0.tar.gz", sixSha⟩ (by decide +kernel)
    obtain rfl := List.mem_singleton.mp inside
    obtain ⟨-, present⟩ | ⟨marker, only, present⟩ := accounted
    · exact absurd present (by decide +kernel)
    · obtain rfl := List.mem_singleton.mp only
      exact absurd present (by decide +kernel)

end Samples

end Pypiron.Transparency.VerifyChain
