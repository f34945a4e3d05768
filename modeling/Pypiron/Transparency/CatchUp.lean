import Pypiron.Transparency.NoFork
import Pypiron.Transparency.TamperEvidence
import Pypiron.Yields

/-! One peer's catch-up, run alone with any of its requests failing or lost. The
pin's links are pulled up in seq order, so what the pin ends with is its own chain
followed by some of the peer's links beyond its head. -/
namespace Pypiron.Transparency.CatchUpReplica
open Program VerifyChain
variable {β Bytes : Type} [DecidableEq β] [DecidableEq Bytes]

section Requests
variable {store store' final : ChainStore β Bytes} {bucket : β} {seq : ℕ} {bytes : Bytes}
variable {α : Type} {result : Except String α}

omit [DecidableEq Bytes] in
theorem yields_getBytes {rest : Except String Bytes → ChainM β Bytes α} :
    Yields ChainPerforms (getBytes bucket seq >>= rest) store result final ↔
      ∃ answer, (∀ bytes, answer = .ok bytes → store.link bucket seq = some bytes) ∧
        Yields ChainPerforms (rest answer) store result final := by
  rw [getBytes, bind_call, yields_call]
  constructor
  · rintro ⟨answer, middle, performed, run⟩
    cases performed with
    | got held =>
        refine ⟨_, fun bytes same => ?_, run⟩
        cases same
        exact held
    | getFailed =>
        refine ⟨_, fun bytes same => ?_, run⟩
        cases same
  · rintro ⟨answer, held, run⟩
    cases answer with
    | ok bytes => exact ⟨_, _, .got (held bytes rfl), run⟩
    | error text => exact ⟨_, _, .getFailed, run⟩

/-- A copy leaves the store alone or creates the absent link, and says which bytes
stand there. -/
theorem yields_copyLink {dst : ReplicaTarget β} {outcome : Except String (Except String Copied)}
    (run : Yields ChainPerforms (copyLink dst seq bytes) store outcome final) :
    ∃ copied, outcome = .ok copied ∧
      (final = store ∨ store.link dst.storage seq = none ∧ final = store.create dst.storage seq bytes) ∧
      (copied = .ok .landed → final.link dst.storage seq = some bytes) ∧
      (copied = .ok .diverged → ∃ held, store.link dst.storage seq = some held) := by
  rw [copyLink, putIfNoneMatch, bind_call, yields_call] at run
  obtain ⟨answer, middle, performed, run⟩ := run
  cases performed with
  | created missing =>
      obtain ⟨rfl, rfl⟩ := yields_done.mp run
      refine ⟨_, rfl, .inr ⟨missing, rfl⟩, fun _ => ?_, nofun⟩
      rw [link_create, if_pos ⟨rfl, rfl⟩]
  | occupied held =>
      obtain ⟨read, readHeld, run⟩ := yields_getBytes.mp run
      cases read with
      | error text =>
          obtain ⟨rfl, rfl⟩ := yields_done.mp run
          exact ⟨_, rfl, .inl rfl, nofun, nofun⟩
      | ok stands =>
          obtain ⟨rfl, rfl⟩ := yields_done.mp run
          refine ⟨_, rfl, .inl rfl, fun landed => ?_, fun _ => ⟨_, held⟩⟩
          split at landed
          next => cases landed
          next same => exact (not_not.mp same) ▸ readHeld stands rfl
  | createFailed =>
      obtain ⟨rfl, rfl⟩ := yields_done.mp run
      exact ⟨_, rfl, .inl rfl, nofun, nofun⟩
  | createLost missing =>
      obtain ⟨rfl, rfl⟩ := yields_done.mp run
      exact ⟨_, rfl, .inr ⟨missing, rfl⟩, nofun, nofun⟩

theorem copyLink_creates {dst : ReplicaTarget β} (missing : store.link dst.storage seq = none) :
    Yields ChainPerforms (copyLink dst seq bytes) store (.ok (.ok .landed))
      (store.create dst.storage seq bytes) := by
  rw [copyLink, putIfNoneMatch, bind_call, yields_call]
  exact ⟨.ok (some ""), _, .created missing, yields_done.mpr ⟨rfl, rfl⟩⟩

end Requests

section Probes
variable {primary replica : ReplicaTarget β} {store final : ChainStore β Bytes} {probes : List ℕ}

/-- The probes only read, and agreement means that both sides hold the same bytes at
each of them. -/
theorem yields_compareProbes {outcome : Except String (Except String (Option ℕ))}
    (run : Yields ChainPerforms (compareProbes primary replica probes) store outcome final) :
    final = store ∧ ∃ found, outcome = .ok found ∧ (found = .ok none → ∀ seq ∈ probes,
      ∃ bytes, store.link primary.storage seq = some bytes ∧
        store.link replica.storage seq = some bytes) := by
  induction probes with
  | nil =>
      obtain ⟨rfl, rfl⟩ := yields_done.mp run
      exact ⟨rfl, _, rfl, nofun⟩
  | cons seq rest ih =>
      rw [compareProbes] at run
      obtain ⟨mine, heldMine, run⟩ := yields_getBytes.mp run
      cases mine with
      | error text =>
          obtain ⟨rfl, rfl⟩ := yields_done.mp run
          exact ⟨rfl, _, rfl, nofun⟩
      | ok mine =>
          obtain ⟨theirs, heldTheirs, run⟩ := yields_getBytes.mp run
          cases theirs with
          | error text =>
              obtain ⟨rfl, rfl⟩ := yields_done.mp run
              exact ⟨rfl, _, rfl, nofun⟩
          | ok theirs =>
              dsimp only at run
              split at run
              next =>
                obtain ⟨rfl, rfl⟩ := yields_done.mp run
                exact ⟨rfl, _, rfl, nofun⟩
              next same =>
                obtain ⟨stays, found, rfl, agree⟩ := ih run
                refine ⟨stays, found, rfl, fun none_ => List.forall_mem_cons.mpr ⟨?_, agree none_⟩⟩
                have equal : mine = theirs := not_not.mp same
                exact ⟨mine, heldMine mine rfl, equal ▸ heldTheirs theirs rfl⟩

/-- Reads that are answered find agreement where there is agreement. -/
theorem compareProbes_agrees (agree : ∀ seq ∈ probes, ∃ bytes,
    store.link primary.storage seq = some bytes ∧ store.link replica.storage seq = some bytes) :
    Yields ChainPerforms (compareProbes primary replica probes) store (.ok (.ok none)) store := by
  induction probes with
  | nil => exact yields_done.mpr ⟨rfl, rfl⟩
  | cons seq rest ih =>
      obtain ⟨⟨bytes, mine, theirs⟩, agree⟩ := List.forall_mem_cons.mp agree
      have answers (bucket : β) (held : store.link bucket seq = some bytes) (other : Bytes)
          (same : (Except.ok bytes : Except String Bytes) = .ok other) :
          store.link bucket seq = some other := by
        cases same
        exact held
      rw [compareProbes]
      refine yields_getBytes.mpr ⟨.ok bytes, answers _ mine, ?_⟩
      refine yields_getBytes.mpr ⟨.ok bytes, answers _ theirs, ?_⟩
      dsimp only
      rw [if_neg (not_not.mpr rfl)]
      exact ih agree

end Probes
section Copies
variable {primary replica : ReplicaTarget β} {store final : ChainStore β Bytes} {pull ours : List ℕ}

/-- What a run of pulls leaves: the links of `taken`, a prefix of what was asked for,
came over from the peer, and nothing else changed. -/
structure Pulled (primary replica : ReplicaTarget β) (pull taken : List ℕ)
    (store final : ChainStore β Bytes) : Prop where
  upTo : taken <+: pull
  gained : ∀ seq ∈ taken, ∃ bytes, store.link replica.storage seq = some bytes ∧
    final.link primary.storage seq = some bytes
  kept : ∀ seq, seq ∉ taken → final.link primary.storage seq = store.link primary.storage seq
  others : ∀ bucket, bucket ≠ primary.storage → ∀ seq, final.link bucket seq = store.link bucket seq

omit [DecidableEq β] [DecidableEq Bytes] in
theorem Pulled.none (store : ChainStore β Bytes) : Pulled primary replica pull [] store store where
  upTo := List.nil_prefix
  gained := nofun
  kept _ _ := rfl
  others _ _ _ := rfl

omit [DecidableEq Bytes] in
theorem Pulled.one (primary : ReplicaTarget β) {seq : ℕ} (rest : List ℕ) {bytes : Bytes}
    (held : store.link replica.storage seq = some bytes) :
    Pulled primary replica (seq :: rest) [seq] store (store.create primary.storage seq bytes) where
  upTo := List.prefix_append [seq] rest
  gained := by
    rw [List.forall_mem_singleton]
    refine ⟨bytes, held, ?_⟩
    rw [link_create, if_pos ⟨rfl, rfl⟩]
  kept other outside := by
    rw [link_create, if_neg fun both => outside (List.mem_singleton.mpr both.2)]
  others bucket apart other := by
    rw [link_create, if_neg fun both => apart both.1]

omit [DecidableEq Bytes] in
theorem Pulled.cons (apart : replica.storage ≠ primary.storage) {seq : ℕ} {rest taken : List ℕ}
    {bytes : Bytes} (held : store.link replica.storage seq = some bytes) (fresh : seq ∉ rest)
    (later : Pulled primary replica rest taken (store.create primary.storage seq bytes) final) :
    Pulled primary replica (seq :: rest) (seq :: taken) store final := by
  have first := Pulled.one primary rest held
  have new : seq ∉ taken := fun member => fresh (later.upTo.subset member)
  refine ⟨List.cons_prefix_cons.mpr ⟨rfl, later.upTo⟩, ?_, fun other outside => ?_,
    fun bucket other_ => ?_⟩
  · rw [List.forall_mem_cons]
    refine ⟨⟨bytes, held, ?_⟩, fun other member => ?_⟩
    · rw [later.kept seq new, link_create, if_pos ⟨rfl, rfl⟩]
    · obtain ⟨bytes', source, gained⟩ := later.gained other member
      exact ⟨bytes', (first.others _ apart other).symm.trans source, gained⟩
  · rw [List.mem_cons, not_or] at outside
    rw [later.kept other outside.2, first.kept other (fun member =>
      outside.1 (List.mem_singleton.mp member))]
  · intro other
    rw [later.others bucket other_, first.others bucket other_]

theorem yields_pullAll (apart : replica.storage ≠ primary.storage) (nodup : pull.Nodup)
    (missing : ∀ seq ∈ pull, store.link primary.storage seq = none)
    {outcome : Except String (List ℕ × Except String Unit)}
    (run : Yields ChainPerforms (pullAll primary replica pull ours) store outcome final) :
    ∃ taken ours' pulled, outcome = .ok (ours', pulled) ∧
      Pulled primary replica pull taken store final ∧ (pulled = .ok () → taken = pull) := by
  induction pull generalizing store ours with
  | nil =>
      obtain ⟨rfl, rfl⟩ := yields_done.mp run
      exact ⟨[], _, _, rfl, .none _, fun _ => rfl⟩
  | cons seq rest ih =>
      obtain ⟨absent, missing⟩ := List.forall_mem_cons.mp missing
      obtain ⟨fresh, nodup⟩ := List.nodup_cons.mp nodup
      rw [pullAll] at run
      obtain ⟨answer, held, run⟩ := yields_getBytes.mp run
      cases answer with
      | error text =>
          obtain ⟨rfl, rfl⟩ := yields_done.mp run
          exact ⟨[], _, _, rfl, .none _, nofun⟩
      | ok bytes =>
          have source := held bytes rfl
          obtain ⟨outcome', middle, copied, run⟩ | ⟨error, -, copied⟩ := yields_bind.mp run
          · obtain ⟨copied', same, effect, landed, diverged⟩ := yields_copyLink copied
            cases same
            cases outcome' with
            | error text =>
                obtain ⟨rfl, rfl⟩ := yields_done.mp run
                obtain rfl | ⟨-, rfl⟩ := effect
                · exact ⟨[], _, _, rfl, .none _, nofun⟩
                · exact ⟨[seq], _, _, rfl, .one _ _ source, nofun⟩
            | ok verdict =>
                cases verdict with
                | diverged =>
                    obtain ⟨stands, taken⟩ := diverged rfl
                    rw [absent] at taken
                    cases taken
                | landed =>
                    obtain rfl | ⟨-, rfl⟩ := effect
                    · have stands := landed rfl
                      rw [absent] at stands
                      cases stands
                    · have still (other : ℕ) (member : other ∈ rest) :
                          (store.create primary.storage seq bytes).link primary.storage other = none := by
                        have differs : other ≠ seq := fun same => fresh (same ▸ member)
                        rw [link_create, if_neg fun both => differs both.2]
                        exact missing other member
                      obtain ⟨taken, ours', pulled, rfl, later, all⟩ := ih nodup still run
                      exact ⟨seq :: taken, ours', pulled, rfl, later.cons apart source fresh,
                        fun done => congrArg (seq :: ·) (all done)⟩
          · obtain ⟨_, same, -⟩ := yields_copyLink copied
            cases same

/-- Pulls that are answered all land. -/
theorem pullAll_lands (ours : List ℕ) (apart : replica.storage ≠ primary.storage) (nodup : pull.Nodup)
    (missing : ∀ seq ∈ pull, store.link primary.storage seq = none)
    (held : ∀ seq ∈ pull, ∃ bytes, store.link replica.storage seq = some bytes) :
    ∃ ours' final, Yields ChainPerforms (pullAll primary replica pull ours) store
      (.ok (ours', .ok ())) final := by
  induction pull generalizing store ours with
  | nil => exact ⟨ours, store, yields_done.mpr ⟨rfl, rfl⟩⟩
  | cons seq rest ih =>
      obtain ⟨absent, missing⟩ := List.forall_mem_cons.mp missing
      obtain ⟨fresh, nodup⟩ := List.nodup_cons.mp nodup
      obtain ⟨⟨bytes, source⟩, held⟩ := List.forall_mem_cons.mp held
      have created := Pulled.one primary rest source
      have skips (other : ℕ) (member : other ∈ rest) : other ∉ [seq] := by
        rw [List.mem_singleton]
        exact fun same => fresh (same ▸ member)
      obtain ⟨ours', final, run⟩ := ih (ours.orderedInsert (· ≤ ·) seq) nodup
        (fun other member => (created.kept other (skips other member)).trans (missing other member))
        (fun other member => by
          rw [created.others _ apart]
          exact held other member)
      refine ⟨ours', final, ?_⟩
      rw [pullAll]
      refine yields_getBytes.mpr ⟨.ok bytes, fun other same => ?_, ?_⟩
      · cases same
        exact source
      · exact yields_bind.mpr (.inl ⟨_, _, copyLink_creates absent, run⟩)

/-- Pushing leaves the primary as it is. -/
theorem yields_pushAll (apart : primary.storage ≠ replica.storage) {push : List ℕ}
    {outcome : Except String CatchUp}
    (run : Yields ChainPerforms (pushAll primary replica push) store outcome final) :
    ∀ seq, final.link primary.storage seq = store.link primary.storage seq := by
  induction push generalizing store with
  | nil =>
      obtain ⟨-, rfl⟩ := yields_done.mp run
      exact fun _ => rfl
  | cons seq rest ih =>
      rw [pushAll] at run
      obtain ⟨answer, held, run⟩ := yields_getBytes.mp run
      cases answer with
      | error text =>
          obtain ⟨-, rfl⟩ := yields_done.mp run
          exact fun _ => rfl
      | ok bytes =>
          obtain ⟨outcome', middle, copied, run⟩ | ⟨error, -, copied⟩ := yields_bind.mp run
          · obtain ⟨copied', same, effect, -⟩ := yields_copyLink copied
            cases same
            have kept (other : ℕ) : middle.link primary.storage other = store.link primary.storage other := by
              obtain rfl | ⟨-, rfl⟩ := effect
              · rfl
              · rw [link_create, if_neg fun both => apart both.1]
            cases outcome' with
            | error text =>
                obtain ⟨-, rfl⟩ := yields_done.mp run
                exact kept
            | ok verdict =>
                cases verdict with
                | landed => exact fun other => (ih run other).trans (kept other)
                | diverged =>
                    obtain ⟨-, rfl⟩ := yields_done.mp run
                    exact kept
          · obtain ⟨_, same, -⟩ := yields_copyLink copied
            cases same

/-- The first push may fail, and then nothing is pushed. -/
theorem pushAll_fails (push : List ℕ) :
    Yields ChainPerforms (pushAll primary replica push) store (.ok .synced) store := by
  cases push with
  | nil => exact yields_done.mpr ⟨rfl, rfl⟩
  | cons seq rest =>
      rw [pushAll]
      refine yields_getBytes.mpr ⟨.error "", fun bytes same => ?_, yields_done.mpr ⟨rfl, rfl⟩⟩
      cases same

end Copies
section Chains
variable (reader : Reader Bytes) (links links' : ℕ → Option Bytes)

/-- The bytes are a link for `seq` that names the bytes standing at the seq before
it; the genesis link names nothing. -/
def Commits (seq : ℕ) (bytes : Bytes) : Prop :=
  ∃ link, reader.parseLink bytes = .ok link ∧ link.seq = seq ∧
    ((seq = 0 ∧ link.prevSha256 = "") ∨ ∃ before previous, seq = before + 1 ∧
      links before = some previous ∧ link.prevSha256 = reader.sha256Hex previous)

/-- The links form a gapless hash-valid chain from seq 0. -/
def ChainValid : Prop := ∀ seq bytes, links seq = some bytes → Commits reader links seq bytes

/-- Two buckets hold different bytes at a seq they share. -/
def Differ : Prop := ∃ seq bytes bytes',
  links seq = some bytes ∧ links' seq = some bytes' ∧ bytes ≠ bytes'

/-- Whatever the peer holds beyond the pin's head runs on from it. -/
structure RunsOn (pin peer : ℕ → Option Bytes) : Prop where
  noHole : ∀ seq, pin seq = none → (peer seq).isSome →
    ∀ below, below < seq → pin below = none → (peer below).isSome
  namesHead : ∀ head previous bytes, pin head = some previous → pin (head + 1) = none →
    peer (head + 1) = some bytes →
    ∃ link, reader.parseLink bytes = .ok link ∧ link.prevSha256 = reader.sha256Hex previous

variable {reader links links'}

omit [DecidableEq Bytes] in
theorem ChainValid.step (valid : ChainValid reader links) {before : ℕ} {bytes : Bytes}
    (held : links (before + 1) = some bytes) : ∃ link previous, reader.parseLink bytes = .ok link ∧
      links before = some previous ∧ link.prevSha256 = reader.sha256Hex previous := by
  obtain ⟨link, parsed, -, ⟨zero, -⟩ | ⟨other, previous, same, stands, named⟩⟩ := valid _ _ held
  · cases zero
  · cases same
    exact ⟨link, previous, parsed, stands, named⟩

omit [DecidableEq Bytes] in
theorem ChainValid.below (valid : ChainValid reader links) {seq : ℕ} (held : (links seq).isSome)
    {below : ℕ} (ordered : below ≤ seq) : (links below).isSome := by
  induction seq with
  | zero => exact Nat.le_zero.mp ordered ▸ held
  | succ seq ih =>
      obtain inside | rfl := Nat.lt_or_eq_of_le ordered
      · obtain ⟨bytes, stands⟩ := Option.isSome_iff_exists.mp held
        obtain ⟨-, previous, -, earlier, -⟩ := valid.step stands
        exact ih (Option.isSome_of_eq_some earlier) (Nat.lt_succ_iff.mp inside)
      · exact held

omit [DecidableEq Bytes] in
/-- Chains that agree at one seq agree below it. -/
theorem ChainValid.agree_below (collisionFree : Function.Injective reader.sha256Hex)
    (valid : ChainValid reader links) (valid' : ChainValid reader links') {seq : ℕ} {bytes : Bytes}
    (held : links seq = some bytes) (held' : links' seq = some bytes) {below : ℕ}
    (ordered : below ≤ seq) : links below = links' below := by
  induction seq generalizing bytes with
  | zero =>
      obtain rfl := Nat.le_zero.mp ordered
      exact held.trans held'.symm
  | succ seq ih =>
      obtain inside | rfl := Nat.lt_or_eq_of_le ordered
      · obtain ⟨link, previous, parsed, stands, named⟩ := valid.step held
        obtain ⟨link', previous', parsed', stands', named'⟩ := valid'.step held'
        cases parsed.symm.trans parsed'
        cases collisionFree (named.symm.trans named')
        exact ih stands stands' (Nat.lt_succ_iff.mp inside)
      · exact held.trans held'.symm

end Chains

def seqsOf (store : ChainStore β Bytes) (bucket : β) : List ℕ := seqSet ((store.chains bucket).map (·.1))

/-- The call did not report the peer as synced. -/
def Refused (outcome : Except String (List ℕ × Except String CatchUp)) : Prop :=
  ∀ seqs, outcome ≠ .ok (seqs, .ok .synced)

/-- What a catch-up owes the two histories: the pin keeps a gapless hash-valid chain
that gained only links of a peer it agrees with, and two histories that differ are
reported and left alone. -/
structure NoSplice (reader : Reader Bytes) (primary replica : ReplicaTarget β)
    (store final : ChainStore β Bytes) (outcome : Except String (List ℕ × Except String CatchUp)) :
    Prop where
  valid : ChainValid reader (final.link primary.storage)
  kept : ∀ seq bytes, store.link primary.storage seq = some bytes →
    final.link primary.storage seq = some bytes
  gained : ∀ seq bytes, final.link primary.storage seq = some bytes →
    store.link primary.storage seq = some bytes ∨
      store.link replica.storage seq = some bytes ∧
        ¬Differ (store.link primary.storage) (store.link replica.storage)
  refused : Differ (store.link primary.storage) (store.link replica.storage) →
    Refused outcome ∧ final.link primary.storage = store.link primary.storage ∧
      final.link replica.storage = store.link replica.storage

section CatchUp
variable {primary replica : ReplicaTarget β} {store final : ChainStore β Bytes}

omit [DecidableEq β] [DecidableEq Bytes] in
theorem mem_seqsOf {bucket : β} {seq : ℕ} :
    seq ∈ seqsOf store bucket ↔ ∃ bytes, store.link bucket seq = some bytes := by
  rw [seqsOf, mem_seqSet, ← link_ne_none, Option.ne_none_iff_exists']

omit [DecidableEq β] [DecidableEq Bytes] in
theorem seqsOf_sorted (bucket : β) : (seqsOf store bucket).Pairwise (· < ·) := by
  have ordered := List.pairwise_insertionSort (· ≤ ·) ((store.chains bucket).map (·.1)).dedup
  have distinct : (seqsOf store bucket).Nodup :=
    (List.perm_insertionSort (· ≤ ·) _).nodup_iff.mpr (List.nodup_dedup _)
  exact (ordered.and distinct).imp fun both => Nat.lt_of_le_of_ne both.1 both.2

def pullOf (store : ChainStore β Bytes) (primary replica : ReplicaTarget β) : List ℕ :=
  (seqsOf store replica.storage).filter (· ∉ seqsOf store primary.storage)

omit [DecidableEq β] [DecidableEq Bytes] in
theorem mem_pullOf {seq : ℕ} : seq ∈ pullOf store primary replica ↔
    (∃ bytes, store.link replica.storage seq = some bytes) ∧
      store.link primary.storage seq = none := by
  rw [pullOf, List.mem_filter, decide_eq_true_eq, mem_seqsOf, mem_seqsOf, ← Option.ne_none_iff_exists',
    ← Option.ne_none_iff_exists', not_not]

def sharedOf (store : ChainStore β Bytes) (primary replica : ReplicaTarget β) : List ℕ :=
  (seqsOf store primary.storage).filter (· ∈ seqsOf store replica.storage)

omit [DecidableEq β] [DecidableEq Bytes] in
theorem mem_sharedOf {seq : ℕ} : seq ∈ sharedOf store primary replica ↔
    (∃ bytes, store.link primary.storage seq = some bytes) ∧
      ∃ bytes, store.link replica.storage seq = some bytes := by
  rw [sharedOf, List.mem_filter, decide_eq_true_eq, mem_seqsOf, mem_seqsOf]

/-- A catch-up stops at its probes and leaves everything alone, or both sides agree
at the highest seq they share and the pin is left with a prefix of the pulls. -/
theorem yields_catchUpReplica (apart : replica.storage ≠ primary.storage)
    {outcome : Except String (List ℕ × Except String CatchUp)}
    (run : Yields ChainPerforms (catchUpReplica primary replica (seqsOf store primary.storage)
      (seqsOf store replica.storage)) store outcome final) :
    final = store ∧ Refused outcome ∨
    (∀ last, (sharedOf store primary replica).getLast? = some last →
      ∃ bytes, store.link primary.storage last = some bytes ∧
        store.link replica.storage last = some bytes) ∧
    ∃ taken middle, Pulled primary replica (pullOf store primary replica) taken store middle ∧
      ∀ seq, final.link primary.storage seq = middle.link primary.storage seq := by
  rw [catchUpReplica] at run
  obtain ⟨found, probed, probes, run⟩ | ⟨error, -, probes⟩ := yields_bind.mp run
  · rw [firstContradiction] at probes
    obtain ⟨rfl, found', same, agree⟩ := yields_compareProbes probes
    cases same
    cases found with
    | error text =>
        obtain ⟨rfl, rfl⟩ := yields_done.mp run
        refine .inl ⟨rfl, fun seqs same => ?_⟩
        cases same
    | ok found =>
        cases found with
        | some seq =>
            obtain ⟨rfl, rfl⟩ := yields_done.mp run
            refine .inl ⟨rfl, fun seqs same => ?_⟩
            cases same
        | none =>
            refine .inr ⟨fun last top => agree rfl last ?_, ?_⟩
            · rw [List.mem_dedup, List.mem_append]
              exact .inr (Option.mem_toList.mpr top)
            · have nodup : (pullOf probed primary replica).Nodup :=
                ((seqsOf_sorted replica.storage).filter _).imp Nat.ne_of_lt
              obtain ⟨pulled, middle, pulls, run⟩ | ⟨error, -, pulls⟩ := yields_bind.mp run
              · obtain ⟨taken, ours', result, same, pulled', -⟩ :=
                  yields_pullAll apart nodup (fun seq member => (mem_pullOf.mp member).2) pulls
                cases same
                refine ⟨taken, middle, pulled', ?_⟩
                dsimp only at run
                cases result with
                | error text =>
                    obtain ⟨-, rfl⟩ := yields_done.mp run
                    exact fun _ => rfl
                | ok _ =>
                    obtain ⟨caught, pushed, pushes, run⟩ | ⟨error, -, pushes⟩ := yields_bind.mp run
                    · obtain ⟨-, rfl⟩ := yields_done.mp run
                      exact yields_pushAll apart.symm pushes
                    · exact yields_pushAll apart.symm pushes
              · obtain ⟨_, _, _, same, -⟩ :=
                  yields_pullAll apart nodup (fun seq member => (mem_pullOf.mp member).2) pulls
                cases same
  · rw [firstContradiction] at probes
    obtain ⟨-, _, same, -⟩ := yields_compareProbes probes
    cases same

/-- Where both sides agree, a catch-up may pull every link the pin lacks. -/
theorem catchUpReplica_pulls (primary replica : ReplicaTarget β) (apart : replica.storage ≠ primary.storage)
    (agree : ¬Differ (store.link primary.storage) (store.link replica.storage)) :
    ∃ outcome final, Yields ChainPerforms (catchUpReplica primary replica
        (seqsOf store primary.storage) (seqsOf store replica.storage)) store outcome final ∧
      Pulled primary replica (pullOf store primary replica) (pullOf store primary replica) store final := by
  have nodup : (pullOf store primary replica).Nodup :=
    ((seqsOf_sorted replica.storage).filter _).imp Nat.ne_of_lt
  have missing : ∀ seq ∈ pullOf store primary replica, store.link primary.storage seq = none :=
    fun seq member => (mem_pullOf.mp member).2
  obtain ⟨ours', final, pulls⟩ := pullAll_lands (seqsOf store primary.storage) apart nodup
    missing (fun seq member => (mem_pullOf.mp member).1)
  obtain ⟨taken, ours'', result, same, pulled, all⟩ := yields_pullAll apart nodup missing pulls
  cases same
  rw [all rfl] at pulled
  refine ⟨.ok (ours', .ok .synced), final, ?_, pulled⟩
  rw [catchUpReplica]
  have probes : Yields ChainPerforms (firstContradiction primary replica
      (seqsOf store primary.storage) (seqsOf store replica.storage)) store (.ok (.ok none)) store := by
    rw [firstContradiction]
    refine compareProbes_agrees fun seq member => ?_
    have shared : seq ∈ sharedOf store primary replica := by
      rw [List.mem_dedup, List.mem_append, Option.mem_toList, Option.mem_toList] at member
      obtain first | last := member
      · exact List.mem_of_head? first
      · exact List.mem_of_getLast? last
    obtain ⟨⟨bytes, mine⟩, bytes', theirs⟩ := mem_sharedOf.mp shared
    refine ⟨bytes, mine, ?_⟩
    by_contra differs
    refine agree ⟨seq, bytes, bytes', mine, theirs, ?_⟩
    rintro rfl
    exact differs theirs
  refine yields_bind.mpr (.inl ⟨_, store, probes, ?_⟩)
  refine yields_bind.mpr (.inl ⟨_, final, pulls, ?_⟩)
  exact yields_bind.mpr (.inl ⟨_, final, pushAll_fails _, yields_done.mpr ⟨rfl, rfl⟩⟩)

end CatchUp
section Splices
variable {reader : Reader Bytes} {primary replica : ReplicaTarget β} {store final : ChainStore β Bytes}
variable {whole : ℕ → Option Bytes} {taken : List ℕ}

omit [DecidableEq β] [DecidableEq Bytes] in
/-- Histories that differ somewhere differ at the highest seq they share. -/
theorem agrees_everywhere (collisionFree : Function.Injective reader.sha256Hex)
    (pinValid : ChainValid reader (store.link primary.storage)) (wholeValid : ChainValid reader whole)
    (subset : ∀ seq bytes, store.link replica.storage seq = some bytes → whole seq = some bytes)
    (top : ∀ last, (sharedOf store primary replica).getLast? = some last →
      ∃ bytes, store.link primary.storage last = some bytes ∧
        store.link replica.storage last = some bytes) :
    ¬Differ (store.link primary.storage) (store.link replica.storage) := by
  rintro ⟨seq, bytes, bytes', mine, theirs, differs⟩
  have shared : seq ∈ sharedOf store primary replica := mem_sharedOf.mpr ⟨⟨_, mine⟩, _, theirs⟩
  obtain ⟨last, highest⟩ := Option.isSome_iff_exists.mp
    (List.getLast?_isSome.mpr (List.ne_nil_of_mem shared))
  have ordered : seq ≤ last := by
    have sorted : (sharedOf store primary replica).Pairwise (· < ·) :=
      (seqsOf_sorted primary.storage).filter _
    obtain ⟨before, split⟩ := List.getLast?_eq_some_iff.mp highest
    rw [split, List.mem_append, List.mem_singleton] at shared
    rw [split, List.pairwise_append] at sorted
    obtain earlier | rfl := shared
    · exact (sorted.2.2 seq earlier last (List.mem_singleton_self last)).le
    · exact le_rfl
  obtain ⟨held, mineLast, theirsLast⟩ := top last highest
  have same := pinValid.agree_below collisionFree wholeValid mineLast (subset _ _ theirsLast) ordered
  rw [mine, subset _ _ theirs] at same
  exact differs (Option.some.inj same)

omit [DecidableEq β] [DecidableEq Bytes] in
/-- A prefix of the pulls keeps the pin's chain when the peer runs on from it. -/
theorem Pulled.chainValid (pinValid : ChainValid reader (store.link primary.storage))
    (wholeValid : ChainValid reader whole)
    (subset : ∀ seq bytes, store.link replica.storage seq = some bytes → whole seq = some bytes)
    (runsOn : RunsOn reader (store.link primary.storage) (store.link replica.storage))
    (pulled : Pulled primary replica (pullOf store primary replica) taken store final) :
    ChainValid reader (final.link primary.storage) := by
  have outside {seq : ℕ} {bytes : Bytes} (mine : store.link primary.storage seq = some bytes) :
      final.link primary.storage seq = some bytes := by
    rw [pulled.kept seq, mine]
    intro member
    have lacked := (mem_pullOf.mp (pulled.upTo.subset member)).2
    rw [mine] at lacked
    cases lacked
  intro seq bytes held
  by_cases member : seq ∈ taken
  · obtain ⟨other, theirs, gained⟩ := pulled.gained seq member
    cases held.symm.trans gained
    obtain ⟨link, parsed, numbered, genesis | ⟨before, previous, rfl, stands, named⟩⟩ :=
      wholeValid seq bytes (subset _ _ theirs)
    · exact ⟨link, parsed, numbered, .inl genesis⟩
    · have lacked := (mem_pullOf.mp (pulled.upTo.subset member)).2
      cases mine : store.link primary.storage before with
      | some head =>
          obtain ⟨link', parsed', named'⟩ := runsOn.namesHead before head bytes mine lacked theirs
          cases parsed.symm.trans parsed'
          exact ⟨link, parsed, numbered, .inr ⟨before, head, rfl, outside mine, named'⟩⟩
      | none =>
          have earlier := runsOn.noHole (before + 1) lacked (Option.isSome_of_eq_some theirs) before
            (Nat.lt_succ_self before) mine
          obtain ⟨below, source⟩ := Option.isSome_iff_exists.mp earlier
          cases stands.symm.trans (subset _ _ source)
          -- the pulls are in seq order, so what lies below was taken too
          have asked : before ∈ pullOf store primary replica := mem_pullOf.mpr ⟨⟨_, source⟩, mine⟩
          have took : before ∈ taken := by
            obtain ⟨rest, split⟩ := pulled.upTo
            have sorted : (pullOf store primary replica).Pairwise (· < ·) :=
              (seqsOf_sorted replica.storage).filter _
            rw [← split, List.pairwise_append] at sorted
            rw [← split, List.mem_append] at asked
            obtain here | later := asked
            · exact here
            · have reversed := sorted.2.2 (before + 1) member before later
              omega
          obtain ⟨own, theirs', gained'⟩ := pulled.gained before took
          cases source.symm.trans theirs'
          exact ⟨link, parsed, numbered, .inr ⟨before, previous, rfl, gained', named⟩⟩
  · rw [pulled.kept seq member] at held
    obtain ⟨link, parsed, numbered, genesis | ⟨before, previous, rfl, stands, named⟩⟩ :=
      pinValid seq bytes held
    · exact ⟨link, parsed, numbered, .inl genesis⟩
    · exact ⟨link, parsed, numbered, .inr ⟨before, previous, rfl, outside stands, named⟩⟩

/-- No catch-up splices when the histories differ already or the peer runs on. -/
theorem noSplice_of_runsOn (collisionFree : Function.Injective reader.sha256Hex)
    (apart : replica.storage ≠ primary.storage)
    (pinValid : ChainValid reader (store.link primary.storage)) (wholeValid : ChainValid reader whole)
    (subset : ∀ seq bytes, store.link replica.storage seq = some bytes → whole seq = some bytes)
    (condition : Differ (store.link primary.storage) (store.link replica.storage) ∨
      RunsOn reader (store.link primary.storage) (store.link replica.storage))
    {outcome : Except String (List ℕ × Except String CatchUp)}
    (run : Yields ChainPerforms (catchUpReplica primary replica (seqsOf store primary.storage)
      (seqsOf store replica.storage)) store outcome final) :
    NoSplice reader primary replica store final outcome := by
  obtain ⟨rfl, refused⟩ | ⟨top, taken, middle, pulled, final_⟩ := yields_catchUpReplica apart run
  · exact ⟨pinValid, fun _ _ => id, fun _ _ => .inl, fun _ => ⟨refused, rfl, rfl⟩⟩
  · have agree := agrees_everywhere collisionFree pinValid wholeValid subset top
    have runsOn := condition.resolve_left agree
    have same : final.link primary.storage = middle.link primary.storage := funext final_
    refine ⟨?_, fun seq bytes mine => ?_, fun seq bytes held => ?_, fun differ => absurd differ agree⟩
    · rw [same]
      exact pulled.chainValid pinValid wholeValid subset runsOn
    · rw [same, pulled.kept seq, mine]
      intro member
      have lacked := (mem_pullOf.mp (pulled.upTo.subset member)).2
      rw [mine] at lacked
      cases lacked
    · rw [same] at held
      by_cases member : seq ∈ taken
      · obtain ⟨other, theirs, gained⟩ := pulled.gained seq member
        cases held.symm.trans gained
        exact .inr ⟨theirs, agree⟩
      · exact .inl ((pulled.kept seq member).symm.trans held)

/-- A pin that pulled everything holds a chain only if the peer ran on from it. -/
theorem runsOn_of_noSplice (apart : replica.storage ≠ primary.storage)
    (safe : ∀ outcome final, Yields ChainPerforms (catchUpReplica primary replica
      (seqsOf store primary.storage) (seqsOf store replica.storage)) store outcome final →
        NoSplice reader primary replica store final outcome) :
    Differ (store.link primary.storage) (store.link replica.storage) ∨
      RunsOn reader (store.link primary.storage) (store.link replica.storage) := by
  by_cases agree : Differ (store.link primary.storage) (store.link replica.storage)
  · exact .inl agree
  · obtain ⟨outcome, final, run, pulled⟩ := catchUpReplica_pulls primary replica apart agree
    have valid := (safe outcome final run).valid
    have gained {seq : ℕ} {bytes : Bytes} (lacked : store.link primary.storage seq = none)
        (theirs : store.link replica.storage seq = some bytes) :
        final.link primary.storage seq = some bytes := by
      obtain ⟨other, source, gained⟩ := pulled.gained seq (mem_pullOf.mpr ⟨⟨_, theirs⟩, lacked⟩)
      cases source.symm.trans theirs
      exact gained
    refine .inr ⟨fun seq lacked held below ordered missing => ?_,
      fun head previous bytes mine lacked theirs => ?_⟩
    · obtain ⟨bytes, theirs⟩ := Option.isSome_iff_exists.mp held
      have stands := valid.below (Option.isSome_of_eq_some (gained lacked theirs)) ordered.le
      by_contra absent
      have kept := pulled.kept below fun member =>
        absent (Option.isSome_iff_exists.mpr (mem_pullOf.mp member).1)
      rw [kept, missing] at stands
      cases stands
    · obtain ⟨link, stood, parsed, stands, named⟩ := valid.step (gained lacked theirs)
      have kept := pulled.kept head fun member => by
        have absent := (mem_pullOf.mp member).2
        rw [mine] at absent
        cases absent
      rw [kept, mine] at stands
      cases stands
      exact ⟨link, parsed, named⟩

end Splices

/-- Over every outcome of every request, a catch-up of a gapless hash-valid pin from
links of some hash-valid chain splices nothing exactly when the two already differ at
a seq they share, or the peer's links beyond the pin's head run on from it. -/
theorem catch_up_splices_nothing_iff (reader : Reader Bytes)
    (collisionFree : Function.Injective reader.sha256Hex) (primary replica : ReplicaTarget β)
    (apart : replica.storage ≠ primary.storage) (store : ChainStore β Bytes)
    (pinValid : ChainValid reader (store.link primary.storage)) (whole : ℕ → Option Bytes)
    (wholeValid : ChainValid reader whole)
    (subset : ∀ seq bytes, store.link replica.storage seq = some bytes → whole seq = some bytes) :
    (∀ outcome final, Yields ChainPerforms (catchUpReplica primary replica
      (seqsOf store primary.storage) (seqsOf store replica.storage)) store outcome final →
        NoSplice reader primary replica store final outcome) ↔
    Differ (store.link primary.storage) (store.link replica.storage) ∨
      RunsOn reader (store.link primary.storage) (store.link replica.storage) :=
  ⟨runsOn_of_noSplice apart, fun condition _ _ run =>
    noSplice_of_runsOn collisionFree apart pinValid wholeValid subset condition run⟩

section Samples

def pinned : ReplicaTarget Bool := ⟨false, "a"⟩
def peer : ReplicaTarget Bool := ⟨true, "b"⟩

/-- The chain of the two sample links. -/
def sampleChain : ℕ → Option String
  | 0 => some (linkJson genesisLink)
  | 1 => some (linkJson secondLink)
  | _ => none

theorem genesis_commits (links : ℕ → Option String) :
    Commits sampleReader links 0 (linkJson genesisLink) :=
  ⟨genesisLink, by decide +kernel, rfl, .inl ⟨rfl, rfl⟩⟩

theorem sampleChain_valid : ChainValid sampleReader sampleChain := by
  intro seq bytes held
  match seq, held with
  | 0, held =>
      obtain rfl := Option.some.inj held
      exact genesis_commits sampleChain
  | 1, held =>
      obtain rfl := Option.some.inj held
      exact ⟨secondLink, by decide +kernel, rfl,
        .inr ⟨0, linkJson genesisLink, rfl, rfl, by decide +kernel⟩⟩

/-- The pin holds the genesis link, and the peer the link after it as well. -/
def behind : ChainStore Bool String where
  chains bucket := if bucket then [(0, linkJson genesisLink), (1, linkJson secondLink)]
    else [(0, linkJson genesisLink)]

theorem behind_pin {seq : ℕ} {bytes : String} (held : behind.link false seq = some bytes) :
    seq = 0 ∧ bytes = linkJson genesisLink := by
  match seq, held with
  | 0, held => exact ⟨rfl, (Option.some.inj held).symm⟩

theorem behind_peer {seq : ℕ} {bytes : String} (held : behind.link true seq = some bytes) :
    sampleChain seq = some bytes := by
  match seq, held with
  | 0, held => exact held
  | 1, held => exact held

theorem behind_splices_nothing : RunsOn sampleReader (behind.link false) (behind.link true) ∧
    ∀ outcome final, Yields ChainPerforms (catchUpReplica pinned peer (seqsOf behind false)
      (seqsOf behind true)) behind outcome final →
        NoSplice sampleReader pinned peer behind final outcome := by
  have pinValid : ChainValid sampleReader (behind.link false) := by
    intro seq bytes held
    obtain ⟨rfl, rfl⟩ := behind_pin held
    exact genesis_commits _
  have runsOn : RunsOn sampleReader (behind.link false) (behind.link true) := by
    refine ⟨fun seq lacked held below ordered missing => ?_, fun head previous bytes mine _ theirs => ?_⟩
    · match seq, held with
      | 0, _ => cases lacked
      | 1, _ =>
          obtain rfl := Nat.lt_one_iff.mp ordered
          cases missing
    · obtain ⟨rfl, rfl⟩ := behind_pin mine
      obtain ⟨link, previous, parsed, stands, named⟩ := sampleChain_valid.step (behind_peer theirs)
      obtain rfl := Option.some.inj stands
      exact ⟨link, parsed, named⟩
  exact ⟨runsOn, (catch_up_splices_nothing_iff sampleReader sampleReader_injective pinned peer (by decide)
    behind pinValid sampleChain sampleChain_valid fun _ _ => behind_peer).mpr (.inr runsOn)⟩

/-- The pin holds nothing yet, and the peer only the second link. -/
def holed : ChainStore Bool String where
  chains bucket := if bucket then [(1, linkJson secondLink)] else []

/-- With every request answered, the empty pin pulls a link whose predecessor it does
not hold. -/
theorem hole_pulled : Function.Injective sampleReader.sha256Hex ∧
    ChainValid sampleReader (holed.link false) ∧
    ChainValid sampleReader sampleChain ∧
    (∀ seq bytes, holed.link true seq = some bytes → sampleChain seq = some bytes) ∧
    ∃ outcome final, Yields ChainPerforms (catchUpReplica pinned peer (seqsOf holed false)
      (seqsOf holed true)) holed outcome final ∧
        ¬NoSplice sampleReader pinned peer holed final outcome := by
  have pin (seq : ℕ) : holed.link false seq = none := rfl
  have theirs {seq : ℕ} {bytes : String} (held : holed.link true seq = some bytes) :
      sampleChain seq = some bytes := by
    match seq, held with
    | 1, held => exact held
  refine ⟨sampleReader_injective, nofun, sampleChain_valid, fun _ _ => theirs, ?_⟩
  have agree : ¬Differ (holed.link pinned.storage) (holed.link peer.storage) := by
    rintro ⟨seq, bytes, -, mine, -⟩
    cases mine
  obtain ⟨outcome, final, run, pulled⟩ :=
    catchUpReplica_pulls pinned peer (by decide) agree
  refine ⟨outcome, final, run, fun safe => ?_⟩
  obtain ⟨bytes, -, gained⟩ := pulled.gained 1 (mem_pullOf.mpr ⟨⟨_, rfl⟩, rfl⟩)
  have genesis := safe.valid.below (Option.isSome_of_eq_some gained) (Nat.zero_le 1)
  have missing : final.link pinned.storage 0 = none := pulled.kept 0 fun member => by
    obtain ⟨bytes, held⟩ := (mem_pullOf.mp member).1
    cases held
  rw [missing] at genesis
  cases genesis

end Samples
end Pypiron.Transparency.CatchUpReplica
