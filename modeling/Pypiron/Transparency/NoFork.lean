import Pypiron.Transparency

/-! The chain never forks. Over a fixed fleet that starts consistent every pass
finds its peers in agreement, so every leader that may append has the same
arbiter, the first bucket, and its pin already holds every link the fleet started
with. A new link is thus new to the whole fleet, and create-if-absent settles the
race for it. -/
namespace Pypiron.Transparency
open Program ThreadPool
variable {β Bytes : Type} [DecidableEq β] [DecidableEq Bytes]

def storages (fleet : List (ReplicaTarget β)) : List β := fleet.map (·.storage)

section Consistency
variable (codec : Codec Bytes) (fleet : List (ReplicaTarget β)) (store : ChainStore β Bytes)

/-- Buckets that hold a link at the same seq hold the same bytes there. -/
def Agree : Prop :=
  ∀ bucket ∈ storages fleet, ∀ bucket' ∈ storages fleet, ∀ seq bytes bytes',
    store.link bucket seq = some bytes → store.link bucket' seq = some bytes' → bytes = bytes'

/-- The bytes are a link for `seq` that commits to the bytes some bucket holds at
the seq before it; the genesis link commits to nothing. -/
def ChainedOnto (seq : ℕ) (bytes : Bytes) : Prop :=
  ∃ link, codec.linkBytes link = .ok bytes ∧ link.seq = seq ∧
    ((seq = 0 ∧ link.prevSha256 = "") ∨ ∃ bucket ∈ storages fleet, ∃ before previous,
      seq = before + 1 ∧ store.link bucket before = some previous ∧
      link.prevSha256 = codec.sha256Hex previous)

/-- The fleet's chains are one chain. -/
structure Consistent : Prop where
  agree : Agree fleet store
  chained : ∀ bucket ∈ storages fleet, ∀ seq bytes, store.link bucket seq = some bytes →
    ChainedOnto codec fleet store seq bytes

end Consistency

/-- Any leaders with any write pins over one fleet that starts consistent. -/
structure ChainRun (codec : Codec Bytes) (fleet : List (ReplicaTarget β))
    (run : ℕ → ChainConfig β Bytes) : Prop where
  trace : Trace (chain codec) run
  idle : ∀ thread, (run 0).threads thread = none
  oneFleet : ∀ now thread call program, (run now).threads thread = some (call, program) →
    call.fleet = fleet
  consistent : Consistent codec fleet (run 0).store

section Rules
variable (codec : Codec Bytes) (fleet : List (ReplicaTarget β)) (run : ℕ → ChainConfig β Bytes)

def Held (now : ℕ) (bucket : β) (seq : ℕ) (bytes : Bytes) : Prop :=
  (run now).store.link bucket seq = some bytes

/-- Every link the fleet did not start with is on the first bucket. -/
def Anchored (now : ℕ) : Prop :=
  ∀ bucket ∈ storages fleet, ∀ seq bytes, Held run now bucket seq bytes →
    (∃ bucket' ∈ storages fleet, ∃ bytes', Held run 0 bucket' seq bytes') ∨
    ∃ first bytes', (storages fleet).head? = some first ∧ Held run now first seq bytes'

def Sound (now : ℕ) : Prop := Consistent codec fleet (run now).store ∧ Anchored fleet run now

/-- A link is copied from a bucket that holds it, or is new to the fleet and goes
to the first bucket. -/
def Permits (now : ℕ) : ChainOp β Bytes → Prop
  | .putIfNoneMatch bucket seq bytes => bucket ∈ storages fleet ∧
      ((∃ bucket' ∈ storages fleet, Held run now bucket' seq bytes) ∨
        ((storages fleet).head? = some bucket ∧
          (∀ bucket' ∈ storages fleet, ∀ bytes', ¬Held run 0 bucket' seq bytes') ∧
          ChainedOnto codec fleet (run now).store seq bytes))
  | _ => True

def rules : Contract (ChainCall β) (ChainOp β Bytes) String Bool where
  permits _ _ _ := Permits codec fleet run
  post _ _ _ _ _ := True

end Rules

section Links
variable {store store' : ChainStore β Bytes} {bucket : β} {seq : ℕ} {bytes : Bytes}

omit [DecidableEq Bytes] in
theorem link_create (store : ChainStore β Bytes) (bucket bucket' : β) (seq seq' : ℕ) (bytes : Bytes) :
    (store.create bucket seq bytes).link bucket' seq' =
      if bucket' = bucket ∧ seq' = seq then some bytes else store.link bucket' seq' := by
  unfold ChainStore.create ChainStore.link
  by_cases here : bucket' = bucket
  · subst here
    by_cases same : seq' = seq
    · simp [same]
    · have differs : (seq' == seq) = false := beq_false_of_ne same
      simp [List.lookup_cons, differs, same]
  · simp [here]

omit [DecidableEq β] [DecidableEq Bytes] in
theorem link_ne_none : store.link bucket seq ≠ none ↔ seq ∈ (store.chains bucket).map (·.1) := by
  unfold ChainStore.link
  rw [ne_eq, List.lookup_eq_none_iff]
  simp only [bne_iff_ne, ne_eq, not_forall, not_not, List.mem_map]
  constructor
  · rintro ⟨entry, member, same⟩
    exact ⟨entry, member, same.symm⟩
  · rintro ⟨entry, member, same⟩
    exact ⟨entry, member, same.symm⟩

omit [DecidableEq Bytes] in
/-- An operation leaves every chain as it is or creates an absent link. -/
theorem performs_cases (performs : ChainPerforms store op answer store') :
    store' = store ∨ ∃ bucket seq bytes, op = .putIfNoneMatch bucket seq bytes ∧
      store.link bucket seq = none ∧ store' = store.create bucket seq bytes := by
  cases performs with
  | created missing | createLost missing => exact .inr ⟨_, _, _, rfl, missing, rfl⟩
  | listed | listFailed | got _ | getFailed | occupied _ | createFailed | generation | clock =>
      exact .inl rfl

omit [DecidableEq Bytes] in
theorem performs_listAll (performs : ChainPerforms store (.listAll bucket) (.ok seqs) store') :
    seqs = (store.chains bucket).map (·.1) := by
  cases performs
  rfl

omit [DecidableEq Bytes] in
theorem performs_getBytes (performs : ChainPerforms store (.getBytes bucket seq) (.ok bytes) store') :
    store.link bucket seq = some bytes := by
  cases performs with
  | got held => exact held

omit [DecidableEq Bytes] in
theorem performs_put
    (performs : ChainPerforms store (.putIfNoneMatch bucket seq bytes) (.ok (some etag)) store') :
    store'.link bucket seq = some bytes := by
  cases performs with
  | created missing => rw [link_create, if_pos ⟨rfl, rfl⟩]

end Links

namespace ChainRun
variable {codec : Codec Bytes} {fleet : List (ReplicaTarget β)} {run : ℕ → ChainConfig β Bytes}
variable {now later : ℕ} {bucket : β} {seq : ℕ} {bytes : Bytes}

/-- What one instant does to the chains. -/
theorem store_step (chainRun : ChainRun codec fleet run) (now : ℕ) :
    (run (now + 1)).store = (run now).store ∨ ∃ thread call bucket seq bytes answer,
      Performed (chain codec) run thread now call (.putIfNoneMatch bucket seq bytes) answer ∧
      (run now).store.link bucket seq = none ∧
      (run (now + 1)).store = (run now).store.create bucket seq bytes := by
  obtain ⟨thread, call, op, answer, performed⟩ | ⟨_, _, _, next⟩ | ⟨impossible, _⟩ |
    ⟨_, _, _, next, _⟩ | next := chainRun.trace.cases now
  · have ⟨_, _, performs, _⟩ := performed
    obtain same | ⟨bucket, seq, bytes, rfl, missing, wrote⟩ := performs_cases performs
    · exact .inl same
    · exact .inr ⟨thread, call, bucket, seq, bytes, answer, performed, missing, wrote⟩
  · exact .inl (by rw [next, Config.setThread_store])
  · exact impossible.elim
  · exact .inl next
  · exact .inl (by rw [next])

/-- Links are immutable and never removed. -/
theorem held_mono (chainRun : ChainRun codec fleet run) (held : Held run now bucket seq bytes)
    (le : now ≤ later) : Held run later bucket seq bytes := by
  induction later, le using Nat.le_induction with
  | base => exact held
  | succ later le ih =>
      obtain same | ⟨_, _, target, target', _, _, _, missing, wrote⟩ := chainRun.store_step later
      · rw [Held, same]
        exact ih
      · rw [Held, wrote, link_create, if_neg]
        · exact ih
        · rintro ⟨rfl, rfl⟩
          rw [Held, missing] at ih
          cases ih

theorem chainedOnto_mono (chainRun : ChainRun codec fleet run)
    (onto : ChainedOnto codec fleet (run now).store seq bytes) (le : now ≤ later) :
    ChainedOnto codec fleet (run later).store seq bytes := by
  obtain ⟨link, serialized, numbered, genesis | ⟨bucket, member, before, previous, next, held, sha⟩⟩ :=
    onto
  · exact ⟨link, serialized, numbered, .inl genesis⟩
  · exact ⟨link, serialized, numbered,
      .inr ⟨bucket, member, before, previous, next, chainRun.held_mono held le, sha⟩⟩

end ChainRun
section Calls
variable {codec : Codec Bytes} {fleet : List (ReplicaTarget β)} {run : ℕ → ChainConfig β Bytes}
variable {thread now later : ℕ} {call : ChainCall β} {bucket : β} {seq : ℕ} {bytes : Bytes}
variable {primary replica pin peer : ReplicaTarget β} {ours theirs seqs : List ℕ}

omit [DecidableEq β] [DecidableEq Bytes] in
theorem mem_storages (member : primary ∈ fleet) : primary.storage ∈ storages fleet :=
  List.mem_map_of_mem member

variable (codec fleet run thread call)

/-- Programs of a leader under the rules. -/
abbrev Keeps {α : Type} (holds : ℕ → α → Prop) (now : ℕ) (program : ChainM β Bytes α) : Prop :=
  Lawful (Permits codec fleet run)
    (Answered (chain codec) run (Sound codec fleet run) thread call) (Lawful.Yields holds) now program

/-- The bucket holds a link at each of the seqs. -/
def HoldsAll (now : ℕ) (bucket : β) (seqs : List ℕ) : Prop :=
  ∀ seq ∈ seqs, ∃ bytes, Held run now bucket seq bytes

variable {codec fleet run thread call}

theorem HoldsAll.mono (chainRun : ChainRun codec fleet run) (all : HoldsAll run now bucket seqs)
    (le : now ≤ later) : HoldsAll run later bucket seqs := by
  intro seq member
  obtain ⟨bytes, held⟩ := all seq member
  exact ⟨bytes, chainRun.held_mono held le⟩

/-- A listing covers what the bucket held when it was asked for. -/
theorem keeps_listAll (chainRun : ChainRun codec fleet run) :
    Keeps codec fleet run thread call (fun later answer => ∀ seqs, answer = .ok seqs →
      HoldsAll run later bucket seqs ∧ ∀ seq bytes, Held run now bucket seq bytes → seq ∈ seqs) now
      (listAll bucket) := by
  intro before le
  refine ⟨trivial, ?_⟩
  rintro later answer grows ⟨-, instant, asked, rfl, next, -, performs, -⟩
  refine Lawful.yield_done fun final beyond known same seqs ok => ?_
  cases same
  subst ok
  have listed := performs_listAll performs
  refine ⟨fun seq member => ?_, fun seq bytes held => ?_⟩
  · rw [listed, ← link_ne_none] at member
    obtain ⟨bytes, held⟩ := Option.ne_none_iff_exists'.mp member
    exact ⟨bytes, chainRun.held_mono held (by omega)⟩
  · have there : Held run instant bucket seq bytes := chainRun.held_mono held (by omega)
    rw [listed, ← link_ne_none, there]
    simp

/-- A link that was read is the one every bucket holds at that seq. -/
theorem keeps_getBytes (chainRun : ChainRun codec fleet run) (member : bucket ∈ storages fleet) :
    Keeps codec fleet run thread call (fun later answer => ∀ bytes, answer = .ok bytes →
      Held run later bucket seq bytes ∧ ∀ bucket' ∈ storages fleet, ∀ bytes',
        Held run now bucket' seq bytes' → bytes' = bytes) now (getBytes bucket seq) := by
  intro before le
  refine ⟨trivial, ?_⟩
  rintro later answer grows ⟨sound, instant, asked, rfl, next, -, performs, -⟩
  refine Lawful.yield_done fun final beyond known same bytes ok => ?_
  cases same
  subst ok
  have held : Held run (instant + 1) bucket seq bytes :=
    chainRun.held_mono (performs_getBytes performs) (Nat.le_succ _)
  refine ⟨chainRun.held_mono held beyond, fun bucket' member' bytes' held' => ?_⟩
  exact sound.1.agree bucket' member' bucket member seq bytes' bytes
    (chainRun.held_mono held' (by omega)) held

theorem keeps_put (chainRun : ChainRun codec fleet run)
    (permitted : ∀ later, now ≤ later →
      Permits codec fleet run later (.putIfNoneMatch bucket seq bytes)) :
    Keeps codec fleet run thread call (fun later answer => ∀ etag, answer = .ok (some etag) →
      Held run later bucket seq bytes) now (putIfNoneMatch bucket seq bytes) := by
  intro before le
  refine ⟨permitted before le, ?_⟩
  rintro later answer grows ⟨-, instant, asked, rfl, next, -, performs, -⟩
  refine Lawful.yield_done fun final beyond known same etag ok => ?_
  cases same
  subst ok
  exact chainRun.held_mono (performs_put performs) beyond

/-- A link some bucket of the fleet holds may be copied anywhere in it. -/
theorem permits_copy (chainRun : ChainRun codec fleet run) (member : bucket ∈ storages fleet)
    (source : ∃ bucket' ∈ storages fleet, Held run now bucket' seq bytes) (later : ℕ)
    (le : now ≤ later) :
    Permits codec fleet run later (.putIfNoneMatch bucket seq bytes) := by
  obtain ⟨bucket', member', held⟩ := source
  exact ⟨member, .inl ⟨bucket', member', chainRun.held_mono held le⟩⟩

theorem keeps_copyLink (chainRun : ChainRun codec fleet run) (member : primary ∈ fleet)
    (source : ∃ bucket' ∈ storages fleet, Held run now bucket' seq bytes) :
    Keeps codec fleet run thread call (fun later copied => copied ≠ .ok .diverged ∧
      (copied = .ok .landed → ∃ bytes', Held run later primary.storage seq bytes')) now
      (copyLink primary seq bytes) := by
  have listed := mem_storages member
  refine Lawful.yield_bind (keeps_put chainRun (permits_copy chainRun listed source))
    fun later le answer created => ?_
  match answer with
  | .error error => exact Lawful.yield_pure fun _ _ => ⟨nofun, nofun⟩
  | .ok (some etag) =>
      exact Lawful.yield_pure fun final beyond =>
        ⟨nofun, fun _ => ⟨bytes, chainRun.held_mono (created etag rfl) beyond⟩⟩
  | .ok none =>
      refine Lawful.yield_bind (keeps_getBytes chainRun listed) fun last le' answer read => ?_
      match answer with
      | .error error => exact Lawful.yield_pure fun _ _ => ⟨nofun, nofun⟩
      | .ok held =>
          obtain ⟨there, unique⟩ := read held rfl
          obtain ⟨bucket', member', source⟩ := source
          have same := unique bucket' member' bytes (chainRun.held_mono source le)
          refine Lawful.yield_pure fun final beyond => ?_
          rw [if_neg (not_not.mpr same.symm)]
          exact ⟨nofun, fun _ => ⟨held, chainRun.held_mono there beyond⟩⟩

/-- Two buckets of the fleet never contradict each other. -/
theorem keeps_compareProbes (chainRun : ChainRun codec fleet run) (member : primary ∈ fleet)
    (member' : replica ∈ fleet) (probes : List ℕ) :
    Keeps codec fleet run thread call (fun _ found => ∀ seq, found ≠ .ok (some seq)) now
      (compareProbes primary replica probes) := by
  induction probes generalizing now with
  | nil => exact Lawful.yield_pure fun _ _ _ => nofun
  | cons seq rest ih =>
      refine Lawful.yield_bind (keeps_getBytes chainRun (mem_storages member))
        fun later le answer read => ?_
      match answer with
      | .error error => exact Lawful.yield_pure fun _ _ _ => nofun
      | .ok mine =>
          refine Lawful.yield_bind (keeps_getBytes chainRun (mem_storages member'))
            fun last le' answer read' => ?_
          match answer with
          | .error error => exact Lawful.yield_pure fun _ _ _ => nofun
          | .ok theirs =>
              have same := (read' theirs rfl).2 _ (mem_storages member) mine (read mine rfl).1
              dsimp only
              rw [if_neg (not_not.mpr same)]
              exact ih

theorem keeps_pullAll (chainRun : ChainRun codec fleet run) (member : primary ∈ fleet)
    (member' : replica ∈ fleet) (all : HoldsAll run now primary.storage ours) (pull : List ℕ) :
    Keeps codec fleet run thread call (fun later (result : List ℕ × Except String Unit) =>
      HoldsAll run later primary.storage result.1 ∧ ours ⊆ result.1 ∧
        (result.2 = .ok () → pull ⊆ result.1)) now (pullAll primary replica pull ours) := by
  induction pull generalizing now ours with
  | nil =>
      exact Lawful.yield_pure fun final beyond =>
        ⟨all.mono chainRun beyond, List.Subset.refl _, fun _ => List.nil_subset _⟩
  | cons seq rest ih =>
      have stop (error : String) (later : ℕ) (le : now ≤ later) :
          Keeps codec fleet run thread call (fun later (result : List ℕ × Except String Unit) =>
            HoldsAll run later primary.storage result.1 ∧ ours ⊆ result.1 ∧
              (result.2 = .ok () → seq :: rest ⊆ result.1)) later (pure (ours, .error error)) :=
        Lawful.yield_pure fun final beyond =>
          ⟨all.mono chainRun (le.trans beyond), List.Subset.refl _, nofun⟩
      refine Lawful.yield_bind (keeps_getBytes chainRun (mem_storages member'))
        fun later le answer read => ?_
      match answer with
      | .error error => exact stop _ later le
      | .ok bytes =>
          refine Lawful.yield_bind (keeps_copyLink chainRun member
            ⟨_, mem_storages member', (read bytes rfl).1⟩) fun last le' copied told => ?_
          match copied with
          | .error error => exact stop _ last (le.trans le')
          | .ok .diverged => exact absurd rfl told.1
          | .ok .landed =>
              have more : HoldsAll run last primary.storage (ours.orderedInsert (· ≤ ·) seq) := by
                intro other inside
                obtain rfl | old := (List.mem_orderedInsert _).mp inside
                · exact told.2 rfl
                · exact all.mono chainRun (le.trans le') other old
              refine (ih more).weaken fun final beyond result yields value same => ?_
              obtain ⟨holds, grew, pulled⟩ := yields value same
              refine ⟨holds, fun other old => grew ((List.mem_orderedInsert _).mpr (.inr old)),
                fun done other inside => ?_⟩
              obtain rfl | old := List.mem_cons.mp inside
              · exact grew ((List.mem_orderedInsert _).mpr (.inl rfl))
              · exact pulled done old

theorem keeps_pushAll (chainRun : ChainRun codec fleet run) (member : primary ∈ fleet)
    (member' : replica ∈ fleet) (push : List ℕ) :
    Keeps codec fleet run thread call (fun _ outcome => outcome = .synced) now
      (pushAll primary replica push) := by
  induction push generalizing now with
  | nil => exact Lawful.yield_pure fun _ _ => rfl
  | cons seq rest ih =>
      refine Lawful.yield_bind (keeps_getBytes chainRun (mem_storages member))
        fun later le answer read => ?_
      match answer with
      | .error error => exact Lawful.yield_pure fun _ _ => rfl
      | .ok bytes =>
          refine Lawful.yield_bind (keeps_copyLink chainRun member'
            ⟨_, mem_storages member, (read bytes rfl).1⟩) fun last le' copied told => ?_
          match copied with
          | .error error => exact Lawful.yield_pure fun _ _ => rfl
          | .ok .diverged => exact absurd rfl told.1
          | .ok .landed => exact ih

theorem keeps_catchUpReplica (chainRun : ChainRun codec fleet run) (member : primary ∈ fleet)
    (member' : replica ∈ fleet) (all : HoldsAll run now primary.storage ours) :
    Keeps codec fleet run thread call (fun later (result : List ℕ × Except String CatchUp) =>
      HoldsAll run later primary.storage result.1 ∧
        ∀ outcome, result.2 = .ok outcome → outcome = .synced ∧ theirs ⊆ result.1) now
      (catchUpReplica primary replica ours theirs) := by
  have stop (error : String) (later : ℕ) (le : now ≤ later) (ours' : List ℕ)
      (all : HoldsAll run later primary.storage ours') :
      Keeps codec fleet run thread call (fun later (result : List ℕ × Except String CatchUp) =>
        HoldsAll run later primary.storage result.1 ∧
          ∀ outcome, result.2 = .ok outcome → outcome = .synced ∧ theirs ⊆ result.1) later
        (pure (ours', .error error)) :=
    Lawful.yield_pure fun final beyond => ⟨all.mono chainRun beyond, nofun⟩
  refine Lawful.yield_bind (keeps_compareProbes chainRun member member' _) fun later le found agrees => ?_
  match found with
  | .error error => exact stop error later le ours (all.mono chainRun le)
  | .ok (some seq) => exact absurd rfl (agrees seq)
  | .ok none =>
      refine Lawful.yield_bind (keeps_pullAll chainRun member member' (all.mono chainRun le) _)
        fun last le' result told => ?_
      obtain ⟨ours', pulled⟩ := result
      obtain ⟨holds, grew, done⟩ := told
      cases pulled with
      | error error => exact stop error last (le.trans le') ours' holds
      | ok =>
          refine Lawful.yield_bind (keeps_pushAll chainRun member member' _)
            fun final beyond outcome synced => ?_
          refine Lawful.yield_pure fun end_ beyond' => ⟨holds.mono chainRun (beyond.trans beyond'), ?_⟩
          rintro outcome' ⟨⟩
          refine ⟨synced, fun seq there => ?_⟩
          by_cases known : seq ∈ ours
          · exact grew known
          · exact done rfl (List.mem_filter.mpr ⟨there, by simpa using known⟩)

omit [DecidableEq β] [DecidableEq Bytes] in
theorem mem_seqSet : seq ∈ seqSet seqs ↔ seq ∈ seqs := by
  rw [seqSet, List.mem_insertionSort, List.mem_dedup]

theorem keeps_chainSeqs (chainRun : ChainRun codec fleet run) :
    Keeps codec fleet run thread call (fun later answer => ∀ seqs, answer = .ok seqs →
      HoldsAll run later bucket seqs ∧ ∀ seq bytes, Held run now bucket seq bytes → seq ∈ seqs) now
      (chainSeqs bucket) := by
  refine Lawful.yield_bind (keeps_listAll chainRun) fun later le answer listed => ?_
  cases answer with
  | error error => exact Lawful.yield_pure fun _ _ => nofun
  | ok seqs =>
      obtain ⟨all, covers⟩ := listed seqs rfl
      refine Lawful.yield_pure fun final beyond => ?_
      rintro seqs' ⟨⟩
      exact ⟨fun seq inside => all.mono chainRun beyond seq (mem_seqSet.mp inside),
        fun seq bytes held => mem_seqSet.mpr (covers seq bytes held)⟩

/-- The pin holds every link that `bucket` started with. -/
def Covers (run : ℕ → ChainConfig β Bytes) (later : ℕ) (pin bucket : β) : Prop :=
  ∀ seq bytes, Held run 0 bucket seq bytes → ∃ bytes', Held run later pin seq bytes'

theorem Covers.mono (chainRun : ChainRun codec fleet run) (covers : Covers run now pin.storage bucket)
    (le : now ≤ later) : Covers run later pin.storage bucket := by
  intro seq bytes held
  obtain ⟨bytes', there⟩ := covers seq bytes held
  exact ⟨bytes', chainRun.held_mono there le⟩

/-- A pass that may append has every peer in sync, and the pin holds what each
peer started with. -/
def Reconciled (run : ℕ → ChainConfig β Bytes) (pin : β) (primary : ℕ)
    (peers : List (ReplicaTarget β × ℕ)) (inSync : List ℕ) (defer : Bool) (later : ℕ)
    (result : List ℕ × Bool) : Prop :=
  result.2 = false → defer = false ∧ inSync ⊆ result.1 ∧ ∀ peer ∈ peers, peer.2 ≠ primary →
    peer.2 ∈ result.1 ∧ Covers run later pin peer.1.storage

theorem keeps_reconcilePeers (chainRun : ChainRun codec fleet run) (member : pin ∈ fleet)
    {peers : List (ReplicaTarget β × ℕ)} (inside : ∀ peer ∈ peers, peer.1 ∈ fleet)
    (all : HoldsAll run now pin.storage ours) :
    Keeps codec fleet run thread call
      (Reconciled run pin.storage position peers inSync defer) now
      (reconcilePeers pin position peers ours inSync defer) := by
  induction peers generalizing now ours inSync defer with
  | nil =>
      exact Lawful.yield_pure fun _ _ kept =>
        ⟨kept, List.Subset.refl _, fun peer impossible => by cases impossible⟩
  | cons item rest ih =>
      obtain ⟨peer, place⟩ := item
      have inside' : ∀ peer ∈ rest, peer.1 ∈ fleet :=
        fun peer there => inside peer (List.mem_cons_of_mem _ there)
      simp only [reconcilePeers]
      split
      next own =>
        refine (ih inside' all).weaken fun last beyond result yields value same kept => ?_
        obtain ⟨agreed, grew, peers⟩ := yields value same kept
        refine ⟨agreed, grew, fun peer there other => ?_⟩
        obtain rfl | there := List.mem_cons.mp there
        · exact absurd own other
        · exact peers peer there other
      next other =>
        refine Lawful.yield_bind (keeps_chainSeqs chainRun) fun later le answer listed => ?_
        -- a pass that has to wait promises nothing
        have waits (later : ℕ) (ours : List ℕ) (all : HoldsAll run later pin.storage ours) :
            Keeps codec fleet run thread call
              (Reconciled run pin.storage position ((peer, place) :: rest) inSync defer) later
              (reconcilePeers pin position rest ours inSync true) := by
          refine (ih inside' all).weaken fun last beyond result yields value same kept => ?_
          exact absurd (yields value same kept).1 (by decide)
        cases answer with
        | error error => exact waits later ours (all.mono chainRun le)
        | ok theirs =>
            refine Lawful.yield_bind (keeps_catchUpReplica chainRun member
              (inside _ List.mem_cons_self) (all.mono chainRun le)) fun next le' result told => ?_
            obtain ⟨ours', outcome⟩ := result
            obtain ⟨all', synced⟩ := told
            cases outcome with
            | error error => exact waits next ours' all'
            | ok outcome =>
                obtain ⟨rfl, covered⟩ := synced outcome rfl
                refine (ih inside' all').weaken fun last beyond result yields value same kept => ?_
                obtain ⟨agreed, grew, peers⟩ := yields value same kept
                refine ⟨agreed, fun place old => grew (List.mem_append_left _ old),
                  fun peer' there other => ?_⟩
                obtain rfl | there := List.mem_cons.mp there
                · refine ⟨grew (by simp), Covers.mono chainRun (fun seq bytes held => ?_) beyond⟩
                  have known := (listed theirs rfl).2 seq bytes (chainRun.held_mono held (Nat.zero_le _))
                  exact all' seq (covered known)
                · exact peers peer' there other

omit [DecidableEq β] [DecidableEq Bytes] in
theorem head_insertionSort {positions : List ℕ} (zero : 0 ∈ positions) :
    (positions.insertionSort (· ≤ ·)).head? = some 0 := by
  have sorted := List.pairwise_insertionSort (· ≤ ·) positions
  have there : 0 ∈ positions.insertionSort (· ≤ ·) := (List.mem_insertionSort _).mpr zero
  generalize positions.insertionSort (· ≤ ·) = ordered at sorted there
  cases ordered with
  | nil => cases there
  | cons first rest =>
      obtain rfl | later := List.mem_cons.mp there
      · rfl
      · have least := List.rel_of_pairwise_cons sorted later
        rw [List.head?_cons, Nat.le_zero.mp least]

/-- A pass that found anything in sync has the first bucket for its arbiter and
holds on its pin every link the fleet started with. -/
theorem keeps_catchUpFleet (chainRun : ChainRun codec fleet run)
    (pinned : fleet[position]? = some pin) :
    Keeps codec fleet run thread call (fun later inSync => inSync ≠ [] →
      inSync.head? = some 0 ∧ ∀ bucket ∈ storages fleet, Covers run later pin.storage bucket) now
      (catchUpFleet fleet position) := by
  have member := List.mem_of_getElem? pinned
  simp only [catchUpFleet, pinned]
  refine Lawful.yield_bind (keeps_chainSeqs chainRun) fun later le answer listed => ?_
  cases answer with
  | error error => exact Lawful.yield_pure fun _ _ nonempty => absurd rfl nonempty
  | ok ours =>
      obtain ⟨all, own⟩ := listed ours rfl
      have inside : ∀ peer ∈ fleet.zipIdx, peer.1 ∈ fleet :=
        fun peer there => List.mem_of_getElem? (List.mem_zipIdx_iff_getElem?.mp there)
      refine Lawful.yield_bind (keeps_reconcilePeers chainRun member inside all)
        fun last le' result told => ?_
      obtain ⟨inSync, defer⟩ := result
      cases defer with
      | true => exact Lawful.yield_pure fun _ _ nonempty => absurd rfl nonempty
      | false =>
          obtain ⟨-, grew, peers⟩ := told rfl
          refine Lawful.yield_pure fun final beyond _ => ⟨head_insertionSort ?_, ?_⟩
          · by_cases first : position = 0
            · exact grew (by simp [first])
            · have positive : 0 < fleet.length :=
                (Nat.zero_le _).trans_lt (List.getElem?_eq_some_iff.mp pinned).1
              have there : (fleet[0], 0) ∈ fleet.zipIdx :=
                List.mem_zipIdx_iff_getElem?.mpr (List.getElem?_eq_getElem positive)
              exact (peers _ there (Ne.symm first)).1
          · intro bucket there
            obtain ⟨target, inside', rfl⟩ := List.mem_map.mp there
            obtain ⟨place, at_⟩ := List.mem_iff_getElem?.mp inside'
            by_cases self : place = position
            · subst self
              rw [pinned] at at_
              cases at_
              refine Covers.mono chainRun (fun seq bytes held => ?_) beyond
              exact all.mono chainRun le' seq (own seq bytes (chainRun.held_mono held (Nat.zero_le _)))
            · exact (peers (target, place) (List.mem_zipIdx_iff_getElem?.mpr at_) self).2.mono chainRun beyond

/-- The head is held, and nothing the bucket held before lies beyond it. -/
theorem keeps_readHead (chainRun : ChainRun codec fleet run) (member : bucket ∈ storages fleet) :
    Keeps codec fleet run thread call (fun later answer => ∀ head, answer = .ok head →
      (∀ seq bytes, head = some (seq, bytes) → Held run later bucket seq bytes) ∧
      ∀ seq bytes, Held run now bucket seq bytes → ∃ last bytes', head = some (last, bytes') ∧
        seq ≤ last) now (readHead bucket) := by
  refine Lawful.yield_bind (keeps_listAll chainRun) fun later le answer listed => ?_
  cases answer with
  | error error => exact Lawful.yield_pure fun _ _ => nofun
  | ok seqs =>
      obtain ⟨-, covers⟩ := listed seqs rfl
      dsimp only
      split
      next nothing =>
        refine Lawful.yield_pure fun final beyond => ?_
        rintro head ⟨⟩
        refine ⟨nofun, fun seq bytes held => ?_⟩
        have known := covers seq bytes held
        rw [List.max?_eq_none_iff.mp nothing] at known
        cases known
      next last greatest =>
        refine Lawful.yield_bind (keeps_getBytes chainRun member) fun read le' answer got => ?_
        cases answer with
        | error error => exact Lawful.yield_pure fun _ _ => nofun
        | ok bytes =>
            refine Lawful.yield_pure fun final beyond => ?_
            rintro head ⟨⟩
            refine ⟨?_, fun seq bytes' held => ⟨last, bytes, rfl, ?_⟩⟩
            · rintro seq bytes' ⟨⟩
              exact chainRun.held_mono (got bytes rfl).1 beyond
            · exact (List.max?_eq_some_iff.mp greatest).2 seq (covers seq bytes' held)

theorem keeps_mirrorLink (chainRun : ChainRun codec fleet run)
    (source : ∃ bucket' ∈ storages fleet, Held run now bucket' seq bytes) (positions : List ℕ) :
    Keeps codec fleet run thread call (fun _ _ => True) now
      (mirrorLink fleet decider seq bytes positions) := by
  induction positions generalizing now with
  | nil => exact Lawful.yield_pure fun _ _ => trivial
  | cons position rest ih =>
      simp only [mirrorLink]
      split
      next => exact ih source
      next =>
        split
        next => exact ih source
        next target listed =>
          refine Lawful.yield_bind (keeps_copyLink chainRun (List.mem_of_getElem? listed) source)
            fun later le _ _ => ?_
          obtain ⟨bucket', member', held⟩ := source
          exact ih ⟨bucket', member', chainRun.held_mono held le⟩

/-- What a link has to be for the append to create it on the first bucket. -/
theorem keeps_createLink (chainRun : ChainRun codec fleet run)
    (arbiter : (storages fleet).head? = some peer.storage)
    (fresh : ∀ bucket ∈ storages fleet, ∀ bytes, ¬Held run 0 bucket seq bytes)
    (onto : (seq = 0 ∧ prevSha256 = "") ∨ ∃ bucket ∈ storages fleet, ∃ before previous,
      seq = before + 1 ∧ Held run now bucket before previous ∧
      prevSha256 = codec.sha256Hex previous) :
    Keeps codec fleet run thread call (fun _ _ => True) now
      (createLink codec fleet inSync decider peer seq prevSha256 delta) := by
  have clock : Keeps codec fleet run thread call (fun _ _ => True) now nowUtc := by
    intro before le
    exact ⟨trivial, fun later answer grows _ => Lawful.yield_done fun _ _ _ _ => trivial⟩
  refine Lawful.yield_bind clock fun later le answer _ => ?_
  cases answer with
  | error error => exact Lawful.yield_pure fun _ _ => trivial
  | ok created =>
      dsimp only
      split
      next => exact Lawful.yield_pure fun _ _ => trivial
      next bytes serialized =>
        have listed : peer.storage ∈ storages fleet := List.mem_of_mem_head? arbiter
        have permitted (last : ℕ) (le' : later ≤ last) :
            Permits codec fleet run last
              (.putIfNoneMatch peer.storage seq bytes) := by
          refine ⟨listed, .inr ⟨arbiter, fresh, ⟨_, serialized, rfl, ?_⟩⟩⟩
          obtain genesis | ⟨bucket, member, before, previous, next, held, sha⟩ := onto
          · exact .inl genesis
          · exact .inr ⟨bucket, member, before, previous, next,
              chainRun.held_mono held (le.trans le'), sha⟩
        refine Lawful.yield_bind (keeps_put chainRun permitted) fun last le' answer landed => ?_
        match answer with
        | .error error => exact Lawful.yield_pure fun _ _ => trivial
        | .ok none => exact Lawful.yield_pure fun _ _ => trivial
        | .ok (some etag) =>
            refine Lawful.yield_bind
              (keeps_mirrorLink chainRun ⟨peer.storage, listed, landed etag rfl⟩ _) fun _ _ _ _ => ?_
            exact Lawful.yield_pure fun _ _ => trivial

theorem keeps_appendChainLink (chainRun : ChainRun codec fleet run)
    (pinned : fleet[position]? = some pin) (first : inSync.head? = some 0)
    (covers : ∀ bucket ∈ storages fleet, Covers run now pin.storage bucket) :
    Keeps codec fleet run thread call (fun _ _ => True) now
      (appendChainLink codec fleet position inSync generation walkHead delta) := by
  simp only [appendChainLink, pinned, first]
  split
  next => exact Lawful.yield_pure fun _ _ => trivial
  next peer listed =>
    have arbiter : (storages fleet).head? = some peer.storage := by
      rw [List.head?_eq_getElem?, storages, List.getElem?_map, listed]
      rfl
    have checked : Keeps codec fleet run thread call (fun _ _ => True) now
        (requireGeneration generation) := by
      intro before le
      exact ⟨trivial, fun later answer grows _ => Lawful.yield_done fun _ _ _ _ => trivial⟩
    refine Lawful.yield_bind checked fun later le answer _ => ?_
    cases answer with
    | error error => exact Lawful.yield_pure fun _ _ => trivial
    | ok =>
    have own := mem_storages (List.mem_of_getElem? pinned)
    refine Lawful.yield_bind (keeps_readHead chainRun own) fun read le' answer found => ?_
    cases answer with
    | error error => exact Lawful.yield_pure fun _ _ => trivial
    | ok head =>
    dsimp only
    split
    next => exact Lawful.yield_pure fun _ _ => trivial
    next =>
    obtain ⟨held, last⟩ := found head rfl
    -- the pin's head is at or past every link the fleet started with
    have fresh (seq : ℕ) (beyond : ∀ place bytes, head = some (place, bytes) → place < seq)
        (bucket : β) (member : bucket ∈ storages fleet) (bytes : Bytes) :
        ¬Held run 0 bucket seq bytes := by
      intro initial
      obtain ⟨bytes', there⟩ := covers bucket member seq bytes initial
      obtain ⟨place, _, same, le⟩ := last seq bytes' (chainRun.held_mono there le)
      exact absurd (beyond place _ same) (Nat.not_lt.mpr le)
    have creates (later : ℕ) (le : read ≤ later) :
        Keeps codec fleet run thread call (fun _ _ => True) later
          (createLink codec fleet inSync 0 peer
            (followedBy (head.map fun found => (found.1, codec.sha256Hex found.2))).1
            (followedBy (head.map fun found => (found.1, codec.sha256Hex found.2))).2 delta) := by
      cases head with
      | none => exact keeps_createLink chainRun arbiter (fresh 0 nofun) (.inl ⟨rfl, rfl⟩)
      | some head =>
          obtain ⟨place, bytes⟩ := head
          refine keeps_createLink chainRun arbiter (fresh (place + 1) ?_) (.inr ?_)
          · rintro place' bytes' ⟨⟩
            exact Nat.lt_succ_self _
          · exact ⟨pin.storage, own, place, bytes, rfl,
              chainRun.held_mono (held place bytes rfl) le, rfl⟩
    split
    next => exact creates read le_rfl
    next =>
      refine Lawful.yield_bind (keeps_readHead chainRun (List.mem_of_mem_head? arbiter))
        fun last le'' answer _ => ?_
      cases answer with
      | error error => exact Lawful.yield_pure fun _ _ => trivial
      | ok head =>
          dsimp only
          split
          next => exact creates last le''
          next => exact Lawful.yield_pure fun _ _ => trivial

/-- Every leader keeps to the rules. -/
theorem keeps_program (chainRun : ChainRun codec fleet run) (same : call.fleet = fleet) :
    Keeps codec fleet run thread call (fun _ _ => True) now ((chain codec).program call) := by
  simp only [chain, writeChainLink, same]
  split
  next => exact Lawful.yield_pure fun _ _ => trivial
  next pin pinned =>
    refine Lawful.yield_bind (keeps_catchUpFleet chainRun pinned) fun later le inSync told => ?_
    split
    next => exact Lawful.yield_pure fun _ _ => trivial
    next =>
      split
      next => exact Lawful.yield_pure fun _ _ => trivial
      next nonempty =>
        obtain ⟨first, covers⟩ := told (by simpa using nonempty)
        exact keeps_appendChainLink chainRun pinned first covers

end Calls

namespace ChainRun
variable {codec : Codec Bytes} {fleet : List (ReplicaTarget β)} {run : ℕ → ChainConfig β Bytes}

omit [DecidableEq β] [DecidableEq Bytes] in
/-- A link new to the first bucket and not among those the fleet started with is
new to the whole fleet. -/
theorem fresh_everywhere (sound : Sound codec fleet run now)
    (arbiter : (storages fleet).head? = some bucket)
    (fresh : ∀ bucket' ∈ storages fleet, ∀ bytes', ¬Held run 0 bucket' seq bytes')
    (missing : (run now).store.link bucket seq = none) (member : bucket' ∈ storages fleet)
    (bytes : Bytes) : ¬Held run now bucket' seq bytes := by
  intro held
  obtain ⟨initial, there, bytes', began⟩ | ⟨first, bytes', same, kept⟩ :=
    sound.2 bucket' member seq bytes held
  · exact fresh initial there bytes' began
  · rw [arbiter] at same
    cases same
    rw [Held, missing] at kept
    cases kept

/-- A permitted create keeps the fleet sound. -/
theorem sound_create (chainRun : ChainRun codec fleet run) (sound : Sound codec fleet run now)
    (permits : Permits codec fleet run now (.putIfNoneMatch bucket seq bytes))
    (missing : (run now).store.link bucket seq = none)
    (wrote : (run (now + 1)).store = (run now).store.create bucket seq bytes) :
    Sound codec fleet run (now + 1) := by
  have link (bucket' : β) (seq' : ℕ) : (run (now + 1)).store.link bucket' seq' =
      if bucket' = bucket ∧ seq' = seq then some bytes else (run now).store.link bucket' seq' := by
    rw [wrote, link_create]
  -- what a bucket holds after the step is the new link or was there before
  have before (bucket' : β) (seq' : ℕ) (bytes' : Bytes) (held : Held run (now + 1) bucket' seq' bytes') :
      (bucket' = bucket ∧ seq' = seq ∧ bytes' = bytes) ∨ Held run now bucket' seq' bytes' := by
    rw [Held, link] at held
    split at held
    next here => exact .inl ⟨here.1, here.2, (Option.some.inj held).symm⟩
    next => exact .inr held
  obtain ⟨member, permitted⟩ := permits
  have rival (bucket' : β) (member' : bucket' ∈ storages fleet) (bytes' : Bytes)
      (held : Held run now bucket' seq bytes') : bytes' = bytes := by
    obtain ⟨source, there, held'⟩ | ⟨arbiter, fresh, -⟩ := permitted
    · exact sound.1.agree bucket' member' source there seq bytes' bytes held held'
    · exact absurd held (fresh_everywhere sound arbiter fresh missing member' bytes')
  have onto : ChainedOnto codec fleet (run now).store seq bytes := by
    obtain ⟨source, there, held⟩ | ⟨-, -, onto⟩ := permitted
    · exact sound.1.chained source there seq bytes held
    · exact onto
  refine ⟨⟨?_, ?_⟩, ?_⟩
  · intro first inside second inside' seq' bytes₁ bytes₂ held₁ held₂
    obtain ⟨rfl, rfl, rfl⟩ | old₁ := before _ _ _ held₁ <;>
      obtain ⟨rfl, same, rfl⟩ | old₂ := before _ _ _ held₂
    · rfl
    · exact (rival second inside' bytes₂ old₂).symm
    · subst same
      exact rival first inside bytes₁ old₁
    · exact sound.1.agree first inside second inside' seq' bytes₁ bytes₂ old₁ old₂
  · intro bucket' inside seq' bytes' held
    obtain ⟨rfl, rfl, rfl⟩ | old := before _ _ _ held
    · exact chainRun.chainedOnto_mono onto (Nat.le_succ now)
    · exact chainRun.chainedOnto_mono (sound.1.chained bucket' inside seq' bytes' old) (Nat.le_succ now)
  · have kept (bucket' : β) (inside : bucket' ∈ storages fleet) (seq' : ℕ) (bytes' : Bytes)
        (held : Held run now bucket' seq' bytes') :
        (∃ bucket' ∈ storages fleet, ∃ bytes', Held run 0 bucket' seq' bytes') ∨
        ∃ first bytes', (storages fleet).head? = some first ∧ Held run (now + 1) first seq' bytes' := by
      obtain initial | ⟨first, bytes'', same, there⟩ := sound.2 bucket' inside seq' bytes' held
      · exact .inl initial
      · exact .inr ⟨first, bytes'', same, chainRun.held_mono there (Nat.le_succ now)⟩
    intro bucket' inside seq' bytes' held
    obtain ⟨rfl, rfl, rfl⟩ | old := before _ _ _ held
    · obtain ⟨source, there, held'⟩ | ⟨arbiter, -, -⟩ := permitted
      · exact kept source there seq' bytes' held'
      · exact .inr ⟨bucket', bytes', arbiter, held⟩
    · exact kept bucket' inside seq' bytes' old

theorem sound (chainRun : ChainRun codec fleet run) (now : ℕ) : Sound codec fleet run now := by
  refine (chainRun.trace.lawful chainRun.idle (rules codec fleet run) ?_ ?_ ?_ now).1
  · exact ⟨chainRun.consistent, fun bucket member seq bytes held =>
      .inl ⟨bucket, member, bytes, held⟩⟩
  · intro now sound permitted
    obtain same | ⟨thread, call, bucket, seq, bytes, answer, performed, missing, wrote⟩ :=
      chainRun.store_step now
    · have link (bucket : β) (seq : ℕ) : (run (now + 1)).store.link bucket seq =
          (run now).store.link bucket seq := by rw [same]
      refine ⟨by rw [same]; exact sound.1, fun bucket member seq bytes held => ?_⟩
      simp only [Held, link] at held ⊢
      exact sound.2 bucket member seq bytes held
    · obtain ⟨start, -, permits⟩ := permitted _ _ _ _ performed
      exact chainRun.sound_create sound permits missing wrote
  · intro thread start call _ task
    refine (keeps_program chainRun (chainRun.oneFleet start thread call _ task)).weaken ?_
    exact fun _ _ _ _ => trivial

end ChainRun

/-- Over a fixed fleet that starts with consistent chains, any interleaving of
any leaders, with any request failing or lost and any leader crashing, keeps the
fleet's chains one chain. -/
theorem chain_never_forks (codec : Codec Bytes) (fleet : List (ReplicaTarget β))
    (run : ℕ → ChainConfig β Bytes) (chainRun : ChainRun codec fleet run) (now : ℕ) :
    Consistent codec fleet (run now).store :=
  (chainRun.sound now).1

section Samples

def quote (text : String) : String := "\"" ++ text ++ "\""

def object (fields : List (String × String)) : String :=
  "\x7b" ++ ",".intercalate (fields.map fun (key, value) => quote key ++ ":" ++ value) ++ "\x7d"

/-- JSON for texts that need no escapes, and a digest without collisions. -/
def plainJson : Codec String where
  linkBytes link := .ok (object [("seq", toString link.seq), ("prev-sha256", quote link.prevSha256),
    ("created", quote link.created), ("packages", object (link.packages.map fun (pkg, files) =>
      (pkg, object (files.map fun (file, sha) => (file, quote sha)))))])
  sha256Hex bytes := "digest of " ++ bytes

def jsonOf (link : ChainLink) : String := (plainJson.linkBytes link).toOption.getD ""

def serveChain (store : ChainStore Bool String) : (op : ChainOp Bool String) →
    op.Ans × ChainStore Bool String
  | .listAll bucket => (Except.ok ((store.chains bucket).map (·.1)), store)
  | .getBytes bucket seq =>
    match store.link bucket seq with
    | some bytes => (Except.ok bytes, store)
    | none => (Except.error "not found", store)
  | .putIfNoneMatch bucket seq bytes =>
    match store.link bucket seq with
    | none => (Except.ok (some "etag"), store.create bucket seq bytes)
    | some _ => (Except.ok none, store)
  | .requireGeneration _ => (Except.ok (), store)
  | .nowUtc => (Except.ok "2024-01-02T00:00:00Z", store)

/-- Every request is answered. -/
def answering (thread : ℕ) : Move (@chain Bool String _ _ plainJson) := .perform thread {
  serve _ := serveChain
  sound := by
    intro thread store op
    show ChainPerforms _ _ _ _
    cases op with
    | listAll bucket => exact .listed
    | requireGeneration generation => exact .generation
    | nowUtc => exact .clock
    | getBytes bucket seq =>
        simp only [serveChain]
        split
        next held => exact .got held
        next => exact .getFailed
    | putIfNoneMatch bucket seq bytes =>
        simp only [serveChain]
        split
        next missing => exact .created missing
        next held => exact .occupied held }

def twoBuckets : List (ReplicaTarget Bool) := [⟨false, "a"⟩, ⟨true, "b"⟩]

def genesis : String := jsonOf ⟨0, "", "2024-01-01T00:00:00Z", [("six", [])]⟩

def second : String :=
  jsonOf ⟨1, "digest of " ++ genesis, "2024-01-02T00:00:00Z", [("six", [("six-1.tar.gz", "cd")])]⟩

/-- A leader whose pin never received the genesis link. -/
def laggard : ChainCall Bool :=
  ⟨twoBuckets, 0, 0, some (0, "digest of " ++ genesis), [("six", [("six-1.tar.gz", "cd")])]⟩

def catchingUp : ℕ → ChainConfig Bool String :=
  replay ⟨⟨fun bucket => if bucket then [(0, genesis)] else []⟩, fun _ => none⟩
    (.start 0 laggard :: List.replicate 11 (answering 0))

theorem catchingUp_run : ChainRun plainJson twoBuckets catchingUp where
  trace := trace_replay _ _
  idle _ := rfl
  oneFleet := by
    refine replay_started (P := fun _ (call : ChainCall Bool) => call.fleet = twoBuckets) (fun _ => rfl) ?_
    intro thread call member
    obtain same | performed := List.mem_cons.mp member
    · cases same
      rfl
    · exact absurd (List.eq_of_mem_replicate performed) nofun
  consistent := by
    have only (bucket : Bool) (seq : ℕ) (bytes : String)
        (held : (catchingUp 0).store.link bucket seq = some bytes) : seq = 0 ∧ bytes = genesis := by
      cases bucket with
      | false => cases held
      | true =>
          cases seq with
          | zero => exact ⟨rfl, (Option.some.inj held).symm⟩
          | succ seq => cases held
    refine ⟨fun bucket _ bucket' _ seq bytes bytes' held held' => ?_, fun bucket _ seq bytes held => ?_⟩
    · rw [(only bucket seq bytes held).2, (only bucket' seq bytes' held').2]
    · obtain ⟨rfl, rfl⟩ := only bucket seq bytes held
      exact ⟨_, rfl, rfl, .inl ⟨rfl, rfl⟩⟩

/-- The leader pulls the genesis link and appends onto it, on both buckets. -/
theorem catchingUp_consistent : (catchingUp 12).store.link false 1 = some second ∧
    (catchingUp 12).store.link true 1 = some second ∧
    Consistent plainJson twoBuckets (catchingUp 12).store :=
  ⟨rfl, rfl, chain_never_forks plainJson twoBuckets catchingUp catchingUp_run 12⟩

end Samples

end Pypiron.Transparency
