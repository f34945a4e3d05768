import Pypiron.Interference
import Pypiron.Origin.Claim
import Pypiron.VersionedCell
import Mathlib.Logic.Relation

/-! The claim object under any number of concurrent calls. A ghost history keeps
each version with the call that wrote it; an observation is truthful when the
history records its state under its etag, and stays so however stale it gets. -/
namespace Pypiron.ClaimLattice
open ClaimM Program

/-- What the claim object's bytes decode to. -/
inductive ClaimBody where
  | state (state : OriginState)
  | malformed
  deriving DecidableEq, Repr

structure Version where
  body : ClaimBody
  writer : Option Nat
  deriving DecidableEq, Repr

/-- Every version of the object so far, by etag. -/
structure History where
  version : Nat → Option Version

instance : Preorder History where
  le before after :=
    ∀ etag version, before.version etag = some version → after.version etag = some version
  le_refl _ _ _ found := found
  le_trans _ _ _ first second etag version found := second etag version (first etag version found)

structure ClaimStore where
  cell : VersionedCell ClaimBody
  history : History
  recorded : ∀ body etag, cell.current = some (body, etag) →
    ∃ writer, history.version etag = some ⟨body, writer⟩
  unissued : ∀ etag, cell.issued ≤ etag → history.version etag = none

namespace ClaimStore

def write (store : ClaimStore) (thread : Nat) (state : OriginState) : ClaimStore where
  cell := store.cell.write (.state state)
  history := ⟨Function.update store.history.version store.cell.issued
    (some ⟨.state state, some thread⟩)⟩
  recorded := by
    intro body etag current
    simp only [VersionedCell.write, Option.some.injEq, Prod.mk.injEq] at current
    obtain ⟨rfl, rfl⟩ := current
    exact ⟨some thread, by simp⟩
  unissued := by
    intro etag beyond
    simp only [VersionedCell.write] at beyond
    have later : etag ≠ store.cell.issued := by omega
    simpa [later] using store.unissued etag (by omega)

theorem le_write (store : ClaimStore) (thread : Nat) (state : OriginState) :
    store.history ≤ (store.write thread state).history := by
  intro etag version found
  have issued : etag ≠ store.cell.issued := by
    rintro rfl
    rw [store.unissued _ le_rfl] at found
    cases found
  simpa [write, issued] using found

theorem history_write (store : ClaimStore) (thread : Nat) (state : OriginState) :
    (store.write thread state).history.version store.cell.issued =
      some ⟨.state state, some thread⟩ := by
  simp [write]

def observation (store : ClaimStore) : Except String (Option OriginObservation) :=
  match store.cell.get with
  | none => .ok none
  | some (.state state, etag) => .ok (some ⟨state, etag⟩)
  | some (.malformed, _) => .error "invalid origin claim"

/-- One storage call of `thread`; `listed` answers a listing. -/
def execute (store : ClaimStore) (thread : Nat) (listed : Bool) :
    (op : ClaimOp) → op.Ans × ClaimStore
  | .readObservation => (store.observation, store)
  | .putIfNoneMatch state =>
    if store.cell.get.isNone then (.ok (some store.cell.issued), store.write thread state)
    else (.ok none, store)
  | .putIfMatch etag state =>
    if store.cell.get.map (·.2) = some etag then
      (.ok (some store.cell.issued), store.write thread state)
    else (.ok none, store)
  | .packageHasTruth => (.ok listed, store)
  | .hasPendingWrite => (.ok listed, store)
  | .hasPendingReplicationNotes => (.ok listed, store)

end ClaimStore

def failed (text : String) : (op : ClaimOp) → op.Ans
  | .readObservation => .error text
  | .putIfNoneMatch _ => .error text
  | .putIfMatch _ _ => .error text
  | .packageHasTruth => .error text
  | .hasPendingWrite => .error text
  | .hasPendingReplicationNotes => .error text

/-- A storage call is answered, fails outright, or takes effect and is reported
as failed. -/
inductive Performs (thread : Nat) (store : ClaimStore) (op : ClaimOp) :
    op.Ans → ClaimStore → Prop where
  | answered (listed : Bool) :
      Performs thread store op (store.execute thread listed op).1
        (store.execute thread listed op).2
  | failed (text : String) : Performs thread store op (failed text op) store
  | lost (text : String) (listed : Bool) :
      Performs thread store op (failed text op) (store.execute thread listed op).2

inductive ClaimCall where
  | claimOrigin (request : ClaimRequest)
  | demoteObservedMirror (observed : OriginObservation)
  | releaseObservedEmptyMirror (observed : OriginObservation)
  | ensurePrivateOrigin
  | ensureMirrorOrigin
  | releaseObservedForRepurpose (observed : OriginObservation)
  | restoreReleasedForRepurpose (original : OriginState) (unclaimed : OriginObservation)
  deriving DecidableEq, Repr

inductive ClaimOutcome where
  | claim (claim : Claim)
  | observed (observed : Option OriginObservation)
  | ensured
  | owner (origin : Origin)
  deriving DecidableEq, Repr

def ClaimCall.program (pkg : String) : ClaimCall → ClaimM ClaimOutcome
  | .claimOrigin request => do return .claim (← Pypiron.claimOrigin pkg request)
  | .demoteObservedMirror observed => do
    return .observed (← Pypiron.demoteObservedMirror observed)
  | .releaseObservedEmptyMirror observed => do
    return .observed (← Pypiron.releaseObservedEmptyMirror observed)
  | .ensurePrivateOrigin => do
    Pypiron.ensurePrivateOrigin pkg
    return .ensured
  | .ensureMirrorOrigin => do return .owner (← Pypiron.ensureMirrorOrigin pkg)
  | .releaseObservedForRepurpose observed => do
    return .observed (← Pypiron.releaseObservedForRepurpose pkg observed)
  | .restoreReleasedForRepurpose original unclaimed => do
    Pypiron.restoreReleasedForRepurpose pkg original unclaimed
    return .ensured

/-- The object versions a call was handed, possibly long ago. -/
def ClaimCall.hints : ClaimCall → List OriginObservation
  | .claimOrigin request => request.unclaimed.toList
  | .demoteObservedMirror observed => [observed]
  | .releaseObservedEmptyMirror observed => [observed]
  | .ensurePrivateOrigin => []
  | .ensureMirrorOrigin => []
  | .releaseObservedForRepurpose observed => [observed]
  | .restoreReleasedForRepurpose _ unclaimed => [unclaimed]

/-- The history records this state under this etag. -/
def Truthful (history : History) (observed : OriginObservation) : Prop :=
  ∃ writer, history.version observed.etag = some ⟨.state observed.state, writer⟩

/-- The version was written by this call. -/
def WroteBy (thread : Nat) (history : History) (state : OriginState) (etag : Nat) : Prop :=
  history.version etag = some ⟨.state state, some thread⟩

/-- The permitted changes of the object's content, by the call that makes one. -/
inductive Legal (call : ClaimCall) : Option ClaimBody → OriginState → Prop where
  | create : target ≠ .unclaimed → Legal call none target
  | claim : target ≠ .unclaimed → Legal call (some (.state .unclaimed)) target
  | demote : Legal call (some (.state .mirror)) .priv
  | release : Legal call (some (.state .mirror)) .unclaimed
  | operatorRelease (observed) : call = .releaseObservedForRepurpose observed →
      Legal call (some (.state .priv)) .unclaimed

structure ClaimConfig where
  store : ClaimStore
  threads : Nat → Option (ClaimCall × ClaimM ClaimOutcome)

/-- Any stored claim and no call started yet. -/
def ClaimConfig.initial (store : ClaimStore) : ClaimConfig := ⟨store, fun _ => none⟩

/-- A call starts with hints that were true at some time, or a started call makes
its next storage call. A call that is never scheduled again has crashed. -/
inductive Step (pkg : String) : ClaimConfig → ClaimConfig → Prop where
  | start {config thread call} : config.threads thread = none →
      (∀ observed ∈ call.hints, Truthful config.store.history observed) →
      Step pkg config
        { config with threads := Function.update config.threads thread (some (call, call.program pkg)) }
  | perform {config thread call op next answer store} :
      config.threads thread = some (call, .call op next) →
      Performs thread config.store op answer store →
      Step pkg config ⟨store, Function.update config.threads thread (some (call, next answer))⟩

abbrev Reaches (pkg : String) : ClaimConfig → ClaimConfig → Prop :=
  Relation.ReflTransGen (Step pkg)

section Rules
variable (call : ClaimCall) (thread : Nat)

/-- Every write a call issues names a version whose content it may change. -/
def permits (history : History) : ClaimOp → Prop
  | .putIfNoneMatch state => state ≠ .unclaimed
  | .putIfMatch etag state =>
    ∃ version, history.version etag = some version ∧ Legal call (some version.body) state
  | _ => True

/-- What an answer tells about the history. -/
def learns (history : History) : (op : ClaimOp) → op.Ans → Prop
  | .readObservation, .ok (some observed) => Truthful history observed
  | .putIfNoneMatch state, .ok (some etag) => WroteBy thread history state etag
  | .putIfMatch _ state, .ok (some etag) => WroteBy thread history state etag
  | _, _ => True

abbrev ClaimLawful {α : Type} (post : History → Except String α → Prop) :
    History → ClaimM α → Prop :=
  Lawful (permits call) (fun _ => learns thread) post

/-- A claim reported with an etag was written by this call. -/
def Claimed (history : History) : Except String Claim → Prop
  | .ok ⟨owner, some etag⟩ => WroteBy thread history owner etag
  | _ => True

def Observed (history : History) : Except String (Option OriginObservation) → Prop
  | .ok (some observed) => WroteBy thread history observed.state observed.etag
  | _ => True

def Reported (history : History) : Except String ClaimOutcome → Prop
  | .ok (.claim claim) => Claimed thread history (.ok claim)
  | .ok (.observed observed) => Observed thread history (.ok observed)
  | _ => True

end Rules

section Lawful
variable {call : ClaimCall} {thread : Nat} {α : Type} {history : History}
variable {post : History → Except String α → Prop}

theorem Truthful.mono (truthful : Truthful history observed) (grows : history ≤ later) :
    Truthful later observed := by
  obtain ⟨writer, found⟩ := truthful
  exact ⟨writer, grows _ _ found⟩

theorem WroteBy.truthful (wrote : WroteBy thread history state etag) :
    Truthful history ⟨state, etag⟩ := ⟨some thread, wrote⟩

/-- A single storage call hands on its answer and what the answer tells. -/
theorem lawful_call (op : ClaimOp) (finish : op.Ans → ClaimM α)
    (permitted : ∀ later, history ≤ later → permits call later op)
    (finishes : ∀ later answer, history ≤ later → learns thread later op answer →
      ClaimLawful call thread post later (finish answer)) :
    ClaimLawful call thread post history (Program.call op finish) :=
  fun now le => ⟨permitted now le, fun later answer grows =>
    finishes later answer (le.trans grows)⟩

theorem lawful_read {rest : Option OriginObservation → ClaimM α}
    (errors : ∀ later text, post later (.error text))
    (lawful : ∀ later, history ≤ later → ∀ observed,
      (∀ o, observed = some o → Truthful later o) →
      ClaimLawful call thread post later (rest observed)) :
    ClaimLawful call thread post history (readOriginObservation >>= rest) := by
  refine lawful_call _ _ (fun _ _ => trivial) fun later answer le told => ?_
  cases answer with
  | error text => exact fun last _ => errors last text
  | ok observed =>
      refine lawful later le observed fun o same => ?_
      subst same
      exact told

theorem lawful_putIfNoneMatch {rest : Option Nat → ClaimM α} (claims : state ≠ .unclaimed)
    (errors : ∀ later text, post later (.error text))
    (lawful : ∀ later, history ≤ later → ∀ etag,
      (∀ e, etag = some e → WroteBy thread later state e) →
      ClaimLawful call thread post later (rest etag)) :
    ClaimLawful call thread post history (putIfNoneMatch state >>= rest) := by
  refine lawful_call _ _ (fun _ _ => claims) fun later answer le told => ?_
  cases answer with
  | error text => exact fun last _ => errors last text
  | ok etag =>
      refine lawful later le etag fun e same => ?_
      subst same
      exact told

theorem lawful_putIfMatch {rest : Option Nat → ClaimM α} {observed : OriginObservation}
    (truthful : Truthful history observed) (legal : Legal call (some (.state observed.state)) state)
    (errors : ∀ later text, post later (.error text))
    (lawful : ∀ later, history ≤ later → ∀ etag,
      (∀ e, etag = some e → WroteBy thread later state e) →
      ClaimLawful call thread post later (rest etag)) :
    ClaimLawful call thread post history (putIfMatch observed.etag state >>= rest) := by
  refine lawful_call _ _ (fun later le => ?_) fun later answer le told => ?_
  · obtain ⟨writer, found⟩ := truthful
    exact ⟨_, le _ _ found, legal⟩
  cases answer with
  | error text => exact fun last _ => errors last text
  | ok etag =>
      refine lawful later le etag fun e same => ?_
      subst same
      exact told

/-- A listing tells nothing about the claim. -/
theorem lawful_listing {listing : ClaimM Bool}
    (listed : listing = packageHasTruth ∨ listing = hasPendingWrite ∨
      listing = hasPendingReplicationNotes) :
    ClaimLawful call thread (fun _ _ => True) history listing := by
  rcases listed with rfl | rfl | rfl <;>
    exact lawful_call _ _ (fun _ _ => trivial) fun _ _ _ _ _ _ => trivial

theorem lawful_done {result : Except String α}
    (holds : ∀ later, history ≤ later → post later result) :
    ClaimLawful call thread post history (done result) := holds

theorem claimed_error (later : History) (text : String) : Claimed thread later (.error text) :=
  trivial

theorem observed_error (later : History) (text : String) : Observed thread later (.error text) :=
  trivial

theorem lawful_claimed (wrote : WroteBy thread history state etag) :
    ClaimLawful call thread (Claimed thread) history (pure ⟨state, some etag⟩) :=
  lawful_done fun _ le => le _ _ wrote

theorem lawful_claimLoop (pkg : String) (claims : target ≠ .unclaimed) (attempts : Nat) :
    ClaimLawful call thread (Claimed thread) history (claimLoop pkg target attempts) := by
  induction attempts generalizing history with
  | zero => exact lawful_done fun later _ => claimed_error later _
  | succ attempts ih =>
      refine lawful_putIfNoneMatch claims claimed_error fun created _ etag wrote => ?_
      cases etag with
      | some etag => exact lawful_claimed (wrote etag rfl)
      | none =>
          refine lawful_read claimed_error fun read _ observed truthful => ?_
          cases observed with
          | none => exact lawful_done fun later _ => claimed_error later _
          | some observed =>
              by_cases free : observed.state = .unclaimed
              · simp only [free, if_true]
                refine lawful_putIfMatch (truthful observed rfl) (free ▸ .claim claims)
                  claimed_error fun swapped _ etag wrote => ?_
                cases etag with
                | some etag => exact lawful_claimed (wrote etag rfl)
                | none => exact ih
              · simp only [free, if_false]
                exact lawful_done fun _ _ => trivial

theorem claimTarget_cases (value : String) :
    (∃ text, claimTarget value = bail text) ∨
      ∃ target, target ≠ .unclaimed ∧ claimTarget value = pure target := by
  unfold claimTarget
  split
  · exact .inl ⟨_, rfl⟩
  · exact .inl ⟨_, rfl⟩
  · rename_i state claims _
    refine .inr ⟨state, ?_, rfl⟩
    rintro rfl
    exact claims rfl

theorem lawful_claimOrigin (pkg : String) (request : ClaimRequest)
    (truthful : ∀ observed, request.unclaimed = some observed → Truthful history observed) :
    ClaimLawful call thread (Claimed thread) history (claimOrigin pkg request) := by
  unfold claimOrigin
  obtain ⟨text, refused⟩ | ⟨target, claims, accepted⟩ := claimTarget_cases request.origin
  · rw [refused]
    exact lawful_done fun later _ => claimed_error later _
  · rw [accepted, pure_eq, bind_ok]
    cases hint : request.unclaimed with
    | none => exact lawful_claimLoop pkg claims claimAttempts
    | some observed =>
        by_cases free : observed.state = .unclaimed
        · simp only [free, ne_eq, not_true, if_false]
          refine lawful_putIfMatch (truthful observed hint) (free ▸ .claim claims)
            claimed_error fun swapped _ etag wrote => ?_
          cases etag with
          | some etag => exact lawful_claimed (wrote etag rfl)
          | none => exact lawful_claimLoop pkg claims claimAttempts
        · simp only [free, ne_eq, not_false_iff, if_true]
          exact lawful_done fun later _ => claimed_error later _

theorem lawful_observed (wrote : ∀ e, etag = some e → WroteBy thread history state e) :
    ClaimLawful call thread (Observed thread) history
      (pure (etag.map fun e => (⟨state, e⟩ : OriginObservation))) := by
  cases etag with
  | none => exact lawful_done fun _ _ => trivial
  | some etag => exact lawful_done fun _ le => le _ _ (wrote etag rfl)

theorem lawful_demote (truthful : Truthful history observed) :
    ClaimLawful call thread (Observed thread) history (demoteObservedMirror observed) := by
  unfold demoteObservedMirror
  by_cases mirror : observed.state = .mirror
  · simp only [mirror, ne_eq, not_true, if_false]
    exact lawful_putIfMatch truthful (mirror ▸ .demote) observed_error
      fun swapped _ etag wrote => lawful_observed wrote
  · simp only [mirror, ne_eq, not_false_iff, if_true]
    exact lawful_done fun _ _ => trivial

theorem lawful_releaseEmpty (truthful : Truthful history observed) :
    ClaimLawful call thread (Observed thread) history (releaseObservedEmptyMirror observed) := by
  unfold releaseObservedEmptyMirror
  by_cases mirror : observed.state = .mirror
  · simp only [mirror, ne_eq, not_true, if_false]
    refine (lawful_listing (.inl rfl)).bind (fun _ _ _ _ => trivial) fun listed le truth _ => ?_
    cases truth with
    | true => exact lawful_done fun _ _ => trivial
    | false =>
        exact lawful_putIfMatch (truthful.mono le) (mirror ▸ .release) observed_error
          fun swapped _ etag wrote => lawful_observed wrote
  · simp only [mirror, ne_eq, not_false_iff, if_true]
    exact lawful_done fun _ _ => trivial

theorem lawful_orAsk {ask : ClaimM Bool}
    (asks : ClaimLawful call thread (fun _ _ => True) history ask) (known : Bool) :
    ClaimLawful call thread (fun _ _ => True) history (orAsk known ask) := by
  cases known with
  | true => exact lawful_done fun _ _ => trivial
  | false => exact asks

/-- A preflight that returns an observation returns a truthful one. -/
theorem lawful_releasable (pkg : String) :
    ClaimLawful call thread (fun later result => ∀ observed, result = .ok (some observed) →
      Truthful later observed) history (releasableForRepurpose pkg) := by
  refine lawful_read (by simp) fun read _ observed truthful => ?_
  refine (lawful_listing (.inl rfl)).bind (by simp) fun listed fromRead truth _ => ?_
  refine (lawful_listing (.inr (.inl rfl))).bind (by simp) fun pended fromListed pending _ => ?_
  refine (lawful_orAsk (lawful_listing (.inr (.inr rfl))) _).bind (by simp)
    fun noted fromPended active _ => ?_
  cases active with
  | true => exact lawful_done fun _ _ => by simp
  | false =>
      refine lawful_done fun last beyond o same => ?_
      simp only [Except.ok.injEq] at same
      exact (truthful o same).mono
        (fromRead.trans (fromListed.trans (fromPended.trans beyond)))

theorem lawful_activityAppeared :
    ClaimLawful call thread (fun _ _ => True) history activityAppeared := by
  refine (lawful_listing (.inl rfl)).bind (by simp) fun listed _ truth _ => ?_
  refine lawful_orAsk ?_ truth
  refine (lawful_listing (.inr (.inl rfl))).bind (by simp) fun pended _ pending _ => ?_
  exact lawful_orAsk (lawful_listing (.inr (.inr rfl))) pending

/-- Only here is a private claim consumed; the rollback is an ordinary claim of
the sentinel this call wrote. -/
theorem lawful_releaseForRepurpose (pkg : String) (observed : OriginObservation) :
    ClaimLawful (.releaseObservedForRepurpose observed) thread (Observed thread) history
      (releaseObservedForRepurpose pkg observed) := by
  unfold releaseObservedForRepurpose
  by_cases free : observed.state = .unclaimed
  · rw [if_pos free]
    exact lawful_done fun _ _ => trivial
  rw [if_neg free]
  refine (lawful_releasable pkg).bind (fun _ _ _ _ => trivial) fun checked _ current truthful => ?_
  cases current with
  | none => exact lawful_done fun _ _ => trivial
  | some current =>
  by_cases same : current = observed
  · subst same
    simp only [ne_eq, not_true, if_false]
    have legal : Legal (.releaseObservedForRepurpose current) (some (.state current.state))
        .unclaimed := by
      cases held : current.state with
      | unclaimed => exact absurd held free
      | mirror => exact .release
      | priv => exact .operatorRelease current rfl
    refine lawful_putIfMatch (truthful current rfl) legal observed_error
      fun swapped _ etag wrote => ?_
    cases etag with
    | none => exact lawful_done fun _ _ => trivial
    | some etag =>
    have sentinel := wrote etag rfl
    refine lawful_activityAppeared.attempt fun relisted grows result _ => ?_
    have restores : ClaimLawful (.releaseObservedForRepurpose current) thread (Claimed thread)
        relisted (claimOrigin pkg ⟨current.state.asStr, some ⟨.unclaimed, etag⟩⟩) := by
      refine lawful_claimOrigin pkg _ ?_
      rintro _ ⟨⟩
      exact sentinel.truthful.mono grows
    match result with
    | .error text =>
        refine restores.attempt fun later _ result _ => ?_
        cases result <;> exact lawful_done fun _ _ => trivial
    | .ok true =>
        exact restores.bind (fun _ _ _ _ => trivial) fun _ _ _ _ => lawful_done fun _ _ => trivial
    | .ok false => exact lawful_done fun last le => le _ _ (grows _ _ sentinel)
  · simp only [ne_eq, same, not_false_iff, if_true]
    exact lawful_done fun _ _ => trivial

theorem lawful_restoreReleased (pkg : String) (original : OriginState)
    (truthful : Truthful history unclaimed) :
    ClaimLawful call thread (fun _ _ => True) history
      (restoreReleasedForRepurpose pkg original unclaimed) := by
  unfold restoreReleasedForRepurpose
  refine (lawful_claimOrigin pkg ⟨original.asStr, some unclaimed⟩ ?_).bind
    (fun _ _ _ _ => trivial) fun claimed _ restored _ => ?_
  · rintro _ ⟨⟩
    exact truthful
  by_cases kept : restored.owner = original ∨ (original = .mirror ∧ restored.owner = .priv)
  · simp only [kept, if_true]
    exact lawful_done fun _ _ => trivial
  by_cases raced : original = .priv ∧ restored.owner = .mirror
  · simp only [if_neg kept, if_pos raced]
    refine lawful_read (by simp) fun read _ observed truthful => ?_
    cases filtered : observed.filter (·.state = .mirror) with
    | none => exact lawful_done fun _ _ => trivial
    | some mirror =>
        have seen : observed = some mirror := (Option.filter_eq_some_iff.mp filtered).1
        refine (lawful_demote (truthful mirror seen)).bind (fun _ _ _ _ => trivial) ?_
        intro demoted _ result _
        cases result <;> exact lawful_done fun _ _ => trivial
  · simp only [if_neg kept, if_neg raced]
    exact lawful_done fun _ _ => trivial

theorem lawful_ensurePrivate (pkg : String) (attempts : Nat) :
    ClaimLawful call thread (fun _ _ => True) history (ensurePrivateLoop pkg attempts) := by
  induction attempts generalizing history with
  | zero => exact lawful_done fun _ _ => trivial
  | succ attempts ih =>
      refine lawful_read (by simp) fun read _ observed truthful => ?_
      have retry : ∀ later (settled : Prop) [Decidable settled], ClaimLawful call thread
          (fun _ _ => True) later (if settled then pure () else ensurePrivateLoop pkg attempts) := by
        intro later settled _
        split
        · exact lawful_done fun _ _ => trivial
        · exact ih
      cases observed with
      | none =>
          exact (lawful_claimOrigin pkg ⟨"private", none⟩ (by simp)).bind
            (fun _ _ _ _ => trivial) fun later _ _ _ => retry later _
      | some observed =>
          dsimp only
          split
          · exact lawful_done fun _ _ => trivial
          · exact (lawful_demote (truthful observed rfl)).bind (fun _ _ _ _ => trivial)
              fun later _ _ _ => retry later _
          · exact (lawful_claimOrigin pkg ⟨"private", some observed⟩ truthful).bind
              (fun _ _ _ _ => trivial) fun later _ _ _ => retry later _

theorem lawful_ensureMirror (pkg : String) (attempts : Nat) :
    ClaimLawful call thread (fun _ _ => True) history (ensureMirrorLoop pkg attempts) := by
  induction attempts generalizing history with
  | zero => exact lawful_done fun _ _ => trivial
  | succ attempts ih =>
      refine lawful_read (by simp) fun read _ observed truthful => ?_
      split
      · exact lawful_done fun _ _ => trivial
      · exact lawful_done fun _ _ => trivial
      · refine (lawful_claimOrigin pkg _ fun o hinted => ?_).bind
          (fun _ _ _ _ => trivial) fun later _ claim _ => ?_
        · exact truthful o (Option.filter_eq_some_iff.mp hinted).1
        · split
          · exact lawful_done fun _ _ => trivial
          · exact lawful_done fun _ _ => trivial
          · exact ih

/-- A call that returns an observation reports it as it is. -/
theorem lawful_report {program : ClaimM (Option OriginObservation)}
    (lawful : ClaimLawful call thread (Observed thread) history program) :
    ClaimLawful call thread (Reported thread) history
      (program >>= fun observed => pure (.observed observed)) := by
  refine lawful.bind (fun _ _ _ _ => trivial) fun later _ observed wrote => ?_
  refine lawful_done fun last le => ?_
  cases observed with
  | none => trivial
  | some observed => exact le _ _ wrote

theorem lawful_program (pkg : String) (call : ClaimCall)
    (truthful : ∀ observed ∈ call.hints, Truthful history observed) :
    ClaimLawful call thread (Reported thread) history (call.program pkg) := by
  cases call with
  | claimOrigin request =>
      refine (lawful_claimOrigin pkg request fun observed hinted => ?_).bind
        (fun _ _ _ _ => trivial) fun later _ claim claimed => lawful_done fun last le => ?_
      · exact truthful observed (by simp [ClaimCall.hints, hinted])
      · rcases claim with ⟨owner, _ | etag⟩
        · trivial
        · exact le _ _ claimed
  | demoteObservedMirror observed =>
      exact lawful_report (lawful_demote (truthful observed (by simp [ClaimCall.hints])))
  | releaseObservedEmptyMirror observed =>
      exact lawful_report (lawful_releaseEmpty (truthful observed (by simp [ClaimCall.hints])))
  | ensurePrivateOrigin =>
      exact (lawful_ensurePrivate pkg _).bind (fun _ _ _ _ => trivial)
        fun _ _ _ _ => lawful_done fun _ _ => trivial
  | ensureMirrorOrigin =>
      exact (lawful_ensureMirror pkg _).bind (fun _ _ _ _ => trivial)
        fun _ _ _ _ => lawful_done fun _ _ => trivial
  | releaseObservedForRepurpose observed =>
      exact lawful_report (lawful_releaseForRepurpose pkg observed)
  | restoreReleasedForRepurpose original unclaimed =>
      exact (lawful_restoreReleased pkg original
        (truthful unclaimed (by simp [ClaimCall.hints]))).bind (fun _ _ _ _ => trivial)
        fun _ _ _ _ => lawful_done fun _ _ => trivial

end Lawful

section Runs
variable {pkg : String} {config next last : ClaimConfig} {call : ClaimCall} {thread : Nat}
variable {store after : ClaimStore} {op : ClaimOp}

/-- What one storage call does to the object: nothing, or one legal change. -/
def Changes (call : ClaimCall) (thread : Nat) (store after : ClaimStore) : Prop :=
  after = store ∨ ∃ state, Legal call store.cell.value state ∧ after = store.write thread state

theorem execute_changes (permitted : permits call store.history op) (listed : Bool) :
    Changes call thread store (store.execute thread listed op).2 := by
  cases op with
  | putIfNoneMatch state =>
      simp only [ClaimStore.execute]
      split
      · rename_i missing
        have empty : store.cell.value = none :=
          VersionedCell.value_of_get_none (Option.isNone_iff_eq_none.mp missing)
        exact .inr ⟨state, empty ▸ .create permitted, rfl⟩
      · exact .inl rfl
  | putIfMatch etag state =>
      simp only [ClaimStore.execute]
      split
      · rename_i matched
        obtain ⟨⟨body, found⟩, current, rfl⟩ := Option.map_eq_some_iff.mp matched
        obtain ⟨version, recorded, legal⟩ := permitted
        obtain ⟨writer, written⟩ := store.recorded body found current
        obtain rfl := Option.some.inj (written.symm.trans recorded)
        rw [← VersionedCell.value_of_get current] at legal
        exact .inr ⟨state, legal, rfl⟩
      · exact .inl rfl
  | readObservation => exact .inl rfl
  | packageHasTruth => exact .inl rfl
  | hasPendingWrite => exact .inl rfl
  | hasPendingReplicationNotes => exact .inl rfl

theorem execute_learns (listed : Bool) : learns thread (store.execute thread listed op).2.history op
    (store.execute thread listed op).1 := by
  cases op with
  | readObservation =>
      simp only [ClaimStore.execute, ClaimStore.observation]
      split
      · trivial
      · rename_i state etag found
        exact store.recorded _ _ found
      · trivial
  | putIfNoneMatch state =>
      simp only [ClaimStore.execute]
      split
      · exact store.history_write thread state
      · trivial
  | putIfMatch etag state =>
      simp only [ClaimStore.execute]
      split
      · exact store.history_write thread state
      · trivial
  | packageHasTruth => trivial
  | hasPendingWrite => trivial
  | hasPendingReplicationNotes => trivial

theorem failed_learns (text : String) (history : History) (op : ClaimOp) :
    learns thread history op (failed text op) := by
  cases op <;> trivial

theorem Performs.changes (performed : Performs thread store op answer after)
    (permitted : permits call store.history op) : Changes call thread store after := by
  cases performed with
  | answered listed => exact execute_changes permitted listed
  | failed text => exact .inl rfl
  | lost text listed => exact execute_changes permitted listed

theorem Performs.learns (performed : Performs thread store op answer after) :
    learns thread after.history op answer := by
  cases performed with
  | answered listed => exact execute_learns listed
  | failed text => exact failed_learns text _ op
  | lost text listed => exact failed_learns text _ op

theorem Changes.grows (changes : Changes call thread store after) :
    store.history ≤ after.history := by
  obtain rfl | ⟨state, -, rfl⟩ := changes
  · exact le_rfl
  · exact store.le_write thread state

/-- The invariant of a run: every started call is lawful from here on. -/
def AllLawful (config : ClaimConfig) : Prop :=
  ∀ thread call program, config.threads thread = some (call, program) →
    ClaimLawful call thread (Reported thread) config.store.history program

/-- A step either starts a call or makes one legal change, and keeps every call
lawful. -/
theorem step_spec (lawful : AllLawful config) (step : Step pkg config next) :
    AllLawful next ∧ (next.store = config.store ∨ ∃ thread call program,
      config.threads thread = some (call, program) ∧
        Changes call thread config.store next.store) := by
  cases step with
  | @start thread call free truthful =>
      refine ⟨fun other called program running => ?_, .inl rfl⟩
      by_cases here : other = thread
      · subst here
        simp only [Function.update_self, Option.some.injEq, Prod.mk.injEq] at running
        obtain ⟨rfl, rfl⟩ := running
        exact lawful_program pkg _ truthful
      · exact lawful other called program (by simpa [here] using running)
  | @perform thread call op rest answer store running performed =>
      obtain ⟨permitted, resumes⟩ := lawful thread call _ running _ le_rfl
      have changes := performed.changes permitted
      refine ⟨fun other called program found => ?_, .inr ⟨thread, call, _, running, changes⟩⟩
      by_cases here : other = thread
      · subst here
        simp only [Function.update_self, Option.some.injEq, Prod.mk.injEq] at found
        obtain ⟨rfl, rfl⟩ := found
        exact resumes _ answer changes.grows performed.learns
      · exact (lawful other called program (by simpa [here] using found)).mono changes.grows

theorem reaches_lawful (run : Reaches pkg (.initial store) last) : AllLawful last := by
  induction run with
  | refl =>
      intro thread call program running
      cases running
  | tail _ step ih => exact (step_spec ih step).1

/-- A step that changes the object makes one legal change, by a running call. -/
theorem step_legal (lawful : AllLawful config) (step : Step pkg config next)
    (changed : next.store.cell.current ≠ config.store.cell.current) :
    ∃ thread call program state, config.threads thread = some (call, program) ∧
      Legal call config.store.cell.value state ∧
      next.store.cell.value = some (.state state) := by
  obtain same | ⟨thread, call, program, running, same | ⟨state, legal, wrote⟩⟩ :=
    (step_spec lawful step).2
  · exact absurd (same ▸ rfl) changed
  · exact absurd (same ▸ rfl) changed
  · exact ⟨thread, call, program, state, running, legal, wrote ▸ rfl⟩

theorem step_present (lawful : AllLawful config) (step : Step pkg config next)
    (present : config.store.cell.value ≠ none) : next.store.cell.value ≠ none := by
  by_cases changed : next.store.cell.current = config.store.cell.current
  · rwa [VersionedCell.value, changed]
  · obtain ⟨thread, call, program, state, -, -, wrote⟩ := step_legal lawful step changed
    simp [wrote]

theorem reaches_present (lawful : AllLawful config) (run : Reaches pkg config last)
    (present : config.store.cell.value ≠ none) :
    AllLawful last ∧ last.store.cell.value ≠ none := by
  induction run with
  | refl => exact ⟨lawful, present⟩
  | tail _ step ih => exact ⟨(step_spec ih.1 step).1, step_present ih.1 step ih.2⟩

/-- The claim object in every run of any number of concurrent calls. Once
created it is never absent again; every change of the object is a legal one; a
private claim is left only by an operator release; and an etag a finished call
reports names the version that very call wrote. -/
theorem claim_lattice (pkg : String) (store : ClaimStore) (config : ClaimConfig)
    (run : Reaches pkg (.initial store) config) :
    (∀ later, Reaches pkg config later → config.store.cell.value ≠ none →
      later.store.cell.value ≠ none) ∧
    (∀ next, Step pkg config next → next.store.cell.current ≠ config.store.cell.current →
      ∃ thread call program state, config.threads thread = some (call, program) ∧
        Legal call config.store.cell.value state ∧
        next.store.cell.value = some (.state state)) ∧
    (∀ next, Step pkg config next → config.store.cell.value = some (.state .priv) →
      next.store.cell.current ≠ config.store.cell.current →
      ∃ thread observed program,
        config.threads thread = some (.releaseObservedForRepurpose observed, program) ∧
        next.store.cell.value = some (.state .unclaimed)) ∧
    (∀ thread call outcome, config.threads thread = some (call, .done (.ok outcome)) →
      (∀ owner etag, outcome = .claim ⟨owner, some etag⟩ →
        config.store.history.version etag = some ⟨.state owner, some thread⟩) ∧
      ∀ observed, outcome = .observed (some observed) →
        config.store.history.version observed.etag =
          some ⟨.state observed.state, some thread⟩) := by
  have lawful := reaches_lawful run
  refine ⟨fun later more present => (reaches_present lawful more present).2,
    fun next step => step_legal lawful step, fun next step terminal changed => ?_,
    fun thread call outcome finished => ?_⟩
  · obtain ⟨thread, call, program, state, running, legal, wrote⟩ := step_legal lawful step changed
    rw [terminal] at legal
    cases legal with
    | operatorRelease observed released =>
        exact ⟨thread, observed, program, released ▸ running, wrote⟩
  · have reported := lawful thread call _ finished config.store.history le_rfl
    refine ⟨fun owner etag same => ?_, fun observed same => ?_⟩
    · subst same
      exact reported
    · subst same
      exact reported

/-- A bucket whose package was never claimed. -/
def unclaimedStore : ClaimStore where
  cell := .empty
  history := ⟨fun _ => none⟩
  recorded := by simp [VersionedCell.empty]
  unissued := by simp

def mirrorClaim : ClaimCall := .claimOrigin ⟨"mirror", none⟩

def privateClaim : ClaimCall := .claimOrigin ⟨"private", none⟩

/-- The same bucket with two claims started. -/
def claiming : ClaimConfig where
  store := unclaimedStore
  threads := Function.update (Function.update (fun _ => none) 0 (some (mirrorClaim, mirrorClaim.program "demo")))
    1 (some (privateClaim, privateClaim.program "demo"))

/-- The mirror claim has created the object, and the private one has been told of it. -/
def MirrorClaimed (config : ClaimConfig) : Prop :=
  config.store = unclaimedStore.write 0 .mirror ∧
    config.threads 0 = some (mirrorClaim, .done (.ok (.claim ⟨.mirror, some 0⟩))) ∧
    config.threads 1 = some (privateClaim, .done (.ok (.claim ⟨.mirror, none⟩)))

theorem mirrorClaimed_reached : ∃ config, Reaches "demo" (.initial unclaimedStore) config ∧
    MirrorClaimed config := by
  have first : Step "demo" (.initial unclaimedStore)
      ⟨unclaimedStore, Function.update (fun _ => none) 0 (some (mirrorClaim, mirrorClaim.program "demo"))⟩ :=
    .start rfl (by simp [mirrorClaim, ClaimCall.hints])
  have second : Step "demo" ⟨unclaimedStore,
      Function.update (fun _ => none) 0 (some (mirrorClaim, mirrorClaim.program "demo"))⟩ claiming :=
    .start rfl (by simp [privateClaim, ClaimCall.hints])
  have begun : Reaches "demo" (.initial unclaimedStore) claiming := (Relation.ReflTransGen.single first).tail second
  have creates := begun.tail (@Step.perform "demo" claiming 0 _ _ _ _ _ rfl (.answered false))
  have refused := creates.tail (@Step.perform "demo" _ 1 _ _ _ _ _ rfl (.answered false))
  have told := refused.tail (@Step.perform "demo" _ 1 _ _ _ _ _ rfl (.answered false))
  exact ⟨_, told, rfl, rfl, rfl⟩

theorem mirrorClaimed_lattice : ∃ config, MirrorClaimed config ∧
    config.store.history.version 0 = some ⟨.state .mirror, some 0⟩ ∧
    ∀ later, Reaches "demo" config later → later.store.cell.value ≠ none := by
  obtain ⟨config, reached, claimed⟩ := mirrorClaimed_reached
  obtain ⟨present, -, -, reported⟩ := claim_lattice "demo" unclaimedStore config reached
  refine ⟨config, claimed, (reported 0 _ _ claimed.2.1).1 .mirror 0 rfl, fun later run => ?_⟩
  exact present later run (by simp [claimed.1, ClaimStore.write])

end Runs
end Pypiron.ClaimLattice
