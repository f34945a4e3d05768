import Pypiron.Publish.Ownership

/-! What each call owes, followed through its program: an upload deletes only the
body it has created, a delete only under a tombstone it wrote or a mirror claim it
read, the reaper only under a tombstone it saw. -/
namespace Pypiron.Publish
open Program Replicate ThreadPool
variable {site : Site Unit} {md5 : Bytes → String} {labels : Labels} {pkg f g : String}
variable {s s' : Fleet Unit} {op : RecordOp} {answer : op.Ans}

/-! ### Claims -/

theorem ask_bind {α β : Type} (program : StoreM Unit α) (rest : α → StoreM Unit β) :
    ask (program >>= rest) = ask program >>= fun
      | .ok value => ask (rest value)
      | .error error => pure (.error error) := by
  induction program with
  | done result =>
      cases result with
      | ok value => rfl
      | error error => rfl
  | call op next ih =>
      simp only [bind_call, ask, ih]

theorem ask_claim_bind {α : Type} (called : ClaimOp) (rest : called.Val → ClaimM α) :
    ask (StoreM.onClaim () (call called done >>= rest)) = store (.claim () called) >>= fun
      | .ok value => ask (StoreM.onClaim () (rest value))
      | .error error => pure (.error error) := by
  have same : ask (StoreM.onClaim () (call called done)) = store (.claim () called) := rfl
  rw [onClaim_bind, ask_bind, same]
  congr 1
  funext told
  cases told with
  | ok value => rfl
  | error error => rfl

theorem Performs.claim_ok {called : ClaimOp} {value : called.Val}
    (performs : Performs site md5 s (.store (.claim () called)) (.ok value) s') :
    value = (applyClaim s () called).1 ∧ s' = (applyClaim s () called).2 := by
  obtain ⟨told, rfl⟩ := performs.served_ok nofun
  exact ⟨(Except.ok.inj told).symm, rfl⟩

theorem Performs.claim_read {seen : Option OriginObservation}
    (performs : Performs site md5 s (.store (.claim () .readObservation)) (.ok seen) s') :
    seen = claimAt s := performs.claim_ok.1

theorem Performs.claim_created {state : OriginState} {etag : ℕ}
    (performs : Performs site md5 s (.store (.claim () (.putIfNoneMatch state))) (.ok (some etag)) s') :
    claimAt s' = some ⟨state, etag⟩ := by
  obtain ⟨told, rfl⟩ := performs.claim_ok
  simp only [applyClaim] at told ⊢
  split at told
  · cases told
  next absent =>
    cases told
    simp [claimAt, Fleet.setClaim]

theorem Performs.claim_replaced {state : OriginState} {expected etag : ℕ}
    (performs : Performs site md5 s (.store (.claim () (.putIfMatch expected state)))
      (.ok (some etag)) s') : claimAt s' = some ⟨state, etag⟩ := by
  obtain ⟨told, rfl⟩ := performs.claim_ok
  simp only [applyClaim] at told ⊢
  split at told
  · cases told
  next held found =>
    split at told
    next same =>
      cases told
      simp [claimAt, Fleet.setClaim, same]
    next => cases told

theorem issues_announceClaim {node : AppState} {claim : Claim} :
    Issues Aside (fun _ => True) (announceClaim node claim) := by
  unfold announceClaim
  split
  · exact ⟨trivial, fun _ => trivial⟩
  · trivial

section Claim
variable {run : RecordRun site.encoding} {thread start instant : ℕ} {call : RecordCall site.encoding}

/-- The owner a claim reports held the package at some instant. -/
def OwnerSeen (run : RecordRun site.encoding) (later : ℕ) (outcome : Except String Claim) : Prop :=
  ∀ claim, outcome = .ok claim → ClaimSeen run claim.owner later

theorem ownerSeen_error {error : String} : OwnerSeen run instant (.error error) := nofun

theorem safe_claimLoop {target : OriginState} (attempts : ℕ) :
    Safe (records site md5 labels pkg) run thread call start (OwnerSeen run) instant
      (ask (StoreM.onClaim () (claimLoop pkg target attempts))) := by
  induction attempts generalizing instant with
  | zero => exact ownerSeen_error
  | succ attempts ih =>
      rw [claimLoop, ClaimM.putIfNoneMatch, ask_claim_bind]
      refine Secure.bind trivial (safe_store _ fun now _ => ⟨trivial, nofun, nofun, nofun⟩) ?_
      rintro _ _ _ answer ⟨now, rfl, _, performed⟩
      obtain error | created := answer
      · exact ownerSeen_error
      obtain _ | etag := created
      · dsimp only
        rw [ClaimM.readOriginObservation, ask_claim_bind]
        refine Secure.bind trivial (safe_store _ fun now _ => ⟨trivial, nofun, nofun, nofun⟩) ?_
        rintro _ _ _ answer ⟨now', rfl, _, ⟨_, _, read, _⟩⟩
        obtain error | seen := answer
        · exact ownerSeen_error
        have seen_eq := read.claim_read
        obtain _ | ⟨state, etag⟩ := seen
        · exact ownerSeen_error
        dsimp only
        rw [onClaim_ite]
        split
        next unclaimed =>
          rw [ClaimM.putIfMatch, ask_claim_bind]
          refine Secure.bind trivial (safe_store _ fun later quiet => ⟨trivial, nofun, ?_, nofun⟩) ?_
          · rintro etag' state' same
            cases same
            exact ⟨now', (Nat.le_succ _).trans quiet.1, by rw [← unclaimed]; exact seen_eq.symm⟩
          · rintro _ _ _ answer ⟨now'', rfl, _, ⟨_, _, replaced, _⟩⟩
            obtain error | written := answer
            · exact ownerSeen_error
            obtain _ | etag' := written
            · exact ih
            · rintro claim told
              cases told
              exact ⟨now'' + 1, le_rfl, etag', replaced.claim_replaced⟩
        next =>
          rintro claim told
          cases told
          exact ⟨now', Nat.le_succ _, etag, seen_eq.symm⟩
      · rintro claim told
        cases told
        have ⟨_, _, performs, _⟩ := performed
        exact ⟨now + 1, le_rfl, etag, performs.claim_created⟩

/-- The hint that a claim request carries was observed. -/
def HintSeen (run : RecordRun site.encoding) (request : ClaimRequest) (later : ℕ) : Prop :=
  ∀ hint, request.unclaimed = some hint → ∃ now ≤ later, claimAt (run now).store = some hint

theorem safe_claimOrigin {request : ClaimRequest} (hinted : HintSeen run request instant) :
    Safe (records site md5 labels pkg) run thread call start (OwnerSeen run) instant
      (ask (StoreM.onClaim () (claimOrigin pkg request))) := by
  unfold claimOrigin claimTarget
  split
  · exact ownerSeen_error
  · exact ownerSeen_error
  next target _ =>
    simp only [pure_eq, bind_ok]
    split
    · exact safe_claimLoop claimAttempts
    next hint found =>
      split
      · exact ownerSeen_error
      next unclaimed =>
        rw [not_not] at unclaimed
        obtain ⟨seen, before, stood⟩ := hinted hint found
        rw [ClaimM.putIfMatch, ask_claim_bind]
        refine Secure.bind trivial (safe_store _ fun later quiet => ⟨trivial, nofun, ?_, nofun⟩) ?_
        · rintro etag' state' same
          cases same
          exact ⟨seen, before.trans quiet.1, by rw [← unclaimed]; exact stood⟩
        · rintro _ _ _ answer ⟨now, rfl, _, ⟨_, _, replaced, _⟩⟩
          obtain error | written := answer
          · exact ownerSeen_error
          obtain _ | etag := written
          · exact safe_claimLoop claimAttempts
          · rintro claim told
            cases told
            exact ⟨now + 1, le_rfl, etag, replaced.claim_replaced⟩

/-! ### Uploads -/

theorem safe_demand {α : Type} {status : StatusCode} {text : String → String}
    {outcome : Except String α} :
    Safe (records site md5 labels pkg) run thread call start (fun _ value => outcome = .ok value)
      instant (demand status text outcome) := by
  cases outcome with
  | ok value => rfl
  | error error => trivial

theorem safe_refuse {α : Type} {post : ℕ → α → Prop} {status : StatusCode} {detail : String} :
    Safe (records site md5 labels pkg) run thread call start post instant
      (refuse status detail : RecordM α) := trivial

/-- Reading the claim tells what stood there. -/
theorem safe_readOrigin :
    Safe (records site md5 labels pkg) run thread call start (fun later told =>
      ∀ seen, told = .ok seen → ∃ now < later, claimAt (run now).store = seen) instant
      readOriginObservation := by
  refine (safe_store (.claim () .readObservation) fun now _ => ⟨trivial, nofun, nofun, nofun⟩).weaken ?_
  rintro _ _ told ⟨now, rfl, _, ⟨_, _, read, _⟩⟩ seen rfl
  exact ⟨now, Nat.lt_succ_self now, read.claim_read.symm⟩

/-- An upload that is not stopped has seen the claim of its own world, or is the first. -/
theorem safe_checkWorld {node : AppState} {isMirror : Bool} {observed : Option OriginObservation} :
    Safe (records site md5 labels pkg) run thread call start (fun _ _ => isFirstClaim observed = false →
      ∃ etag, observed = some ⟨desiredOrigin isMirror, etag⟩) instant
      (checkWorld node pkg isMirror observed) := by
  unfold checkWorld
  split
  · exact safe_refuse
  · split
    next first =>
      split
      · exact safe_refuse
      · exact fun claimed => absurd first (by simp [claimed])
    next claimed =>
      split
      next owner etag =>
        dsimp only
        split
        next same =>
          subst same
          exact fun _ => ⟨etag, rfl⟩
        · exact safe_refuse
      next => exact absurd rfl claimed

theorem safe_claimFirst {node : AppState} {isMirror : Bool} {observed : Option OriginObservation}
    (seen : ∀ hint, observed = some hint → ∃ now ≤ instant, claimAt (run now).store = some hint) :
    Safe (records site md5 labels pkg) run thread call start
      (fun later _ => ClaimSeen run (desiredOrigin isMirror) later) instant
      (claimFirst node pkg isMirror observed) := by
  have hinted : HintSeen run
      ⟨(desiredOrigin isMirror).asStr, observed.filter (·.state = .unclaimed)⟩ instant := by
    intro hint found
    obtain ⟨stood, _⟩ := Option.filter_eq_some_iff.mp found
    exact seen hint stood
  unfold claimFirst
  refine Secure.bind trivial (safe_claimOrigin hinted) fun later _ _ outcome owned => ?_
  refine Secure.bind trivial safe_demand fun taken le _ claim told => ?_
  have seen := (owned claim told).later le
  split
  · exact Secure.bind trivial (safe_aside (issues_mark .commit)) fun _ _ _ _ _ => safe_refuse
  next same =>
    rw [not_not] at same
    rw [same] at seen
    refine Secure.bind trivial (safe_aside issues_announceClaim) fun announced le _ _ _ => ?_
    replace seen := seen.later le
    split
    · exact seen
    · refine Secure.bind trivial safe_readOrigin fun read le _ told _ => ?_
      replace seen := seen.later le
      refine Secure.bind trivial safe_demand fun checked le _ current _ => ?_
      split
      · exact seen.later le
      · exact Secure.bind trivial (safe_aside (issues_mark .commit)) fun _ _ _ _ _ => safe_refuse

end Claim
/-! ### The stored body -/

section Standing
variable {system : RecordSystem site.encoding} {run : RecordRun site.encoding}
variable {thread start instant created checked later last : ℕ} {call : RecordCall site.encoding}
variable {α : Type} {told : α → Prop} {body : Bytes}

theorem Standing.extend
    (standing : Standing system run thread start f body created checked later)
    (le : later ≤ last) (untouched : Untouched system run thread f created last) :
    Standing system run thread start f body created checked last :=
  { standing with upto := standing.upto.trans_le le, untouched }

theorem Standing.excused
    (standing : Standing system run thread start f body created checked later)
    (quiet : Quiet run thread later last) : Excused system run thread start last f := by
  obtain ⟨landed, lands⟩ := standing.landed
  have before := (standing.before.trans standing.upto).trans_le quiet.1
  exact .own created body landed standing.begun before lands (standing.untouched.quiet quiet)

theorem safe_standing {program : RecordM α} (issues : Issues Aside told program)
    (standing : Standing system run thread start f body created checked instant) :
    Safe system run thread call start (fun later value => told value ∧
      Standing system run thread start f body created checked later) instant program := by
  refine (safe_untouched issues standing.untouched).weaken ?_
  rintro later le value ⟨holds, untouched⟩
  exact ⟨holds, standing.extend le untouched⟩

/-- A call may delete the body it created. -/
theorem Standing.owes_delete
    (standing : Standing system run thread start f body created checked later)
    (quiet : Quiet run thread later last) :
    Owes system run thread start last (.store (.delete () f .body)) where
  allowed := .inl rfl
  excused g same := by
    cases same
    exact standing.excused quiet
  unclaimed _ _ same := nomatch same
  typed _ _ same := nomatch same

end Standing

section Upload
variable {run : RecordRun site.encoding} {thread start instant created checked : ℕ}
variable {call : RecordCall site.encoding} {body : Bytes} {node : AppState}

theorem sizeCheck_ok {key : String} {size : ℕ} {told : Except String (Option Bytes)}
    (ok : sizeCheck key size told = .ok) : ∃ stored, told = .ok (some stored) ∧ stored.length = size := by
  unfold sizeCheck at ok
  split at ok
  · split at ok
    next stored same => exact ⟨stored, rfl, same⟩
    next => cases ok
  · cases ok
  · cases ok

theorem safe_storeArtifactVerified (begun : start ≤ instant) :
    Safe (records site md5 labels pkg) run thread call start (fun later outcome =>
      outcome = .ok true → ∃ created checked,
        Standing (records site md5 labels pkg) run thread start f body created checked later) instant
      (storeArtifactVerified pkg f body body.length) := by
  unfold storeArtifactVerified
  refine Secure.bind trivial (safe_store _ fun now _ => ⟨trivial, nofun, nofun, nofun⟩) ?_
  rintro _ _ _ answer ⟨now, rfl, quiet, performed⟩
  obtain error | landed := answer
  · exact nofun
  cases landed with
  | false => exact nofun
  | true =>
      have ⟨_, _, performs, _⟩ := performed
      obtain ⟨absent, landed, starts, stands⟩ := performs.created
      have lands : Landed (records site md5 labels pkg) run thread now f body landed :=
        ⟨call, .ok true, performed, absent, stands, starts⟩
      have untouched := Untouched.begins (records site md5 labels pkg) run thread now f
      have after : start ≤ now := begun.trans quiet.1
      refine Secure.bind trivial (safe_store _ fun now _ => ⟨trivial, nofun, nofun, nofun⟩) ?_
      rintro _ _ _ answer ⟨head, rfl, still, ⟨next, task, reads, goes⟩⟩
      have headed : Performed (records site md5 labels pkg) run thread head call
          (.store (.get () f .body)) answer := ⟨next, task, reads, goes⟩
      have aside : ¬WritesBody f (.store (.get () f .body)) := by
        rintro (⟨_, same⟩ | same) <;> cases same
      split
      next ok =>
        obtain ⟨stored, rfl, sized⟩ := sizeCheck_ok ok
        obtain ⟨found, _⟩ := reads.get_ok
        refine fun _ => ⟨now, head, after, still.1, Nat.lt_succ_self head, ⟨landed, lands⟩,
          ⟨stored, found.symm, sized⟩, (untouched.quiet still).step headed aside⟩
      next =>
        refine Secure.bind trivial (safe_store _ fun later quiet' => ⟨.inl rfl, ?_, nofun, nofun⟩)
          fun _ _ _ _ _ => nofun
        rintro g same
        cases same
        refine .own now body landed after (by have := still.1; have := quiet'.1; omega) lands ?_
        exact ((untouched.quiet still).step headed aside).quiet quiet'
      next => exact nofun

theorem safe_storeBody {size : ℕ} (begun : start ≤ instant) (sized : size = body.length) :
    Safe (records site md5 labels pkg) run thread call start (fun later _ => ∃ created checked,
        Standing (records site md5 labels pkg) run thread start f body created checked later) instant
      (storeBody pkg f body size) := by
  subst sized
  refine Secure.bind trivial (safe_storeArtifactVerified begun) fun later le _ outcome stored => ?_
  split
  · exact stored rfl
  · exact Secure.bind trivial (safe_aside (issues_mark .commit)) fun _ _ _ _ _ => safe_refuse
  · exact safe_refuse

theorem safe_storeChecksum {hex : String}
    (standing : Standing (records site md5 labels pkg) run thread start f body created checked instant) :
    Safe (records site md5 labels pkg) run thread call start (fun later _ =>
      Standing (records site md5 labels pkg) run thread start f body created checked later) instant
      (storeChecksum node f hex) := by
  have probe : Issues Aside (fun _ => True) (storeContentChecksum f hex) := ⟨trivial, fun _ => trivial⟩
  unfold storeChecksum
  split
  · refine Secure.bind trivial (safe_standing probe standing) fun later le _ answer stood => ?_
    split
    · exact stood.2
    · refine Secure.bind trivial (safe_store _ fun now quiet => stood.2.owes_delete quiet) ?_
      exact fun _ _ _ _ _ => safe_refuse
    · exact stood.2
  · exact standing

end Upload
/-! ### What follows the body -/

section Issues
variable {node : AppState} {encoding : Encoding} {req : PublishRequest encoding}

theorem issues_discard {α : Type} {told : α → Prop} {program : RecordM α}
    (issues : Issues Aside told program) :
    Issues Aside (fun _ => True) (do let _ ← program) := issues.bind fun _ _ => trivial

theorem issues_uploadEpoch {isMirror : Bool} : Issues Aside (fun _ => True) (uploadEpoch isMirror) := by
  unfold uploadEpoch
  split
  · trivial
  · exact ⟨trivial, fun _ => trivial⟩

theorem issues_closed {α : Type} {status : StatusCode} {detail : String} :
    Issues Aside (fun _ => True) (do
      let _ ← mark .commit
      refuse status detail : RecordM α) := (issues_mark .commit).bind fun _ _ => issues_refuse

theorem issues_typeMirror {isMirror : Bool} {sc : Sidecar} {fence : Option OriginObservation} :
    Issues Aside (fun _ => True) (typeMirror site node pkg f isMirror sc fence) := by
  have placed : Issues Aside (fun _ => True) (placeMirrorSidecar site pkg f sc) := by
    have create : Issues Aside (fun _ => True) (store (.putIfAbsent () f .sidecar sc)) :=
      issues_store _ nofun
    refine create.bind fun answer _ => (issues_demand fun _ _ => trivial).bind fun created _ => ?_
    split
    · trivial
    · refine (issues_aside standsAside_installOrVerifyMirrorSidecar).bind fun outcome _ => ?_
      exact (issues_demand fun _ _ => trivial).bind fun _ _ => trivial
  have confirmed : Issues Aside (fun _ => True) (confirmMirrorClaim node pkg fence) := by
    unfold confirmMirrorClaim
    split
    · exact issues_refuse
    · split
      · refine issues_readOrigin.bind fun answer _ => ?_
        refine (issues_demand fun _ _ => trivial).bind fun current _ => ?_
        split
        · trivial
        · exact issues_closed
      · trivial
  unfold typeMirror
  split
  · exact placed.bind fun _ _ => confirmed
  · trivial

theorem issues_storeMetadata : Issues Aside (fun _ => True) (storeMetadata f req) := by
  unfold storeMetadata
  split
  · split
    · refine issues_discard (issues_store _ ?_)
      exact nofun
    · refine issues_discard (issues_store _ ?_)
      exact ⟨trivial, nofun⟩
  · trivial

theorem issues_storeProvenance : Issues Aside (fun _ => True) (storeProvenance f req) := by
  unfold storeProvenance
  split
  · refine issues_discard (issues_store _ ?_)
    exact nofun
  · trivial

theorem issues_checkWriteFence {expected : Option OriginObservation} :
    Issues Aside (fun _ => True) (checkWriteFence pkg expected) := by
  unfold checkWriteFence
  split
  · trivial
  · refine issues_readOrigin.bind fun answer _ => ?_
    refine (issues_demand fun _ _ => trivial).bind fun current _ => ?_
    split
    · trivial
    · exact issues_closed

end Issues

theorem fencedByMarkers_false {tombstoned frozen : Bool}
    (unfenced : fencedByMarkers tombstoned frozen = false) : tombstoned = false := by
  cases tombstoned <;> cases frozen <;> simp_all [fencedByMarkers, classifyRecord]

section Published
variable {run : RecordRun site.encoding} {thread start instant created checked fenced later last : ℕ}
variable {call : RecordCall site.encoding} {body : Bytes} {node : AppState}

theorem safe_headExists {k : Kind} :
    Safe (records site md5 labels pkg) run thread call start (fun later answer =>
      ∀ there, answer = .ok there → ∃ now, later = now + 1 ∧ instant ≤ now ∧
        there = ((run now).store.read () f k).isSome) instant (headExists f k) := by
  refine Secure.bind trivial (safe_store (.get () f k) fun now _ => ⟨trivial, nofun, nofun, nofun⟩) ?_
  rintro _ _ _ answer ⟨now, rfl, quiet, ⟨_, _, reads, _⟩⟩ there told
  obtain error | found := answer
  · cases told
  · cases told
    exact ⟨now, rfl, quiet.1, by rw [reads.get_ok.1]⟩

theorem issues_headExists {k : Kind} : Issues Aside (fun _ => True) (headExists f k) :=
  (issues_store (.get () f k) trivial).bind fun _ _ => trivial

theorem issues_filenameFenced : Issues Aside (fun _ => True) (filenameFenced f) := by
  refine issues_headExists.bind fun answer _ => ?_
  split
  · trivial
  · refine issues_headExists.bind fun answer _ => ?_
    split
    · trivial
    · trivial

theorem safe_filenameFenced :
    Safe (records site md5 labels pkg) run thread call start (fun later outcome =>
      outcome = .ok false → ∃ fenced, instant ≤ fenced ∧ fenced < later ∧
        ¬Tombstoned (run fenced).store f) instant (filenameFenced f) := by
  refine Secure.bind trivial safe_headExists fun _ le _ answer read => ?_
  split
  · exact nofun
  next tombstoned =>
    obtain ⟨now, rfl, after, there⟩ := read tombstoned rfl
    refine Secure.bind trivial safe_headExists fun later le _ answer _ => ?_
    split
    · exact nofun
    · intro same
      have down := fencedByMarkers_false (Except.ok.inj same)
      refine ⟨now, after, le, ?_⟩
      unfold Tombstoned
      rw [← there, down]
      exact Bool.false_ne_true

theorem safe_checkFilename
    (standing : Standing (records site md5 labels pkg) run thread start f body created checked instant) :
    Safe (records site md5 labels pkg) run thread call start (fun later _ => ∃ fenced,
      Published (records site md5 labels pkg) run thread start f body created checked fenced later)
      instant (checkFilename node f) := by
  refine Secure.bind trivial ((safe_standing issues_filenameFenced standing).both
    (safe_filenameFenced (f := f))) fun later le _ outcome ⟨⟨_, stood⟩, told⟩ => ?_
  split
  · obtain ⟨fenced, after, upto, unfenced⟩ := told rfl
    exact ⟨fenced, stood, standing.upto.trans_le after, upto, unfenced⟩
  · have cleared : Safe (records site md5 labels pkg) run thread call start (fun _ _ => True) later
        (clearFenced node f) := by
      unfold clearFenced
      split
      · trivial
      · refine Secure.bind trivial (safe_store _ fun now quiet => stood.owes_delete quiet) ?_
        exact fun _ _ _ _ _ => trivial
    refine Secure.bind trivial cleared fun _ _ _ _ _ => ?_
    exact Secure.bind trivial (safe_aside (issues_mark .commit)) fun _ _ _ _ _ => safe_refuse
  · exact Secure.bind trivial (safe_aside (issues_mark .commit)) fun _ _ _ _ _ => safe_refuse

theorem Published.extend
    (published : Published (records site md5 labels pkg) run thread start f body created checked fenced
      later) (le : later ≤ last)
    (untouched : Untouched (records site md5 labels pkg) run thread f created last) :
    Published (records site md5 labels pkg) run thread start f body created checked fenced last :=
  { published with
    standing := published.standing.extend le untouched
    upto := published.upto.trans_le le }

theorem safe_published {α : Type} {told : α → Prop} {program : RecordM α}
    (issues : Issues Aside told program)
    (published : Published (records site md5 labels pkg) run thread start f body created checked fenced
      instant) :
    Safe (records site md5 labels pkg) run thread call start (fun later _ =>
      Published (records site md5 labels pkg) run thread start f body created checked fenced later)
      instant program := by
  refine (safe_untouched issues published.standing.untouched).weaken ?_
  rintro later le value ⟨_, untouched⟩
  exact published.extend le untouched

/-- The private sidecar names the bytes that the call has stored. -/
theorem safe_typePrivate {isMirror : Bool} {sc : Sidecar}
    (named : sc.sha256 = site.encoding.sha256 body)
    (world : isMirror = false → ClaimSeen run .priv instant)
    (published : Published (records site md5 labels pkg) run thread start f body created checked fenced
      instant) :
    Safe (records site md5 labels pkg) run thread call start (fun later _ =>
      Published (records site md5 labels pkg) run thread start f body created checked fenced later)
      instant (typePrivate f isMirror sc) := by
  unfold typePrivate
  split
  · exact published
  next isPrivate =>
    refine Secure.bind trivial (safe_store _ fun now quiet => ⟨trivial, nofun, nofun, ?_⟩) ?_
    · rintro g sc' same
      cases same
      refine ⟨body, created, checked, fenced, named, ?_, ?_⟩
      · exact (world (Bool.eq_false_iff.mpr isPrivate)).later quiet.1
      · exact published.extend quiet.1 (published.standing.untouched.quiet quiet)
    · rintro _ _ _ answer ⟨now, rfl, quiet, performed⟩
      have aside : ¬WritesBody f (.store (.put () f .sidecar sc)) := by
        rintro (⟨_, same⟩ | same) <;> cases same
      have untouched := (published.standing.untouched.quiet quiet).step performed aside
      obtain error | done := answer
      · trivial
      · exact published.extend (quiet.1.trans (Nat.le_succ now)) untouched

theorem safe_publishStored {req : PublishRequest site.encoding}
    {fence : Option OriginObservation} (world : ClaimSeen run (desiredOrigin req.isMirror) instant)
    (standing : Standing (records site md5 labels pkg) run thread start f req.body created checked
      instant) :
    Safe (records site md5 labels pkg) run thread call start (fun later _ => ∃ fenced,
      Published (records site md5 labels pkg) run thread start f req.body created checked fenced later)
      instant (publishStored site node pkg f req fence) := by
  refine Secure.bind trivial (safe_storeChecksum standing) fun _ le₁ _ checksum standing => ?_
  refine Secure.bind trivial (safe_standing issues_uploadEpoch standing) ?_
  intro _ le₂ _ epoch ⟨_, standing⟩
  refine Secure.bind trivial (safe_standing issues_typeMirror standing) ?_
  intro _ le₃ _ _ ⟨_, standing⟩
  refine Secure.bind trivial (safe_checkFilename standing) fun _ le₄ _ _ ⟨fenced, published⟩ => ?_
  refine Secure.bind trivial (safe_published issues_storeMetadata published) ?_
  intro _ le₅ _ _ published
  refine Secure.bind trivial (safe_published issues_storeProvenance published) ?_
  intro _ le₆ _ _ published
  refine Secure.bind trivial (safe_typePrivate req.hashed (fun isPrivate => ?_) published) ?_
  · rw [isPrivate] at world
    exact world.later (by omega)
  intro _ le₇ _ _ published
  have rest : Issues Aside (fun _ => True) (do
      let _ ← mark .commit
      demand .serviceUnavailable (unrecordedReplicationGap .upload) (← fanoutSync f)
      return StatusCode.ok) := by
    refine (issues_mark .commit).bind fun _ _ => ?_
    refine Issues.bind (P := fun _ => True) ⟨trivial, fun _ => trivial⟩ fun outcome _ => ?_
    exact (issues_demand fun _ _ => trivial).bind fun _ _ => trivial
  exact (safe_published rest published).weaken fun _ _ _ published => ⟨fenced, published⟩

end Published
/-! ### The calls -/

section Calls
variable {run : RecordRun site.encoding} {thread start instant later : ℕ}
variable {call : RecordCall site.encoding} {node : AppState}

theorem ClaimSeen.of_filter {observed : Option OriginObservation} {state : OriginState} {etag : ℕ}
    (seen : ∃ now < instant, claimAt (run now).store = observed)
    (found : observed = some ⟨state, etag⟩) : ClaimSeen run state instant := by
  obtain ⟨now, before, stood⟩ := seen
  exact ⟨now, before.le, etag, stood.trans found⟩

/-- The claim of the upload's own world is seen before its bytes are stored. -/
theorem safe_takeFence {isMirror : Bool} {observed : Option OriginObservation}
    (seen : ∃ now < instant, claimAt (run now).store = observed)
    (claimed : isFirstClaim observed = false → ∃ etag, observed = some ⟨desiredOrigin isMirror, etag⟩) :
    Safe (records site md5 labels pkg) run thread call start
      (fun later _ => ClaimSeen run (desiredOrigin isMirror) later) instant
      (takeFence node pkg isMirror observed) := by
  unfold takeFence
  split
  · refine Secure.bind trivial (safe_claimFirst ?_) fun _ _ _ _ made => made
    rintro hint rfl
    obtain ⟨now, before, stood⟩ := seen
    exact ⟨now, before.le, stood⟩
  next settled =>
    obtain ⟨etag, rfl⟩ := claimed (Bool.eq_false_iff.mpr settled)
    exact ClaimSeen.of_filter seen rfl

/-- An acknowledged upload has seen its world's claim, created the body, checked
its size and found the filename unfenced, in this order. -/
theorem safe_publishRecord {req : PublishRequest site.encoding} (begun : start ≤ instant) :
    Safe (records site md5 labels pkg) run thread call start (fun later _ =>
      ClaimSeen run (desiredOrigin req.isMirror) later ∧ ∃ created checked fenced,
        Published (records site md5 labels pkg) run thread start f req.body created checked fenced later)
      instant (publishRecord site node pkg f req) := by
  refine Secure.bind trivial safe_readOrigin fun read le _ answer told => ?_
  refine Secure.bind trivial safe_demand fun demanded le' _ observed same => ?_
  obtain ⟨now, before, stood⟩ := told observed same
  refine Secure.bind trivial safe_checkWorld fun checked le'' _ _ claimed => ?_
  refine Secure.bind trivial (safe_aside (issues_mark .intent)) fun marked le₁ _ intent _ => ?_
  refine Secure.bind trivial safe_demand fun reserved le₂ _ _ _ => ?_
  have seen : ∃ now < reserved, claimAt (run now).store = observed := ⟨now, by omega, stood⟩
  refine Secure.bind trivial (safe_takeFence seen claimed) fun taken le₃ _ fence world => ?_
  refine Secure.bind trivial (safe_aside issues_checkWriteFence) fun fenced le₄ _ _ _ => ?_
  refine Secure.bind trivial (safe_storeBody (by omega) req.sized) ?_
  rintro stored le₅ _ _ ⟨created, headed, standing⟩
  refine (safe_publishStored (world.later (by omega)) standing).weaken fun later le₆ _ ⟨fenced', published⟩ => ?_
  exact ⟨world.later (by omega), created, headed, fenced', published⟩

theorem safe_tombstoneWrite :
    Safe (records site md5 labels pkg) run thread call start (fun later outcome =>
      ∀ value, outcome = .ok value → ∃ now ≤ later, Tombstoned (run now).store f) instant
      (ask (tombstoneWrite () f)) := by
  have same : ask (StoreM.putIfAbsent () f (.fence .tombstone) ()) =
      store (.putIfAbsent () f (.fence .tombstone) ()) := rfl
  rw [tombstoneWrite, ask_bind, same]
  refine Secure.bind trivial (safe_store _ fun now _ => ⟨trivial, nofun, nofun, nofun⟩) ?_
  rintro _ _ _ answer ⟨now, rfl, quiet, ⟨_, _, writes, _⟩⟩
  obtain error | created := answer
  · exact fun _ told => nomatch told
  · exact fun _ _ => ⟨now + 1, le_rfl, writes.tombstone_written⟩

/-- A delete that has seen a claim of either world owes nothing more. -/
theorem safe_deleteClaimed {before : OriginObservation} (owned : before.state ≠ .unclaimed)
    (seen : ClaimSeen run before.state instant) :
    Safe (records site md5 labels pkg) run thread call start (fun _ _ => True) instant
      (deleteClaimed node pkg f before) := by
  have rechecked : Issues Aside (fun _ => True) (recheckOrigin node pkg before) := by
    unfold recheckOrigin
    split
    · refine issues_readOrigin.bind fun answer _ => ?_
      refine (issues_demand fun _ _ => trivial).bind fun current _ => ?_
      split
      · trivial
      · exact issues_closed
    · trivial
  have tombstoned (now : ℕ) (le : instant ≤ now) :
      Safe (records site md5 labels pkg) run thread call start (fun later _ =>
        ∀ last, later ≤ last → Excused (records site md5 labels pkg) run thread start last f) now
        (tombstonePrivate f before) := by
    unfold tombstonePrivate
    split
    · refine Secure.bind trivial safe_tombstoneWrite fun written le' _ outcome stands => ?_
      refine safe_demand.weaken fun later le'' value same last upto => ?_
      obtain ⟨now, before, there⟩ := stands value same
      exact .tombstoned now (by omega) there
    next mirrored =>
      intro last upto
      refine .mirror ?_
      cases held : before.state with
      | unclaimed => exact absurd held owned
      | mirror =>
          rw [held] at seen
          exact seen.later (le.trans upto)
      | priv => exact absurd held mirrored
  refine Secure.bind trivial (safe_aside rechecked) fun now le _ _ _ => ?_
  refine Secure.bind trivial (tombstoned now le) fun written le' _ _ excused => ?_
  refine Secure.bind trivial (safe_store _ fun last quiet => ⟨.inl rfl, ?_, nofun, nofun⟩) ?_
  · rintro g same
    cases same
    exact excused last quiet.1
  · intro _ _ _ answer _
    refine safe_aside ((issues_demand fun _ _ => trivial).bind fun _ _ => ?_)
    have companions : StandsAside (StoreM.deleteKeys () f
        [.sidecar, .companion .metadata, .companion .provenance]) := by
      apply standsAside_deleteKeys
      simp [Loose]
    refine (issues_aside companions).bind fun _ _ => ?_
    refine (issues_mark .commit).bind fun _ _ => ?_
    refine Issues.bind (P := fun _ => True) ?_ fun _ _ => trivial
    unfold fanoutDelete
    split
    · refine Issues.bind (P := fun _ => True) ⟨trivial, fun _ => trivial⟩ fun outcome _ => ?_
      exact issues_demand fun _ _ => trivial
    · trivial

theorem safe_deleteRecord :
    Safe (records site md5 labels pkg) run thread call start (fun _ _ => True) instant
      (deleteRecord site.encoding labels node pkg f) := by
  refine Secure.bind trivial (safe_aside issues_headExists) fun _ _ _ answer _ => ?_
  refine Secure.bind trivial safe_demand fun _ _ _ present _ => ?_
  split
  · exact safe_refuse
  · refine Secure.bind trivial (safe_aside (issues_mark .intent)) fun _ _ _ intent _ => ?_
    refine Secure.bind trivial safe_demand fun _ _ _ _ _ => ?_
    refine Secure.bind trivial safe_readOrigin fun read _ _ answer told => ?_
    refine Secure.bind trivial safe_demand fun demanded le _ observed same => ?_
    split
    · exact safe_refuse
    next before found =>
      obtain ⟨observed_eq, owned⟩ := Option.filter_eq_some_iff.mp found
      obtain ⟨now, earlier, stood⟩ := told observed same
      have seen : ClaimSeen run before.state demanded :=
        ⟨now, by omega, before.etag, stood.trans observed_eq⟩
      split
      · exact Secure.bind trivial (safe_aside (issues_mark .commit)) fun _ _ _ _ _ => safe_refuse
      · refine Secure.bind trivial (safe_aside (issues_aside standsAside_rebuildRecord)) ?_
        intro rebuilt le' _ outcome _
        refine Secure.bind trivial safe_demand fun _ le'' _ _ _ => ?_
        exact safe_deleteClaimed (by simpa using owned) (seen.later (le'.trans le''))

theorem safe_askHead {k : Kind} :
    Safe (records site md5 labels pkg) run thread call start (fun later answer =>
      ∀ there, answer = .ok there → ∃ now < later, there = ((run now).store.read () f k).isSome) instant
      (ask (StoreM.headExists () f k)) := by
  have same : ask (StoreM.get () f k) = store (.get () f k) := rfl
  rw [StoreM.headExists, ask_bind, same]
  refine Secure.bind trivial (safe_store _ fun now _ => ⟨trivial, by simp, by simp, by simp⟩) ?_
  rintro _ _ _ answer ⟨now, rfl, quiet, ⟨_, _, reads, _⟩⟩
  obtain error | found := answer
  · intro there told
    cases told
  · rintro there told
    cases told
    exact ⟨now, Nat.lt_succ_self now, by rw [reads.get_ok.1]⟩

/-- Under a tombstone everything but the markers may go. -/
theorem safe_askDeleteKeys {kinds : List Kind} (drops : ∀ k ∈ kinds, k = .body ∨ Loose k)
    (tombstoned : ∃ now ≤ instant, Tombstoned (run now).store f) :
    Safe (records site md5 labels pkg) run thread call start (fun _ _ => True) instant
      (ask (StoreM.deleteKeys () f kinds)) := by
  induction kinds generalizing instant with
  | nil => trivial
  | cons k rest ih =>
      have same : ask (StoreM.delete () f k) = store (.delete () f k) := rfl
      obtain ⟨seen, before, there⟩ := tombstoned
      rw [StoreM.deleteKeys, ask_bind, same]
      refine Secure.bind trivial (safe_store _ fun now quiet => ⟨drops k List.mem_cons_self, ?_, nofun, nofun⟩) ?_
      · rintro g same
        cases same
        exact .tombstoned seen (before.trans quiet.1) there
      · rintro _ _ _ answer ⟨now, rfl, quiet, _⟩
        cases answer with
        | error error => trivial
        | ok _ =>
            refine ih (fun k' member => drops k' (List.mem_cons_of_mem k member)) ?_
            exact ⟨seen, by have := quiet.1; omega, there⟩

theorem safe_completeInterruptedDeletes {fs : List String} :
    Safe (records site md5 labels pkg) run thread call start (fun _ _ => True) instant
      (ask (completeInterruptedDeletes fs)) := by
  induction fs generalizing instant with
  | nil => trivial
  | cons f rest ih =>
      rw [completeInterruptedDeletes, ask_bind]
      refine Secure.bind trivial safe_askHead fun headed le _ answer told => ?_
      obtain error | there := answer
      · trivial
      obtain ⟨seen, before, found⟩ := told there rfl
      cases there with
      | false => exact ih
      | true =>
          simp only [if_true]
          rw [ask_bind]
          refine Secure.bind trivial safe_askHead fun headed' le' _ answer _ => ?_
          obtain error | frozen := answer
          · trivial
          cases frozen with
          | true => exact ih
          | false =>
              have drops : ∀ k ∈ recordObjectKeys, k = .body ∨ Loose k := by
                simp [recordObjectKeys, Loose]
              simp only [Bool.false_eq_true, if_false]
              rw [ask_bind]
              refine Secure.bind trivial
                (safe_askDeleteKeys drops ⟨seen, by omega, found.symm⟩) fun _ _ _ answer _ => ?_
              obtain error | _ := answer
              · trivial
              dsimp only
              rw [ask_bind]
              refine Secure.bind trivial ih fun _ _ _ answer _ => ?_
              obtain error | count := answer
              · trivial
              · trivial

/-- What a call has seen when it is done. -/
def Duty (site : Site Unit) (md5 : Bytes → String) (labels : Labels) (pkg : String)
    (run : RecordRun site.encoding) (thread start later : ℕ) : RecordCall site.encoding → Prop
  | .publish _ f req => ClaimSeen run (desiredOrigin req.isMirror) later ∧
      ∃ created checked fenced, Published (records site md5 labels pkg) run thread start f req.body
        created checked fenced later
  | _ => True

theorem safe_program :
    Safe (records site md5 labels pkg) run thread call start
      (fun later _ => Duty site md5 labels pkg run thread start later call) start
      (call.program site labels pkg) := by
  cases call with
  | publish node f req => exact Secure.bind trivial (safe_publishRecord le_rfl) fun _ _ _ _ duty => duty
  | delete node f => exact Secure.bind trivial safe_deleteRecord fun _ _ _ _ _ => trivial
  | rebuild f =>
      exact Secure.bind trivial (safe_aside (issues_aside standsAside_rebuildRecord))
        fun _ _ _ _ _ => trivial
  | reap fs => exact Secure.bind trivial safe_completeInterruptedDeletes fun _ _ _ _ _ => trivial

end Calls
end Pypiron.Publish
