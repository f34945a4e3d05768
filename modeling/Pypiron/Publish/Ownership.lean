import Pypiron.Publish
import Pypiron.Replicate.Frame
import Pypiron.Replicate.Claims
import Pypiron.Replicate.Footprint

/-! Who may remove a body. Four paths delete one by its key; each of them has
created the body that stands, or has seen a tombstone, or evicts a mirror. -/
namespace Pypiron.Publish
open Program Replicate ThreadPool
variable {site : Site Unit} {md5 : Bytes → String} {labels : Labels} {pkg f g : String}
variable {s s' : Fleet Unit} {op : RecordOp} {answer : op.Ans}

abbrev RecordSystem (encoding : Encoding) :=
  System (Fleet Unit) (RecordCall encoding) RecordOp RecordOp.Ans Refusal RecordOutcome

abbrev RecordRun (encoding : Encoding) :=
  ℕ → Config (Fleet Unit) (RecordCall encoding) RecordOp RecordOp.Ans Refusal RecordOutcome

def Tombstoned (s : Fleet Unit) (f : String) : Prop := (s.read () f (.fence .tombstone)).isSome

instance (s : Fleet Unit) (f : String) : Decidable (Tombstoned s f) :=
  inferInstanceAs (Decidable (_ = true))

def claimAt (s : Fleet Unit) : Option OriginObservation := (s ()).claim

/-- The objects that are written over or deleted without further ado. -/
def Loose : Kind → Prop
  | .sidecar => True
  | .companion _ => True
  | _ => False

/-- What no call goes beyond: bodies are created or deleted, never overwritten,
and markers stay. -/
def Allowed : RecordOp → Prop
  | .store (.put _ _ k _) => Loose k
  | .store (.putIfMatch _ _ k _ _) => Loose k
  | .store (.delete _ _ k) => k = .body ∨ Loose k
  | .store (.serverSideCopy _ _ _ _) => False
  | _ => True

/-- What leaves every body alone, overwrites no sidecar unconditionally, and
leaves the claim as it is or creates it. -/
def Aside : RecordOp → Prop
  | .store (.claim _ (.putIfMatch _ _)) => False
  | .store (.put _ _ k _) => Loose k ∧ k ≠ .sidecar
  | .store (.putIfAbsent _ _ k _) => k ≠ .body
  | .store (.putIfMatch _ _ k _ _) => Loose k
  | .store (.delete _ _ k) => Loose k
  | .store (.serverSideCopy _ _ _ _) => False
  | _ => True

theorem Aside.allowed (aside : Aside op) : Allowed op := by
  unfold Aside at aside
  unfold Allowed
  split at aside <;> simp_all

/-! ### One operation -/

/-- What an operation makes of the bucket: nothing, its effect, or a short body. -/
theorem Performs.effect (performs : Performs site md5 s op answer s') :
    s' = s ∨ (∃ called, op = .store called ∧ s' = (apply site called s).2) ∨
    ∃ f body landed, op = .store (.putIfAbsent () f .body body) ∧ s.read () f .body = none ∧
      landed <+: body ∧ s' = s.write () f .body (some landed) := by
  cases performs with
  | served called => exact .inr (.inl ⟨called, rfl, rfl⟩)
  | failed => exact .inl rfl
  | lost called => exact .inr (.inl ⟨called, rfl, rfl⟩)
  | short answer absent starts => exact .inr (.inr ⟨_, _, _, rfl, absent, starts, rfl⟩)
  | checksum => exact .inl rfl
  | clock => exact .inl rfl
  | fanout => exact .inl rfl

theorem loose_ne_body {k : Kind} (loose : Loose k) : Kind.body ≠ k := by
  rintro rfl
  exact loose

theorem loose_ne_fence {k : Kind} {fence : Fence} (loose : Loose k) : Kind.fence fence ≠ k := by
  rintro rfl
  exact loose

/-- How an operation leaves a body: as it was, deleted, or created. -/
theorem Performs.body_step (performs : Performs site md5 s op answer s') (allowed : Allowed op) :
    s'.read () f .body = s.read () f .body ∨
    (op = .store (.delete () f .body) ∧ s'.read () f .body = none) ∨
    ∃ body landed, op = .store (.putIfAbsent () f .body body) ∧ s.read () f .body = none ∧
      landed <+: body ∧ s'.read () f .body = some landed := by
  obtain rfl | ⟨called, rfl, rfl⟩ | ⟨g, body, landed, rfl, absent, starts, rfl⟩ := performs.effect
  · exact .inl rfl
  · cases called with
    | claim i op => exact .inl (read_applyClaim op)
    | list i => exact .inl rfl
    | get i g k => exact .inl rfl
    | put i g k content =>
        left
        simp only [apply]
        rw [read_write_kind (loose_ne_body allowed)]
    | putIfAbsent i g k content =>
        simp only [apply]
        split
        · exact .inl rfl
        next absent =>
          rw [Bool.not_eq_true, Option.isSome_eq_false_iff, Option.isNone_iff_eq_none] at absent
          by_cases mine : k = .body ∧ f = g
          · obtain ⟨rfl, rfl⟩ := mine
            refine .inr (.inr ⟨content, content, rfl, absent, List.prefix_rfl, ?_⟩)
            rw [read_write_self]
          · left
            rw [read_write_of_ne fun same => mine ⟨same.2.2.symm, same.2.1⟩]
    | putIfMatch i g k expected content =>
        left
        simp only [apply]
        split
        · rw [read_write_kind (loose_ne_body allowed)]
        · rfl
    | delete i g k =>
        simp only [apply]
        by_cases mine : k = .body ∧ f = g
        · obtain ⟨rfl, rfl⟩ := mine
          exact .inr (.inl ⟨rfl, read_write_self _⟩)
        · left
          rw [read_write_of_ne fun same => mine ⟨same.2.2.symm, same.2.1⟩]
    | serverSideCopy src dst g size => exact allowed.elim
    | mark i mark => exact .inl rfl
    | reconcileStatus a b => exact .inl rfl
  · by_cases mine : f = g
    · subst mine
      exact .inr (.inr ⟨body, landed, rfl, absent, starts, read_write_self _⟩)
    · exact .inl (read_write_file mine _)

/-- Tombstones are never removed. -/
theorem Performs.tombstone_step (performs : Performs site md5 s op answer s') (allowed : Allowed op)
    (tombstoned : Tombstoned s f) : Tombstoned s' f := by
  have ne : Kind.fence .tombstone ≠ Kind.body := nofun
  unfold Tombstoned at tombstoned ⊢
  obtain rfl | ⟨called, rfl, rfl⟩ | ⟨g, body, landed, rfl, absent, starts, rfl⟩ := performs.effect
  · exact tombstoned
  · cases called with
    | claim i op =>
        simp only [apply]
        rwa [read_applyClaim]
    | list i => exact tombstoned
    | get i g k => exact tombstoned
    | put i g k content =>
        simp only [apply]
        rwa [read_write_kind (loose_ne_fence allowed)]
    | putIfAbsent i g k content =>
        simp only [apply]
        split
        · exact tombstoned
        · by_cases mine : f = g ∧ Kind.fence .tombstone = k
          · obtain ⟨rfl, rfl⟩ := mine
            simp
          · rwa [read_write_of_ne fun same => mine same.2]
    | putIfMatch i g k expected content =>
        simp only [apply]
        split
        · rwa [read_write_kind (loose_ne_fence allowed)]
        · exact tombstoned
    | delete i g k =>
        simp only [apply]
        obtain rfl | loose := allowed
        · rwa [read_write_kind ne]
        · rwa [read_write_kind (loose_ne_fence loose)]
    | serverSideCopy src dst g size => exact allowed.elim
    | mark i mark => exact tombstoned
    | reconcileStatus a b => exact tombstoned
  · rwa [read_write_kind ne]

/-- The claim moves when it is created, or by a write over the version it names. -/
theorem Performs.claim_step (performs : Performs site md5 s op answer s') :
    claimAt s' = claimAt s ∨
    (∃ state, claimAt s = none ∧ claimAt s' = some ⟨state, 0⟩) ∨
    ∃ held state, claimAt s = some held ∧ op = .store (.claim () (.putIfMatch held.etag state)) ∧
      claimAt s' = some ⟨state, held.etag + 1⟩ := by
  unfold claimAt
  obtain rfl | ⟨called, rfl, rfl⟩ | ⟨g, body, landed, rfl, absent, starts, rfl⟩ := performs.effect
  · exact .inl rfl
  · cases called with
    | claim i op =>
        cases op with
        | readObservation => exact .inl rfl
        | putIfNoneMatch state =>
            simp only [apply, applyClaim]
            split
            · exact .inl rfl
            next absent => exact .inr (.inl ⟨state, absent, by simp [Fleet.setClaim]⟩)
        | putIfMatch etag state =>
            simp only [apply, applyClaim]
            split
            · exact .inl rfl
            next held found =>
              split
              next same =>
                subst same
                exact .inr (.inr ⟨held, state, found, rfl, by simp [Fleet.setClaim]⟩)
              next => exact .inl rfl
        | packageHasTruth => exact .inl rfl
        | hasPendingWrite => exact .inl rfl
        | hasPendingReplicationNotes => exact .inl rfl
    | list i => exact .inl rfl
    | get i g k => exact .inl rfl
    | put i g k content => exact .inl (claim_write _)
    | putIfAbsent i g k content =>
        simp only [apply]
        split
        · exact .inl rfl
        · exact .inl (claim_write _)
    | putIfMatch i g k expected content =>
        simp only [apply]
        split
        · exact .inl (claim_write _)
        · exact .inl rfl
    | delete i g k => exact .inl (claim_write _)
    | serverSideCopy src dst g size =>
        simp only [apply]
        split
        · exact .inl rfl
        · exact .inl rfl
        · exact .inl (claim_write _)
    | mark i mark => exact .inl rfl
    | reconcileStatus a b => exact .inl rfl
  · exact .inl (claim_write _)

/-- An answer that is no error is the bucket's own. -/
theorem Performs.served_ok {called : StoreOp Unit} {value : called.Val}
    (performs : Performs site md5 s (.store called) (.ok value) s')
    (plain : ∀ f body, called ≠ .putIfAbsent () f .body body) :
    (apply site called s).1 = .ok value ∧ s' = (apply site called s).2 := by
  generalize same : (Except.ok value : Except String called.Val) = told at performs
  cases performs with
  | served => exact ⟨rfl, rfl⟩
  | failed => cases same
  | lost => cases same
  | short => exact absurd rfl (plain _ _)

theorem Performs.get_ok {k : Kind} {value : Option k.Content}
    (performs : Performs site md5 s (.store (.get () f k)) (.ok value) s') :
    value = s.read () f k ∧ s' = s := by
  obtain ⟨told, rfl⟩ := performs.served_ok nofun
  exact ⟨(Except.ok.inj told).symm, rfl⟩

theorem Performs.created {body : Bytes}
    (performs : Performs site md5 s (.store (.putIfAbsent () f .body body)) (.ok true) s') :
    s.read () f .body = none ∧ ∃ landed, landed <+: body ∧ s'.read () f .body = some landed := by
  generalize same : (Except.ok true : Except String Bool) = told at performs
  cases performs with
  | served =>
      simp only [apply] at same ⊢
      split at same
      · cases same
      next absent =>
        rw [Bool.not_eq_true, Option.isSome_eq_false_iff, Option.isNone_iff_eq_none] at absent
        rw [if_neg (by simp [absent])]
        refine ⟨absent, body, List.prefix_rfl, ?_⟩
        rw [read_write_self]
  | failed => cases same
  | lost => cases same
  | short answer absent starts => exact ⟨absent, _, starts, read_write_self _⟩

theorem Performs.tombstone_written {done : Bool}
    (performs : Performs site md5 s (.store (.putIfAbsent () f (.fence .tombstone) ())) (.ok done) s') :
    Tombstoned s' f := by
  obtain ⟨_, rfl⟩ := performs.served_ok nofun
  unfold Tombstoned
  simp only [apply]
  split
  next stands => exact stands
  next => simp

/-! ### What a call owes -/

section Knowledge
variable (system : RecordSystem site.encoding) (run : RecordRun site.encoding)

def WritesBody (f : String) (op : RecordOp) : Prop :=
  (∃ body, op = .store (.putIfAbsent () f .body body)) ∨ op = .store (.delete () f .body)

/-- The thread writes nothing at the key of `f` between the two instants. -/
def Untouched (thread : ℕ) (f : String) (first last : ℕ) : Prop :=
  ∀ instant, first < instant → instant < last → ∀ call op answer,
    Performed system run thread instant call op answer → ¬WritesBody f op

/-- The body that stands after `instant` is one that the thread created there. -/
def Landed (thread instant : ℕ) (f : String) (body landed : Bytes) : Prop :=
  ∃ call answer,
    Performed system run thread instant call (.store (.putIfAbsent () f .body body)) answer ∧
    (run instant).store.read () f .body = none ∧
    (run (instant + 1)).store.read () f .body = some landed ∧ landed <+: body

def ClaimSeen (state : OriginState) (last : ℕ) : Prop :=
  ∃ instant ≤ last, ∃ etag, claimAt (run instant).store = some ⟨state, etag⟩

/-- What excuses a delete of the body of `f`. -/
inductive Excused (thread start now : ℕ) (f : String) : Prop where
  | tombstoned (instant : ℕ) : instant ≤ now → Tombstoned (run instant).store f →
      Excused thread start now f
  | own (instant : ℕ) (body landed : Bytes) : start ≤ instant → instant < now →
      Landed system run thread instant f body landed → Untouched system run thread f instant now →
      Excused thread start now f
  | mirror : ClaimSeen run .mirror now → Excused thread start now f

/-- A body that the call created, whose size it has checked, and whose key it has
left alone since. -/
structure Standing (thread start : ℕ) (f : String) (body : Bytes) (created checked later : ℕ) :
    Prop where
  begun : start ≤ created
  before : created < checked
  upto : checked < later
  landed : ∃ landed, Landed system run thread created f body landed
  sized : ∃ standing, (run checked).store.read () f .body = some standing ∧
    standing.length = body.length
  untouched : Untouched system run thread f created later

/-- The call is past the filename fence: after its create no tombstone stood. -/
structure Published (thread start : ℕ) (f : String) (body : Bytes)
    (created checked fenced later : ℕ) : Prop where
  standing : Standing system run thread start f body created checked later
  after : checked < fenced
  upto : fenced < later
  unfenced : ¬Tombstoned (run fenced).store f

/-- What the call that `thread` began at `start` owes at each operation. -/
structure Owes (thread start now : ℕ) (op : RecordOp) : Prop where
  allowed : Allowed op
  excused : ∀ f, op = .store (.delete () f .body) → Excused system run thread start now f
  unclaimed : ∀ etag state, op = .store (.claim () (.putIfMatch etag state)) →
    ∃ instant ≤ now, claimAt (run instant).store = some ⟨.unclaimed, etag⟩
  typed : ∀ f sc, op = .store (.put () f .sidecar sc) → ∃ body created checked fenced,
    sc.sha256 = site.encoding.sha256 body ∧ ClaimSeen run .priv now ∧
    Published system run thread start f body created checked fenced now

abbrev Safe (thread : ℕ) (call : RecordCall site.encoding) (start : ℕ) {α : Type}
    (post : ℕ → α → Prop) (instant : ℕ) (program : RecordM α) : Prop :=
  Secure system run (fun _ => True) (fun _ _ _ => True)
    (fun now op _ => Owes system run thread start now op) thread call post instant program

end Knowledge

section Safe
variable {system : RecordSystem site.encoding} {run : RecordRun site.encoding}
variable {thread start now first last instant : ℕ} {call : RecordCall site.encoding}
variable {α β : Type} {post : ℕ → α → Prop} {told : α → Prop}

theorem Aside.quiet (aside : Aside op) : ¬WritesBody f op := by
  rintro (⟨body, rfl⟩ | rfl)
  · exact aside rfl
  · exact aside

theorem Aside.owes (aside : Aside op) : Owes system run thread start now op where
  allowed := aside.allowed
  excused f same := by
    subst same
    exact aside.elim
  unclaimed etag state same := by
    subst same
    exact aside.elim
  typed f sc same := by
    subst same
    exact absurd rfl aside.2

theorem ClaimSeen.later {state : OriginState} (seen : ClaimSeen run state first)
    (le : first ≤ last) : ClaimSeen run state last := by
  obtain ⟨instant, before, found⟩ := seen
  exact ⟨instant, before.trans le, found⟩

namespace Untouched

theorem quiet (untouched : Untouched system run thread f first instant)
    (quiet : Quiet run thread instant last) : Untouched system run thread f first last := by
  intro between after before call op answer performed
  by_cases early : between < instant
  · exact untouched between after early call op answer performed
  · have still := quiet.2 (between + 1) (by omega) before
    rw [← quiet.2 between (by omega) before.le] at still
    exact absurd still performed.changes

theorem step (untouched : Untouched system run thread f first now)
    (performed : Performed system run thread now call op answer) (aside : ¬WritesBody f op) :
    Untouched system run thread f first (now + 1) := by
  intro between after before call' op' answer' performed'
  obtain early | rfl := Nat.lt_succ_iff_lt_or_eq.mp before
  · exact untouched between after early call' op' answer' performed'
  · obtain ⟨_, rfl⟩ := performed.same_op performed'
    exact aside

theorem begins (system : RecordSystem site.encoding) (run : RecordRun site.encoding)
    (thread first : ℕ) (f : String) : Untouched system run thread f first (first + 1) :=
  fun between after before => absurd before (by omega)

end Untouched

/-- One call of the storage: it was made at the instant before. -/
theorem safe_store (called : StoreOp Unit)
    (owes : ∀ now, Quiet run thread instant now → Owes system run thread start now (.store called)) :
    Safe system run thread call start (fun later answer => ∃ now, later = now + 1 ∧
      Quiet run thread instant now ∧ Performed system run thread now call (.store called) answer)
      instant (store called) := by
  have made : Secure system run (fun _ => True) (fun _ _ _ => True)
      (fun now op _ => Owes system run thread start now op) thread call _ instant (store called) :=
    Secure.perform (.store called) fun now quiet _ _ _ _ => owes now quiet
  refine made.weaken ?_
  rintro _ _ answer ⟨now, rfl, quiet, _, performed, _⟩
  exact ⟨now, rfl, quiet, performed⟩

theorem safe_aside {program : RecordM α} (issues : Issues Aside told program) :
    Safe system run thread call start (fun _ => told) instant program :=
  Secure.of_issues issues fun _ _ _ aside => aside.owes

/-- A program that stands aside leaves the thread's body untouched. -/
theorem safe_untouched {program : RecordM α} (issues : Issues Aside told program)
    (untouched : Untouched system run thread f first instant) :
    Safe system run thread call start (fun later value => told value ∧
      Untouched system run thread f first later) instant program := by
  induction program generalizing instant with
  | done result =>
      cases result with
      | ok value => exact ⟨issues, untouched⟩
      | error refusal => trivial
  | call op next ih =>
      intro now quiet _ answer performed _
      refine ⟨issues.1.owes, fun _ => ih answer (issues.2 answer) ?_⟩
      exact (untouched.quiet quiet).step performed issues.1.quiet

end Safe

/-! ### Programs that stand aside -/

section Aside
variable {α β : Type}

theorem issues_ask {permits : StoreOp Unit → Prop} {program : StoreM Unit α}
    (only : Only permits program) (aside : ∀ called, permits called → Aside (.store called)) :
    Issues Aside (fun _ => True) (ask program) := by
  induction program with
  | done result => trivial
  | call op next ih => exact ⟨aside op only.1, fun answer => ih answer (only.2 answer)⟩

theorem issues_store (called : StoreOp Unit) (aside : Aside (.store called)) :
    Issues Aside (fun _ => True) (store called) := Issues.perform aside

theorem issues_mark (m : Mark) : Issues Aside (fun _ => True) (mark m) := issues_store _ trivial

theorem issues_readOrigin : Issues Aside (fun _ => True) readOriginObservation :=
  issues_store _ trivial

theorem issues_refuse {status : StatusCode} {detail : String} {told : α → Prop} :
    Issues Aside told (refuse status detail : RecordM α) := trivial

theorem issues_demand {status : StatusCode} {text : String → String} {outcome : Except String α}
    {told : α → Prop} (ok : ∀ value, outcome = .ok value → told value) :
    Issues Aside told (demand status text outcome) := by
  cases outcome with
  | ok value => exact ok value rfl
  | error error => trivial

/-- A storage program that stands aside. -/
abbrev StandsAside (program : StoreM Unit α) : Prop := Only (fun called => Aside (.store called)) program

theorem standsAside_get {k : Kind} : StandsAside (StoreM.get () f k) := ⟨trivial, fun _ => trivial⟩

theorem standsAside_list : StandsAside (StoreM.list ()) := ⟨trivial, fun _ => trivial⟩

theorem standsAside_putIfAbsent {k : Kind} {content : k.Content} (other : k ≠ .body) :
    StandsAside (StoreM.putIfAbsent () f k content) := ⟨other, fun _ => trivial⟩

theorem standsAside_putIfMatch {k : Kind} {expected content : k.Content} (loose : Loose k) :
    StandsAside (StoreM.putIfMatch () f k expected content) := ⟨loose, fun _ => trivial⟩

theorem standsAside_delete {k : Kind} (loose : Loose k) : StandsAside (StoreM.delete () f k) :=
  ⟨loose, fun _ => trivial⟩

theorem standsAside_deleteKeys {kinds : List Kind} (loose : ∀ k ∈ kinds, Loose k) :
    StandsAside (StoreM.deleteKeys () f kinds) := by
  induction kinds with
  | nil => trivial
  | cons k rest ih =>
      apply (standsAside_delete (loose k List.mem_cons_self)).bind
      intro _
      exact ih fun k' member => loose k' (List.mem_cons_of_mem k member)

theorem standsAside_mirrorReplaces {sc current : Sidecar} :
    StandsAside (mirrorReplaces site () f sc current) := by
  unfold mirrorReplaces
  split
  · exact standsAside_get.bind fun _ => trivial
  · trivial

theorem standsAside_installMirrorLoop {key : String} {sc : Sidecar} (attempts : ℕ) :
    StandsAside (installMirrorLoop site () key f sc attempts) := by
  induction attempts with
  | zero => trivial
  | succ attempts ih =>
      apply standsAside_get.bind
      intro current
      split
      · apply (standsAside_putIfAbsent (k := .sidecar) nofun).bind
        intro created
        split
        · trivial
        · exact ih
      · split
        · trivial
        · have checked (current : Sidecar) : StandsAside (checkOrigin current key : StoreM Unit Unit) := by
            unfold checkOrigin
            split <;> trivial
          apply (checked _).bind
          intro _
          split
          · trivial
          · apply standsAside_mirrorReplaces.bind
            intro replaces
            split
            · apply (standsAside_putIfMatch (k := .sidecar) trivial).bind
              intro replaced
              split
              · trivial
              · exact ih
            · split <;> trivial

theorem standsAside_installOrVerifyMirrorSidecar {sc : Sidecar} :
    StandsAside (installOrVerifyMirrorSidecar site () pkg f sc) := by
  unfold installOrVerifyMirrorSidecar
  split
  · trivial
  · exact standsAside_installMirrorLoop originAttempts

theorem standsAside_retract {fabricated : Sidecar} : StandsAside (retract f fabricated) := by
  apply standsAside_get.bind
  intro current
  split
  · exact standsAside_delete trivial
  · trivial

theorem standsAside_backfillSidecar {encoding : Encoding} {size stamp : ℕ} {claim : Option Origin} :
    StandsAside (backfillSidecar encoding labels pkg f size stamp claim) := by
  apply standsAside_get.bind
  intro stored
  split
  · trivial
  · split
    · trivial
    · apply (standsAside_putIfAbsent (k := .sidecar) nofun).bind
      intro created
      split
      · apply standsAside_get.bind
        intro standing
        split
        · trivial
        · exact standsAside_retract.bind fun _ => trivial
      · exact standsAside_get

theorem standsAside_readListed {k : Kind} {there : Bool} : StandsAside (readListed there f k) := by
  unfold readListed
  split
  · exact standsAside_get
  · trivial

theorem standsAside_loadFileMetadata {encoding : Encoding} {listing : Listing} {size stamp : ℕ}
    {claim : Option Origin} :
    StandsAside (loadFileMetadata encoding labels pkg f listing size stamp claim) := by
  have backfilled (record : Record) :
      StandsAside (backfillBare encoding labels pkg f size stamp claim record) := by
    unfold backfillBare
    split
    · exact standsAside_backfillSidecar
    · trivial
  apply standsAside_readListed.bind
  intro known
  split
  · trivial
  · apply (backfilled _).bind
    intro loaded
    split
    · trivial
    · split
      · exact standsAside_readListed.bind fun _ => trivial
      · trivial

theorem standsAside_rebuildRecord {encoding : Encoding} :
    StandsAside (rebuildRecord encoding labels pkg f) := by
  apply Only.bind
  · exact ⟨trivial, fun _ => trivial⟩
  intro observed
  apply standsAside_list.bind
  intro listing
  split
  · trivial
  · exact standsAside_loadFileMetadata

theorem issues_aside {program : StoreM Unit α} (aside : StandsAside program) :
    Issues Aside (fun _ => True) (ask program) := issues_ask aside fun _ permitted => permitted

end Aside

end Pypiron.Publish
