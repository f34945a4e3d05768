import Pypiron.Replicate.Frame

/-! What the claim operations leave behind, run alone against one bucket. -/
namespace Pypiron.Replicate
open Program StoreM
variable {ι : Type} [DecidableEq ι] {site : Site ι} {s t : Fleet ι} {i j : ι} {pkg : String}

omit [DecidableEq ι] in
theorem onClaim_bind {α β : Type} (program : ClaimM α) (rest : α → ClaimM β) :
    onClaim i (program >>= rest) = onClaim i program >>= fun value => onClaim i (rest value) := by
  induction program with
  | done result =>
      cases result with
      | ok value => rfl
      | error error => rfl
  | call op next ih =>
      simp only [bind_call, onClaim, ih]

omit [DecidableEq ι] in
theorem onClaim_ite {α : Type} {p : Prop} [Decidable p] (yes no : ClaimM α) :
    onClaim i (if p then yes else no) = if p then onClaim i yes else onClaim i no :=
  apply_ite _ _ _ _

/-- A claim call that is served. -/
theorem ends_claimCall {op : ClaimOp} {value : op.Val} :
    Ends (apply site) (onClaim i (call op done)) s (.ok value) t ↔ applyClaim s i op = (value, t) := by
  have same : onClaim i (call op done : ClaimM op.Val) = request (StoreOp.claim i op) := rfl
  rw [same, ends_request_ok]
  simp only [apply, Prod.mk.injEq, Except.ok.injEq]
  rw [Prod.ext_iff]

theorem ends_bindClaim {α β : Type} {program : ClaimM α} {rest : α → ClaimM β} {value : β} :
    Ends (apply site) (onClaim i (program >>= rest)) s (.ok value) t ↔
      ∃ middle u, Ends (apply site) (onClaim i program) s (.ok middle) u ∧
        Ends (apply site) (onClaim i (rest middle)) u (.ok value) t := by
  rw [onClaim_bind, ends_bind_ok]

theorem ends_pureClaim {α : Type} {result value : α} :
    Ends (apply site) (onClaim i (pure result)) s (.ok value) t ↔ value = result ∧ t = s := by
  simp [onClaim]

/-- The state a bucket's claim object holds. -/
def heldState (s : Fleet ι) (i : ι) : Option OriginState := (s i).claim.map (·.state)

omit [DecidableEq ι] in
theorem claimOf_eq : claimOf s i = (heldState s i).bind Origin.ofState := by
  cases held : (s i).claim <;> simp [claimOf, heldState, held]

@[simp] theorem heldState_setClaim {claim : OriginObservation} :
    heldState (s.setClaim i claim) j = if j = i then some claim.state else heldState s j := by
  unfold heldState Fleet.setClaim
  by_cases here : j = i
  · subst here
    simp
  · simp [here]

/-- The claim states after one bucket's is set. -/
def Held (s t : Fleet ι) (i : ι) (state : OriginState) : Prop :=
  ∀ j, heldState t j = if j = i then some state else heldState s j

theorem held_setClaim {state : OriginState} {etag : Nat} :
    Held s (s.setClaim i ⟨state, etag⟩) i state := fun _ => heldState_setClaim

theorem Held.claimOf {state : OriginState} (held : Held s t i state) :
    claimOf t j = if j = i then Origin.ofState state else claimOf s j := by
  rw [claimOf_eq, held j]
  split
  · rfl
  · rw [claimOf_eq]

theorem ends_putIfMatch_claim {observed : OriginObservation} {state : OriginState}
    {written : Option Nat} (found : (s i).claim = some observed)
    (ended : Ends (apply site) (onClaim i (ClaimM.putIfMatch observed.etag state)) s (.ok written) t) :
    written.isSome ∧ Held s t i state := by
  have served := ends_claimCall.mp ended
  simp only [applyClaim, found, if_true, Prod.mk.injEq] at served
  obtain ⟨rfl, rfl⟩ := served
  exact ⟨rfl, held_setClaim⟩

/-- A name that is free, or whose sentinel was just read, goes to the caller. -/
theorem ends_claimOrigin (state : OriginState) {claim : Claim} (target : state ≠ .unclaimed)
    (free : heldState s i = none ∨ heldState s i = some .unclaimed)
    (ended : Ends (apply site) (onClaim i (claimOrigin pkg ⟨state.asStr, (s i).claim⟩)) s
      (.ok claim) t) : claim.owner = state ∧ Held s t i state := by
  have parses : claimTarget state.asStr = pure state := by
    cases state with
    | unclaimed => exact absurd rfl target
    | mirror => rfl
    | priv => rfl
  unfold claimOrigin at ended
  rw [parses, pure_eq, bind_ok] at ended
  cases found : (s i).claim with
  | none =>
      rw [found] at ended
      obtain ⟨written, u, create, rest⟩ := ends_bindClaim.mp ended
      have served := ends_claimCall.mp create
      simp only [applyClaim, found, Prod.mk.injEq] at served
      obtain ⟨rfl, rfl⟩ := served
      obtain ⟨rfl, rfl⟩ := ends_pureClaim.mp rest
      exact ⟨rfl, held_setClaim⟩
  | some observed =>
      have unclaimed : observed.state = .unclaimed := by simpa [heldState, found] using free
      rw [found] at ended
      dsimp only at ended
      rw [if_neg (by simp [unclaimed])] at ended
      obtain ⟨written, u, swap, rest⟩ := ends_bindClaim.mp ended
      obtain ⟨stored, held⟩ := ends_putIfMatch_claim found swap
      rw [Option.isSome_iff_exists] at stored
      obtain ⟨etag, rfl⟩ := stored
      obtain ⟨rfl, rfl⟩ := ends_pureClaim.mp rest
      exact ⟨rfl, held⟩

/-- Run alone, the claim ends at least mirror, and what it was if it was typed. -/
theorem ends_ensureMirror {origin : Origin}
    (ended : Ends (apply site) (ensureMirror i pkg) s (.ok origin) t) :
    claimJoin (claimOf s i) (some .mirror) = some origin ∧
      ∀ j, claimOf t j = if j = i then some origin else claimOf s j := by
  obtain ⟨observed, m, got, rest⟩ := ends_bindClaim.mp ended
  have served := ends_claimCall.mp got
  simp only [applyClaim, Prod.mk.injEq] at served
  obtain ⟨rfl, rfl⟩ := served
  have kept (held : claimOf s i = some origin) :
      ∀ j, claimOf s j = if j = i then some origin else claimOf s j := by
    intro j
    split
    · rename_i here
      rw [here, held]
    · rfl
  split at rest
  · rename_i found
    obtain ⟨rfl, rfl⟩ := ends_pureClaim.mp rest
    have held : claimOf t i = some .mirror := by
      rw [claimOf_eq, heldState, found]
      rfl
    exact ⟨by rw [held]; rfl, kept held⟩
  · rename_i found
    obtain ⟨rfl, rfl⟩ := ends_pureClaim.mp rest
    have held : claimOf t i = some .priv := by
      rw [claimOf_eq, heldState, found]
      rfl
    exact ⟨by rw [held]; rfl, kept held⟩
  · rename_i notMirror notPrivate
    obtain ⟨claim, n, claiming, rest⟩ := ends_bindClaim.mp rest
    have free : heldState s i = none ∨ heldState s i = some .unclaimed := by
      unfold heldState
      rcases found : (s i).claim with _ | ⟨state, etag⟩
      · simp
      · cases state with
        | unclaimed => simp
        | mirror => exact absurd (by simp [found]) notMirror
        | priv => exact absurd (by simp [found]) notPrivate
    have hint : (s i).claim.filter (·.state = .unclaimed) = (s i).claim := by
      cases found : (s i).claim with
      | none => rfl
      | some observed =>
          have unclaimed : observed.state = .unclaimed := by simpa [heldState, found] using free
          simp [unclaimed]
    rw [hint] at claiming
    obtain ⟨owner, held⟩ := ends_claimOrigin .mirror (by simp) free claiming
    rw [owner] at rest
    obtain ⟨rfl, rfl⟩ := ends_pureClaim.mp rest
    constructor
    · rw [claimOf_eq]
      rcases free with none | unclaimed
      · rw [none]
        rfl
      · rw [unclaimed]
        rfl
    · exact fun j => held.claimOf

end Pypiron.Replicate
