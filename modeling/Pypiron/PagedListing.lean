import Mathlib.Data.List.Pairwise
import Mathlib.Data.PNat.Basic

/-! Keys in ascending order that are read a bounded page at a time, each page from
after the last key of the one before. -/
namespace Pypiron.PagedListing

/-- A set of keys, in the order they are listed in. -/
structure Listing (κ : Type) [LinearOrder κ] where
  keys : List κ
  ascending : keys.Pairwise (· < ·)

variable {κ : Type} [LinearOrder κ]

def Listing.empty : Listing κ := ⟨[], List.Pairwise.nil⟩

def Listing.under (listing : Listing κ) (matching : κ → Bool) : Listing κ where
  keys := listing.keys.filter matching
  ascending := listing.ascending.filter matching

def Listing.beyond (listing : Listing κ) (after : Option κ) : List κ :=
  listing.keys.filter fun key => after.all (· < key)

def Listing.page (listing : Listing κ) (after : Option κ) (limit : ℕ+) : List κ :=
  (listing.beyond after).take limit

/-- What a reader has not asked for: nothing, once a page came back short. -/
def Listing.unread (listing : Listing κ) (after : Option κ) (done : Bool) : List κ :=
  if done then [] else listing.beyond after

@[simp] theorem Listing.beyond_none (listing : Listing κ) : listing.beyond none = listing.keys := by
  simp [Listing.beyond]

@[simp] theorem Listing.unread_done (listing : Listing κ) (after : Option κ) :
    listing.unread after true = [] := rfl

@[simp] theorem Listing.unread_start (listing : Listing κ) :
    listing.unread none false = listing.keys := by
  simp [Listing.unread]

theorem filter_gt_of_split {before after : List κ} {key : κ}
    (ascending : (before ++ key :: after).Pairwise (· < ·)) :
    (before ++ key :: after).filter (key < ·) = after := by
  obtain ⟨-, tail, across⟩ := List.pairwise_append.mp ascending
  have dropped : before.filter (key < ·) = [] := by
    rw [List.filter_eq_nil_iff]
    intro b member
    simpa using (across b member key List.mem_cons_self).le
  have kept : after.filter (key < ·) = after := by
    rw [List.filter_eq_self]
    intro a member
    simpa using (List.pairwise_cons.mp tail).1 a member
  simp [dropped, kept]

/-- The keys beyond a page's last key are the ones that the page leaves. -/
theorem Listing.beyond_getLast (listing : Listing κ) {after : Option κ} {page rest : List κ}
    {last : κ} (split : listing.beyond after = page ++ rest) (ends : page.getLast? = some last) :
    listing.beyond (some last) = rest := by
  obtain ⟨page, rfl⟩ : ∃ front, page = front ++ [last] := List.getLast?_eq_some_iff.mp ends
  have ascending : (page ++ last :: rest).Pairwise (· < ·) := by
    have kept := listing.ascending.filter fun key => after.all (· < key)
    rw [← List.singleton_append, ← List.append_assoc, ← split]
    exact kept
  have member : last ∈ listing.beyond after := by simp [split]
  have past : after.all (· < last) = true := (List.mem_filter.mp member).2
  have narrower : listing.beyond (some last) = (listing.beyond after).filter (last < ·) := by
    rw [Listing.beyond, Listing.beyond, List.filter_filter]
    refine List.filter_congr fun key _ => ?_
    cases after with
    | none => simp
    | some start =>
      have : last < key → start < key := (of_decide_eq_true past).trans
      grind
  rw [narrower, split, List.append_assoc, List.singleton_append]
  exact filter_gt_of_split ascending

/-- A reader that asks for a page has the page, and the rest still unread; a short
page is the last. -/
theorem Listing.unread_page (listing : Listing κ) (after : Option κ) (limit : ℕ+) :
    listing.unread after false = listing.page after limit ++
      listing.unread (listing.page after limit).getLast?
        (Decidable.decide ((listing.page after limit).length < limit)) := by
  have split : listing.beyond after =
      listing.page after limit ++ (listing.beyond after).drop limit :=
    (List.take_append_drop _ _).symm
  by_cases short : (listing.page after limit).length < limit
  · have none : (listing.beyond after).drop limit = [] := by
      rw [List.drop_eq_nil_iff]
      simp only [Listing.page, List.length_take] at short
      omega
    simpa [Listing.unread, short, none] using split
  · have nonempty : listing.page after limit ≠ [] := by
      intro empty
      simp [empty] at short
    obtain ⟨last, ends⟩ := Option.isSome_iff_exists.mp (List.getLast?_isSome.mpr nonempty)
    rw [ends]
    simp only [short, Listing.unread, decide_false, Bool.false_eq_true, if_false]
    rw [listing.beyond_getLast split ends]
    exact split

theorem Listing.page_eq_nil (listing : Listing κ) {after : Option κ} {limit : ℕ+} :
    listing.page after limit = [] ↔ listing.beyond after = [] := by
  simp [Listing.page]

theorem Listing.beyond_page_lt (listing : Listing κ) {after : Option κ} {limit : ℕ+}
    (some : listing.page after limit ≠ []) :
    (listing.beyond (listing.page after limit).getLast?).length <
      (listing.beyond after).length := by
  obtain ⟨last, ends⟩ := Option.isSome_iff_exists.mp (List.getLast?_isSome.mpr some)
  have split : listing.beyond after =
      listing.page after limit ++ (listing.beyond after).drop limit :=
    (List.take_append_drop _ _).symm
  have nonempty := List.length_pos_iff.mpr some
  have lengths := congrArg List.length split
  rw [List.length_append] at lengths
  rw [ends, listing.beyond_getLast split ends]
  omega

theorem Listing.beyond_of_mem (listing : Listing κ) {after : Option κ} {front rest : List κ}
    {key : κ} (split : listing.beyond after = front ++ key :: rest) :
    listing.beyond (some key) = rest := by
  have ends : (front ++ [key]).getLast? = some key := by simp
  exact listing.beyond_getLast (by simpa using split) ends

/-- A list that is ordered one way is ordered another exactly when no two of its
elements are ordered against each other. -/
theorem pairwise_iff_of_pairwise {α : Type} {r s : α → α → Prop} {list : List α}
    (irrefl : ∀ a, ¬ r a a) (asymm : ∀ a b, r a b → ¬ r b a) (ordered : list.Pairwise r) :
    list.Pairwise s ↔ ∀ a ∈ list, ∀ b ∈ list, r a b → s a b := by
  constructor
  · intro other
    exact List.Pairwise.forall_of_forall_of_flip (fun a _ order => absurd order (irrefl a))
      (other.imp (by exact fun below _ => below))
      (ordered.imp (by exact fun order above => absurd above (asymm _ _ order)))
  · intro agree
    exact ordered.imp_of_mem fun memberA memberB order => agree _ memberA _ memberB order

end Pypiron.PagedListing
