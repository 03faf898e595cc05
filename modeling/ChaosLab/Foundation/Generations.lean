import Mathlib

/-! Messages that carry several generations, each advancing on its own. The
bottom value of a generation says that the message does not carry it. -/

set_option autoImplicit false

namespace Foundation

/-- One generation that a message carries, with what it is called. -/
structure Dimension (Message Name Value : Type) where
  name : Name
  read : Message → Value

variable {Message Name Value : Type} [LinearOrder Value]

section Advancing

def Advances (dimensions : List (Dimension Message Name Value)) (before after : Message) : Prop :=
  ∀ dimension ∈ dimensions, dimension.read before ≤ dimension.read after

def firstAdvanced (dimensions : List (Dimension Message Name Value)) (before after : Message) :
    Option (Dimension Message Name Value) :=
  dimensions.find? fun dimension => dimension.read before < dimension.read after

variable {dimensions : List (Dimension Message Name Value)}

theorem Advances.refl (message : Message) : Advances dimensions message message :=
  fun _ _ => le_rfl

theorem Advances.trans {first second third : Message} (before : Advances dimensions first second)
    (after : Advances dimensions second third) : Advances dimensions first third := by
  intro dimension member
  exact (before dimension member).trans (after dimension member)

/-- In a run that only advances, each message is followed by messages that have
advanced from it. -/
theorem advances_of_chain {run : List Message} (advancing : run.IsChain (Advances dimensions))
    {i j : Nat} (ordered : i ≤ j) {earlier later : Message} (atEarlier : run[i]? = some earlier)
    (atLater : run[j]? = some later) : Advances dimensions earlier later := by
  have transitive : Trans (Advances dimensions) (Advances dimensions) (Advances dimensions) :=
    ⟨Advances.trans⟩
  have pairwise := List.isChain_iff_pairwise.mp advancing
  rcases ordered.eq_or_lt with rfl | before
  · rw [atEarlier] at atLater
    cases atLater
    exact .refl earlier
  · obtain ⟨earlierBound, rfl⟩ := List.getElem?_eq_some_iff.mp atEarlier
    obtain ⟨laterBound, rfl⟩ := List.getElem?_eq_some_iff.mp atLater
    exact List.pairwise_iff_getElem.mp pairwise i j earlierBound laterBound before

end Advancing

section Staleness

variable [OrderBot Value]

/-- The candidate carries this generation, with a value behind the current one. -/
def Dimension.Behind (dimension : Dimension Message Name Value) (current candidate : Message) :
    Prop :=
  dimension.read candidate ≠ ⊥ ∧ dimension.read candidate < dimension.read current

instance (dimension : Dimension Message Name Value) (current candidate : Message) :
    Decidable (dimension.Behind current candidate) :=
  inferInstanceAs (Decidable (_ ∧ _))

def Stale (dimensions : List (Dimension Message Name Value)) (current candidate : Message) :
    Prop :=
  ∃ dimension ∈ dimensions, dimension.Behind current candidate

def firstBehind (dimensions : List (Dimension Message Name Value)) (current candidate : Message) :
    Option (Dimension Message Name Value) :=
  dimensions.find? fun dimension => dimension.Behind current candidate

/-- The message carries every generation. -/
def Complete (dimensions : List (Dimension Message Name Value)) (message : Message) : Prop :=
  ∀ dimension ∈ dimensions, dimension.read message ≠ ⊥

variable {dimensions : List (Dimension Message Name Value)}

theorem not_stale_self (message : Message) : ¬ Stale dimensions message message := by
  rintro ⟨_, _, _, behind⟩
  exact lt_irrefl _ behind

theorem Stale.of_advances {current later candidate : Message}
    (stale : Stale dimensions current candidate) (advances : Advances dimensions current later) :
    Stale dimensions later candidate := by
  obtain ⟨dimension, member, carried, behind⟩ := stale
  exact ⟨dimension, member, carried, behind.trans_le (advances dimension member)⟩

theorem firstBehind_isSome_iff {current candidate : Message} :
    (firstBehind dimensions current candidate).isSome ↔ Stale dimensions current candidate := by
  simp [firstBehind, Stale]

/-- A candidate that agrees on every other generation can only be behind on this
one. -/
theorem firstBehind_of_agree {dimension : Dimension Message Name Value}
    (member : dimension ∈ dimensions) {current candidate : Message}
    (agree : ∀ other ∈ dimensions, other ≠ dimension → other.read candidate = other.read current) :
    firstBehind dimensions current candidate =
      if dimension.Behind current candidate then some dimension else none := by
  have unique : ∀ other ∈ dimensions, other.Behind current candidate → other = dimension := by
    intro other inside behind
    by_contra apart
    exact absurd (agree other inside apart) behind.2.ne
  by_cases behind : dimension.Behind current candidate
  · obtain ⟨found, first⟩ := Option.isSome_iff_exists.mp
      (firstBehind_isSome_iff.mpr ⟨dimension, member, behind⟩)
    have inside := List.mem_of_find?_eq_some first
    have same := unique found inside (by simpa using List.find?_some first)
    rw [if_pos behind, first, same]
  · rw [if_neg behind]
    apply List.find?_eq_none.mpr
    intro other inside found
    have late : other.Behind current candidate := by simpa using found
    exact behind (unique other inside late ▸ late)

/-- Of a message that carries every generation, the first one behind is the
first one that has advanced since. -/
theorem firstBehind_eq_firstAdvanced {captured : Message} (complete : Complete dimensions captured)
    (later : Message) :
    firstBehind dimensions later captured = firstAdvanced dimensions captured later := by
  induction dimensions with
  | nil => rfl
  | cons dimension rest ih =>
      have carried := complete dimension (.head _)
      have others := ih fun other member => complete other (.tail _ member)
      unfold firstBehind firstAdvanced at others ⊢
      simp only [List.find?_cons, Dimension.Behind, ne_eq, carried, not_false_eq_true, true_and]
        at others ⊢
      rw [others]

end Staleness

end Foundation
