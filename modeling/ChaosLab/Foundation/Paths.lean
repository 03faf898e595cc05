import Mathlib.Data.List.Basic
import Mathlib.Data.List.Infix

/-! Walks through a tree of names, resolved without looking at the tree: a walk
ends so many levels above its start and from there down some names. -/

set_option autoImplicit false

namespace Foundation

inductive PathStep (Name : Type) where
  | stay
  | up
  | down (name : Name)
deriving DecidableEq

/-- Where a walk ends, seen from where it starts. -/
structure Place (Name : Type) where
  ups : Nat := 0
  names : List Name := []
deriving DecidableEq

variable {Name : Type}

namespace Place

/-- A step up undoes the last step down, if there is one to undo. -/
def step (place : Place Name) : PathStep Name → Place Name
  | .stay => place
  | .up =>
      if place.names = [] then { place with ups := place.ups + 1 }
      else { place with names := place.names.dropLast }
  | .down name => { place with names := place.names ++ [name] }

/-- Where the second walk ends, when it starts where the first one ends. -/
def follow (first second : Place Name) : Place Name where
  ups := first.ups + (second.ups - first.names.length)
  names := first.names.take (first.names.length - second.ups) ++ second.names

@[simp] theorem follow_start (place : Place Name) : place.follow {} = place := by
  simp [follow]

@[simp] theorem start_follow (place : Place Name) : ({} : Place Name).follow place = place := by
  simp [follow]

theorem step_up_of_eq_nil {place : Place Name} (bottom : place.names = []) :
    place.step .up = { place with ups := place.ups + 1 } :=
  if_pos bottom

theorem step_up_of_ne_nil {place : Place Name} (below : place.names ≠ []) :
    place.step .up = { place with names := place.names.dropLast } :=
  if_neg below

theorem follow_step (first second : Place Name) (next : PathStep Name) :
    first.follow (second.step next) = (first.follow second).step next := by
  cases next with
  | stay => rfl
  | down name => simp [follow, step]
  | up =>
      by_cases bottom : second.names = []
      · rw [step_up_of_eq_nil bottom]
        by_cases above : first.names.length ≤ second.ups
        · have none : first.names.length - second.ups = 0 := by omega
          have noneAfter : first.names.length - (second.ups + 1) = 0 := by omega
          rw [step_up_of_eq_nil (by simp [follow, none, bottom])]
          simp only [follow, none, noneAfter, Place.mk.injEq, and_true]
          omega
        · have below : (first.follow second).names ≠ [] := by
            intro none
            have length := congrArg List.length none
            simp [follow, bottom] at length
            omega
          rw [step_up_of_ne_nil below]
          simp only [follow, bottom, List.append_nil, Place.mk.injEq]
          constructor
          · omega
          · rw [List.dropLast_eq_take, List.length_take, List.take_take]
            congr 1
            omega
      · have below : (first.follow second).names ≠ [] := by simp [follow, bottom]
        rw [step_up_of_ne_nil bottom, step_up_of_ne_nil below]
        simp [follow, List.dropLast_append_of_ne_nil bottom]

/-- A walk ends at its start or below it exactly if it comes down again by the
names that it went up. -/
theorem prefix_follow_iff (first second : Place Name) :
    first.names <+: (first.follow second).names ↔
      first.names.drop (first.names.length - second.ups) <+: second.names := by
  let kept := first.names.length - second.ups
  calc first.names <+: (first.follow second).names
    _ ↔ first.names.take kept ++ first.names.drop kept <+:
        first.names.take kept ++ second.names := by rw [List.take_append_drop]; rfl
    _ ↔ first.names.drop kept <+: second.names := List.prefix_append_right_inj _

/-- The same for a walk that starts beside the place it has to end in. -/
theorem prefix_follow_sibling_iff {front : List Name} {name other : Name} (apart : name ≠ other)
    (second : Place Name) :
    front ++ [name] <+: ((⟨0, front ++ [other]⟩ : Place Name).follow second).names ↔
      1 ≤ second.ups ∧ (front ++ [name]).drop (front.length + 1 - second.ups) <+: second.names := by
  by_cases climbs : 1 ≤ second.ups
  · have sameFront : ∀ last, (front ++ [last]).take (front.length + 1 - second.ups) =
        front.take (front.length + 1 - second.ups) := by
      intro last
      exact List.take_append_of_le_length (by omega)
    have same : ((⟨0, front ++ [other]⟩ : Place Name).follow second).names =
        ((⟨0, front ++ [name]⟩ : Place Name).follow second).names := by
      simp [follow, sameFront]
    rw [same]
    simpa [climbs] using prefix_follow_iff (⟨0, front ++ [name]⟩ : Place Name) second
  · have none : second.ups = 0 := by omega
    constructor
    · intro within
      have stays : ((⟨0, front ++ [other]⟩ : Place Name).follow second).names =
          front ++ other :: second.names := by
        have whole : (front ++ [other]).take (front.length + 1) = front ++ [other] :=
          List.take_of_length_le (by simp)
        simp [follow, none, whole]
      rw [stays, List.prefix_append_right_inj] at within
      exact absurd (List.cons_prefix_cons.mp within).1 apart
    · rintro ⟨climbed, _⟩
      exact absurd climbed climbs

end Place

def walk (steps : List (PathStep Name)) : Place Name := steps.foldl Place.step {}

theorem foldl_step (start : Place Name) (steps : List (PathStep Name)) :
    steps.foldl Place.step start = start.follow (walk steps) := by
  induction steps using List.reverseRecOn with
  | nil => simp [walk]
  | append_singleton earlier next ih =>
      simp only [walk, List.foldl_concat] at ih ⊢
      rw [ih, Place.follow_step]

theorem walk_append (first second : List (PathStep Name)) :
    walk (first ++ second) = (walk first).follow (walk second) := by
  rw [walk, List.foldl_append, foldl_step]
  rfl

end Foundation
