import Mathlib.Order.Bounds.Basic
import Mathlib.Data.List.Induction

/-! A level that moves up and down over a run, and the mark that follows its
highest value. -/

set_option autoImplicit false

namespace Foundation

variable {State Action Level : Type} {step : State → Action → State} {level mark : State → Level}

def reached (step : State → Action → State) (level : State → Level) (start : State)
    (actions : List Action) : Set Level :=
  {value | ∃ earlier, earlier <+: actions ∧ level (earlier.foldl step start) = value}

theorem reached_concat (start : State) (earlier : List Action) (action : Action) :
    reached step level start (earlier ++ [action]) =
      insert (level ((earlier ++ [action]).foldl step start))
        (reached step level start earlier) := by
  ext value
  simp only [reached, List.prefix_concat_iff, Set.mem_ofPred_eq, Set.mem_insert_iff, or_and_right,
    exists_or, exists_eq_left]
  rw [eq_comm]

variable [LinearOrder Level]

/-- Every action leaves the mark at the higher of where it was and the new level. -/
def Follows (step : State → Action → State) (level mark : State → Level) : Prop :=
  ∀ state action, level state ≤ mark state →
    mark (step state action) = max (mark state) (level (step state action))

theorem level_le_mark (follows : Follows step level mark) {start : State}
    (initial : level start ≤ mark start) (actions : List Action) :
    level (actions.foldl step start) ≤ mark (actions.foldl step start) := by
  induction actions using List.reverseRecOn with
  | nil => exact initial
  | append_singleton earlier action ih =>
      rw [List.foldl_append, List.foldl_cons, List.foldl_nil, follows _ action ih]
      exact le_max_right _ _

/-- The mark is the highest level of the whole run, and the level has been there. -/
theorem isGreatest_reached (follows : Follows step level mark) {start : State}
    (initial : level start = mark start) (actions : List Action) :
    IsGreatest (reached step level start actions) (mark (actions.foldl step start)) := by
  induction actions using List.reverseRecOn with
  | nil =>
      constructor
      · exact ⟨[], List.prefix_rfl, initial⟩
      · rintro value ⟨earlier, isStart, rfl⟩
        rw [List.prefix_nil.mp isStart]
        exact initial.le
  | append_singleton earlier action ih =>
      have below := level_le_mark follows initial.le earlier
      rw [reached_concat]
      have marked : mark ((earlier ++ [action]).foldl step start) =
          max (level ((earlier ++ [action]).foldl step start))
            (mark (earlier.foldl step start)) := by
        rw [List.foldl_append, List.foldl_cons, List.foldl_nil, follows _ action below, max_comm]
      rw [marked]
      exact ih.insert _

end Foundation
