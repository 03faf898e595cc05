import ChaosLab.Foundation.Transition

/-! A machine as part of a larger one. Each step of the whole leaves the part
where it is or is one step of it, and a run of the whole is then a run of the
part, with the transitions that belong to it. -/

set_option autoImplicit false

namespace Foundation

variable {State Action Output Part PartAction PartOutput : Type}

/-- A transition of the whole, as the part sees it. -/
inductive Seen (part : Machine Part PartAction PartOutput) (view : State → Part)
    (transition : Transition State Action Output) :
    Option (Transition Part PartAction PartOutput) → Prop where
  | unmoved (same : view transition.after = view transition.before) : Seen part view transition none
  | moved {action : PartAction} {outputs : List PartOutput}
      (stepped : part.step (view transition.before) action =
        some (view transition.after, outputs)) :
      Seen part view transition
        (some ⟨view transition.before, action, outputs, view transition.after⟩)

theorem Run.project {machine : Machine State Action Output}
    {part : Machine Part PartAction PartOutput} {view : State → Part}
    {seen : Transition State Action Output → Option (Transition Part PartAction PartOutput)}
    (step : ∀ {state action next outputs}, machine.step state action = some (next, outputs) →
      Seen part view ⟨state, action, outputs, next⟩ (seen ⟨state, action, outputs, next⟩))
    {start final : State} {history : List (Transition State Action Output)}
    (run : Run machine start history final) :
    Run part (view start) (history.filterMap seen) (view final) := by
  induction run with
  | nil => exact .nil
  | @snoc history state next action outputs _ stepped ih =>
      have last := step stepped
      rw [List.filterMap_append, List.filterMap_cons, List.filterMap_nil]
      generalize seen ⟨state, action, outputs, next⟩ = found at last
      cases last with
      | unmoved same =>
          rw [List.append_nil]
          exact same ▸ ih
      | moved stepped => exact .snoc ih stepped

end Foundation
