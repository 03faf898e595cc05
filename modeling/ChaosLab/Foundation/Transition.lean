import Mathlib.Logic.Relation
import Mathlib.Data.List.Induction

/-! Machines with a partial step function and observable outputs. A run keeps
the whole history of transitions, so that a property may speak of the state
before a step, of its action, of what it put out, and of the state after it. -/

set_option autoImplicit false

namespace Foundation

/-- A step is refused (`none`) when its action is not enabled. -/
structure Machine (State Action Output : Type) where
  step : State → Action → Option (State × List Output)

structure Transition (State Action Output : Type) where
  before : State
  action : Action
  outputs : List Output
  after : State
deriving DecidableEq

variable {State Action Output : Type} {machine : Machine State Action Output}
  {start middle final : State} {history later : List (Transition State Action Output)}

/-- The state and the history reached from `start` by enabled steps only. -/
inductive Run (machine : Machine State Action Output) (start : State) :
    List (Transition State Action Output) → State → Prop where
  | nil : Run machine start [] start
  | snoc {history state next action outputs} :
      Run machine start history state →
      machine.step state action = some (next, outputs) →
      Run machine start (history ++ [⟨state, action, outputs, next⟩]) next

def Machine.exec (machine : Machine State Action Output) (start : State) :
    List Action → Option (List (Transition State Action Output) × State)
  | [] => some ([], start)
  | action :: actions =>
      match machine.step start action with
      | none => none
      | some (next, outputs) =>
          match machine.exec next actions with
          | none => none
          | some (history, final) =>
              some (⟨start, action, outputs, next⟩ :: history, final)

theorem forall_split_snoc {Item : Type} {items : List Item} {item : Item}
    {holds : List Item → Item → Prop} :
    (∀ earlier middle later, items ++ [item] = earlier ++ middle :: later →
      holds earlier middle) ↔
    (∀ earlier middle later, items = earlier ++ middle :: later → holds earlier middle) ∧
      holds items item := by
  constructor
  · intro every
    refine ⟨fun earlier middle later whole => ?_, every items item [] rfl⟩
    exact every earlier middle (later ++ [item]) (by simp [whole])
  · intro holds earlier middle later whole
    obtain ⟨every, last⟩ := holds
    cases later using List.reverseRecOn with
    | nil =>
        obtain ⟨rfl, same⟩ := List.append_inj' whole rfl
        obtain rfl := List.singleton_inj.mp same
        exact last
    | append_singleton later final =>
        rw [← List.cons_append, ← List.append_assoc] at whole
        exact every earlier middle later (List.append_inj' whole rfl).1

namespace Run

theorem append (run : Run machine start history middle)
    (continued : Run machine middle later final) :
    Run machine start (history ++ later) final := by
  induction continued with
  | nil => simpa using run
  | snoc _ stepped ih =>
      rw [← List.append_assoc]
      exact .snoc ih stepped

theorem single {action : Action} {outputs : List Output}
    (stepped : machine.step start action = some (final, outputs)) :
    Run machine start [⟨start, action, outputs, final⟩] final := by
  simpa using Run.snoc .nil stepped

theorem nil_inv (run : Run machine start [] final) : final = start := by
  generalize empty : ([] : List (Transition State Action Output)) = steps at run
  cases run with
  | nil => rfl
  | snoc => simp at empty

theorem snoc_inv {transition : Transition State Action Output}
    (run : Run machine start (history ++ [transition]) final) :
    Run machine start history transition.before ∧
      machine.step transition.before transition.action =
        some (transition.after, transition.outputs) ∧
      final = transition.after := by
  generalize whole : history ++ [transition] = steps at run
  cases run with
  | nil => simp at whole
  | snoc previous stepped =>
      obtain ⟨rfl, last⟩ := List.append_inj' whole rfl
      obtain rfl := List.singleton_inj.mp last
      exact ⟨previous, stepped, rfl⟩

theorem split (run : Run machine start (history ++ later) final) :
    ∃ state, Run machine start history state ∧ Run machine state later final := by
  induction later using List.reverseRecOn generalizing final with
  | nil => exact ⟨final, by simpa using run, .nil⟩
  | append_singleton later transition ih =>
      rw [← List.append_assoc] at run
      obtain ⟨previous, stepped, rfl⟩ := snoc_inv run
      obtain ⟨state, first, second⟩ := ih previous
      exact ⟨state, first, .snoc second stepped⟩

theorem cons_inv {transition : Transition State Action Output}
    (run : Run machine start (transition :: history) final) :
    transition.before = start ∧
      machine.step transition.before transition.action =
        some (transition.after, transition.outputs) ∧
      Run machine transition.after history final := by
  change Run machine start ([transition] ++ history) final at run
  obtain ⟨state, first, rest⟩ := split run
  change Run machine start ([] ++ [transition]) state at first
  obtain ⟨previous, stepped, rfl⟩ := snoc_inv first
  exact ⟨nil_inv previous, stepped, rest⟩

theorem at_split {transition : Transition State Action Output}
    (run : Run machine start (history ++ transition :: later) final) :
    Run machine start history transition.before ∧
      machine.step transition.before transition.action =
        some (transition.after, transition.outputs) ∧
      Run machine transition.after later final := by
  obtain ⟨state, first, rest⟩ := split run
  obtain ⟨same, stepped, rest⟩ := cons_inv rest
  exact ⟨same ▸ first, stepped, rest⟩

theorem unique {other : State} (run : Run machine start history final)
    (again : Run machine start history other) : final = other := by
  cases run with
  | nil => exact (nil_inv again).symm
  | snoc => exact (snoc_inv again).2.2.symm

/-- Invariant rule: what holds at the start and is kept by every step holds
in every state reached. -/
theorem invariant (holds : State → Prop)
    (step : ∀ {state action next outputs}, holds state →
      machine.step state action = some (next, outputs) → holds next)
    (run : Run machine start history final) (initial : holds start) : holds final := by
  induction run with
  | nil => exact initial
  | snoc _ stepped ih => exact step ih stepped

/-- If a step from a state that holds is good exactly when it meets a condition, and a good step
leads to a state that holds, the steps of a run are all good exactly when they all meet it. -/
theorem good_iff_meets {holds : State → Prop} {good meets : Transition State Action Output → Prop}
    (after : ∀ transition, good transition → holds transition.after)
    (step : ∀ {state action next outputs}, holds state →
      machine.step state action = some (next, outputs) →
      (good ⟨state, action, outputs, next⟩ ↔ meets ⟨state, action, outputs, next⟩))
    (run : Run machine start history final) (initial : holds start) :
    (∀ transition ∈ history, good transition) ↔ ∀ transition ∈ history, meets transition := by
  induction run with
  | nil => simp
  | @snoc history state next action outputs previous stepped ih =>
      have reaches (every : ∀ transition ∈ history, good transition) : holds state := by
        cases previous with
        | nil => exact initial
        | snoc _ _ => exact after _ (every _ (List.mem_append_right _ (List.mem_singleton_self _)))
      simp only [List.forall_mem_append, List.forall_mem_singleton, ← ih]
      exact and_congr_right fun every => step (reaches every) stepped

end Run

/-- Simulation rule: if each step from an invariant state is matched by at
most one abstract step, a run is matched by an abstract run. -/
theorem Run.simulates {Abstract : Type} {next : Abstract → Abstract → Prop}
    {holds : State → Prop} {view : State → Abstract}
    (keeps : ∀ {state action after outputs}, holds state →
      machine.step state action = some (after, outputs) → holds after)
    (step : ∀ {state action after outputs}, holds state →
      machine.step state action = some (after, outputs) →
      Relation.ReflGen next (view state) (view after))
    (run : Run machine start history final) (initial : holds start) :
    Relation.ReflTransGen next (view start) (view final) := by
  induction run with
  | nil => exact .refl
  | snoc previous stepped ih =>
      exact ih.trans (step (previous.invariant holds keeps initial) stepped).to_reflTransGen

theorem Machine.exec_run {actions : List Action}
    (executed : machine.exec start actions = some (history, final)) :
    Run machine start history final ∧ history.map (·.action) = actions := by
  induction actions generalizing start history with
  | nil =>
      cases executed
      exact ⟨.nil, rfl⟩
  | cons action actions ih =>
      simp only [Machine.exec] at executed
      cases stepped : machine.step start action with
      | none => simp [stepped] at executed
      | some result =>
          obtain ⟨next, outputs⟩ := result
          cases rest : machine.exec next actions with
          | none => simp [stepped, rest] at executed
          | some tail =>
              obtain ⟨tailHistory, tailFinal⟩ := tail
              simp only [stepped, rest, Option.some.injEq, Prod.mk.injEq] at executed
              obtain ⟨rfl, rfl⟩ := executed
              obtain ⟨run, same⟩ := ih rest
              exact ⟨(Run.single stepped).append run, by simp [same]⟩

/-- A run with these actions whose history and final state satisfy a predicate
that evaluates to true on the execution. -/
theorem Machine.exists_run (machine : Machine State Action Output) (start : State)
    (actions : List Action)
    (holds : List (Transition State Action Output) → State → Prop)
    [∀ history final, Decidable (holds history final)]
    (evaluated : (machine.exec start actions).any
      (fun result => decide (holds result.1 result.2)) = true) :
    ∃ history final, Run machine start history final ∧ holds history final := by
  obtain ⟨⟨history, final⟩, executed, satisfied⟩ :=
    (Option.any_eq_true _ _).mp evaluated
  exact ⟨history, final, (Machine.exec_run executed).1, of_decide_eq_true satisfied⟩

end Foundation
