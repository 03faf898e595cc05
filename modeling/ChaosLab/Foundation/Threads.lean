import ChaosLab.Foundation.Transition
import Mathlib.Logic.Function.Basic

/-! Threads with work of their own, which they do on a shared state, one item
at a time and in any order of threads. -/

set_option autoImplicit false

namespace Foundation

structure Pool (Thread Item State : Type) where
  remaining : Thread → List Item
  shared : State

variable {Thread Item State : Type} [DecidableEq Thread]

/-- The action is the thread that goes next; the output is the item it does. -/
def atomically (apply : State → Item → State) :
    Machine (Pool Thread Item State) Thread Item where
  step pool thread :=
    match pool.remaining thread with
    | [] => none
    | item :: rest =>
        some ({
          remaining := Function.update pool.remaining thread rest
          shared := apply pool.shared item }, [item])

/-- The items done, in order. -/
def doneItems (history : List (Transition (Pool Thread Item State) Thread Item)) : List Item :=
  history.flatMap Transition.outputs

def doneBy (thread : Thread)
    (history : List (Transition (Pool Thread Item State) Thread Item)) : List Item :=
  doneItems (history.filter fun transition => transition.action = thread)

variable {apply : State → Item → State} {start final : Pool Thread Item State}
  {history : List (Transition (Pool Thread Item State) Thread Item)}

theorem atomically_step {before after : Pool Thread Item State} {thread : Thread}
    {outputs : List Item}
    (stepped : (atomically apply).step before thread = some (after, outputs)) :
    ∃ item rest, before.remaining thread = item :: rest ∧ outputs = [item] ∧
      after.remaining = Function.update before.remaining thread rest ∧
      after.shared = apply before.shared item := by
  simp only [atomically] at stepped
  cases work : before.remaining thread with
  | nil => simp [work] at stepped
  | cons item rest =>
      simp only [work, Option.some.injEq, Prod.mk.injEq] at stepped
      obtain ⟨rfl, rfl⟩ := stepped
      exact ⟨item, rest, rfl, rfl, rfl, rfl⟩

/-- Whatever the order of the threads, the state is that of the items done, one after another. -/
theorem shared_eq_foldl (run : Run (atomically apply) start history final) :
    final.shared = (doneItems history).foldl apply start.shared := by
  induction run with
  | nil => rfl
  | snoc _ stepped ih =>
      obtain ⟨item, rest, _, rfl, _, shared⟩ := atomically_step stepped
      rw [shared, ih]
      simp [doneItems]

/-- Each thread has done its own items in order, up to those that remain. -/
theorem doneBy_append_remaining (run : Run (atomically apply) start history final)
    (thread : Thread) : doneBy thread history ++ final.remaining thread = start.remaining thread := by
  induction run with
  | nil => rfl
  | @snoc history before next action outputs _ stepped ih =>
      obtain ⟨item, rest, work, rfl, remaining, _⟩ := atomically_step stepped
      rw [remaining, ← ih]
      by_cases same : action = thread
      · subst same
        simp [doneBy, doneItems, work]
      · have other : thread ≠ action := fun equal => same equal.symm
        simp [doneBy, doneItems, same, Function.update_of_ne other]

end Foundation
