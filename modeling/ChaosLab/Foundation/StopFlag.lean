import ChaosLab.Foundation.Transition
import Mathlib.Logic.Function.Basic

/-! Loops that share a stop flag. Each thread looks at the flag before a turn of its
loop; a turn that ends its loop raises the flag for all, and a loop that finds it
raised ends. -/

set_option autoImplicit false

namespace Foundation

/-- What the turn of a loop comes to; one that waits has not happened yet. -/
inductive Turn (State Result : Type) where
  | waits
  | continues (next : State)
  | returns (last : State) (result : Result)

inductive LoopPhase (Result : Type) where
  | looking
  | working
  | returned (result : Result)
deriving DecidableEq

structure Loop (State Result : Type) where
  state : State
  phase : LoopPhase Result := .looking

structure Crew (Thread State Result : Type) where
  raised : Bool := false
  loops : Thread → Loop State Result

variable {Thread State Result : Type}

/-- So many turns of one loop, all of which go on. -/
inductive Turns (turn : State → Turn State Result) (start : State) : Nat → State → Prop where
  | zero : Turns turn start 0 start
  | succ {count : Nat} {state next : State} (earlier : Turns turn start count state)
      (continues : turn state = .continues next) : Turns turn start (count + 1) next

variable {turn : Thread → State → Turn State Result} {stopped : Result}
  {begin : Thread → State} {crew next : Crew Thread State Result} {thread : Thread}

/-- The loop has returned by a turn of its own. -/
def EndedItself (turn : Thread → State → Turn State Result) (begin : Thread → State)
    (crew : Crew Thread State Result) (thread : Thread) : Prop :=
  ∃ count state result, Turns (turn thread) (begin thread) count state ∧
    turn thread state = .returns (crew.loops thread).state result ∧
    (crew.loops thread).phase = .returned result

/-- The loop has returned on the flag, which another loop raised. -/
def WasStopped (turn : Thread → State → Turn State Result) (stopped : Result)
    (begin : Thread → State) (crew : Crew Thread State Result) (thread : Thread) : Prop :=
  (∃ count, Turns (turn thread) (begin thread) count (crew.loops thread).state) ∧
    (crew.loops thread).phase = .returned stopped ∧
    ∃ other ≠ thread, EndedItself turn begin crew other

/-- What one thread of a crew has come to. -/
def CameTo (turn : Thread → State → Turn State Result) (stopped : Result)
    (begin : Thread → State) (crew : Crew Thread State Result) (thread : Thread) : Prop :=
  ((∀ result, (crew.loops thread).phase ≠ .returned result) ∧
      ∃ count, Turns (turn thread) (begin thread) count (crew.loops thread).state) ∨
    EndedItself turn begin crew thread ∨ WasStopped turn stopped begin crew thread

structure Orderly (turn : Thread → State → Turn State Result) (stopped : Result)
    (begin : Thread → State) (crew : Crew Thread State Result) : Prop where
  cameTo : ∀ thread, CameTo turn stopped begin crew thread
  raised : crew.raised = true → ∃ thread, EndedItself turn begin crew thread

theorem CameTo.turns (cameTo : CameTo turn stopped begin crew thread)
    (running : ∀ result, (crew.loops thread).phase ≠ .returned result) :
    ∃ count, Turns (turn thread) (begin thread) count (crew.loops thread).state := by
  rcases cameTo with ⟨-, turns⟩ | ⟨-, -, result, -, -, phase⟩ | ⟨-, phase, -⟩
  · exact turns
  · exact absurd phase (running result)
  · exact absurd phase (running stopped)

variable [DecidableEq Thread]

def Crew.set (crew : Crew Thread State Result) (thread : Thread) (loop : Loop State Result)
    (raised : Bool) : Crew Thread State Result where
  raised := raised
  loops := Function.update crew.loops thread loop

/-- The action is the thread that goes next. -/
def sharing (turn : Thread → State → Turn State Result) (stopped : Result) :
    Machine (Crew Thread State Result) Thread Unit where
  step crew thread :=
    match (crew.loops thread).phase with
    | .looking =>
        let phase := if crew.raised then .returned stopped else .working
        some (crew.set thread ⟨(crew.loops thread).state, phase⟩ crew.raised, [])
    | .working =>
        match turn thread (crew.loops thread).state with
        | .waits => none
        | .continues next => some (crew.set thread ⟨next, .looking⟩ crew.raised, [])
        | .returns last result => some (crew.set thread ⟨last, .returned result⟩ true, [])
    | .returned _ => none

section Step

theorem Crew.set_self (crew : Crew Thread State Result) (thread : Thread)
    (loop : Loop State Result) (raised : Bool) :
    (crew.set thread loop raised).loops thread = loop := by
  simp [Crew.set]

theorem Crew.set_of_ne (crew : Crew Thread State Result) {thread other : Thread}
    (different : other ≠ thread) (loop : Loop State Result) (raised : Bool) :
    (crew.set thread loop raised).loops other = crew.loops other := by
  simp [Crew.set, different]

/-- All that a step can do. -/
inductive Shared (turn : Thread → State → Turn State Result) (stopped : Result)
    (crew : Crew Thread State Result) (thread : Thread) : Crew Thread State Result → Prop where
  | stops (looking : (crew.loops thread).phase = .looking) (raised : crew.raised = true) :
      Shared turn stopped crew thread
        (crew.set thread ⟨(crew.loops thread).state, .returned stopped⟩ crew.raised)
  | starts (looking : (crew.loops thread).phase = .looking) (lowered : crew.raised = false) :
      Shared turn stopped crew thread
        (crew.set thread ⟨(crew.loops thread).state, .working⟩ crew.raised)
  | continues {state : State} (working : (crew.loops thread).phase = .working)
      (went : turn thread (crew.loops thread).state = .continues state) :
      Shared turn stopped crew thread (crew.set thread ⟨state, .looking⟩ crew.raised)
  | returns {state : State} {result : Result} (working : (crew.loops thread).phase = .working)
      (went : turn thread (crew.loops thread).state = .returns state result) :
      Shared turn stopped crew thread (crew.set thread ⟨state, .returned result⟩ true)

theorem shared_of_step {outputs : List Unit}
    (stepped : (sharing turn stopped).step crew thread = some (next, outputs)) :
    Shared turn stopped crew thread next := by
  simp only [sharing] at stepped
  split at stepped
  · rename_i looking
    cases raised : crew.raised with
    | true =>
        simp only [raised, if_true] at stepped
        cases stepped
        exact raised ▸ .stops looking raised
    | false =>
        simp only [raised, Bool.false_eq_true, if_false] at stepped
        cases stepped
        exact raised ▸ .starts looking raised
  · rename_i working
    split at stepped
    · cases stepped
    · rename_i went
      cases stepped
      exact .continues working went
    · rename_i went
      cases stepped
      exact .returns working went
  · cases stepped

theorem EndedItself.set {other : Thread} (ended : EndedItself turn begin crew other)
    (running : ∀ result, (crew.loops thread).phase ≠ .returned result)
    (loop : Loop State Result) (raised : Bool) :
    EndedItself turn begin (crew.set thread loop raised) other := by
  obtain ⟨count, state, result, turns, returns, phase⟩ := ended
  have different : other ≠ thread := fun same => running result (same ▸ phase)
  refine ⟨count, state, result, turns, ?_⟩
  rw [Crew.set_of_ne crew different]
  exact ⟨returns, phase⟩

theorem Shared.running (shared : Shared turn stopped crew thread next) (result : Result) :
    (crew.loops thread).phase ≠ .returned result := by
  cases shared with
  | stops phase | starts phase | continues phase | returns phase => simp [phase]

theorem CameTo.set {other : Thread} (cameTo : CameTo turn stopped begin crew other)
    (different : other ≠ thread)
    (running : ∀ result, (crew.loops thread).phase ≠ .returned result)
    (loop : Loop State Result) (raised : Bool) :
    CameTo turn stopped begin (crew.set thread loop raised) other := by
  rcases cameTo with ⟨going, turns⟩ | ended | ⟨turns, phase, cause, apart, ended⟩
  · exact .inl (by rw [Crew.set_of_ne crew different]; exact ⟨going, turns⟩)
  · exact .inr (.inl (ended.set running loop raised))
  · refine .inr (.inr ⟨?_, ?_, cause, apart, ended.set running loop raised⟩)
    · rwa [Crew.set_of_ne crew different]
    · rwa [Crew.set_of_ne crew different]

theorem Orderly.step (orderly : Orderly turn stopped begin crew)
    (shared : Shared turn stopped crew thread next) : Orderly turn stopped begin next := by
  have running := shared.running
  obtain ⟨count, turns⟩ := (orderly.cameTo thread).turns running
  have others (loop : Loop State Result) (raised : Bool)
      (own : CameTo turn stopped begin (crew.set thread loop raised) thread) (other : Thread) :
      CameTo turn stopped begin (crew.set thread loop raised) other := by
    by_cases same : other = thread
    · exact same ▸ own
    · exact (orderly.cameTo other).set same running loop raised
  have flag (loop : Loop State Result) (raised : crew.raised = true) :
      ∃ other, EndedItself turn begin (crew.set thread loop crew.raised) other := by
    obtain ⟨other, ended⟩ := orderly.raised raised
    exact ⟨other, ended.set running loop crew.raised⟩
  cases shared with
  | stops looking raised =>
      refine ⟨others _ _ (.inr (.inr ⟨⟨count, ?_⟩, ?_, ?_⟩)), flag _⟩
      · rwa [Crew.set_self]
      · rw [Crew.set_self]
      · obtain ⟨other, ended⟩ := orderly.raised raised
        obtain ⟨-, -, result, -, -, phase⟩ := id ended
        have different : other ≠ thread := fun same => running result (same ▸ phase)
        exact ⟨other, different, ended.set running _ _⟩
  | starts looking lowered =>
      refine ⟨others _ _ (.inl ⟨?_, count, ?_⟩), flag _⟩
      · simp [Crew.set_self]
      · rwa [Crew.set_self]
  | continues working went =>
      refine ⟨others _ _ (.inl ⟨?_, count + 1, ?_⟩), flag _⟩
      · simp [Crew.set_self]
      · rw [Crew.set_self]
        exact .succ turns went
  | @returns state result working went =>
      have ended : EndedItself turn begin (crew.set thread ⟨state, .returned result⟩ true) thread := by
        refine ⟨count, _, result, turns, ?_, ?_⟩
        · rw [Crew.set_self]
          exact went
        · rw [Crew.set_self]
      exact ⟨others _ _ (.inr (.inl ended)), fun _ => ⟨thread, ended⟩⟩

end Step

section Run

variable {final : Crew Thread State Result}
  {history : List (Transition (Crew Thread State Result) Thread Unit)}

/-- In any order of the threads, each loop has gone the way it would have gone alone,
up to where it stopped on the flag; and only a loop that ended by itself raises it. -/
theorem orderly_of_run (run : Run (sharing turn stopped) ⟨false, fun thread => ⟨begin thread, .looking⟩⟩
    history final) : Orderly turn stopped begin final := by
  refine run.invariant (Orderly turn stopped begin) (fun orderly stepped =>
    orderly.step (shared_of_step stepped)) ⟨fun thread => ?_, by simp⟩
  exact .inl ⟨by simp, 0, .zero⟩

/-- Where a loop has returned, the flag is raised. -/
theorem raised_of_returned (run : Run (sharing turn stopped) crew history final)
    (initial : ∀ thread result, (crew.loops thread).phase = .returned result → crew.raised = true) :
    ∀ thread result, (final.loops thread).phase = .returned result → final.raised = true := by
  refine run.invariant (fun crew => ∀ thread result,
    (crew.loops thread).phase = .returned result → crew.raised = true) ?_ initial
  intro crew action next outputs holds stepped thread result phase
  by_cases same : thread = action
  · subst same
    cases shared_of_step stepped with
    | stops _ raised => exact raised
    | starts | continues => simp [Crew.set] at phase
    | returns => rfl
  · cases shared_of_step stepped with
    | stops _ raised => exact raised
    | starts | continues =>
        rw [Crew.set_of_ne crew same] at phase
        exact holds thread result phase
    | returns => rfl

/-- The steps a loop still takes when the flag is raised. -/
def LoopPhase.stepsLeft : LoopPhase Result → Nat
  | .looking => 1
  | .working => 2
  | .returned _ => 0

theorem stepsLeft_of_raised (run : Run (sharing turn stopped) crew history final)
    (raised : crew.raised = true) (thread : Thread) :
    final.raised = true ∧
      (history.filter (·.action = thread)).length + (final.loops thread).phase.stepsLeft ≤
        (crew.loops thread).phase.stepsLeft := by
  induction run with
  | nil => simp [raised]
  | @snoc history before after action outputs _ stepped ih =>
      obtain ⟨still, bound⟩ := ih
      have kept : after.raised = true ∧ (after.loops thread).phase.stepsLeft +
          (if action = thread then 1 else 0) ≤ (before.loops thread).phase.stepsLeft := by
        by_cases same : action = thread
        · subst same
          cases shared_of_step stepped with
          | stops phase => simp [phase, LoopPhase.stepsLeft, Crew.set, still]
          | starts phase lowered => simp [still] at lowered
          | continues phase | returns phase =>
              simp [phase, LoopPhase.stepsLeft, Crew.set, still]
        · have other : thread ≠ action := Ne.symm same
          cases shared_of_step stepped with
          | stops | starts | continues | returns =>
              simp [Crew.set, Function.update_of_ne other, same, still]
      refine ⟨kept.1, ?_⟩
      rw [List.filter_append, List.length_append]
      by_cases same : action = thread
      · simp only [same, decide_true, List.filter_cons_of_pos, List.filter_nil,
          List.length_singleton, if_true] at kept ⊢
        omega
      · simp only [same, decide_false, if_false, Bool.false_eq_true, not_false_eq_true,
          List.filter_cons_of_neg, List.filter_nil, List.length_nil] at kept ⊢
        omega

end Run

end Foundation
