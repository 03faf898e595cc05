import ChaosLab.Tcp
import Mathlib.Logic.Function.Iterate

/-! The accept loop of the coordinator's `main`, and when it is left. -/

set_option autoImplicit false

namespace ChaosLab

namespace Coordinator

/-- The variables of the loop, the number of calls of `tcp_accept` it has made and whether it
has been left. A thread is known by its descriptor. -/
structure AcceptLoop where
  running : Bool := true
  calls : Nat := 0
  threads : List Int := []
  left : Bool := false
deriving DecidableEq

/-- One turn of the loop, given what each call of `tcp_accept` returns. The threads that are
joined have ended. -/
def acceptTurn (accept : Nat → Except Status Int) (loop : AcceptLoop) : AcceptLoop :=
  if loop.left then loop
  else if !loop.running then { loop with left := true }
  else
    match accept loop.calls with
    | .error _ => { loop with calls := loop.calls + 1, left := true }
    | .ok fd =>
        let loop := { loop with calls := loop.calls + 1, threads := loop.threads ++ [fd] }
        if 64 < loop.threads.length then { loop with threads := [], left := true } else loop

def acceptTurns (accept : Nat → Except Status Int) (turns : Nat) : AcceptLoop :=
  (acceptTurn accept)^[turns] {}

/-- The loop comes to call `tcp_accept` once more after `n` calls. -/
def CallsAgain (accept : Nat → Except Status Int) (n : Nat) : Prop :=
  ∃ turns, n < (acceptTurns accept turns).calls

/-- What the loop has come to after a number of turns. Nothing clears the flag it runs by; the
threads are as many as the calls, until there are more than the loop wants to keep. -/
structure Explained (accept : Nat → Except Status Int) (turns : Nat) (loop : AcceptLoop) :
    Prop where
  running : loop.running = true
  few : loop.calls ≤ 65
  serving : loop.left = false → loop.calls = turns ∧ loop.threads.length = turns ∧ turns ≤ 64 ∧
    ∀ i < turns, (accept i).isOk = true
  gone : loop.left = true → (∃ i < loop.calls, (accept i).isOk = false) ∨
    loop.calls = 65 ∧ ∀ i < 65, (accept i).isOk = true

section Turns

variable {accept : Nat → Except Status Int} {turns : Nat} {loop : AcceptLoop}

theorem forall_lt_succ {holds : Nat → Prop} (earlier : ∀ i < turns, holds i)
    (last : holds turns) : ∀ i < turns + 1, holds i := by
  intro i inside
  rcases Nat.lt_succ_iff_lt_or_eq.mp inside with before | same
  · exact earlier i before
  · rw [same]
    exact last

theorem acceptTurn_of_left (left : loop.left = true) : acceptTurn accept loop = loop := by
  rw [acceptTurn, if_pos left]

theorem acceptTurn_of_error (inside : loop.left = false) (running : loop.running = true)
    {status : Status} (failed : accept loop.calls = .error status) :
    acceptTurn accept loop = { loop with calls := loop.calls + 1, left := true } := by
  simp [acceptTurn, inside, running, failed]

theorem acceptTurn_of_ok (inside : loop.left = false) (running : loop.running = true) {fd : Int}
    (accepted : accept loop.calls = .ok fd) :
    acceptTurn accept loop =
      if 64 < loop.threads.length + 1 then
        { loop with calls := loop.calls + 1, threads := [], left := true }
      else { loop with calls := loop.calls + 1, threads := loop.threads ++ [fd] } := by
  simp [acceptTurn, inside, running, accepted]

/-- The step lemma. -/
theorem Explained.acceptTurn (explained : Explained accept turns loop) :
    Explained accept (turns + 1) (acceptTurn accept loop) := by
  obtain ⟨running, few, serving, gone⟩ := explained
  cases left : loop.left with
  | true =>
      rw [acceptTurn_of_left left]
      exact ⟨running, few, fun inside => absurd (left.symm.trans inside) nofun, gone⟩
  | false =>
      obtain ⟨calls, size, small, accepted⟩ := serving left
      cases result : accept loop.calls with
      | error status =>
          rw [acceptTurn_of_error left running result]
          refine ⟨running, by simp only [calls]; omega, nofun, fun _ => .inl ?_⟩
          exact ⟨loop.calls, Nat.lt_succ_self _, by rw [result]; rfl⟩
      | ok fd =>
          have all : ∀ i < turns + 1, (accept i).isOk = true := by
            apply forall_lt_succ accepted
            rw [← calls, result]
            rfl
          rw [acceptTurn_of_ok left running result, size, calls]
          split
          · have full : turns = 64 := by omega
            rw [full] at all
            exact ⟨running, by simp [full], nofun, fun _ => .inr ⟨by simp [full], all⟩⟩
          · refine ⟨running, by simp only; omega, fun _ => ⟨rfl, ?_, by omega, all⟩, ?_⟩
            · rw [List.length_append, size, List.length_singleton]
            · intro gone
              exact absurd (left.symm.trans gone) nofun

/-- The run lemma. -/
theorem explained_acceptTurns (accept : Nat → Except Status Int) (turns : Nat) :
    Explained accept turns (acceptTurns accept turns) := by
  induction turns with
  | zero =>
      have start : ∀ i < 0, (accept i).isOk = true := by
        intro i inside
        omega
      exact ⟨rfl, Nat.zero_le _, fun _ => ⟨rfl, rfl, Nat.zero_le _, start⟩, nofun⟩
  | succ turns ih =>
      rw [acceptTurns, Function.iterate_succ_apply']
      exact ih.acceptTurn

end Turns

section Serving

variable {accept : Nat → Except Status Int}

theorem callsAgain_of_le {n : Nat} (few : n ≤ 64) (accepted : ∀ i < n, (accept i).isOk = true) :
    CallsAgain accept n := by
  refine ⟨n + 1, ?_⟩
  obtain ⟨-, -, serving, gone⟩ := explained_acceptTurns accept (n + 1)
  cases left : (acceptTurns accept (n + 1)).left with
  | false =>
      rw [(serving left).1]
      exact Nat.lt_succ_self n
  | true =>
      rcases gone left with ⟨i, inside, failed⟩ | ⟨calls, -⟩
      · have late : n ≤ i := by
          by_contra early
          rw [accepted i (by omega)] at failed
          cases failed
        omega
      · omega

theorem not_callsAgain {n : Nat} (many : 64 < n) : ¬ CallsAgain accept n := by
  intro again
  obtain ⟨turns, called⟩ := again
  have few := (explained_acceptTurns accept turns).few
  omega

theorem exists_failed_iff {n : Nat} :
    (∃ i < n, (accept i).isOk = false) ↔ ¬ ∀ i < n, (accept i).isOk = true := by
  simp

/-- The loop calls `tcp_accept` again after `n` successes for up to 64 of them and no further:
after 65 it is left without a failure. -/
theorem keeps_serving_iff (accept : Nat → Except Status Int) :
    (∀ n, ((∀ i < n, (accept i).isOk = true) → CallsAgain accept n) ↔
      n ≤ 64 ∨ ∃ i < n, (accept i).isOk = false) ∧
    ((∀ turns, (acceptTurns accept turns).left = true →
        ∃ i < (acceptTurns accept turns).calls, (accept i).isOk = false) ↔
      ∃ i < 65, (accept i).isOk = false) := by
  constructor
  · intro n
    rw [exists_failed_iff]
    constructor
    · intro serves
      by_cases few : n ≤ 64
      · exact .inl few
      · exact .inr fun accepted => not_callsAgain (Nat.lt_of_not_le few) (serves accepted)
    · intro condition accepted
      rcases condition with few | failed
      · exact callsAgain_of_le few accepted
      · exact absurd accepted failed
  · constructor
    · intro explained
      obtain ⟨-, few, serving, -⟩ := explained_acceptTurns accept 65
      have left : (acceptTurns accept 65).left = true := by
        by_contra inside
        have small := (serving (Bool.eq_false_of_not_eq_true inside)).2.2.1
        omega
      obtain ⟨i, inside, failed⟩ := explained 65 left
      exact ⟨i, Nat.lt_of_lt_of_le inside few, failed⟩
    · intro failed turns left
      rcases (explained_acceptTurns accept turns).gone left with found | ⟨-, accepted⟩
      · exact found
      · exact absurd accepted (exists_failed_iff.mp failed)

/-- Sixty-five connections, all of them accepted. -/
theorem leaves_after_sixty_five :
    ¬ ((∀ i < 65, ((fun call : Nat => .ok (call + 4)) i : Except Status Int).isOk = true) →
      CallsAgain (fun call => .ok (call + 4)) 65) := by
  intro serves
  exact not_callsAgain (by decide) (serves fun _ _ => rfl)

end Serving

end Coordinator

end ChaosLab
