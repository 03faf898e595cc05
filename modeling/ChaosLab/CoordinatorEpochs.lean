import ChaosLab.ControllerResults
import ChaosLab.CoordinatorRestart

/-! Successive lives of the coordinator as the campaign driver starts them: each with the
epoch after the one that the driver's last submit returned. -/

set_option autoImplicit false

namespace ChaosLab

namespace Coordinator

open Foundation Controller

/-- The epoch that the life was started with. -/
def Life.epoch (life : Life) : UInt64 :=
  match parseArgs {} life.argv with
  | .ok coord => coord.epoch
  | .error _ => 0

/-- The driver has read a `SUBMIT_RESPONSE` of the one life, and starts the other with the
next epoch. -/
def Succeeds (earlier later : Life) : Prop :=
  ∃ event ∈ earlier.history, ∃ fd payload result port,
    Effect.send fd .submitResponse payload ∈ event.outputs ∧
    submitResult (some ⟨MsgType.submitResponse.code, payload⟩) = .ok result ∧
    result.epoch.toNat + 1 < 2 ^ 64 ∧
    later.argv = [ascii "--port", port, ascii "--epoch", toString (result.epoch + 1)]

/-- The completions that carry numbers of the earlier life are answered as stale in the
later one, and change nothing there. -/
def Fenced (earlier later : Life) : Prop :=
  ∀ event ∈ later.history, ∀ request, completion? event.action = some request →
    request.authority ∈ issued earlier.history →
    (∃ fd, event.outputs = rejection fd (ascii "stale_epoch")) ∧
      event.after.coord = event.before.coord

section Lives

variable {earlier later life : Life}

theorem epoch_of_process {final : System} (process : ProcessRun life.argv life.history final) :
    final.coord.epoch = life.epoch := by
  obtain ⟨coord, booted, run⟩ := process
  rw [ProcessRun.epoch_eq ⟨coord, booted, run⟩ booted, Life.epoch, booted]

theorem epoch_of_issued {final : System} (process : ProcessRun life.argv life.history final) :
    ∀ authority ∈ issued life.history, authority.epoch = life.epoch := by
  intro authority member
  rw [process.issued_eq, List.mem_map] at member
  obtain ⟨count, -, rfl⟩ := member
  exact epoch_of_process process

theorem epoch_of_response {final : System} (process : ProcessRun life.argv life.history final)
    {event : Event} (member : event ∈ life.history) {fd : Int} {payload : Bytes}
    (sent : Effect.send fd .submitResponse payload ∈ event.outputs) {result : SubmitResult}
    (read : submitResult (some ⟨MsgType.submitResponse.code, payload⟩) = .ok result) :
    result.epoch = life.epoch := by
  obtain ⟨before, after, parts⟩ := List.append_of_mem member
  obtain ⟨coord, booted, run⟩ := process
  rw [parts] at run
  obtain ⟨first, stepped, -⟩ := run.at_split
  rw [submitResponse_spec stepped sent, submitResult_authorityPayload] at read
  cases read
  rw [ProcessRun.epoch_eq ⟨coord, booted, first⟩ booted, Life.epoch, booted]

theorem epoch_of_argv {port : Bytes} {epoch : UInt64}
    (started : life.argv = [ascii "--port", port, ascii "--epoch", toString epoch]) :
    life.epoch = epoch := by
  have options : ascii "--epoch" ≠ ascii "--port" ∧ ascii "--epoch" ≠ ascii "--state-file" := by
    decide
  simp only [Life.epoch, started, parseArgs, if_true, options, if_false, stoull_toString]
  rfl

theorem epoch_lt_of_succeeds {final : System}
    (process : ProcessRun earlier.argv earlier.history final)
    (succeeds : Succeeds earlier later) : earlier.epoch < later.epoch := by
  obtain ⟨event, member, fd, payload, result, port, sent, read, room, started⟩ := succeeds
  rw [← epoch_of_response process member sent read, epoch_of_argv started, UInt64.lt_iff_toNat_lt,
    UInt64.toNat_add, UInt64.toNat_one, Nat.mod_eq_of_lt room]
  exact Nat.lt_succ_self _

theorem completeLocked_of_stale_epoch {s : CoordState} {request : CompleteRequest}
    (stale : request.epoch ≠ s.epoch) (fd : Int) :
    completeLocked s request fd = (s, rejection fd (ascii "stale_epoch")) := by
  have nonempty : ascii "stale_epoch" ≠ [] := by decide
  simp [completeLocked, authorityReject, stale, nonempty, rejection]

theorem stale_epoch_rejected {before after : System} {action : Action} {outputs : List Effect}
    {request : CompleteRequest} (stepped : machine.step before action = some (after, outputs))
    (completed : completion? action = some request)
    (stale : request.epoch ≠ before.coord.epoch) :
    (∃ fd, outputs = rejection fd (ascii "stale_epoch")) ∧ after.coord = before.coord := by
  cases stepped_of_step stepped with
  | accept | sendDispatch | sendResponse | disconnect => cases completed
  | register _ named | submit _ named | shutdown _ named => simp [completion?, named] at completed
  | inert _ unchanging => simp [unchanging.complete] at completed
  | @complete fd _ _ parsed ready named read =>
      obtain rfl : parsed = request := by simpa [completion?, named, read] using completed
      have locked := completeLocked_of_stale_epoch stale fd
      exact ⟨⟨fd, congrArg Prod.snd locked⟩, congrArg Prod.fst locked⟩

theorem fenced_of_epoch_lt {earlierFinal laterFinal : System}
    (earlierRun : ProcessRun earlier.argv earlier.history earlierFinal)
    (laterRun : ProcessRun later.argv later.history laterFinal)
    (advanced : earlier.epoch < later.epoch) : Fenced earlier later := by
  intro event member request completed old
  obtain ⟨before, after, parts⟩ := List.append_of_mem member
  obtain ⟨coord, booted, run⟩ := laterRun
  rw [parts] at run
  obtain ⟨first, stepped, -⟩ := run.at_split
  have current : event.before.coord.epoch = later.epoch := by
    rw [ProcessRun.epoch_eq ⟨coord, booted, first⟩ booted, Life.epoch, booted]
  have stale : request.epoch ≠ event.before.coord.epoch := by
    rw [current]
    have same : request.epoch = earlier.epoch := epoch_of_issued earlierRun _ old
    rw [same]
    exact UInt64.ne_of_lt advanced
  exact stale_epoch_rejected stepped completed stale

end Lives

end Coordinator

end ChaosLab
