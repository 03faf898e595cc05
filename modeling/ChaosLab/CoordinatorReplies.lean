import ChaosLab.CoordinatorLiveness
import ChaosLab.CoordinatorSubmit
import ChaosLab.Network

/-! Where the coordinator's frames go: to the connection whose frame is handled, or, for a
`DISPATCH`, to a connection over which a worker has registered. -/

set_option autoImplicit false

namespace ChaosLab

namespace Coordinator

open Foundation Network

/-- What is sent goes to this connection and hands out no numbers. -/
def Answering (fd : Int) (effects : List Effect) : Prop :=
  ∀ effect ∈ effects,
    match effect with
    | .send receiver type _ => receiver = fd ∧ type ≠ .submitResponse
    | _ => True

section Answering

variable {fd : Int} {effects : List Effect}

theorem Answering.transmitted_eq_nil (answering : Answering fd effects) {place : Int}
    (elsewhere : fd ≠ place) : transmitted effects place = [] := by
  rw [List.eq_nil_iff_forall_not_mem]
  intro frame member
  simp only [transmitted, List.mem_filterMap] at member
  obtain ⟨effect, inside, sent⟩ := member
  cases effect with
  | send receiver type payload =>
      obtain ⟨rfl, -⟩ := answering _ inside
      simp [elsewhere] at sent
  | report | close => cases sent

theorem answering_registerEffects (s : CoordState) (id boot : UInt64) (fd : Int) :
    Answering fd (registerEffects s id boot fd) := by
  unfold registerEffects
  dsimp only
  split <;> simp [Answering]

theorem answering_completeLocked (s : CoordState) (request : CompleteRequest) (fd : Int) :
    Answering fd (completeLocked s request fd).2 := by
  unfold completeLocked
  dsimp only
  split_ifs <;> simp [Answering]

theorem answering_closeConnection (fd : Int) (s : CoordState) :
    Answering fd (closeConnection fd s).2 := by
  unfold closeConnection
  split
  · simp [Answering]
  · split <;> simp [Answering]

end Answering

section Frames

variable {s coord : CoordState} {type : UInt32} {payload : Bytes} {fd : Int}
  {outputs : List Effect} {phase : ThreadPhase}

theorem answering_handleRegister (returned : handleRegister payload fd s = .ok (coord, outputs)) :
    Answering fd outputs := by
  obtain ⟨parsed, -, returned⟩ := bind_ok returned
  cases parsed with
  | none =>
      cases returned
      simp [Answering]
  | some parsed =>
      cases returned
      exact answering_registerEffects s _ _ fd

theorem answering_handleComplete (returned : handleComplete payload fd s = .ok (coord, outputs)) :
    Answering fd outputs := by
  obtain ⟨parsed, -, returned⟩ := bind_ok returned
  cases parsed with
  | none =>
      cases returned
      simp [Answering]
  | some request =>
      have locked : completeLocked s request fd = (coord, outputs) := Except.ok.inj returned
      have answering := answering_completeLocked s request fd
      rwa [locked] at answering

/-- The locked section of a submit either refuses it, with one frame, or sends nothing. -/
theorem submitLocked_spec {submission : Option Submission}
    (locked : submitLocked payload fd s = .ok (coord, outputs, submission)) :
    (submission = none ∧ coord = s ∧ ∃ reason, outputs = [.send fd .completeRejected reason]) ∨
    ∃ target work worker, parseSubmit payload = .ok (some (target, work)) ∧
      liveWorker? s target = some worker ∧ coord = allocate s target worker ∧ outputs = [] ∧
      submission = some ⟨work, worker.fd⟩ := by
  obtain ⟨parsed, read, locked⟩ := bind_ok locked
  cases parsed with
  | none =>
      cases locked
      exact .inl ⟨rfl, rfl, _, rfl⟩
  | some parsed =>
      obtain ⟨target, work⟩ := parsed
      simp only at locked
      split at locked
      · cases locked
        exact .inl ⟨rfl, rfl, _, rfl⟩
      · rename_i worker live
        cases locked
        exact .inr ⟨target, work, worker, read, live, rfl, rfl, rfl⟩

theorem answering_frameStep (returned : frameStep type payload fd s = .ok (coord, outputs, phase)) :
    Answering fd outputs := by
  cases named : MsgType.ofCode? type with
  | none =>
      simp only [frameStep, switchFrame, named] at returned
      cases returned
      simp [Answering]
  | some message =>
      cases message with
      | submit =>
          simp only [frameStep, named] at returned
          obtain ⟨⟨next, effects, submission⟩, locked, returned⟩ := bind_ok returned
          rcases submitLocked_spec locked with
            ⟨rfl, -, reason, rfl⟩ | ⟨target, work, worker, -, -, -, rfl, rfl⟩
          · cases returned
            simp [Answering]
          · cases returned
            simp [Answering]
      | register =>
          simp only [frameStep, switchFrame, named] at returned
          obtain ⟨⟨next, effects⟩, handled, returned⟩ := bind_ok returned
          cases returned
          exact answering_handleRegister handled
      | complete =>
          simp only [frameStep, switchFrame, named] at returned
          obtain ⟨⟨next, effects⟩, handled, returned⟩ := bind_ok returned
          cases returned
          exact answering_handleComplete handled
      | getState | workStarted | ping | shutdown | registered | submitResponse | dispatch
      | completeAck | completeRejected | epochNew | pong | stale | state =>
          simp only [frameStep, switchFrame, named] at returned
          cases returned
          simp [Answering, handleGetState]

end Frames

section Apart

/-- No worker is reached over this descriptor. -/
structure Apart (ctl : Int) (system : System) : Prop where
  workers : ∀ (id : UInt64) (worker : Worker),
    system.coord.workers[id]? = some worker → worker.fd ≠ ctl
  dispatching : ∀ (fd : Int) (submission : Submission),
    system.threads[fd]? = some (.dispatching submission) → submission.workerFd ≠ ctl

variable {ctl : Int} {before after : System} {action : Action} {outputs : List Effect}

theorem fd_closeConnection {fd : Int} {s : CoordState} {id : UInt64} {worker : Worker}
    (found : (closeConnection fd s).1.workers[id]? = some worker) :
    ∃ kept, s.workers[id]? = some kept ∧ worker.fd = kept.fd := by
  simp only [closeConnection] at found
  split at found
  · exact ⟨worker, found, rfl⟩
  · split at found
    · exact ⟨worker, found, rfl⟩
    · rename_i owner known kept inside
      simp only [getElem?_insert_ite] at found
      split at found
      · rename_i same
        cases found
        exact ⟨kept, same ▸ inside, rfl⟩
      · exact ⟨worker, found, rfl⟩

theorem Apart.step (apart : Apart ctl before)
    (stepped : machine.step before action = some (after, outputs))
    (unregistered : ∀ id, registration? action ≠ some (id, ctl)) : Apart ctl after := by
  refine ⟨?_, ?_⟩
  · intro id worker found
    cases membership_of_step stepped with
    | accept => exact apart.workers id worker found
    | @register _ fd name id' boot _ registers =>
        simp only [registerLocked, getElem?_insert_ite] at found
        split at found
        · cases found
          rintro rfl
          exact unregistered _ registers
        · exact apart.workers id worker found
    | phase _ same => exact apart.workers id worker (same ▸ found)
    | disconnect =>
        obtain ⟨kept, inside, same⟩ := fd_closeConnection found
        exact same ▸ apart.workers id kept inside
  · intro fd submission found
    rcases dispatching_of_step stepped found with accepted | waiting
    · cases stepped_of_step stepped with
      | submit ready named read live =>
          rcases getElem?_of_insert found with ⟨-, same⟩ | kept
          · cases same
            obtain ⟨inside, -⟩ := Option.filter_eq_some_iff.mp live
            exact apart.workers _ _ inside
          · exact apart.dispatching fd submission kept
      | accept | sendDispatch | sendResponse | disconnect => cases accepted
      | register _ named | complete _ named | shutdown _ named =>
          simp [acceptedSubmit?, named] at accepted
      | inert _ unchanging => simp [unchanging.submit] at accepted
    · exact apart.dispatching fd submission waiting

end Apart

/-- The connection whose thread takes a step. -/
def Action.connection : Action → Int
  | .accept fd | .frame fd _ _ | .sendDispatch fd _ | .sendResponse fd | .disconnect fd => fd

section Elsewhere

variable {ctl : Int} {before after : System} {action : Action} {outputs : List Effect}

/-- A step for another connection leaves this one's thread where it is. -/
theorem threads_elsewhere (stepped : machine.step before action = some (after, outputs))
    (elsewhere : action.connection ≠ ctl) : after.threads[ctl]? = before.threads[ctl]? := by
  cases stepped_of_step stepped with
  | accept | register | submit | complete | inert | shutdown | sendDispatch | sendResponse =>
      rw [getElem?_insert_ite]
      exact if_neg elsewhere
  | disconnect =>
      rw [getElem?_erase_ite]
      exact if_neg elsewhere

/-- A step for another connection sends nothing over one that no worker is reached over. -/
theorem transmitted_elsewhere (apart : Apart ctl before)
    (stepped : machine.step before action = some (after, outputs))
    (elsewhere : action.connection ≠ ctl) : transmitted outputs ctl = [] := by
  have taken := stepped
  change step before action = some (after, outputs) at taken
  cases action with
  | accept fd =>
      simp only [step] at taken
      split at taken
      · cases taken
      · cases taken
        rfl
  | frame fd type payload =>
      simp only [step] at taken
      split at taken
      · split at taken
        · rename_i returned
          cases taken
          exact (answering_frameStep returned).transmitted_eq_nil elsewhere
        · cases taken
      · cases taken
  | sendDispatch fd sent =>
      simp only [step] at taken
      split at taken
      · rename_i submission ready
        cases taken
        simp [transmitted, sendDispatch, apart.dispatching fd submission ready]
      · cases taken
  | sendResponse fd =>
      simp only [step] at taken
      split at taken
      · cases taken
        have away : fd ≠ ctl := elsewhere
        simp only [transmitted, sendResponse, List.filterMap_cons, away, if_false]
        split <;> rfl
      · cases taken
  | disconnect fd =>
      simp only [step] at taken
      split at taken
      · cases taken
        exact Answering.transmitted_eq_nil (answering_closeConnection fd _) elsewhere
      · cases taken

end Elsewhere

/-- A `SUBMIT_RESPONSE` carries the current numbers. -/
theorem submitResponse_spec {before after : System} {action : Action} {outputs : List Effect}
    (stepped : machine.step before action = some (after, outputs)) {fd : Int} {payload : Bytes}
    (sent : Effect.send fd .submitResponse payload ∈ outputs) :
    payload = authorityPayload before.coord := by
  change step before action = some (after, outputs) at stepped
  cases action with
  | accept fd =>
      simp only [step] at stepped
      split at stepped
      · cases stepped
      · cases stepped
        cases sent
  | frame fd type payload =>
      simp only [step] at stepped
      split at stepped
      · split at stepped
        · rename_i returned
          cases stepped
          exact absurd rfl (answering_frameStep returned _ sent).2
        · cases stepped
      · cases stepped
  | sendDispatch fd sent =>
      simp only [step] at stepped
      split at stepped
      · cases stepped
        simp [sendDispatch] at sent
      · cases stepped
  | sendResponse fd =>
      simp only [step] at stepped
      split at stepped
      · rename_i done _
        cases stepped
        cases done <;> simp_all [sendResponse]
      · cases stepped
  | disconnect fd =>
      simp only [step] at stepped
      split at stepped
      · cases stepped
        exact absurd rfl (answering_closeConnection fd _ _ sent).2
      · cases stepped

end Coordinator

end ChaosLab
