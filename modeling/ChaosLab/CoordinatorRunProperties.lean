import ChaosLab.CoordinatorRun

/-! What one step of the coordinator can do, once for all invariants. -/

set_option autoImplicit false

namespace ChaosLab

namespace Coordinator

open Foundation

theorem bind_ok {ε α β : Type} {first : Except ε α} {next : α → Except ε β} {value : β}
    (accepted : (first >>= next) = .ok value) :
    ∃ item, first = .ok item ∧ next item = .ok value := by
  cases first with
  | error failure => cases accepted
  | ok item => exact ⟨item, rfl, accepted⟩

def Quiet (effect : Effect) : Prop :=
  effect.sends .dispatch = false ∧ effect.sends .completeAck = false

structure Inert (s : CoordState) (action : Action) (outputs : List Effect) : Prop where
  submit : acceptedSubmit? s action = none
  complete : completion? action = none
  register : registration? action = none
  quiet : ∀ effect ∈ outputs, Quiet effect

/-- The inversion of `step`. -/
inductive Stepped (system : System) : Action → System → List Effect → Prop where
  | accept {fd : Int} (absent : fd ∉ system.threads) :
      Stepped system (.accept fd)
        { system with threads := system.threads.insert fd .receiving } []
  | register {fd : Int} {type : UInt32} {payload name : Bytes} {id boot : UInt64}
      (ready : system.threads[fd]? = some .receiving)
      (named : MsgType.ofCode? type = some .register)
      (read : parseRegister payload = .ok (some (name, id, boot))) :
      Stepped system (.frame fd type payload)
        { coord := registerLocked system.coord name id boot fd,
          threads := system.threads.insert fd .receiving }
        (registerEffects system.coord id boot fd)
  | submit {fd : Int} {type : UInt32} {payload work : Bytes} {target : UInt64} {worker : Worker}
      (ready : system.threads[fd]? = some .receiving)
      (named : MsgType.ofCode? type = some .submit)
      (read : parseSubmit payload = .ok (some (target, work)))
      (live : liveWorker? system.coord target = some worker) :
      Stepped system (.frame fd type payload)
        { coord := allocate system.coord target worker,
          threads := system.threads.insert fd (.dispatching ⟨work, worker.fd⟩) } []
  | complete {fd : Int} {type : UInt32} {payload : Bytes} {request : CompleteRequest}
      (ready : system.threads[fd]? = some .receiving)
      (named : MsgType.ofCode? type = some .complete)
      (read : parseComplete payload = .ok (some request)) :
      Stepped system (.frame fd type payload)
        { coord := (completeLocked system.coord request fd).1,
          threads := system.threads.insert fd .receiving }
        (completeLocked system.coord request fd).2
  | inert {fd : Int} {type : UInt32} {payload : Bytes} {outputs : List Effect}
      (ready : system.threads[fd]? = some .receiving)
      (unchanging : Inert system.coord (.frame fd type payload) outputs) :
      Stepped system (.frame fd type payload)
        { system with threads := system.threads.insert fd .receiving } outputs
  | shutdown {fd : Int} {type : UInt32} {payload : Bytes}
      (ready : system.threads[fd]? = some .receiving)
      (named : MsgType.ofCode? type = some .shutdown) :
      Stepped system (.frame fd type payload)
        { coord := { system.coord with shuttingDown := true },
          threads := system.threads.insert fd .returned } [.send fd .pong (ascii "bye")]
  | sendDispatch {fd : Int} {sent : Bool} {submission : Submission}
      (ready : system.threads[fd]? = some (.dispatching submission)) :
      Stepped system (.sendDispatch fd sent)
        { system with threads := system.threads.insert fd (.responding sent) }
        (sendDispatch system.coord submission)
  | sendResponse {fd : Int} {sent : Bool}
      (ready : system.threads[fd]? = some (.responding sent)) :
      Stepped system (.sendResponse fd)
        { system with threads := system.threads.insert fd .receiving }
        (sendResponse system.coord fd sent)
  | disconnect {fd : Int} (ready : system.threads[fd]? = some .receiving) :
      Stepped system (.disconnect fd)
        { coord := (closeConnection fd system.coord).1, threads := system.threads.erase fd }
        (closeConnection fd system.coord).2

section Frames

variable {system : System} {fd : Int} {type : UInt32} {payload : Bytes}
  {coord : CoordState} {outputs : List Effect} {phase : ThreadPhase}

theorem stepped_of_register
    (ready : system.threads[fd]? = some .receiving)
    (named : MsgType.ofCode? type = some .register)
    (returned : handleRegister payload fd system.coord = .ok (coord, outputs)) :
    Stepped system (.frame fd type payload)
      { coord := coord, threads := system.threads.insert fd .receiving } outputs := by
  obtain ⟨parsed, read, returned⟩ := bind_ok returned
  cases parsed with
  | none =>
      cases returned
      exact .inert ready
        { submit := by simp [acceptedSubmit?, named]
          complete := by simp [completion?, named]
          register := by simp [registration?, read]
          quiet := by simp }
  | some parsed =>
      obtain ⟨name, id, boot⟩ := parsed
      cases returned
      exact .register ready named read

theorem stepped_of_submit
    (ready : system.threads[fd]? = some .receiving)
    (named : MsgType.ofCode? type = some .submit)
    (returned : frameStep type payload fd system.coord = .ok (coord, outputs, phase)) :
    Stepped system (.frame fd type payload)
      { coord := coord, threads := system.threads.insert fd phase } outputs := by
  have refused (rejection : Bytes) (unaccepted :
      acceptedSubmit? system.coord (.frame fd type payload) = none) :
      Inert system.coord (.frame fd type payload) [.send fd .completeRejected rejection] :=
    { submit := unaccepted
      complete := by simp [completion?, named]
      register := by simp [registration?, named]
      quiet := by simp [Quiet, Effect.sends] }
  simp only [frameStep, named] at returned
  obtain ⟨⟨next, effects, submission⟩, locked, returned⟩ := bind_ok returned
  obtain ⟨parsed, read, locked⟩ := bind_ok locked
  cases parsed with
  | none =>
      cases locked
      cases returned
      exact .inert ready (refused _ (by simp [acceptedSubmit?, read]))
  | some parsed =>
      obtain ⟨target, work⟩ := parsed
      cases live : liveWorker? system.coord target with
      | none =>
          simp only [live] at locked
          cases locked
          cases returned
          exact .inert ready (refused _ (by simp [acceptedSubmit?, read, live]))
      | some worker =>
          simp only [live] at locked
          cases locked
          cases returned
          exact .submit ready named read live

theorem stepped_of_complete
    (ready : system.threads[fd]? = some .receiving)
    (named : MsgType.ofCode? type = some .complete)
    (returned : handleComplete payload fd system.coord = .ok (coord, outputs)) :
    Stepped system (.frame fd type payload)
      { coord := coord, threads := system.threads.insert fd .receiving } outputs := by
  obtain ⟨parsed, read, returned⟩ := bind_ok returned
  cases parsed with
  | none =>
      cases returned
      exact .inert ready
        { submit := by simp [acceptedSubmit?, named]
          complete := by simp [completion?, read]
          register := by simp [registration?, named]
          quiet := by simp [Quiet, Effect.sends] }
  | some request =>
      have locked : completeLocked system.coord request fd = (coord, outputs) :=
        Except.ok.inj returned
      have stepped := Stepped.complete ready named read
      rwa [locked] at stepped

theorem stepped_of_frame
    (ready : system.threads[fd]? = some .receiving)
    (returned : frameStep type payload fd system.coord = .ok (coord, outputs, phase)) :
    Stepped system (.frame fd type payload)
      { coord := coord, threads := system.threads.insert fd phase } outputs := by
  have harmless (submit : MsgType.ofCode? type ≠ some .submit)
      (complete : MsgType.ofCode? type ≠ some .complete)
      (register : MsgType.ofCode? type ≠ some .register)
      (quiet : ∀ effect ∈ outputs, Quiet effect) :
      Inert system.coord (.frame fd type payload) outputs :=
    { submit := by simp [acceptedSubmit?, submit]
      complete := by simp [completion?, complete]
      register := by simp [registration?, register]
      quiet := quiet }
  cases named : MsgType.ofCode? type with
  | none =>
      simp only [frameStep, switchFrame, named] at returned
      cases returned
      exact .inert ready (harmless (by simp [named]) (by simp [named]) (by simp [named]) (by simp))
  | some message =>
      cases message with
      | submit => exact stepped_of_submit ready named returned
      | register =>
          simp only [frameStep, switchFrame, named] at returned
          obtain ⟨⟨next, effects⟩, handled, returned⟩ := bind_ok returned
          cases returned
          exact stepped_of_register ready named handled
      | complete =>
          simp only [frameStep, switchFrame, named] at returned
          obtain ⟨⟨next, effects⟩, handled, returned⟩ := bind_ok returned
          cases returned
          exact stepped_of_complete ready named handled
      | shutdown =>
          simp only [frameStep, switchFrame, named] at returned
          cases returned
          exact .shutdown ready named
      | getState | workStarted | ping | registered | submitResponse | dispatch | completeAck
      | completeRejected | epochNew | pong | stale | state =>
          simp only [frameStep, switchFrame, named] at returned
          cases returned
          exact .inert ready (harmless (by simp [named]) (by simp [named]) (by simp [named])
            (by simp [Quiet, Effect.sends, handleGetState]))

end Frames

theorem stepped_of_step {system next : System} {action : Action} {outputs : List Effect}
    (stepped : machine.step system action = some (next, outputs)) :
    Stepped system action next outputs := by
  change step system action = some (next, outputs) at stepped
  cases action with
  | accept fd =>
      simp only [step] at stepped
      split at stepped
      · cases stepped
      · rename_i absent
        cases stepped
        exact .accept absent
  | frame fd type payload =>
      simp only [step] at stepped
      split at stepped
      · rename_i ready
        split at stepped
        · rename_i returned
          cases stepped
          exact stepped_of_frame ready returned
        · cases stepped
      · cases stepped
  | sendDispatch fd sent =>
      simp only [step] at stepped
      split at stepped
      · rename_i ready
        cases stepped
        exact .sendDispatch ready
      · cases stepped
  | sendResponse fd =>
      simp only [step] at stepped
      split at stepped
      · rename_i ready
        cases stepped
        exact .sendResponse ready
      · cases stepped
  | disconnect fd =>
      simp only [step] at stepped
      split at stepped
      · rename_i ready
        cases stepped
        exact .disconnect ready
      · cases stepped

section Outputs

theorem registerEffects_quiet (s : CoordState) (id boot : UInt64) (fd : Int) :
    ∀ effect ∈ registerEffects s id boot fd, Quiet effect := by
  unfold registerEffects
  dsimp only
  split <;> simp [Quiet, Effect.sends]

theorem closeConnection_quiet (fd : Int) (s : CoordState) :
    ∀ effect ∈ (closeConnection fd s).2, Quiet effect := by
  unfold closeConnection
  split
  · simp [Quiet, Effect.sends]
  · split <;> simp [Quiet, Effect.sends]

theorem sendResponse_quiet (s : CoordState) (fd : Int) (sent : Bool) :
    ∀ effect ∈ sendResponse s fd sent, Quiet effect := by
  cases sent <;> simp [sendResponse, Quiet, Effect.sends]

theorem not_sends_dispatch {system next : System} {action : Action} {outputs : List Effect}
    (stepped : Stepped system action next outputs)
    (other : ∀ fd sent, action ≠ .sendDispatch fd sent) :
    ∀ effect ∈ outputs, effect.sends .dispatch = false := by
  cases stepped with
  | accept | submit => simp
  | register => exact fun effect member => (registerEffects_quiet _ _ _ _ effect member).1
  | complete =>
      simp only [completeLocked]
      split_ifs <;> simp [Effect.sends]
  | inert _ unchanging => exact fun effect member => (unchanging.quiet effect member).1
  | shutdown => simp [Effect.sends]
  | sendDispatch => exact absurd rfl (other _ _)
  | sendResponse => exact fun effect member => (sendResponse_quiet _ _ _ effect member).1
  | disconnect => exact fun effect member => (closeConnection_quiet _ _ effect member).1

theorem not_sends_completeAck {system next : System} {action : Action} {outputs : List Effect}
    (stepped : Stepped system action next outputs) (other : completion? action = none) :
    ∀ effect ∈ outputs, effect.sends .completeAck = false := by
  cases stepped with
  | accept | submit => simp
  | register => exact fun effect member => (registerEffects_quiet _ _ _ _ effect member).2
  | complete _ named read => simp [completion?, named, read] at other
  | inert _ unchanging => exact fun effect member => (unchanging.quiet effect member).2
  | shutdown => simp [Effect.sends]
  | sendDispatch => simp [sendDispatch, Effect.sends]
  | sendResponse => exact fun effect member => (sendResponse_quiet _ _ _ effect member).2
  | disconnect => exact fun effect member => (closeConnection_quiet _ _ effect member).2

end Outputs

section Enabled

variable {system : System} {fd : Int} {type : UInt32} {payload : Bytes}

theorem step_frame {coord : CoordState} {outputs : List Effect} {phase : ThreadPhase}
    (ready : system.threads[fd]? = some .receiving)
    (returned : frameStep type payload fd system.coord = .ok (coord, outputs, phase)) :
    machine.step system (.frame fd type payload) =
      some ({ coord := coord, threads := system.threads.insert fd phase }, outputs) := by
  simp [machine, step, ready, returned]

theorem step_complete {request : CompleteRequest}
    (ready : system.threads[fd]? = some .receiving)
    (named : MsgType.ofCode? type = some .complete)
    (read : parseComplete payload = .ok (some request)) :
    machine.step system (.frame fd type payload) =
      some ({ coord := (completeLocked system.coord request fd).1,
              threads := system.threads.insert fd .receiving },
        (completeLocked system.coord request fd).2) := by
  refine step_frame ready ?_
  simp only [frameStep, named, switchFrame, handleComplete, read]
  rfl

theorem step_submit {target : UInt64} {work : Bytes} {worker : Worker}
    (ready : system.threads[fd]? = some .receiving)
    (named : MsgType.ofCode? type = some .submit)
    (read : parseSubmit payload = .ok (some (target, work)))
    (live : liveWorker? system.coord target = some worker) :
    machine.step system (.frame fd type payload) =
      some ({ coord := allocate system.coord target worker,
              threads := system.threads.insert fd (.dispatching ⟨work, worker.fd⟩) }, []) := by
  have locked : submitLocked payload fd system.coord =
      .ok (allocate system.coord target worker, [], some ⟨work, worker.fd⟩) := by
    simp [submitLocked, read, live, bind, Except.bind, pure, Except.pure]
  refine step_frame ready ?_
  simp only [frameStep, named, locked]
  rfl

theorem step_sendDispatch {submission : Submission}
    (ready : system.threads[fd]? = some (.dispatching submission)) (sent : Bool) :
    machine.step system (.sendDispatch fd sent) =
      some ({ system with threads := system.threads.insert fd (.responding sent) },
        sendDispatch system.coord submission) := by
  simp [machine, step, ready]

theorem step_sendResponse {sent : Bool}
    (ready : system.threads[fd]? = some (.responding sent)) :
    machine.step system (.sendResponse fd) =
      some ({ system with threads := system.threads.insert fd .receiving },
        sendResponse system.coord fd sent) := by
  simp [machine, step, ready]

theorem step_malformed_complete
    (ready : system.threads[fd]? = some .receiving)
    (named : MsgType.ofCode? type = some .complete)
    (read : parseComplete payload = .ok none) :
    machine.step system (.frame fd type payload) =
      some ({ system with threads := system.threads.insert fd .receiving },
        [.report (ascii "REJECTED") (ascii "malformed_complete"),
          .send fd .completeRejected (ascii "malformed")]) := by
  refine step_frame ready ?_
  simp only [frameStep, named, switchFrame, handleComplete, read]
  rfl

end Enabled

section Sequential

variable {system : System} {fd : Int} {type : UInt32} {payload : Bytes} {sent : Bool}
  {coord : CoordState} {outputs : List Effect}

/-- The three steps of a submit, taken without interference, are `handle_submit`. -/
theorem run_of_handleSubmit (ready : system.threads[fd]? = some .receiving)
    (named : MsgType.ofCode? type = some .submit)
    (returned : handleSubmit payload fd sent system.coord = .ok (coord, outputs)) :
    ∃ history final, Run machine system history final ∧ final.coord = coord ∧
      history.flatMap (·.outputs) = outputs := by
  obtain ⟨⟨locked, effects, submission⟩, submitted, returned⟩ := bind_ok returned
  cases submission with
  | none =>
      have framed : frameStep type payload fd system.coord = .ok (locked, effects, .receiving) := by
        simp only [frameStep, named, submitted]
        rfl
      cases returned
      exact ⟨_, _, .single (step_frame ready framed), rfl, by simp⟩
  | some submission =>
      have framed : frameStep type payload fd system.coord =
          .ok (locked, effects, .dispatching submission) := by
        simp only [frameStep, named, submitted]
        rfl
      cases returned
      obtain ⟨dispatched, dispatches, same, phase⟩ : ∃ dispatched,
          machine.step ⟨coord, system.threads.insert fd (.dispatching submission)⟩
            (.sendDispatch fd sent) = some (dispatched, sendDispatch coord submission) ∧
          dispatched.coord = coord ∧ dispatched.threads[fd]? = some (.responding sent) :=
        ⟨_, step_sendDispatch (by simp) sent, rfl, by simp⟩
      have responds := step_sendResponse phase
      rw [same] at responds
      exact ⟨_, _, ((Run.single (step_frame ready framed)).append (.single dispatches)).append
        (.single responds), rfl, by simp⟩

/-- What `connection_thread` does with one frame when no other thread interferes is
a run of the machine with the same outputs. -/
theorem run_of_switchFrame (ready : system.threads[fd]? = some .receiving)
    (returned : switchFrame type payload fd sent system.coord = .ok (coord, outputs)) :
    ∃ history final, Run machine system history final ∧ final.coord = coord ∧
      history.flatMap (·.outputs) = outputs := by
  by_cases submits : MsgType.ofCode? type = some .submit
  · simp only [switchFrame, submits] at returned
    exact run_of_handleSubmit ready submits returned
  · have unsent : switchFrame type payload fd true system.coord = .ok (coord, outputs) := by
      rw [← returned]
      simp only [switchFrame]
      split <;> simp_all
    obtain ⟨phase, framed⟩ : ∃ phase,
        frameStep type payload fd system.coord = .ok (coord, outputs, phase) := by
      simp only [frameStep, unsent]
      split
      · contradiction
      · exact ⟨.returned, rfl⟩
      · exact ⟨.receiving, rfl⟩
    exact ⟨_, _, .single (step_frame ready framed), rfl, by simp⟩

end Sequential

end Coordinator

end ChaosLab
