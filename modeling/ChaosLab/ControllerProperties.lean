import ChaosLab.Controller
import ChaosLab.NetworkProperties

/-! Each call of the controller is taken up once by the coordinator between the call and
its return, and its reply is the one the handler gives at that moment. -/

set_option autoImplicit false

namespace ChaosLab

namespace Controller

open Foundation Coordinator Network

section Histories

variable (ctl : Int) (history later : List Event) (event : Event)

@[simp] theorem coordinatorEvents_append :
    coordinatorEvents ctl (history ++ later) =
      coordinatorEvents ctl history ++ coordinatorEvents ctl later :=
  List.filterMap_append ..

@[simp] theorem coordinatorEvents_singleton :
    coordinatorEvents ctl [event] = (coordinatorEvent? ctl event).toList := by
  simp only [coordinatorEvents, List.filterMap_cons, List.filterMap_nil]
  cases coordinatorEvent? ctl event <;> rfl

end Histories

section Run

variable {ctl : Int} {history : List Event} {before after : State} {action : Action}
  {outputs : List Effect}

/-- A step is one of the coordinator or one of the controller alone. -/
theorem step_cases (stepped : (machine ctl).step before action = some (after, outputs)) :
    (∃ taken system, coordinatorAction? ctl before action = some taken ∧
      Coordinator.machine.step before.system taken = some (system, outputs) ∧
      after = settle { before with system := system } (arriving ctl outputs taken) action) ∨
    (coordinatorAction? ctl before action = none ∧ ownStep before action = some after ∧
      outputs = []) := by
  change step ctl before action = some (after, outputs) at stepped
  simp only [step] at stepped
  split at stepped
  · rename_i taken acts
    split at stepped
    · rename_i system sent moved
      cases stepped
      exact .inl ⟨taken, system, acts, moved, rfl⟩
    · cases stepped
  · rename_i acts
    obtain ⟨next, moved, same⟩ := Option.map_eq_some_iff.mp stepped
    cases same
    exact .inr ⟨acts, moved, rfl⟩

@[simp] theorem settle_system (state : State) (arrived : List Frame) (action : Action) :
    (settle state arrived action).system = state.system := by
  cases action <;> rfl

theorem ownStep_system (stepped : ownStep before action = some after) :
    after.system = before.system := by
  cases action with
  | call | lose | shutdown =>
      simp only [ownStep] at stepped
      split at stepped
      · cases stepped
        rfl
      · cases stepped
  | ret =>
      simp only [ownStep] at stepped
      split at stepped
      · split at stepped
        · cases stepped
          rfl
        · cases stepped
      · cases stepped
  | other | connect | receive | sendDispatch | sendResponse | disconnect => cases stepped

theorem seen_of_step (stepped : (machine ctl).step before action = some (after, outputs)) :
    Seen Coordinator.machine State.system ⟨before, action, outputs, after⟩
      (coordinatorEvent? ctl ⟨before, action, outputs, after⟩) := by
  simp only [coordinatorEvent?]
  rcases step_cases stepped with ⟨taken, system, acts, moved, rfl⟩ | ⟨acts, moved, rfl⟩
  · rw [acts]
    refine .moved ?_
    rw [settle_system]
    exact moved
  · rw [acts]
    exact .unmoved (ownStep_system moved)

theorem ProcessRun.coordinator {argv : List Bytes} {final : State}
    (process : ProcessRun ctl argv history final) :
    Coordinator.ProcessRun argv (coordinatorEvents ctl history) final.system := by
  obtain ⟨coord, booted, run⟩ := process
  exact ⟨coord, booted, run.project seen_of_step⟩

end Run

section Calls

/-- Neither a step of the controller nor one that takes up a frame of it. -/
def Passive (ctl : Int) : Action → Prop
  | .other taken => taken.connection ≠ ctl
  | .sendDispatch _ | .sendResponse => True
  | _ => False

/-- The call has been made, and its frame is still on its way. -/
def Made (ctl : Int) (call : Call) (history : List Event) : Prop :=
  ∃ previous asked waiting, history = previous ++ asked :: waiting ∧ asked.action = .call call ∧
    ∀ event ∈ waiting, Passive ctl event.action

/-- The frame of the call has been taken up; what the handler does with it, run without
interference from there, are these effects. -/
structure TakenUp (ctl : Int) (call : Call) (history : List Event) (taken : Event)
    (waiting : List Event) (effects : List Effect) : Prop where
  after : ∃ previous, history = previous ++ taken :: waiting ∧ Made ctl call previous
  receives : taken.action = .receive
  frame : taken.before.outbox = [call.frame]
  handled : switchFrame call.frame.type call.frame.payload ctl true taken.before.system.coord =
    .ok (taken.after.system.coord, effects)
  waiting : ∀ event ∈ waiting, Passive ctl event.action

/-- No submit is accepted. -/
def Calm (ctl : Int) (waiting : List Event) : Prop :=
  submissions (coordinatorEvents ctl waiting) = []

/-- The handler runs as if alone: if it hands out the numbers of a submit, no other submit
is accepted before the call returns. -/
def Alone (ctl : Int) (effects : List Effect) (waiting : List Event) : Prop :=
  effects.any (Effect.sends .submitResponse) = true → Calm ctl waiting

variable {ctl : Int} {call : Call} {history waiting : List Event} {event taken : Event}
  {effects : List Effect}

theorem Made.grow (made : Made ctl call history) (passive : Passive ctl event.action) :
    Made ctl call (history ++ [event]) := by
  obtain ⟨previous, asked, waiting, rfl, asks, quiet⟩ := made
  refine ⟨previous, asked, waiting ++ [event], by simp, asks, ?_⟩
  simpa [or_imp, forall_and] using ⟨quiet, passive⟩

theorem TakenUp.grow (takenUp : TakenUp ctl call history taken waiting effects)
    (passive : Passive ctl event.action) :
    TakenUp ctl call (history ++ [event]) taken (waiting ++ [event]) effects := by
  obtain ⟨⟨previous, rfl, made⟩, receives, frame, handled, quiet⟩ := takenUp
  refine ⟨⟨previous, by simp, made⟩, receives, frame, handled, ?_⟩
  simpa [or_imp, forall_and] using ⟨quiet, passive⟩

theorem Calm.of_append (calm : Calm ctl (waiting ++ [event])) :
    Calm ctl waiting ∧ submissions (coordinatorEvents ctl [event]) = [] := by
  simpa only [Calm, coordinatorEvents_append, submissions_append, List.append_eq_nil_iff]
    using calm

/-- Where a connected controller and its frames are. -/
inductive Phase (ctl : Int) (history : List Event) (state : State) : Prop where
  | idle (ready : state.system.threads[ctl]? = some .receiving) (pending : state.pending = none)
      (outbox : state.outbox = []) (inbox : state.inbox = [])
  | made {call : Call} (ready : state.system.threads[ctl]? = some .receiving)
      (pending : state.pending = some call) (outbox : state.outbox = [call.frame])
      (inbox : state.inbox = []) (made : Made ctl call history)
  | submitted {worker : UInt64} {work : Bytes} {taken : Event} {waiting : List Event}
      {effects : List Effect}
      (busy : (∃ submission, state.system.threads[ctl]? = some (.dispatching submission)) ∨
        ∃ sent, state.system.threads[ctl]? = some (.responding sent))
      (pending : state.pending = some (.submit worker work)) (outbox : state.outbox = [])
      (inbox : state.inbox = [])
      (takenUp : TakenUp ctl (.submit worker work) history taken waiting effects)
      (reply : transmitted effects ctl =
        [⟨MsgType.submitResponse.code, authorityPayload taken.after.system.coord⟩])
      (current : Calm ctl waiting →
        state.system.coord.authority = taken.after.system.coord.authority)
  | answered {call : Call} {taken : Event} {waiting : List Event} {effects : List Effect}
      {reply : Frame} (ready : state.system.threads[ctl]? = some .receiving)
      (pending : state.pending = some call) (outbox : state.outbox = [])
      (inbox : state.inbox = [reply])
      (takenUp : TakenUp ctl call history taken waiting effects)
      (reply : Alone ctl effects waiting → transmitted effects ctl = [reply])

end Calls

section Frames

variable {ctl : Int} {s coord : CoordState} {effects : List Effect} {phase : ThreadPhase}

theorem transmitted_completeLocked (s : CoordState) (request : CompleteRequest) (fd : Int) :
    ∃ reply, transmitted (completeLocked s request fd).2 fd = [reply] := by
  unfold completeLocked
  dsimp only
  split_ifs <;> simp [transmitted]

theorem issues_of_transmitted {payload : Bytes}
    (reply : transmitted effects ctl = [⟨MsgType.submitResponse.code, payload⟩]) :
    effects.any (Effect.sends .submitResponse) = true := by
  have member : (⟨MsgType.submitResponse.code, payload⟩ : Frame) ∈ transmitted effects ctl := by
    simp [reply]
  obtain ⟨type, text, inside, same⟩ := mem_transmitted.mp member
  have code := congrArg MsgType.ofCode? (Frame.mk.inj same).1
  simp only [MsgType.ofCode?_code, Option.some.injEq] at code
  exact List.any_eq_true.mpr ⟨_, inside, by simp [Effect.sends, code]⟩

/-- What becomes of the frame of a call: it is answered at once, or a submit goes on to
send its two frames. -/
theorem frameStep_call {call : Call}
    (returned : frameStep call.frame.type call.frame.payload ctl s = .ok (coord, effects, phase)) :
    (phase = .receiving ∧ (∃ reply, transmitted effects ctl = [reply]) ∧
      switchFrame call.frame.type call.frame.payload ctl true s = .ok (coord, effects)) ∨
    ∃ worker work submission, call = .submit worker work ∧ phase = .dispatching submission ∧
      effects = [] ∧ switchFrame call.frame.type call.frame.payload ctl true s =
        .ok (coord, sendDispatch coord submission ++ sendResponse coord ctl true) := by
  cases call with
  | getState =>
      simp only [Call.frame, frameStep, switchFrame, MsgType.ofCode?_code] at returned ⊢
      cases returned
      exact .inl ⟨rfl, ⟨_, by simp [transmitted, handleGetState]; rfl⟩, rfl⟩
  | complete request =>
      simp only [Call.frame, frameStep, switchFrame, MsgType.ofCode?_code] at returned ⊢
      obtain ⟨⟨next, sent⟩, handled, returned⟩ := bind_ok returned
      cases returned
      refine .inl ⟨rfl, ?_, handled⟩
      obtain ⟨parsed, -, handled⟩ := bind_ok handled
      cases parsed with
      | none =>
          cases handled
          exact ⟨_, by simp [transmitted]; rfl⟩
      | some parsed =>
          have locked : completeLocked s parsed ctl = (next, sent) := Except.ok.inj handled
          have answered := transmitted_completeLocked s parsed ctl
          rwa [locked] at answered
  | submit worker work =>
      simp only [Call.frame, frameStep, switchFrame, MsgType.ofCode?_code, handleSubmit]
        at returned ⊢
      obtain ⟨⟨next, sent, submission⟩, locked, returned⟩ := bind_ok returned
      rw [locked]
      rcases submitLocked_spec locked with
        ⟨rfl, -, reason, rfl⟩ | ⟨target, text, worker', -, -, -, rfl, rfl⟩
      · cases returned
        exact .inl ⟨rfl, ⟨_, by simp [transmitted]; rfl⟩, rfl⟩
      · cases returned
        exact .inr ⟨worker, work, _, rfl, rfl, rfl, rfl⟩

end Frames

section Step

variable {ctl : Int} {history : List Event} {before after : State} {action : Action}
  {outputs : List Effect}

theorem arriving_elsewhere {taken : Coordinator.Action} {system : System}
    (apart : Apart ctl before.system)
    (moved : Coordinator.machine.step before.system taken = some (system, outputs))
    (elsewhere : taken.connection ≠ ctl) : arriving ctl outputs taken = [] := by
  have nothing := transmitted_elsewhere apart moved elsewhere
  unfold arriving
  split
  · rfl
  · exact nothing

/-- Without a submit that is accepted, the current numbers stay. -/
theorem authority_of_refused {taken : Coordinator.Action} {previous next : System}
    (logged : Logged previous.coord)
    (moved : Coordinator.machine.step previous taken = some (next, outputs))
    (refused : acceptedSubmit? previous.coord taken = none) :
    next.coord.authority = previous.coord.authority := by
  have progress := progress_of_step logged moved
  rw [refused] at progress
  generalize acknowledged? ⟨previous, taken, outputs, next⟩ = answered at progress
  generalize next.coord = coord at progress
  cases progress <;> rfl

theorem refused_of_calm {event : Event} {taken : Coordinator.Action}
    (calm : submissions (coordinatorEvents ctl [event]) = [])
    (acts : coordinatorAction? ctl event.before event.action = some taken) :
    acceptedSubmit? event.before.system.coord taken = none := by
  simpa [coordinatorEvent?, acts] using calm

/-- A step of another connection. -/
theorem Phase.other (logged : Logged before.system.coord)
    (phase : Phase ctl history before) {taken : Coordinator.Action} {system : System}
    (acts : coordinatorAction? ctl before (.other taken) = some taken)
    (moved : Coordinator.machine.step before.system taken = some (system, outputs))
    (elsewhere : taken.connection ≠ ctl) :
    Phase ctl (history ++ [⟨before, .other taken, outputs, { before with system := system }⟩])
      { before with system := system } := by
  have thread : system.threads[ctl]? = before.system.threads[ctl]? :=
    threads_elsewhere moved elsewhere
  cases phase with
  | idle ready pending outbox inbox =>
      exact .idle (thread.trans ready) pending outbox inbox
  | made ready pending outbox inbox made =>
      exact .made (thread.trans ready) pending outbox inbox (made.grow elsewhere)
  | submitted busy pending outbox inbox takenUp reply current =>
      refine .submitted ?_ pending outbox inbox (takenUp.grow elsewhere) reply fun calm => ?_
      · simpa only [thread] using busy
      · obtain ⟨earlier, now⟩ := calm.of_append
        exact (authority_of_refused logged moved (refused_of_calm now acts)).trans (current earlier)
  | answered ready pending outbox inbox takenUp reply =>
      exact .answered (thread.trans ready) pending outbox inbox (takenUp.grow elsewhere)
        fun alone => reply fun issues => (alone issues).of_append.1

theorem frame_spec {previous next : System} {fd : Int} {type : UInt32} {payload : Bytes}
    (moved : Coordinator.machine.step previous (.frame fd type payload) = some (next, outputs)) :
    ∃ coord phase, previous.threads[fd]? = some .receiving ∧
      frameStep type payload fd previous.coord = .ok (coord, outputs, phase) ∧
      next = { coord := coord, threads := previous.threads.insert fd phase } := by
  change Coordinator.step previous (.frame fd type payload) = some (next, outputs) at moved
  simp only [Coordinator.step] at moved
  split at moved
  · rename_i ready
    split at moved
    · rename_i coord effects phase returned
      cases moved
      exact ⟨coord, phase, ready, returned, rfl⟩
    · cases moved
  · cases moved

/-- The coordinator takes up a frame of the controller. -/
theorem Phase.receive (phase : Phase ctl history before) {taken : Coordinator.Action}
    {system : System} (acts : coordinatorAction? ctl before .receive = some taken)
    (moved : Coordinator.machine.step before.system taken = some (system, outputs))
    (apart : Apart ctl system) :
    Phase ctl (history ++ [⟨before, .receive, outputs,
        settle { before with system := system } (arriving ctl outputs taken) .receive⟩])
      (settle { before with system := system } (arriving ctl outputs taken) .receive) := by
  cases phase with
  | idle _ _ outbox | submitted _ _ outbox | answered _ _ outbox =>
      simp [coordinatorAction?, outbox] at acts
  | @made call ready pending outbox inbox made =>
      have frame : taken = .frame ctl call.frame.type call.frame.payload := by
        simp only [coordinatorAction?, outbox] at acts
        split at acts
        · exact (Option.some.inj acts).symm
        · cases acts
      subst frame
      obtain ⟨coord, phase, -, returned, rfl⟩ := frame_spec moved
      rcases frameStep_call returned with
        ⟨rfl, ⟨reply, answered⟩, handled⟩ | ⟨worker, work, submission, rfl, rfl, rfl, handled⟩
      · refine .answered ?_ pending ?_ ?_ ⟨⟨history, rfl, made⟩, rfl, outbox, handled, by simp⟩
          fun _ => answered
        · simp
        · simp [settle, outbox]
        · simp [settle, inbox, arriving, answered]
      · have away := apart.dispatching ctl submission (by simp)
        refine .submitted ?_ pending ?_ ?_ ⟨⟨history, rfl, made⟩, rfl, outbox, handled, by simp⟩ ?_
          fun _ => rfl
        · exact .inl ⟨submission, by simp⟩
        · simp [settle, outbox]
        · simp [settle, inbox, arriving, transmitted]
        · simp [transmitted, sendDispatch, sendResponse, away]

/-- A submit of the controller sends its `DISPATCH`, which is not for the controller. -/
theorem Phase.sendDispatch (apart : Apart ctl before.system) (phase : Phase ctl history before)
    {sent : Bool} {system : System}
    (acts : coordinatorAction? ctl before (.sendDispatch sent) = some (.sendDispatch ctl sent))
    (moved : Coordinator.machine.step before.system (.sendDispatch ctl sent) =
      some (system, outputs)) :
    Phase ctl (history ++ [⟨before, .sendDispatch sent, outputs,
        settle { before with system := system } (arriving ctl outputs (.sendDispatch ctl sent))
          (.sendDispatch sent)⟩])
      (settle { before with system := system } (arriving ctl outputs (.sendDispatch ctl sent))
        (.sendDispatch sent)) := by
  have taken := stepped_of_step moved
  cases taken with
  | @sendDispatch _ _ submission dispatching =>
      have nothing : arriving ctl (Coordinator.sendDispatch before.system.coord submission)
          (.sendDispatch ctl sent) = [] := by
        have away := apart.dispatching ctl submission dispatching
        cases sent <;> simp [arriving, transmitted, Coordinator.sendDispatch, away]
      cases phase with
      | idle ready | made ready | answered ready =>
          rw [dispatching] at ready
          cases ready
      | submitted _ pending outbox inbox takenUp reply current =>
          refine .submitted ?_ pending outbox ?_ (takenUp.grow trivial) reply fun calm => ?_
          · exact .inr ⟨sent, by simp⟩
          · simp [settle, nothing, inbox]
          · rw [settle_system]
            exact current calm.of_append.1

/-- A submit of the controller is answered. -/
theorem Phase.sendResponse (phase : Phase ctl history before) {system : System}
    (moved : Coordinator.machine.step before.system (.sendResponse ctl) = some (system, outputs)) :
    Phase ctl (history ++ [⟨before, .sendResponse, outputs,
        settle { before with system := system } (arriving ctl outputs (.sendResponse ctl))
          .sendResponse⟩])
      (settle { before with system := system } (arriving ctl outputs (.sendResponse ctl))
        .sendResponse) := by
  have taken := stepped_of_step moved
  cases taken with
  | @sendResponse _ sent responding =>
      have answer : arriving ctl (Coordinator.sendResponse before.system.coord ctl sent)
          (.sendResponse ctl) =
            [⟨MsgType.submitResponse.code, authorityPayload before.system.coord⟩] := by
        cases sent <;> simp [arriving, transmitted, Coordinator.sendResponse]
      cases phase with
      | idle ready | made ready | answered ready =>
          rw [responding] at ready
          cases ready
      | submitted _ pending outbox inbox takenUp reply current =>
          have arrived : before.inbox ++ arriving ctl
              (Coordinator.sendResponse before.system.coord ctl sent) (.sendResponse ctl) =
                [⟨MsgType.submitResponse.code, authorityPayload before.system.coord⟩] := by
            rw [answer, inbox, List.nil_append]
          refine .answered (by simp) pending outbox arrived (takenUp.grow trivial) fun alone => ?_
          have same := current (alone (issues_of_transmitted reply)).of_append.1
          rw [reply, authorityPayload_eq, authorityPayload_eq, same]

theorem Phase.own (phase : Phase ctl history before)
    (stepped : ownStep before action = some after) :
    after.link ≠ .online ∨ Phase ctl (history ++ [⟨before, action, [], after⟩]) after := by
  cases action with
  | call call =>
      simp only [ownStep] at stepped
      split at stepped
      · rename_i allowed
        cases stepped
        cases phase with
        | idle ready _ outbox inbox =>
            refine .inr (.made ready rfl (by simp [outbox]) inbox ?_)
            exact ⟨history, _, [], rfl, rfl, by simp⟩
        | made _ pending | submitted _ pending | answered _ pending =>
            simp [pending] at allowed
      · cases stepped
  | ret =>
      simp only [ownStep] at stepped
      split at stepped
      · rename_i call reply rest _ waits came
        split at stepped
        · cases stepped
          cases phase with
          | idle _ _ _ inbox | made _ _ _ inbox | submitted _ _ _ inbox => simp [inbox] at came
          | answered ready _ outbox inbox =>
              rw [inbox, List.cons.injEq] at came
              exact .inr (.idle ready rfl outbox came.2.symm)
        · cases stepped
      · cases stepped
  | lose | shutdown =>
      obtain ⟨-, moved⟩ := Option.ite_none_right_eq_some.mp stepped
      cases moved
      exact .inl (by simp)
  | other | connect | receive | sendDispatch | sendResponse | disconnect => cases stepped

/-- The step lemma: over a connection that no worker has registered over, a connected
controller and its frames stay in one of the phases. -/
theorem phase_step (apart : Apart ctl before.system) (logged : Logged before.system.coord)
    (phase : before.link = .online → Phase ctl history before)
    (stepped : (machine ctl).step before action = some (after, outputs))
    (kept : Apart ctl after.system) (online : after.link = .online) :
    Phase ctl (history ++ [⟨before, action, outputs, after⟩]) after := by
  rcases step_cases stepped with ⟨taken, system, acts, moved, rfl⟩ | ⟨-, moved, rfl⟩
  · rw [settle_system] at kept
    cases action with
    | other =>
        simp only [coordinatorAction?] at acts
        have link : before.link = .online := online
        rw [link] at acts
        split at acts
        · rename_i allowed
          cases acts
          have elsewhere : taken.connection ≠ ctl := by simpa using allowed
          have same : settle { before with system := system } (arriving ctl outputs taken)
              (.other taken) = { before with system := system } := by
            simp [settle, arriving_elsewhere apart moved elsewhere]
          rw [same]
          exact (phase link).other logged (by simp [coordinatorAction?, elsewhere]) moved elsewhere
        · cases acts
    | connect =>
        simp only [coordinatorAction?] at acts
        split at acts
        · cases acts
          have opened := stepped_of_step moved
          cases opened with
          | accept => exact .idle (by simp) rfl rfl rfl
        · cases acts
    | receive => exact (phase online).receive acts moved kept
    | sendDispatch sent =>
        have same : taken = .sendDispatch ctl sent := by
          simp only [coordinatorAction?] at acts
          split at acts
          · cases acts
          · exact (Option.some.inj acts).symm
        subst same
        exact (phase online).sendDispatch apart acts moved
    | sendResponse =>
        have same : taken = .sendResponse ctl := by
          simp only [coordinatorAction?] at acts
          split at acts
          · cases acts
          · exact (Option.some.inj acts).symm
        subst same
        exact (phase online).sendResponse moved
    | disconnect => cases online
    | call | ret | lose | shutdown => cases acts
  · by_cases link : before.link = .online
    · rcases (phase link).own moved with gone | next
      · exact absurd online gone
      · exact next
    · cases action with
      | call | lose | shutdown =>
          simp only [ownStep, link, false_and, if_false] at moved
          cases moved
      | ret =>
          simp only [ownStep] at moved
          split at moved
          · rename_i here _ _
            exact absurd here link
          · cases moved
      | other | connect | receive | sendDispatch | sendResponse | disconnect => cases moved

end Step

end Controller

end ChaosLab
