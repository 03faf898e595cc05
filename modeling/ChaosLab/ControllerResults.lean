import ChaosLab.ControllerProperties

/-! What the results of the controller's calls say about the coordinator. -/

set_option autoImplicit false

namespace ChaosLab

namespace Controller

open Foundation Coordinator Network

/-- No worker registers over the descriptor of the controller, also not before or after
the controller has it. -/
def Reserved (ctl : Int) (history : List Event) : Prop :=
  ∀ event ∈ coordinatorEvents ctl history, (registration? event.action).map (·.2) ≠ some ctl

instance (ctl : Int) (history : List Event) : Decidable (Reserved ctl history) :=
  inferInstanceAs (Decidable (∀ _ ∈ _, _))

section Process

variable {ctl : Int} {argv : List Bytes} {history : List Event} {final : State}

theorem Reserved.of_append {later : List Event} (reserved : Reserved ctl (history ++ later)) :
    Reserved ctl history := by
  intro event member
  exact reserved event (by simp [member])

theorem apart_of_run {start last : System} {events : List Coordinator.Event}
    (run : Run Coordinator.machine start events last) (apart : Apart ctl start)
    (unregistered : ∀ event ∈ events, (registration? event.action).map (·.2) ≠ some ctl) :
    Apart ctl last := by
  induction run with
  | nil => exact apart
  | snoc _ moved ih =>
      simp only [List.forall_mem_append, List.forall_mem_singleton] at unregistered
      refine (ih unregistered.1).step moved fun id registers => unregistered.2 ?_
      rw [registers]
      rfl

theorem ProcessRun.apart (process : ProcessRun ctl argv history final)
    (reserved : Reserved ctl history) : Apart ctl final.system := by
  obtain ⟨coord, booted, run⟩ := process.coordinator
  obtain ⟨epoch, stateFile, rfl⟩ := parseArgs_spec booted
  exact apart_of_run run ⟨by simp, by simp⟩ reserved

theorem ProcessRun.phase (process : ProcessRun ctl argv history final)
    (reserved : Reserved ctl history) (online : final.link = .online) :
    Phase ctl history final := by
  obtain ⟨coord, booted, run⟩ := process
  induction run with
  | nil => cases online
  | snoc previous stepped ih =>
      have before : ProcessRun ctl argv _ _ := ⟨coord, booted, previous⟩
      have after : ProcessRun ctl argv _ _ := ⟨coord, booted, .snoc previous stepped⟩
      exact phase_step (before.apart reserved.of_append) before.coordinator.logged
        (ih reserved.of_append) stepped (after.apart reserved) online

theorem returned?_spec {event : Event} {call : Call} {reply : Frame}
    (returns : returned? event = some (call, reply)) :
    event.action = .ret ∧ event.before.pending = some call ∧
      ∃ rest, event.before.inbox = reply :: rest := by
  simp only [returned?] at returns
  split at returns
  · rename_i acts pending inbox
    cases returns
    exact ⟨acts, pending, _, inbox⟩
  · cases returns

/-- Between a call and its return the coordinator takes up its frame exactly once, and the
reply is what the handler sends when it runs from there on without interference; where it
hands out numbers, if no other submit is accepted before the return. -/
theorem call_answered (process : ProcessRun ctl argv history final)
    (reserved : Reserved ctl history) :
    ∀ earlier event later, history = earlier ++ event :: later →
      ∀ call reply, returned? event = some (call, reply) →
      ∃ taken waiting effects, TakenUp ctl call earlier taken waiting effects ∧
        (Alone ctl effects waiting → transmitted effects ctl = [reply]) := by
  rintro earlier event later rfl call reply returns
  obtain ⟨acts, pending, rest, inbox⟩ := returned?_spec returns
  obtain ⟨coord, booted, run⟩ := process
  obtain ⟨before, stepped, -⟩ := run.at_split
  have online : event.before.link = .online := by
    rw [acts] at stepped
    rcases step_cases stepped with ⟨_, _, impossible, _⟩ | ⟨-, moved, -⟩
    · cases impossible
    · simp only [ownStep] at moved
      split at moved
      · assumption
      · cases moved
  have phase := ProcessRun.phase ⟨coord, booted, before⟩ reserved.of_append online
  cases phase with
  | idle _ none => rw [none] at pending; cases pending
  | made _ _ _ nothing | submitted _ _ _ nothing => rw [nothing] at inbox; cases inbox
  | answered _ known _ came takenUp answer =>
      rw [known] at pending
      rw [came] at inbox
      cases pending
      cases inbox
      exact ⟨_, _, _, takenUp, answer⟩

theorem call_answered_once : ∃ history final earlier event later,
    ProcessRun 5 [] history final ∧ history = earlier ++ event :: later ∧
      ∃ taken waiting effects, TakenUp 5 .getState earlier taken waiting effects ∧
        (Alone 5 effects waiting → transmitted effects 5 = [⟨MsgType.state.code,
          ascii "epoch=1;attempt=0;gen=0;dispatch=0;boot=0;worker=0\ncommitted=0\nworkers=1"⟩]) := by
  obtain ⟨history, final, run, reserved, event, member, returns⟩ := (machine 5).exists_run
    { system := { coord := {} } }
    [.connect, .call .getState, .other (.accept 4),
      .other (.frame 4 MsgType.register.code (ascii "w|7|3")), .receive, .ret]
    (fun history _ => Reserved 5 history ∧ ∃ event ∈ history, returned? event =
      some (.getState, ⟨MsgType.state.code,
        ascii "epoch=1;attempt=0;gen=0;dispatch=0;boot=0;worker=0\ncommitted=0\nworkers=1"⟩))
    (by decide +kernel)
  obtain ⟨earlier, later, whole⟩ := List.append_of_mem member
  have process : ProcessRun 5 [] history final := ⟨{}, rfl, run⟩
  exact ⟨history, final, earlier, event, later, process, whole,
    call_answered process reserved earlier event later whole _ _ returns⟩

/-- The run up to the moment the frame of a call was taken up, and from there on. -/
theorem ProcessRun.at_taken (process : ProcessRun ctl argv history final) {call : Call}
    {earlier waiting later : List Event} {event taken : Event} {effects : List Effect}
    (whole : history = earlier ++ event :: later)
    (takenUp : TakenUp ctl call earlier taken waiting effects) :
    ∃ previous, history = previous ++ taken :: (waiting ++ event :: later) ∧
      ProcessRun ctl argv previous taken.before ∧
      (machine ctl).step taken.before taken.action = some (taken.after, taken.outputs) ∧
      Run (machine ctl) taken.after (waiting ++ event :: later) final := by
  obtain ⟨⟨previous, rfl, -⟩, -, -, -, -⟩ := takenUp
  obtain ⟨coord, booted, run⟩ := process
  subst whole
  rw [List.append_assoc, List.cons_append] at run
  obtain ⟨before, stepped, rest⟩ := run.at_split
  exact ⟨previous, by simp, ⟨coord, booted, before⟩, stepped, rest⟩

section Complete

theorem parseComplete_payload {request : CompleteRequest} (plain : Byte.pipe ∉ request.result) :
    parseComplete (completePayload request) = .ok (some request) := by
  have absent : ∀ value, Byte.pipe ∉ toString value := notMem_toString rfl
  have parts : split (completePayload request) Byte.pipe =
      [toString request.epoch, toString request.attempt, toString request.gen,
        toString request.dispatch, toString request.worker, toString request.boot,
        request.result] := by
    refine split_eq_iff.mpr ⟨by simp, by simp [absent, plain], ?_⟩
    simp [completePayload]
  rw [parseComplete, parts]
  simp only [stoull_toString]
  rfl

theorem TakenUp.complete {request : CompleteRequest} {earlier waiting : List Event}
    {taken : Event} {effects : List Effect} (plain : Byte.pipe ∉ request.result)
    (takenUp : TakenUp ctl (.complete request) earlier taken waiting effects) :
    completeLocked taken.before.system.coord request ctl = (taken.after.system.coord, effects) := by
  have handled := takenUp.handled
  simp only [Call.frame, switchFrame, MsgType.ofCode?_code, handleComplete,
    parseComplete_payload plain] at handled
  exact Except.ok.inj handled

/-- `send_complete` reports an acceptance exactly when, at the moment its frame was taken up,
the request was the current authority and not yet committed. The result is then in the
commit log for good, and without an acceptance nothing has changed. -/
theorem complete_verdict (process : ProcessRun ctl argv history final)
    (reserved : Reserved ctl history) :
    ∀ earlier event later, history = earlier ++ event :: later →
      ∀ (request : CompleteRequest) (reply : Frame), Byte.pipe ∉ request.result →
      returned? event = some (.complete request, reply) →
      ∃ taken waiting effects, TakenUp ctl (.complete request) earlier taken waiting effects ∧
        ((completeResult (some reply)).accepted = true ↔
          Current taken.before.system.coord request ∧
          signature request ∉ taken.before.system.coord.committed) ∧
        ((completeResult (some reply)).accepted = true →
          final.system.coord.sigResult[signature request]? = some request.result) ∧
        ((completeResult (some reply)).accepted = false →
          taken.after.system.coord = taken.before.system.coord) := by
  intro earlier event later whole request reply plain returns
  obtain ⟨taken, waiting, effects, takenUp, answer⟩ :=
    call_answered process reserved earlier event later whole _ _ returns
  have locked := takenUp.complete plain
  refine ⟨taken, waiting, effects, takenUp, ?_⟩
  obtain ⟨previous, -, before, stepped, rest⟩ := process.at_taken whole takenUp
  have logged : Logged taken.before.system.coord := before.coordinator.logged
  have kept : Run Coordinator.machine taken.after.system
      (coordinatorEvents ctl (waiting ++ event :: later)) final.system := rest.project seen_of_step
  rcases completeLocked_cases logged request ctl with
    ⟨current, fresh, accepted⟩ | ⟨refused, reason, rejected⟩
  · rw [accepted, Prod.mk.injEq] at locked
    obtain ⟨committed, rfl⟩ := locked
    have answered := answer (by simp [Alone, acceptance, Effect.sends])
    have accepts : (completeResult (some reply)).accepted = true := by
      simp only [acceptance, transmitted, List.filterMap_cons, if_true, List.filterMap_nil,
        List.cons.injEq, and_true] at answered
      rw [← answered]
      simp [completeResult]
    have logged' : Logged taken.after.system.coord := committed ▸ logged_commit logged request
    refine ⟨by simp [accepts, current, fresh], fun _ => ?_, by simp [accepts]⟩
    refine result_kept kept logged' ?_
    rw [← committed]
    simp [commit]
  · rw [rejected, Prod.mk.injEq] at locked
    obtain ⟨unchanged, rfl⟩ := locked
    have answered := answer (by simp [Alone, rejection, Effect.sends])
    have refuses : (completeResult (some reply)).accepted = false := by
      simp only [rejection, transmitted, List.filterMap_cons, if_true, List.filterMap_nil,
        List.cons.injEq, and_true] at answered
      rw [← answered]
      rfl
    refine ⟨?_, by simp [refuses], fun _ => unchanged.symm⟩
    simp only [refuses, Bool.false_eq_true, false_iff]
    tauto

theorem complete_verdict_once : ∃ history final, ProcessRun 5 [] history final ∧
    final.system.coord.sigResult[ascii "1:1:1:1:7:3"]? = some (ascii "R") := by
  obtain ⟨history, final, run, reserved, event, member, returns⟩ := (machine 5).exists_run
    { system := { coord := {} } }
    [.other (.accept 4), .other (.frame 4 MsgType.register.code (ascii "w|7|3")), .connect,
      .call (.submit 7 (ascii "a")), .receive, .sendDispatch true, .sendResponse, .ret,
      .call (.complete ⟨1, 1, 1, 1, 7, 3, ascii "R"⟩), .receive, .ret,
      .call (.complete ⟨1, 1, 1, 1, 7, 3, ascii "R2"⟩), .receive, .ret]
    (fun history _ => Reserved 5 history ∧ ∃ event ∈ history, returned? event =
      some (.complete ⟨1, 1, 1, 1, 7, 3, ascii "R"⟩,
        ⟨MsgType.completeAck.code, ascii "committed"⟩))
    (by decide +kernel)
  obtain ⟨earlier, later, whole⟩ := List.append_of_mem member
  have process : ProcessRun 5 [] history final := ⟨{}, rfl, run⟩
  obtain ⟨taken, waiting, effects, -, -, accepted, -⟩ := complete_verdict process reserved earlier
    event later whole _ _ (by decide) returns
  have numbers : ascii "1:1:1:1:7:3" = signature ⟨1, 1, 1, 1, 7, 3, ascii "R"⟩ := by
    simp only [signature]
    decide
  rw [numbers]
  exact ⟨history, final, process, accepted rfl⟩

end Complete

section Submit

theorem submitResult_authorityPayload (s : CoordState) :
    submitResult (some ⟨MsgType.submitResponse.code, authorityPayload s⟩) =
      .ok { epoch := s.epoch, attempt := s.curAttempt, gen := s.curGen, dispatch := s.curDispatch,
            ok := true } := by
  simp only [submitResult, if_true, split_authorityPayload, stoull_toString]
  rfl

theorem parseSubmit_frame {worker : UInt64} {work : Bytes} (plain : Byte.pipe ∉ work) :
    parseSubmit (Call.submit worker work).frame.payload = .ok (some (worker, work)) := by
  have text := parseSubmit_text (notMem_toString rfl worker) (stoull_toString worker) plain
  simpa [Call.frame] using text

example : parseSubmit (Call.submit 7 (ascii "a")).frame.payload = .ok (some (7, ascii "a")) := by
  decide +kernel

section Locked

variable {payload work : Bytes} {target : UInt64} {s : CoordState}

theorem submitLocked_of_dead (fd : Int) (read : parseSubmit payload = .ok (some (target, work)))
    (dead : liveWorker? s target = none) :
    submitLocked payload fd s =
      .ok (s, [.send fd .completeRejected (ascii "worker_not_alive")], none) := by
  simp only [submitLocked, read, bind, Except.bind, dead, pure, Except.pure]

theorem submitLocked_of_live (fd : Int) (read : parseSubmit payload = .ok (some (target, work)))
    {worker : Worker} (live : liveWorker? s target = some worker) :
    submitLocked payload fd s =
      .ok (allocate s target worker, [], some ⟨work, worker.fd⟩) := by
  simp only [submitLocked, read, bind, Except.bind, live, pure, Except.pure]

end Locked

/-- What a submit does when its frame is taken up. -/
theorem TakenUp.submit {worker : UInt64} {work : Bytes} {earlier waiting : List Event}
    {taken : Event} {effects : List Effect} (plain : Byte.pipe ∉ work)
    (takenUp : TakenUp ctl (.submit worker work) earlier taken waiting effects) :
    (liveWorker? taken.before.system.coord worker = none ∧
      taken.after.system.coord = taken.before.system.coord ∧
      effects = [.send ctl .completeRejected (ascii "worker_not_alive")]) ∨
    ∃ live, liveWorker? taken.before.system.coord worker = some live ∧
      taken.after.system.coord = allocate taken.before.system.coord worker live ∧
      effects = sendDispatch taken.after.system.coord ⟨work, live.fd⟩ ++
        sendResponse taken.after.system.coord ctl true := by
  have handled := takenUp.handled
  simp only [Call.frame, switchFrame, MsgType.ofCode?_code, handleSubmit] at handled
  have read := @parseSubmit_frame worker _ plain
  simp only [Call.frame] at read
  cases live : liveWorker? taken.before.system.coord worker with
  | none =>
      have refused := submitLocked_of_dead ctl read live
      rw [refused] at handled
      simpa [eq_comm] using Prod.mk.inj (Except.ok.inj handled)
  | some there =>
      have accepted := submitLocked_of_live ctl read live
      rw [accepted] at handled
      obtain ⟨same, sent⟩ := Prod.mk.inj (Except.ok.inj handled)
      refine .inr ⟨there, rfl, same.symm, ?_⟩
      rw [← sent, same]
      rfl

/-- If nobody else submits, nothing comes between a submit of the controller and its
reply. -/
theorem calm_of_single (single : ∀ entry ∈ submissions (coordinatorEvents ctl history), entry.1 = ctl)
    {waiting : List Event} (inside : waiting ⊆ history)
    (passive : ∀ event ∈ waiting, Passive ctl event.action) : Calm ctl waiting := by
  rw [Calm, List.eq_nil_iff_forall_not_mem]
  intro entry member
  obtain ⟨seen, known, accepted⟩ := List.mem_filterMap.mp member
  obtain ⟨event, here, acts⟩ := List.mem_filterMap.mp known
  have own : entry.1 = ctl := single entry <| List.mem_filterMap.mpr
    ⟨seen, List.mem_filterMap.mpr ⟨event, inside here, acts⟩, accepted⟩
  obtain ⟨taken, takes, rfl⟩ := Option.map_eq_some_iff.mp acts
  obtain ⟨fd, submits, rfl⟩ := Option.map_eq_some_iff.mp accepted
  have connected : taken.connection = ctl := by
    cases taken with
    | frame sender type payload =>
        simp only [acceptedSubmit?] at submits
        split at submits
        · split at submits
          · obtain ⟨-, -, rfl⟩ := Option.map_eq_some_iff.mp submits
            exact own
          · cases submits
        · cases submits
    | accept | sendDispatch | sendResponse | disconnect => cases submits
  have quiet := passive event here
  cases acted : event.action with
  | other other =>
      rw [acted] at quiet takes
      simp only [coordinatorAction?] at takes
      split at takes
      · cases takes
        exact quiet connected
      · cases takes
  | sendDispatch | sendResponse =>
      rw [acted] at takes
      simp only [coordinatorAction?] at takes
      split at takes
      · cases takes
      · cases takes
        cases submits
  | connect | call | receive | disconnect | ret | lose | shutdown =>
      rw [acted] at quiet
      exact quiet

/-- The submit that is accepted as the frame is taken up. -/
theorem TakenUp.order {worker : UInt64} {work : Bytes} {earlier waiting previous later : List Event}
    {taken : Event} {effects : List Effect} (plain : Byte.pipe ∉ work)
    (takenUp : TakenUp ctl (.submit worker work) earlier taken waiting effects)
    (parts : history = previous ++ taken :: later)
    (stepped : (machine ctl).step taken.before taken.action = some (taken.after, taken.outputs))
    {live : Worker} (alive : liveWorker? taken.before.system.coord worker = some live) :
    (⟨taken.after.system.coord.authority, taken.after.system.coord.curBoot, work⟩ : Order) ∈
      orders (coordinatorEvents ctl history) := by
  rw [takenUp.receives] at stepped
  rcases step_cases stepped with ⟨action, system, acts, moved, same⟩ | ⟨-, impossible, -⟩
  · have frame : action = .frame ctl (Call.submit worker work).frame.type
        (Call.submit worker work).frame.payload := by
      simp only [coordinatorAction?, takenUp.frame] at acts
      split at acts
      · exact (Option.some.inj acts).symm
      · cases acts
    subst frame
    have seen : coordinatorEvent? ctl taken = some ⟨taken.before.system,
        .frame ctl (Call.submit worker work).frame.type (Call.submit worker work).frame.payload,
        taken.outputs, taken.after.system⟩ := by
      rw [coordinatorEvent?, takenUp.receives, acts]
      rfl
    refine List.mem_filterMap.mpr ⟨_, List.mem_filterMap.mpr ⟨taken, by simp [parts], seen⟩, ?_⟩
    have read := @parseSubmit_frame worker _ plain
    have named : MsgType.ofCode? (Call.submit worker work).frame.type = some .submit :=
      MsgType.ofCode?_code .submit
    simp [order?, acceptedSubmit?, named, read, alive]
  · cases impossible

/-- `submit` reports what became of the work: nothing, when the worker was not alive as its
frame was taken up, and otherwise the numbers it was placed under, which no other work
has, unless another submit is accepted before it returns. -/
theorem submit_verdict (process : ProcessRun ctl argv history final)
    (reserved : Reserved ctl history)
    (few : (issued (coordinatorEvents ctl history)).length < 2 ^ 64) :
    ∀ earlier event later, history = earlier ++ event :: later →
      ∀ (worker : UInt64) (work : Bytes) (reply : Frame), Byte.pipe ∉ work →
      returned? event = some (.submit worker work, reply) →
      ∃ taken waiting effects,
        TakenUp ctl (.submit worker work) earlier taken waiting effects ∧
        (liveWorker? taken.before.system.coord worker = none →
          submitResult (some reply) = .ok {} ∧
          taken.after.system.coord = taken.before.system.coord) ∧
        (∀ live, liveWorker? taken.before.system.coord worker = some live → Calm ctl waiting →
          ∃ order ∈ orders (coordinatorEvents ctl history),
            order.work = work ∧ order.boot = live.boot ∧
            submitResult (some reply) = .ok {
              epoch := order.authority.epoch
              attempt := order.authority.attempt
              gen := order.authority.gen
              dispatch := order.authority.dispatch
              ok := true } ∧
            ∀ other ∈ orders (coordinatorEvents ctl history),
              other.authority = order.authority → other = order) := by
  intro earlier event later whole worker work reply plain returns
  obtain ⟨taken, waiting, effects, takenUp, answer⟩ :=
    call_answered process reserved earlier event later whole _ _ returns
  refine ⟨taken, waiting, effects, takenUp, ?_⟩
  obtain ⟨previous, parts, before, stepped, -⟩ := process.at_taken whole takenUp
  rcases takenUp.submit plain with ⟨dead, unchanged, rfl⟩ | ⟨live, alive, allocated, rfl⟩
  · have answered := answer (by simp [Alone, Effect.sends])
    simp only [transmitted, List.filterMap_cons, if_true, List.filterMap_nil, List.cons.injEq,
      and_true] at answered
    refine ⟨fun _ => ⟨?_, unchanged⟩, by simp [dead]⟩
    rw [← answered]
    rfl
  · refine ⟨by simp [alive], fun there found calm => ?_⟩
    cases alive.symm.trans found
    have placed := takenUp.order plain parts stepped alive
    have away : live.fd ≠ ctl := by
      have apart := before.apart (parts ▸ reserved).of_append
      exact apart.workers worker live (Option.filter_eq_some_iff.mp alive).1
    have sent : (⟨MsgType.submitResponse.code, authorityPayload taken.after.system.coord⟩ : Frame) =
        reply := by
      simpa [transmitted, sendDispatch, sendResponse, away] using answer fun _ => calm
    refine ⟨_, placed, rfl, ?_, ?_, fun other also same =>
      process.coordinator.order_unique few placed also same⟩
    · rw [allocated]
      rfl
    · rw [← sent, submitResult_authorityPayload]
      rfl

theorem submit_verdict_once : ∃ history final,
    ProcessRun 5 [] history final ∧ ∃ order ∈ orders (coordinatorEvents 5 history),
      order.work = ascii "a" ∧ order.boot = 3 ∧
      submitResult (some ⟨MsgType.submitResponse.code, ascii "1|1|1|1"⟩) = .ok {
        epoch := order.authority.epoch
        attempt := order.authority.attempt
        gen := order.authority.gen
        dispatch := order.authority.dispatch
        ok := true } := by
  obtain ⟨history, final, run, reserved, few, single, alive, event, member, returns⟩ :=
    (machine 5).exists_run { system := { coord := {} } }
      [.other (.accept 4), .other (.frame 4 MsgType.register.code (ascii "w|7|3")), .connect,
        .call (.submit 7 (ascii "a")), .receive, .sendDispatch true, .sendResponse, .ret]
      (fun history _ => Reserved 5 history ∧
        (issued (coordinatorEvents 5 history)).length = 1 ∧
        (∀ entry ∈ submissions (coordinatorEvents 5 history), entry.1 = 5) ∧
        (∀ event ∈ history, event.action = .receive →
          liveWorker? event.before.system.coord 7 = some ⟨7, 3, ascii "w", 4, true⟩) ∧
        ∃ event ∈ history, returned? event =
          some (.submit 7 (ascii "a"), ⟨MsgType.submitResponse.code, ascii "1|1|1|1"⟩))
      (by decide +kernel)
  obtain ⟨earlier, later, whole⟩ := List.append_of_mem member
  have process : ProcessRun 5 [] history final := ⟨{}, rfl, run⟩
  obtain ⟨taken, waiting, effects, takenUp, -, placed⟩ := submit_verdict process reserved
    (by rw [few]; decide) earlier event later whole 7 (ascii "a") _ (by decide) returns
  obtain ⟨previous, parts, -⟩ := process.at_taken whole takenUp
  have live := alive taken (by simp [parts]) takenUp.receives
  have inside : waiting ⊆ history := fun event here => by simp [parts, here]
  have calm := calm_of_single single inside takenUp.waiting
  obtain ⟨order, known, work, boot, result, -⟩ := placed _ live calm
  exact ⟨history, final, process, order, known, work, boot, result⟩

end Submit

end Process

end Controller

end ChaosLab
