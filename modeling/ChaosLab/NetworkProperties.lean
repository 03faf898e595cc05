import ChaosLab.CoordinatorOrders
import ChaosLab.FreshWork
import ChaosLab.Network

/-! The coordinator and its peers over whole runs: what the frames in flight can be when
the completions come from worker processes, whatever is lost and in whatever order
things happen. -/

set_option autoImplicit false

namespace ChaosLab

namespace Network

open Foundation Coordinator TargetWorker

def authorityText (authority : Authority) : Bytes :=
  toString authority.epoch ++ [Byte.pipe] ++ toString authority.attempt ++ [Byte.pipe] ++
    toString authority.gen ++ [Byte.pipe] ++ toString authority.dispatch

theorem authorityPayload_eq (s : CoordState) : authorityPayload s = authorityText s.authority := rfl

/-- The work as `handle_dispatch` hashes it. -/
def performed (settings : Settings) (roundtrip : Bool) (work : Bytes) : Bytes :=
  if settings.cuda && roundtrip then work ++ ascii ":gpu" else work

def completed (settings : Settings) (authority : Authority) (result : Bytes) : CompleteRequest where
  epoch := authority.epoch
  attempt := authority.attempt
  gen := authority.gen
  dispatch := authority.dispatch
  worker := settings.id
  boot := settings.boot
  result := result

def completedText (settings : Settings) (authority : Authority) (result : Bytes) : Bytes :=
  completePayload settings (toString authority.epoch) (toString authority.attempt)
    (toString authority.gen) (toString authority.dispatch) result

section Messages

variable {settings : Settings} {roundtrip : Bool} {authority : Authority} {work : Bytes}

theorem handleDispatch_authorityText (plain : Byte.pipe ∉ work) (fd : Int) :
    handleDispatch settings roundtrip (authorityText authority ++ [Byte.pipe] ++ work) fd =
      [.send fd .workStarted (ascii "started"),
        .send fd .complete (completedText settings authority
          (doWork settings.boot (performed settings roundtrip work)))] := by
  have absent : ∀ value, Byte.pipe ∉ toString value := notMem_toString rfl
  have parts : split (authorityText authority ++ [Byte.pipe] ++ work) Byte.pipe =
      [toString authority.epoch, toString authority.attempt, toString authority.gen,
        toString authority.dispatch, work] := by
    refine split_eq_iff.mpr ⟨by simp, by simp [absent, plain], ?_⟩
    simp [authorityText]
  rw [handleDispatch, parts]
  rfl

theorem parseComplete_completedText (settings : Settings) (authority : Authority) (boot : UInt64)
    (work : Bytes) :
    parseComplete (completedText settings authority (doWork boot work)) =
      .ok (some (completed settings authority (doWork boot work))) :=
  parseComplete_completePayload settings authority.epoch authority.attempt authority.gen
    authority.dispatch (pipe_notMem_doWork boot work)

end Messages

/-- A frame that a worker process can send, after these dispatches. -/
inductive FromWorker (settings : Settings) (log : List (Authority × Bytes)) : Frame → Prop where
  | register : FromWorker settings log
      { type := MsgType.register.code, payload := registerPayload settings }
  | started : FromWorker settings log
      { type := MsgType.workStarted.code, payload := ascii "started" }
  | pong : FromWorker settings log { type := MsgType.pong.code, payload := ascii "pong" }
  | complete {authority : Authority} {work : Bytes} (roundtrip : Bool)
      (dispatched : (authority, work) ∈ log) : FromWorker settings log
        { type := MsgType.complete.code
          payload := completedText settings authority
            (doWork settings.boot (performed settings roundtrip work)) }

def From (log : List (Authority × Bytes)) : Peer → Frame → Prop
  | .worker settings, frame => FromWorker settings log frame
  | .controller, frame => MsgType.ofCode? frame.type ≠ some .complete

def ToPeer (log : List (Authority × Bytes)) (frame : Frame) : Prop :=
  MsgType.ofCode? frame.type = some .dispatch → ∃ authority work, (authority, work) ∈ log ∧
    Byte.pipe ∉ work ∧ frame.payload = authorityText authority ++ [Byte.pipe] ++ work

/-- The result is what a worker that connected computes from work it was handed under
the numbers of the request. -/
def Computed (log : List (Authority × Bytes)) (connected : List Settings)
    (request : CompleteRequest) : Prop :=
  ∃ settings ∈ connected, ∃ authority work roundtrip, (authority, work) ∈ log ∧
    request = completed settings authority
      (doWork settings.boot (performed settings roundtrip work))

structure Faithful (log : List (Authority × Bytes)) (connected : List Settings)
    (acks : List CompleteRequest) (state : State) : Prop where
  plain : ∀ (fd : Int) (submission : Submission),
    state.system.threads[fd]? = some (.dispatching submission) → Byte.pipe ∉ submission.work
  peers : ∀ fd settings, state.peers fd = .worker settings → settings ∈ connected
  toPeer : state.toPeer.Each fun _ => ToPeer log
  toCoordinator : state.toCoordinator.Each fun fd => From log (state.peers fd)
  computed : ∀ request ∈ acks, Computed log connected request

section Growing

variable {log later : List (Authority × Bytes)} {connected more : List Settings}

theorem FromWorker.grow {settings : Settings} {frame : Frame}
    (sent : FromWorker settings log frame) (grown : log ⊆ later) :
    FromWorker settings later frame := by
  cases sent with
  | register => exact .register
  | started => exact .started
  | pong => exact .pong
  | complete roundtrip dispatched => exact .complete roundtrip (grown dispatched)

theorem From.grow {peer : Peer} {frame : Frame} (sent : From log peer frame)
    (grown : log ⊆ later) : From later peer frame := by
  cases peer with
  | worker => exact FromWorker.grow sent grown
  | controller => exact sent

theorem ToPeer.grow {frame : Frame} (sent : ToPeer log frame) (grown : log ⊆ later) :
    ToPeer later frame := by
  intro named
  obtain ⟨authority, work, dispatched, rest⟩ := sent named
  exact ⟨authority, work, grown dispatched, rest⟩

theorem Computed.grow {request : CompleteRequest} (computed : Computed log connected request)
    (grown : log ⊆ later) (joined : connected ⊆ more) : Computed later more request := by
  obtain ⟨settings, member, authority, work, roundtrip, dispatched, same⟩ := computed
  exact ⟨settings, joined member, authority, work, roundtrip, grown dispatched, same⟩

theorem Faithful.grow {acks : List CompleteRequest} {state : State}
    (faithful : Faithful log connected acks state) (grown : log ⊆ later)
    (joined : connected ⊆ more) : Faithful later more acks state where
  plain := faithful.plain
  peers := fun fd settings peer => joined (faithful.peers fd settings peer)
  toPeer := faithful.toPeer.imp fun _ _ sent => sent.grow grown
  toCoordinator := faithful.toCoordinator.imp fun _ _ sent => sent.grow grown
  computed := fun request member => (faithful.computed request member).grow grown joined

end Growing

theorem acknowledged?_spec {event : Coordinator.Event} {request : CompleteRequest}
    (answered : acknowledged? event = some request) : ∃ fd type payload,
      event.action = .frame fd type payload ∧ MsgType.ofCode? type = some .complete ∧
      parseComplete payload = .ok (some request) := by
  simp only [acknowledged?] at answered
  split at answered
  · unfold completion? at answered
    split at answered
    · rename_i fd type payload same
      split at answered
      · rename_i named
        split at answered
        · rename_i read
          exact ⟨fd, type, payload, same, named, answered ▸ read⟩
        · cases answered
      · cases answered
    · cases answered
  · cases answered

theorem From.computed {log : List (Authority × Bytes)} {connected : List Settings} {peer : Peer}
    {frame : Frame} {request : CompleteRequest} (sent : From log peer frame)
    (joined : ∀ settings, peer = .worker settings → settings ∈ connected)
    (named : MsgType.ofCode? frame.type = some .complete)
    (read : parseComplete frame.payload = .ok (some request)) : Computed log connected request := by
  cases peer with
  | controller => exact absurd named sent
  | worker settings =>
      cases sent with
      | register | started | pong => simp at named
      | @complete authority work roundtrip dispatched =>
          rw [parseComplete_completedText] at read
          exact ⟨settings, joined settings rfl, authority, work, roundtrip, dispatched,
            (Option.some.inj (Except.ok.inj read)).symm⟩

section Transmitted

theorem mem_transmitted {effects : List Effect} {fd : Int} {frame : Frame} :
    frame ∈ transmitted effects fd ↔
      ∃ type payload, .send fd type payload ∈ effects ∧ frame = ⟨type.code, payload⟩ := by
  simp only [transmitted, List.mem_filterMap]
  constructor
  · rintro ⟨effect, member, sent⟩
    cases effect with
    | send receiver type payload =>
        simp only [Option.ite_none_right_eq_some, Option.some.injEq] at sent
        obtain ⟨rfl, rfl⟩ := sent
        exact ⟨type, payload, member, rfl⟩
    | report | close => cases sent
  · rintro ⟨type, payload, member, rfl⟩
    exact ⟨_, member, by simp⟩

/-- What the coordinator sends in a step: a `DISPATCH` is the one the step records. -/
theorem toPeer_of_transmitted {log : List (Authority × Bytes)} {before after : System}
    {taken : Coordinator.Action} {outputs : List Effect}
    (stepped : Coordinator.machine.step before taken = some (after, outputs))
    (plain : ∀ (fd : Int) (submission : Submission),
      before.threads[fd]? = some (.dispatching submission) → Byte.pipe ∉ submission.work)
    (whole : ∀ fd, taken ≠ .sendDispatch fd false) (place : Int) :
    ∀ frame ∈ transmitted outputs place,
      ToPeer (log ++ (dispatch? ⟨before, taken, outputs, after⟩).toList) frame := by
  intro frame member named
  obtain ⟨type, payload, sent, rfl⟩ := mem_transmitted.mp member
  obtain rfl : type = .dispatch := by simpa using named
  by_cases sending : ∃ fd flag, taken = .sendDispatch fd flag
  · obtain ⟨fd, flag, rfl⟩ := sending
    cases flag with
    | false => exact absurd rfl (whole fd)
    | true =>
        obtain ⟨submission, ready, rfl⟩ := sendDispatch_outputs stepped
        simp only [sendDispatch, List.mem_singleton, Effect.send.injEq] at sent
        obtain ⟨-, -, rfl⟩ := sent
        refine ⟨before.coord.authority, submission.work, ?_, plain fd submission ready, rfl⟩
        simp [dispatch?, ready]
  · have quiet := not_sends_dispatch (stepped_of_step stepped)
      (fun fd flag same => sending ⟨fd, flag, same⟩) _ sent
    simp [Effect.sends] at quiet

end Transmitted

section Step

variable {log : List (Authority × Bytes)} {connected : List Settings}
  {acks : List CompleteRequest} {state next : State} {action : Action} {outputs : List Effect}

theorem coordinatorAction?_frame {fd : Int} {type : UInt32} {payload : Bytes}
    (acts : coordinatorAction? state action = some (.frame fd type payload)) :
    (⟨type, payload⟩ : Frame) ∈ state.toCoordinator fd := by
  cases action with
  | receive place =>
      simp only [coordinatorAction?] at acts
      split at acts
      · rename_i frame rest waiting
        split at acts
        · cases acts
          rw [waiting]
          exact List.mem_cons_self
        · cases acts
      · cases acts
  | connect | sendDispatch | sendResponse | disconnect | request | work | leave => cases acts

theorem coordinatorAction?_sendDispatch {fd : Int} {sent : Bool}
    (acts : coordinatorAction? state action = some (.sendDispatch fd sent)) :
    action = .sendDispatch fd sent := by
  cases action with
  | sendDispatch =>
      cases acts
      rfl
  | receive place =>
      simp only [coordinatorAction?] at acts
      split at acts
      · split at acts <;> cases acts
      · cases acts
  | connect | sendResponse | disconnect | request | work | leave => cases acts

theorem Faithful.acknowledged (faithful : Faithful log connected acks state)
    {event : Coordinator.Event} (acts : coordinatorAction? state action = some event.action) :
    ∀ request ∈ acks ++ (acknowledged? event).toList, Computed log connected request := by
  intro request member
  rcases List.mem_append.mp member with earlier | now
  · exact faithful.computed request earlier
  · rw [Option.mem_toList] at now
    obtain ⟨fd, type, payload, same, named, read⟩ := acknowledged?_spec now
    rw [same] at acts
    exact (faithful.toCoordinator fd _ (coordinatorAction?_frame acts)).computed
      (faithful.peers fd) named read

theorem From.greeting (log : List (Authority × Bytes)) (peer : Peer) :
    ∀ frame ∈ greeting peer, From log peer frame := by
  cases peer with
  | worker settings =>
      intro frame member
      obtain rfl := List.mem_singleton.mp member
      exact FromWorker.register
  | controller => simp [Network.greeting]

/-- What a step of the coordinator does to the connections keeps the invariant, for
the coordinator that the step leads to. -/
theorem Faithful.settle (faithful : Faithful log connected acks state)
    (sent : (∀ fd, action ≠ .sendDispatch fd false) →
      ∀ fd, ∀ frame ∈ transmitted outputs fd, ToPeer log frame)
    (joined : ∀ fd settings, action = .connect fd (.worker settings) → settings ∈ connected) :
    Faithful log connected acks (settle state outputs action) := by
  cases action with
  | connect fd peer =>
      refine { faithful with peers := ?_, toPeer := ?_, toCoordinator := ?_ }
      · intro place settings known
        simp only [Network.settle, Function.update_apply] at known
        split at known
        · subst known
          exact joined fd settings rfl
        · exact faithful.peers place settings known
      · exact faithful.toPeer.shrink (by simp)
      · refine faithful.toCoordinator.update ?_ fun place other frame sent => ?_
        · simp only [Network.settle, Function.update_self]
          exact From.greeting log peer
        · simpa only [Network.settle, Function.update_of_ne other] using sent
  | receive fd =>
      exact { faithful with
        toPeer := faithful.toPeer.append (sent (by simp))
        toCoordinator := faithful.toCoordinator.shrink (List.tail_subset _) }
  | sendDispatch fd flag =>
      cases flag with
      | false => exact faithful
      | true => exact { faithful with toPeer := faithful.toPeer.append (sent (by simp)) }
  | disconnect fd =>
      exact { faithful with
        toPeer := faithful.toPeer.shrink (by simp)
        toCoordinator := faithful.toCoordinator.shrink (by simp) }
  | sendResponse | request | work | leave =>
      exact { faithful with toPeer := faithful.toPeer.append (sent (by simp)) }

theorem worker_sends {settings : Settings} {roundtrip : Bool} {frame : Frame} {fd : Int}
    {effects : List Effect} (received : ToPeer log frame)
    (switched : TargetWorker.switchFrame settings roundtrip frame.type frame.payload fd =
      some effects) :
    ∀ answer ∈ transmitted effects fd, FromWorker settings log answer := by
  intro answer member
  obtain ⟨type, payload, sent, rfl⟩ := mem_transmitted.mp member
  simp only [TargetWorker.switchFrame] at switched
  split at switched
  · rename_i named
    obtain ⟨authority, work, dispatched, plain, text⟩ := received named
    rw [text, handleDispatch_authorityText plain] at switched
    cases switched
    simp only [List.mem_cons, Effect.send.injEq, true_and, List.not_mem_nil, or_false] at sent
    rcases sent with ⟨rfl, rfl⟩ | ⟨rfl, rfl⟩
    · exact .started
    · exact .complete roundtrip dispatched
  · cases switched
    simp at sent
  · cases switched
    simp at sent
  · cases switched
    simp at sent
  · cases switched
    simp only [List.mem_singleton, Effect.send.injEq, true_and] at sent
    obtain ⟨rfl, rfl⟩ := sent
    exact .pong
  · cases switched
  · cases switched
    simp at sent

theorem Faithful.peerStep (faithful : Faithful log connected acks state)
    (stepped : peerStep state action = some (next, outputs)) :
    Faithful log connected acks next := by
  cases action with
  | request fd frame =>
      simp only [Network.peerStep] at stepped
      split at stepped
      · rename_i allowed
        cases stepped
        refine { faithful with toCoordinator := faithful.toCoordinator.push ?_ }
        intro other member
        obtain rfl := List.mem_singleton.mp member
        rw [allowed.2.1]
        exact allowed.2.2
      · cases stepped
  | work fd roundtrip =>
      simp only [Network.peerStep] at stepped
      split at stepped
      · rename_i settings frame rest _ peer waiting
        split at stepped
        · split at stepped
          · rename_i effects switched
            cases stepped
            have received := faithful.toPeer fd frame (waiting ▸ List.mem_cons_self)
            refine { faithful with
              toPeer := faithful.toPeer.shrink (waiting ▸ List.subset_cons_self frame rest)
              toCoordinator := faithful.toCoordinator.push ?_ }
            rw [peer]
            exact worker_sends received switched
          · cases stepped
            exact { faithful with }
        · cases stepped
      · cases stepped
  | leave fd arriving =>
      simp only [Network.peerStep] at stepped
      split at stepped
      · cases stepped
        exact { faithful with
          toCoordinator := faithful.toCoordinator.shrink (List.take_subset _ _) }
      · cases stepped
  | connect | receive | sendDispatch | sendResponse | disconnect => cases stepped

end Step

section Histories

variable (history later : List Event) (event : Event)

@[simp] theorem coordinatorEvents_append :
    coordinatorEvents (history ++ later) = coordinatorEvents history ++ coordinatorEvents later :=
  List.filterMap_append ..

@[simp] theorem coordinatorEvents_singleton :
    coordinatorEvents [event] = (coordinatorEvent? event).toList := by
  simp only [coordinatorEvents, List.filterMap_cons, List.filterMap_nil]
  cases coordinatorEvent? event <;> rfl

@[simp] theorem workers_append : workers (history ++ later) = workers history ++ workers later :=
  List.filterMap_append ..

@[simp] theorem workers_singleton : workers [event] = (worker? event.action).toList := by
  simp only [workers, List.filterMap_cons, List.filterMap_nil]
  cases worker? event.action <;> rfl

end Histories

section Run

variable {history : List Event} {before after : State} {action : Action} {outputs : List Effect}

@[simp] theorem settle_system (state : State) (outputs : List Effect) (action : Action) :
    (settle state outputs action).system = state.system := by
  cases action with
  | sendDispatch fd sent => cases sent <;> rfl
  | connect | request | receive | sendResponse | disconnect | work | leave => rfl

theorem peerStep_system (stepped : peerStep before action = some (after, outputs)) :
    after.system = before.system := by
  simp only [peerStep] at stepped
  split at stepped
  · split at stepped
    · cases stepped
      rfl
    · cases stepped
  · split at stepped
    · split at stepped
      · split at stepped <;> cases stepped <;> rfl
      · cases stepped
    · cases stepped
  · split at stepped
    · cases stepped
      rfl
    · cases stepped
  · cases stepped

theorem seen_of_step (stepped : machine.step before action = some (after, outputs)) :
    Seen Coordinator.machine State.system ⟨before, action, outputs, after⟩
      (coordinatorEvent? ⟨before, action, outputs, after⟩) := by
  change step before action = some (after, outputs) at stepped
  simp only [step] at stepped
  simp only [coordinatorEvent?]
  cases acts : coordinatorAction? before action with
  | some taken =>
      simp only [acts] at stepped
      split at stepped
      · rename_i system sent moved
        cases stepped
        refine .moved ?_
        rw [settle_system]
        exact moved
      · cases stepped
  | none =>
      simp only [acts] at stepped
      exact .unmoved (peerStep_system stepped)

/-- What the coordinator takes part in is a run of the coordinator. -/
theorem ProcessRun.coordinator {argv : List Bytes} {final : State}
    (process : ProcessRun argv history final) :
    Coordinator.ProcessRun argv (coordinatorEvents history) final.system := by
  obtain ⟨coord, booted, run⟩ := process
  exact ⟨coord, booted, run.project seen_of_step⟩

theorem Faithful.step {log : List (Authority × Bytes)} {connected : List Settings}
    {acks : List CompleteRequest} (faithful : Faithful log connected acks before)
    (stepped : machine.step before action = some (after, outputs)) :
    Faithful (log ++ dispatches (coordinatorEvents [⟨before, action, outputs, after⟩]))
      (connected ++ (worker? action).toList)
      (acks ++ Coordinator.acknowledged (coordinatorEvents [⟨before, action, outputs, after⟩]))
      after := by
  change Network.step before action = some (after, outputs) at stepped
  simp only [Network.step] at stepped
  simp only [coordinatorEvents_singleton, coordinatorEvent?]
  cases acts : coordinatorAction? before action with
  | some taken =>
      simp only [acts] at stepped
      split at stepped
      · rename_i system sent moved
        cases stepped
        simp only [settle_system, Option.map_some, Option.toList_some, dispatches_singleton,
          acknowledged_singleton]
        refine Faithful.settle ?_ ?_ ?_
        · have grown := faithful.grow (List.subset_append_left log
            (dispatch? ⟨before.system, taken, outputs, system⟩).toList)
            (List.subset_append_left connected (worker? action).toList)
          refine { grown with plain := fun fd submission found => ?_, computed := ?_ }
          · rcases plain_of_dispatching moved found with waiting | plain
            · exact faithful.plain fd submission waiting
            · exact plain
          · have happened : coordinatorAction? before action =
                some (Transition.mk before.system taken outputs system).action := acts
            exact grown.acknowledged happened
        · intro whole
          refine toPeer_of_transmitted moved faithful.plain fun fd failed => whole fd ?_
          exact coordinatorAction?_sendDispatch (failed ▸ acts)
        · rintro fd settings rfl
          simp [worker?]
      · cases stepped
  | none =>
      simp only [acts] at stepped
      have kept := faithful.peerStep stepped
      simp only [Option.map_none, Option.toList_none, dispatches, Coordinator.acknowledged,
        List.filterMap_nil, List.append_nil]
      exact kept.grow (List.Subset.refl log) (List.subset_append_left _ _)

end Run

section Process

variable {argv : List Bytes} {history : List Event} {final : State}

theorem ProcessRun.faithful (process : ProcessRun argv history final) :
    Faithful (dispatches (coordinatorEvents history)) (workers history)
      (Coordinator.acknowledged (coordinatorEvents history)) final := by
  obtain ⟨coord, -, run⟩ := process
  induction run with
  | nil =>
      exact
        { plain := by simp
          peers := by simp
          toPeer := Channels.each_empty
          toCoordinator := Channels.each_empty
          computed := by simp [coordinatorEvents] }
  | snoc _ stepped ih => simpa using ih.step stepped

end Process

end Network

end ChaosLab
