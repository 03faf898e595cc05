import ChaosLab.CoordinatorReplies

/-! The calls of the campaign driver on its connection to the coordinator. A call
sends one frame and takes one frame as its reply. The other connections do what
they like. -/

set_option autoImplicit false

namespace ChaosLab

namespace Controller

open Foundation

inductive Call where
  | submit (worker : UInt64) (work : Bytes)
  | complete (request : Coordinator.CompleteRequest)
  | getState
deriving DecidableEq

def completePayload (request : Coordinator.CompleteRequest) : Bytes :=
  toString request.epoch ++ [Byte.pipe] ++ toString request.attempt ++ [Byte.pipe] ++
    toString request.gen ++ [Byte.pipe] ++ toString request.dispatch ++ [Byte.pipe] ++
    toString request.worker ++ [Byte.pipe] ++ toString request.boot ++ [Byte.pipe] ++
    request.result

/-- What `submit`, `send_complete` and `get_state` send. -/
def Call.frame : Call → Frame
  | .submit worker work =>
      { type := MsgType.submit.code, payload := toString worker ++ [Byte.pipe] ++ work }
  | .complete request => { type := MsgType.complete.code, payload := completePayload request }
  | .getState => { type := MsgType.getState.code, payload := [] }

structure SubmitResult where
  epoch : UInt64 := 0
  attempt : UInt64 := 0
  gen : UInt64 := 0
  dispatch : UInt64 := 0
  ok : Bool := false
deriving DecidableEq

/-- What `submit` makes of the reply; there is none when `recv_frame` fails. -/
def submitResult : Option Frame → Except StdException SubmitResult
  | none => .ok {}
  | some reply =>
      if reply.type = MsgType.submitResponse.code then
        match split reply.payload Byte.pipe with
        | [epochText, attemptText, genText, dispatchText] => do
            let epoch ← stoull epochText
            let attempt ← stoull attemptText
            let gen ← stoull genText
            let dispatch ← stoull dispatchText
            return { epoch := epoch, attempt := attempt, gen := gen, dispatch := dispatch, ok := true }
        | _ => .ok {}
      else .ok {}

structure CompleteResult where
  accepted : Bool := false
  reason : Bytes := []
deriving DecidableEq

/-- What `send_complete` makes of the reply. -/
def completeResult : Option Frame → CompleteResult
  | none => { reason := ascii "recv_error" }
  | some reply => { accepted := reply.type == MsgType.completeAck.code, reason := reply.payload }

inductive Link where
  | absent | online | gone
deriving DecidableEq

/-- The coordinator and the connection of the controller: the call that waits for its
reply, and the frames on their way. -/
structure State where
  system : Coordinator.System
  link : Link := .absent
  pending : Option Call := none
  outbox : List Frame := []
  inbox : List Frame := []
deriving DecidableEq

inductive Action where
  | other (taken : Coordinator.Action)
  | connect
  | call (call : Call)
  | receive
  | sendDispatch (sent : Bool)
  | sendResponse
  | disconnect
  | ret
  | lose (arriving : Nat)
  | shutdown
deriving DecidableEq

/-- The step of the coordinator in a step of the whole. While the controller has the
descriptor `ctl`, the others do not; a descriptor is used again once it is closed. -/
def coordinatorAction? (ctl : Int) (state : State) : Action → Option Coordinator.Action
  | .other taken => if taken.connection ≠ ctl ∨ state.link = .absent then some taken else none
  | .connect => if state.link = .absent then some (.accept ctl) else none
  | .receive =>
      match state.outbox with
      | [] => none
      | frame :: _ =>
          if state.link ≠ .absent ∧ Network.Receivable frame then
            some (.frame ctl frame.type frame.payload)
          else none
  | .sendDispatch sent => if state.link = .absent then none else some (.sendDispatch ctl sent)
  | .sendResponse => if state.link = .absent then none else some (.sendResponse ctl)
  | .disconnect => if state.link = .gone then some (.disconnect ctl) else none
  | .call _ | .ret | .lose _ | .shutdown => none

/-- The frames that set out for the controller in a step of the coordinator. -/
def arriving (ctl : Int) (outputs : List Effect) : Coordinator.Action → List Frame
  | .sendDispatch _ false => []
  | _ => Network.transmitted outputs ctl

/-- What becomes of the controller's connection in a step of the coordinator. -/
def settle (state : State) (arrived : List Frame) : Action → State
  | .connect => { state with link := .online, pending := none, outbox := [], inbox := [] }
  | .receive => { state with outbox := state.outbox.tail, inbox := state.inbox ++ arrived }
  | .disconnect => { state with link := .absent, outbox := [], inbox := [] }
  | _ => { state with inbox := state.inbox ++ arrived }

def shutdownFrame : Frame := { type := MsgType.shutdown.code, payload := [] }

/-- A step of the controller alone. A call that loses its connection ends without a
reply; its frame may still arrive. -/
def ownStep (state : State) : Action → Option State
  | .call call =>
      if state.link = .online ∧ state.pending = none then
        some { state with pending := some call, outbox := state.outbox ++ [call.frame] }
      else none
  | .ret =>
      match state.link, state.pending, state.inbox with
      | .online, some _, reply :: rest =>
          if Network.Receivable reply then some { state with pending := none, inbox := rest }
          else none
      | _, _, _ => none
  | .lose arriving =>
      if state.link = .online then
        some { state with
          link := .gone
          pending := none
          outbox := state.outbox.take arriving
          inbox := [] }
      else none
  | .shutdown =>
      if state.link = .online ∧ state.pending = none then
        some { state with
          link := .gone
          outbox := state.outbox ++ [shutdownFrame]
          inbox := [] }
      else none
  | _ => none

def step (ctl : Int) (state : State) (action : Action) : Option (State × List Effect) :=
  match coordinatorAction? ctl state action with
  | some taken =>
      match Coordinator.machine.step state.system taken with
      | some (system, outputs) =>
          some (settle { state with system := system } (arriving ctl outputs taken) action, outputs)
      | none => none
  | none => (ownStep state action).map fun next => (next, [])

def machine (ctl : Int) : Machine State Action Effect := ⟨step ctl⟩

abbrev Event := Transition State Action Effect

def coordinatorEvent? (ctl : Int) (event : Event) : Option Coordinator.Event :=
  (coordinatorAction? ctl event.before event.action).map fun taken =>
    ⟨event.before.system, taken, event.outputs, event.after.system⟩

def coordinatorEvents (ctl : Int) (history : List Event) : List Coordinator.Event :=
  history.filterMap (coordinatorEvent? ctl)

/-- The call that returns, with its reply. -/
def returned? (event : Event) : Option (Call × Frame) :=
  match event.action, event.before.pending, event.before.inbox with
  | .ret, some call, reply :: _ => some (call, reply)
  | _, _, _ => none

def ProcessRun (ctl : Int) (argv : List Bytes) (history : List Event) (final : State) : Prop :=
  ∃ coord, Coordinator.parseArgs {} argv = .ok coord ∧
    Run (machine ctl) { system := { coord := coord } } history final

end Controller

end ChaosLab
