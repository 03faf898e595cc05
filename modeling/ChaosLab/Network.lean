import ChaosLab.CoordinatorRun
import ChaosLab.Foundation.Channels
import ChaosLab.Foundation.Projection
import ChaosLab.TargetWorker

/-! The coordinator with its peers. Each connection carries frames both ways, in
order; the worker processes answer what they read as `target_worker` does, and a
controller sends any frames but completions. Peers may go at any time, and a
descriptor is used again once its connection is closed. -/

set_option autoImplicit false

namespace ChaosLab

namespace Network

open Foundation

inductive Peer where
  | worker (settings : TargetWorker.Settings)
  | controller
deriving DecidableEq

/-- By the coordinator's descriptors. `online` is whether the peer still reads and
writes; the frames it sent before it went may still arrive. -/
structure State where
  system : Coordinator.System
  peers : Int → Peer := fun _ => .controller
  online : Int → Bool := fun _ => false
  toCoordinator : Channels Int Frame := Channels.empty
  toPeer : Channels Int Frame := Channels.empty

inductive Action where
  | connect (fd : Int) (peer : Peer)
  | request (fd : Int) (frame : Frame)
  | receive (fd : Int)
  | sendDispatch (fd : Int) (sent : Bool)
  | sendResponse (fd : Int)
  | disconnect (fd : Int)
  | work (fd : Int) (roundtrip : Bool)
  | leave (fd : Int) (arriving : Nat)
deriving DecidableEq

/-- The frames that go out on a connection. -/
def transmitted (effects : List Effect) (fd : Int) : List Frame :=
  effects.filterMap fun effect =>
    match effect with
    | .send receiver type payload =>
        if receiver = fd then some { type := type.code, payload := payload } else none
    | _ => none

/-- What a peer sends of its own accord when it has connected. -/
def greeting : Peer → List Frame
  | .worker settings =>
      [{ type := MsgType.register.code, payload := TargetWorker.registerPayload settings }]
  | .controller => []

/-- `recv_frame` hands over frames of at most this size. -/
def Receivable (frame : Frame) : Prop := frame.payload.length ≤ maxPayload.toNat

instance (frame : Frame) : Decidable (Receivable frame) := inferInstanceAs (Decidable (_ ≤ _))

/-- The step of the coordinator in a step of the network. -/
def coordinatorAction? (state : State) : Action → Option Coordinator.Action
  | .connect fd _ => some (.accept fd)
  | .receive fd =>
      match state.toCoordinator fd with
      | frame :: _ => if Receivable frame then some (.frame fd frame.type frame.payload) else none
      | [] => none
  | .sendDispatch fd sent => some (.sendDispatch fd sent)
  | .sendResponse fd => some (.sendResponse fd)
  | .disconnect fd => some (.disconnect fd)
  | .request _ _ | .work _ _ | .leave _ _ => none

/-- What becomes of the connections in a step of the coordinator. A frame that
could not be sent is not in flight. -/
def settle (state : State) (outputs : List Effect) : Action → State
  | .connect fd peer => { state with
      peers := Function.update state.peers fd peer
      online := Function.update state.online fd true
      toCoordinator := Function.update state.toCoordinator fd (greeting peer)
      toPeer := Function.update state.toPeer fd [] }
  | .receive fd => { state with
      toCoordinator := Function.update state.toCoordinator fd (state.toCoordinator fd).tail
      toPeer := state.toPeer.append (transmitted outputs) }
  | .sendDispatch _ sent =>
      if sent then { state with toPeer := state.toPeer.append (transmitted outputs) } else state
  | .disconnect fd => { state with
      online := Function.update state.online fd false
      toCoordinator := Function.update state.toCoordinator fd []
      toPeer := Function.update state.toPeer fd [] }
  | _ => { state with toPeer := state.toPeer.append (transmitted outputs) }

/-- A step of a peer, which leaves the coordinator as it is. -/
def peerStep (state : State) : Action → Option (State × List Effect)
  | .request fd frame =>
      if state.online fd = true ∧ state.peers fd = .controller ∧
          MsgType.ofCode? frame.type ≠ some .complete then
        some ({ state with toCoordinator := state.toCoordinator.push fd [frame] }, [])
      else none
  | .work fd roundtrip =>
      match state.online fd, state.peers fd, state.toPeer fd with
      | true, .worker settings, frame :: rest =>
          if Receivable frame then
            match TargetWorker.switchFrame settings roundtrip frame.type frame.payload fd with
            | some effects => some ({ state with
                toPeer := Function.update state.toPeer fd rest
                toCoordinator := state.toCoordinator.push fd (transmitted effects fd) }, effects)
            | none => some ({ state with online := Function.update state.online fd false }, [])
          else none
      | _, _, _ => none
  | .leave fd arriving =>
      if state.online fd = true then
        some ({ state with
          online := Function.update state.online fd false
          toCoordinator := Function.update state.toCoordinator fd
            ((state.toCoordinator fd).take arriving) }, [])
      else none
  | _ => none

def step (state : State) (action : Action) : Option (State × List Effect) :=
  match coordinatorAction? state action with
  | some taken =>
      match Coordinator.machine.step state.system taken with
      | some (system, outputs) => some (settle { state with system := system } outputs action, outputs)
      | none => none
  | none => peerStep state action

def machine : Machine State Action Effect := ⟨step⟩

abbrev Event := Transition State Action Effect

/-- A transition of the network as the coordinator sees it. -/
def coordinatorEvent? (event : Event) : Option Coordinator.Event :=
  (coordinatorAction? event.before event.action).map fun taken =>
    ⟨event.before.system, taken, event.outputs, event.after.system⟩

def coordinatorEvents (history : List Event) : List Coordinator.Event :=
  history.filterMap coordinatorEvent?

def worker? : Action → Option TargetWorker.Settings
  | .connect _ (.worker settings) => some settings
  | _ => none

/-- The workers that have connected. -/
def workers (history : List Event) : List TargetWorker.Settings :=
  history.filterMap fun event => worker? event.action

def ProcessRun (argv : List Bytes) (history : List Event) (final : State) : Prop :=
  ∃ coord, Coordinator.parseArgs {} argv = .ok coord ∧
    Run machine { system := { coord := coord } } history final

end Network

end ChaosLab
