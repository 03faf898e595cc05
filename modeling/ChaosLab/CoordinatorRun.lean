import ChaosLab.Coordinator
import ChaosLab.Foundation.Transition

/-! The coordinator as a machine. Every connection has a thread; a step is one
frame, one of the two unlocked sends of `handle_submit`, or the opening or
closing of a connection, in any interleaving of the threads. -/

set_option autoImplicit false

namespace ChaosLab

namespace Coordinator

open Foundation

inductive ThreadPhase where
  | receiving
  | dispatching (submission : Submission)
  | responding (sent : Bool)
  | returned
deriving DecidableEq

/-- The shared state and the threads, by descriptor. A thread that has returned
on `SHUTDOWN` keeps its descriptor: it does not close it. -/
structure System where
  coord : CoordState
  threads : Std.ExtTreeMap Int ThreadPhase := ∅
deriving DecidableEq

inductive Action where
  | accept (fd : Int)
  | frame (fd : Int) (type : UInt32) (payload : Bytes)
  | sendDispatch (fd : Int) (sent : Bool)
  | sendResponse (fd : Int)
  | disconnect (fd : Int)
deriving DecidableEq

/-- `switchFrame`, stopped after the locked section of `handle_submit`. -/
def frameStep (type : UInt32) (payload : Bytes) (fd : Int) (s : CoordState) :
    Except StdException (CoordState × List Effect × ThreadPhase) :=
  match MsgType.ofCode? type with
  | some .submit => do
      match ← submitLocked payload fd s with
      | (s, effects, none) => return (s, effects, .receiving)
      | (s, effects, some submission) => return (s, effects, .dispatching submission)
  | some .shutdown => do
      let (s, effects) ← switchFrame type payload fd true s
      return (s, effects, .returned)
  | _ => do
      let (s, effects) ← switchFrame type payload fd true s
      return (s, effects, .receiving)

/-- A frame whose handler throws is not a step: the exception leaves the thread
function and ends the process. -/
def step (system : System) : Action → Option (System × List Effect)
  | .accept fd =>
      if fd ∈ system.threads then none
      else some ({ system with threads := system.threads.insert fd .receiving }, [])
  | .frame fd type payload =>
      match system.threads[fd]? with
      | some .receiving =>
          match frameStep type payload fd system.coord with
          | .ok (coord, effects, phase) =>
              some ({ coord := coord, threads := system.threads.insert fd phase }, effects)
          | .error _ => none
      | _ => none
  | .sendDispatch fd sent =>
      match system.threads[fd]? with
      | some (.dispatching submission) =>
          some ({ system with threads := system.threads.insert fd (.responding sent) },
            sendDispatch system.coord submission)
      | _ => none
  | .sendResponse fd =>
      match system.threads[fd]? with
      | some (.responding sent) =>
          some ({ system with threads := system.threads.insert fd .receiving },
            sendResponse system.coord fd sent)
      | _ => none
  | .disconnect fd =>
      match system.threads[fd]? with
      | some .receiving =>
          some ({ coord := (closeConnection fd system.coord).1, threads := system.threads.erase fd },
            (closeConnection fd system.coord).2)
      | _ => none

def machine : Machine System Action Effect := ⟨step⟩

abbrev Event := Transition System Action Effect

def ProcessRun (argv : List Bytes) (history : List Event) (final : System) : Prop :=
  ∃ coord, parseArgs {} argv = .ok coord ∧ Run machine { coord := coord } history final

structure Authority where
  epoch : UInt64
  attempt : UInt64
  gen : UInt64
  dispatch : UInt64
deriving DecidableEq

def CoordState.authority (s : CoordState) : Authority :=
  ⟨s.epoch, s.curAttempt, s.curGen, s.curDispatch⟩

def CompleteRequest.authority (request : CompleteRequest) : Authority :=
  ⟨request.epoch, request.attempt, request.gen, request.dispatch⟩

/-- The connection of a `SUBMIT` that passes the check that its worker is alive. -/
def acceptedSubmit? (s : CoordState) : Action → Option Int
  | .frame fd type payload =>
      if MsgType.ofCode? type = some .submit then
        match parseSubmit payload with
        | .ok (some (target, _)) => (liveWorker? s target).map fun _ => fd
        | _ => none
      else none
  | _ => none

def registration? : Action → Option (UInt64 × Int)
  | .frame fd type payload =>
      if MsgType.ofCode? type = some .register then
        match parseRegister payload with
        | .ok (some (_, id, _)) => some (id, fd)
        | _ => none
      else none
  | _ => none

def completion? : Action → Option CompleteRequest
  | .frame _ type payload =>
      if MsgType.ofCode? type = some .complete then
        match parseComplete payload with
        | .ok request => request
        | .error _ => none
      else none
  | _ => none

/-- The accepted submits in order, each with its connection and its numbers. -/
def submissions (history : List Event) : List (Int × Authority) :=
  history.filterMap fun event =>
    (acceptedSubmit? event.before.coord event.action).map fun fd => (fd, event.after.coord.authority)

def issued (history : List Event) : List Authority := (submissions history).map (·.2)

def acknowledged? (event : Event) : Option CompleteRequest :=
  if event.outputs.any (Effect.sends .completeAck) then completion? event.action else none

def acknowledged (history : List Event) : List CompleteRequest := history.filterMap acknowledged?

end Coordinator

end ChaosLab
