import ChaosLab.RuntimeProtocol
import ChaosLab.Text

/-! The target coordinator. Handlers are functions of the shared state; a locked
section is one function, and what a handler reads after releasing the lock is
read from the state of that later moment. -/

set_option autoImplicit false

namespace ChaosLab

namespace Coordinator

/-- `Worker`, without its send mutex. -/
structure Worker where
  id : UInt64 := 0
  boot : UInt64 := 0
  name : Bytes := []
  fd : Int := -1
  alive : Bool := false
deriving DecidableEq

structure CoordState where
  epoch : UInt64 := 1
  nextAttempt : UInt64 := 0
  nextGen : UInt64 := 0
  nextDispatch : UInt64 := 0
  curAttempt : UInt64 := 0
  curGen : UInt64 := 0
  curDispatch : UInt64 := 0
  curBoot : UInt64 := 0
  curWorker : UInt64 := 0
  hasSubmitted : Bool := false
  stateFile : Bytes := []
  workers : Std.ExtTreeMap UInt64 Worker := ∅
  fdToWorker : Std.ExtTreeMap Int UInt64 := ∅
  committed : Std.ExtTreeSet Bytes := ∅
  sigResult : Std.ExtTreeMap Bytes Bytes := ∅
  shuttingDown : Bool := false
deriving DecidableEq

def authorityText (s : CoordState) : Bytes :=
  ascii "epoch=" ++ toString s.epoch ++ ascii ";attempt=" ++ toString s.curAttempt ++
    ascii ";gen=" ++ toString s.curGen ++ ascii ";dispatch=" ++ toString s.curDispatch ++
    ascii ";boot=" ++ toString s.curBoot ++ ascii ";worker=" ++ toString s.curWorker

def currentAuthority (s : CoordState) (epoch boot attempt gen dispatch : UInt64) : Bool :=
  s.hasSubmitted && epoch == s.epoch && boot == s.curBoot && attempt == s.curAttempt &&
    gen == s.curGen && dispatch == s.curDispatch

def parseRegister (payload : Bytes) : Except StdException (Option (Bytes × UInt64 × UInt64)) :=
  match split payload Byte.pipe with
  | [name, idText, bootText] => do
      let id ← stoull idText
      let boot ← stoull bootText
      return some (name, id, boot)
  | _ => return none

/-- The updates in the locked section of `handle_register`. `workers[id]` makes a
default worker when there is none, and every field of it is then assigned. -/
def registerLocked (s : CoordState) (name : Bytes) (id boot : UInt64) (fd : Int) : CoordState :=
  { s with
    workers := s.workers.insert id { id := id, boot := boot, name := name, fd := fd, alive := true }
    fdToWorker := s.fdToWorker.insert fd id }

/-- What `handle_register` prints and sends; `fresh` is computed from the worker as
it was before. -/
def registerEffects (s : CoordState) (id boot : UInt64) (fd : Int) : List Effect :=
  let previous := s.workers.getD id {}
  let fresh := decide (previous.fd < 0) || previous.boot != boot
  let booted := if fresh then [Effect.report (ascii "BOOT") (ascii "worker=" ++ toString id ++
    ascii ";boot=" ++ toString boot ++ ascii ";fresh=1")] else []
  booted ++ [.send fd .registered (toString s.epoch)]

def handleRegister (payload : Bytes) (fd : Int) (s : CoordState) :
    Except StdException (CoordState × List Effect) := do
  match ← parseRegister payload with
  | none => return (s, [])
  | some (name, id, boot) =>
      return (registerLocked s name id boot fd, registerEffects s id boot fd)

structure CompleteRequest where
  epoch : UInt64
  attempt : UInt64
  gen : UInt64
  dispatch : UInt64
  worker : UInt64
  boot : UInt64
  result : Bytes
deriving DecidableEq

/-- The reading part of `handle_complete`; `none` stands for a wrong number of
fields. -/
def parseComplete (payload : Bytes) : Except StdException (Option CompleteRequest) :=
  match split payload Byte.pipe with
  | [epochText, attemptText, genText, dispatchText, workerText, bootText, result] => do
      let epoch ← stoull epochText
      let attempt ← stoull attemptText
      let gen ← stoull genText
      let dispatch ← stoull dispatchText
      let worker ← stoull workerText
      let boot ← stoull bootText
      return some {
        epoch := epoch
        attempt := attempt
        gen := gen
        dispatch := dispatch
        worker := worker
        boot := boot
        result := result }
  | _ => return none

def signature (request : CompleteRequest) : Bytes :=
  toString request.epoch ++ [Byte.colon] ++ toString request.attempt ++ [Byte.colon] ++
    toString request.gen ++ [Byte.colon] ++ toString request.dispatch ++ [Byte.colon] ++
    toString request.worker ++ [Byte.colon] ++ toString request.boot

/-- The comparison chain of `handle_complete`; empty text means not rejected. -/
def authorityReject (s : CoordState) (request : CompleteRequest) : Bytes :=
  if request.epoch ≠ s.epoch then ascii "stale_epoch"
  else if request.boot ≠ s.curBoot then ascii "stale_boot"
  else if request.attempt ≠ s.curAttempt then ascii "stale_attempt"
  else if request.gen ≠ s.curGen then ascii "stale_generation"
  else if request.dispatch ≠ s.curDispatch then ascii "stale_dispatch"
  else if currentAuthority s request.epoch request.boot request.attempt request.gen
      request.dispatch = false then ascii "not_current_authority"
  else []

/-- The duplicate check of `handle_complete` on an otherwise acceptable request.
Reading `sig_result[sig]` adds an empty entry when there is none. -/
def duplicateReject (s : CoordState) (request : CompleteRequest) : CoordState × Bytes :=
  if signature request ∈ s.committed then
    ({ s with sigResult := s.sigResult.insertIfNew (signature request) [] },
      if s.sigResult.getD (signature request) [] ≠ request.result then
        ascii "conflicting_duplicate"
      else ascii "duplicate_current_completion")
  else
    (s, [])

def acceptDetail (s : CoordState) (result : Bytes) : Bytes :=
  ascii "epoch=" ++ toString s.epoch ++ ascii ";attempt=" ++ toString s.curAttempt ++
    ascii ";gen=" ++ toString s.curGen ++ ascii ";dispatch=" ++ toString s.curDispatch ++
    ascii ";result=" ++ result

/-- The locked section of `handle_complete`, which includes its answer. -/
def completeLocked (s : CoordState) (request : CompleteRequest) (fd : Int) :
    CoordState × List Effect :=
  let checked :=
    if authorityReject s request = [] then duplicateReject s request
    else (s, authorityReject s request)
  if checked.2 ≠ [] then
    (checked.1, [.report (ascii "REJECTED") checked.2, .send fd .completeRejected checked.2])
  else
    ({ checked.1 with
        committed := checked.1.committed.insert (signature request)
        sigResult := checked.1.sigResult.insert (signature request) request.result },
      [.report (ascii "ACCEPTED") (acceptDetail checked.1 request.result),
        .send fd .completeAck (ascii "committed")])

def handleComplete (payload : Bytes) (fd : Int) (s : CoordState) :
    Except StdException (CoordState × List Effect) := do
  match ← parseComplete payload with
  | none =>
      return (s, [.report (ascii "REJECTED") (ascii "malformed_complete"),
        .send fd .completeRejected (ascii "malformed")])
  | some request => return completeLocked s request fd

/-- What `handle_submit` keeps in local variables after its locked section. The
numbers it allocated are not among them. -/
structure Submission where
  work : Bytes
  workerFd : Int
deriving DecidableEq

def parseSubmit (payload : Bytes) : Except StdException (Option (UInt64 × Bytes)) :=
  match split payload Byte.pipe with
  | [targetText, work] => do
      let target ← stoull targetText
      return some (target, work)
  | _ => return none

def allocate (s : CoordState) (target : UInt64) (worker : Worker) : CoordState :=
  { s with
    nextAttempt := s.nextAttempt + 1
    nextGen := s.nextGen + 1
    nextDispatch := s.nextDispatch + 1
    curAttempt := s.nextAttempt + 1
    curGen := s.nextGen + 1
    curDispatch := s.nextDispatch + 1
    curBoot := worker.boot
    curWorker := target
    hasSubmitted := true }

def liveWorker? (s : CoordState) (target : UInt64) : Option Worker :=
  s.workers[target]?.filter (·.alive)

/-- `handle_submit` up to the end of its locked section. -/
def submitLocked (payload : Bytes) (fd : Int) (s : CoordState) :
    Except StdException (CoordState × List Effect × Option Submission) := do
  match ← parseSubmit payload with
  | none => return (s, [.send fd .completeRejected (ascii "bad_submit")], none)
  | some (target, work) =>
      match liveWorker? s target with
      | none => return (s, [.send fd .completeRejected (ascii "worker_not_alive")], none)
      | some worker =>
          return (allocate s target worker, [], some { work := work, workerFd := worker.fd })

def authorityPayload (s : CoordState) : Bytes :=
  toString s.epoch ++ [Byte.pipe] ++ toString s.curAttempt ++ [Byte.pipe] ++
    toString s.curGen ++ [Byte.pipe] ++ toString s.curDispatch

/-- The unlocked part of `handle_submit` that reads the state and sends `DISPATCH`. -/
def sendDispatch (s : CoordState) (submission : Submission) : List Effect :=
  [.send submission.workerFd .dispatch (authorityPayload s ++ [Byte.pipe] ++ submission.work)]

def sendResponse (s : CoordState) (fd : Int) (sent : Bool) : List Effect :=
  .send fd .submitResponse (authorityPayload s) ::
    if sent then [] else [.report (ascii "WARN") (ascii "dispatch_to_worker_failed")]

/-- `handle_submit` run without interference; `sent` is whether the frame to the
worker could be sent. -/
def handleSubmit (payload : Bytes) (fd : Int) (sent : Bool) (s : CoordState) :
    Except StdException (CoordState × List Effect) := do
  match ← submitLocked payload fd s with
  | (s, effects, none) => return (s, effects)
  | (s, effects, some submission) =>
      return (s, effects ++ sendDispatch s submission ++ sendResponse s fd sent)

def handleGetState (fd : Int) (s : CoordState) : List Effect :=
  [.send fd .state (authorityText s ++ ascii "\ncommitted=" ++ decimal s.committed.size ++
    ascii "\nworkers=" ++ decimal s.workers.size)]

/-- The `switch` of `connection_thread` on one frame, run without interference. -/
def switchFrame (type : UInt32) (payload : Bytes) (fd : Int) (sent : Bool) (s : CoordState) :
    Except StdException (CoordState × List Effect) :=
  match MsgType.ofCode? type with
  | some .register => handleRegister payload fd s
  | some .submit => handleSubmit payload fd sent s
  | some .complete => handleComplete payload fd s
  | some .getState => .ok (s, handleGetState fd s)
  | some .workStarted => .ok (s, [.report (ascii "WORK_STARTED") payload])
  | some .ping => .ok (s, [.send fd .pong (ascii "pong")])
  | some .shutdown => .ok ({ s with shuttingDown := true }, [.send fd .pong (ascii "bye")])
  | _ => .ok (s, [])

/-- The locked clean-up of `connection_thread`, and the close that follows it. -/
def closeConnection (fd : Int) (s : CoordState) : CoordState × List Effect :=
  match s.fdToWorker[fd]? with
  | none => (s, [.close fd])
  | some id =>
      match s.workers[id]? with
      | none => ({ s with fdToWorker := s.fdToWorker.erase fd }, [.close fd])
      | some worker =>
          ({ s with
              workers := s.workers.insert id { worker with alive := false }
              fdToWorker := s.fdToWorker.erase fd },
            [.report (ascii "DEAD") (ascii "worker=" ++ toString id ++ ascii ";boot=" ++
              toString worker.boot), .close fd])

/-- The option loop of `main`. The port does not reach the shared state. -/
def parseArgs (s : CoordState) : List Bytes → Except StdException CoordState
  | [] => .ok s
  | [_] => .ok s
  | option :: value :: rest =>
      if option = ascii "--port" then parseArgs s rest
      else if option = ascii "--state-file" then parseArgs { s with stateFile := value } rest
      else if option = ascii "--epoch" then do
        let epoch ← stoull value
        parseArgs { s with epoch := epoch } rest
      else parseArgs s (value :: rest)

end Coordinator

end ChaosLab
