import ChaosLab.Digest
import ChaosLab.RuntimeProtocol
import ChaosLab.Text

/-! The target worker: what it sends over a connection to the coordinator and
what it does with the frames it receives. -/

set_option autoImplicit false

namespace ChaosLab

namespace TargetWorker

structure Settings where
  name : Bytes := ascii "worker"
  id : UInt64 := 1
  boot : UInt64 := 1
  cuda : Bool := false
deriving DecidableEq

def doWork (boot : UInt64) (work : Bytes) : Bytes :=
  ((Sha256.reset.update work).update (ascii "|boot=" ++ toString boot)).finish.hex

def completePayload (settings : Settings) (epoch attempt gen dispatch result : Bytes) : Bytes :=
  epoch ++ [Byte.pipe] ++ attempt ++ [Byte.pipe] ++ gen ++ [Byte.pipe] ++ dispatch ++
    [Byte.pipe] ++ toString settings.id ++ [Byte.pipe] ++ toString settings.boot ++
    [Byte.pipe] ++ result

/-- `handle_dispatch`. `roundtrip` is what `cuda_roundtrip` returns; a build
without CUDA has `false`. -/
def handleDispatch (settings : Settings) (roundtrip : Bool) (payload : Bytes) (fd : Int) :
    List Effect :=
  match split payload Byte.pipe with
  | [epoch, attempt, gen, dispatch, work] =>
      let work := if settings.cuda && roundtrip then work ++ ascii ":gpu" else work
      [.send fd .workStarted (ascii "started"),
        .send fd .complete (completePayload settings epoch attempt gen dispatch
          (doWork settings.boot work))]
  | _ => []

def registerPayload (settings : Settings) : Bytes :=
  settings.name ++ [Byte.pipe] ++ toString settings.id ++ [Byte.pipe] ++ toString settings.boot

/-- The `switch` of `main` on one frame; `none` when the process ends. -/
def switchFrame (settings : Settings) (roundtrip : Bool) (type : UInt32) (payload : Bytes)
    (fd : Int) : Option (List Effect) :=
  match MsgType.ofCode? type with
  | some .dispatch => some (handleDispatch settings roundtrip payload fd)
  | some .completeAck => some [.report (ascii "ACK") payload]
  | some .completeRejected => some [.report (ascii "REJECTED") payload]
  | some .registered => some [.report (ascii "REGISTERED") (ascii "epoch=" ++ payload)]
  | some .ping => some [.send fd .pong (ascii "pong")]
  | some .shutdown => none
  | _ => some []

end TargetWorker

end ChaosLab
