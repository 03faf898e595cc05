import ChaosLab.CoordinatorRun
import ChaosLab.Foundation.Needles
import ChaosLab.Text

/-! The standard output of the coordinator, and the wait of the campaign driver for a text on
it. -/

set_option autoImplicit false

namespace ChaosLab

namespace Coordinator

open Foundation

/-- What `%s` prints of a `c_str()`. -/
def cString (text : Bytes) : Bytes := text.takeWhile (· ≠ 0)

/-- What a newline becomes on `stdout`, which Windows opens in text mode. -/
def lineEnding (windows : Bool) : Bytes :=
  if windows then [Byte.carriageReturn, Byte.newline] else [Byte.newline]

def textMode (windows : Bool) (text : Bytes) : Bytes :=
  text.flatMap fun byte => if byte = Byte.newline then lineEnding windows else [byte]

def report (windows : Bool) (tag detail : Bytes) : Bytes :=
  textMode windows (tag ++ [Byte.pipe] ++ cString detail ++ [Byte.newline])

def printed (windows : Bool) : Effect → Bytes
  | .report tag detail => report windows tag detail
  | .send _ _ _ | .close _ => []

/-- The line `main` prints when it listens. -/
def listening (windows : Bool) (port : UInt16) : Bytes :=
  textMode windows (ascii "LISTEN|port=" ++ decimal port.toNat ++ [Byte.newline])

/-- Everything the process has written to `stdout`. -/
def stdout (windows : Bool) (port : UInt16) (history : List Event) : Bytes :=
  listening windows port ++ history.flatMap fun event => event.outputs.flatMap (printed windows)

end Coordinator

namespace Controller

/-- The loop of `wait_stdout`; `reads` has what `read_stdout` returns in each of its
attempts. What it has read so far is kept for the next wait. -/
def waitStdout (needle acc : Bytes) : List Bytes → Bool × Bytes
  | [] => (false, acc)
  | piece :: reads =>
      if needle <:+: acc ++ piece then (true, acc ++ piece)
      else waitStdout needle (acc ++ piece) reads

/-- The text the driver waits for after a submit. -/
def marker (attempt gen : UInt64) : Bytes :=
  ascii "attempt=" ++ toString attempt ++ ascii ";gen=" ++ toString gen

end Controller

end ChaosLab
