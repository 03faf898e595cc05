import ChaosLab.Bytes
import ChaosLab.Foundation.Arrivals

/-! Statuses, and the receiving end of a TCP connection. -/

set_option autoImplicit false

namespace ChaosLab

open Foundation

inductive StatusCode where
  | ok | invalidArgument | alreadyExists | notFound | outOfBounds | permissionDenied
  | notSupported | ioError | protocolError | authorityRejected | campaignClosed | resourceLimit
  | processError | internalError
deriving DecidableEq, Repr

structure Status where
  code : StatusCode := .ok
  message : Bytes := []
deriving DecidableEq

/-- What the calls of `recv` on a descriptor will find, in order. `receive` is
`tcp_recv_some` on it: no bytes received means that the peer has closed. -/
abbrev Socket := List (Arrival UInt8)

/-- The status of a `tcp_recv_some` that fails, by an expired timeout too. -/
def recvError : Status := { code := .ioError, message := ascii "recv()" }

end ChaosLab
