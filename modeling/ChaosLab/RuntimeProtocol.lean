import ChaosLab.Frame
import ChaosLab.Tcp

/-! Message types of the target runtime protocol, how messages are sent and received,
and what a process does that others can see: frames sent, lines printed, connections
closed. -/

set_option autoImplicit false

namespace ChaosLab

open Foundation

inductive MsgType where
  | register | registered | submit | submitResponse | dispatch | workStarted
  | complete | completeAck | completeRejected | epochNew | ping | pong | stale
  | getState | state | shutdown
deriving DecidableEq, Repr

namespace MsgType

def code : MsgType → UInt32
  | register => 0x0100
  | registered => 0x0101
  | submit => 0x0250
  | submitResponse => 0x0251
  | dispatch => 0x0200
  | workStarted => 0x0201
  | complete => 0x0300
  | completeAck => 0x0301
  | completeRejected => 0x0302
  | epochNew => 0x0400
  | ping => 0x0500
  | pong => 0x0501
  | stale => 0x0600
  | getState => 0x0800
  | state => 0x0801
  | shutdown => 0x0700

def all : List MsgType := [
  register, registered, submit, submitResponse, dispatch, workStarted, complete, completeAck,
  completeRejected, epochNew, ping, pong, stale, getState, state, shutdown]

/-- The enumerator of a received type field, if there is one. -/
def ofCode? (type : UInt32) : Option MsgType := all.find? fun message => message.code == type

@[simp] theorem ofCode?_code (message : MsgType) : ofCode? message.code = some message := by
  cases message <;> decide

end MsgType

inductive Effect where
  | send (fd : Int) (type : MsgType) (payload : Bytes)
  | report (tag detail : Bytes)
  | close (fd : Int)
deriving DecidableEq

def Effect.sends (type : MsgType) : Effect → Bool
  | .send _ sent _ => sent == type
  | _ => false

/-- What `send_frame` hands to `tcp_send_all`. -/
def sendFrame (type : UInt32) (payload : Bytes) : Bytes :=
  Frame.encode { type := type, payload := payload }

def maxPayload : UInt32 := (64 : UInt32) <<< 20

/-- `recv_frame`: its status with the message, and the socket afterwards. There is no
status while a `recv` waits. -/
def recvFrame (socket : Socket) : Option (Except Status (UInt32 × Bytes)) × Socket :=
  match gather Frame.header [] socket with
  | (.waiting, rest) => (none, rest)
  | (.failed, rest) => (some (.error recvError), rest)
  | (.ended, rest) =>
      (some (.error ⟨.ioError, ascii "connection closed while reading header"⟩), rest)
  | (.complete hdr, rest) =>
      match Frame.decodeHeader hdr with
      | none => (some (.error ⟨.protocolError, ascii "bad frame header"⟩), rest)
      | some (type, len) =>
          if maxPayload < len then
            (some (.error ⟨.protocolError, ascii "frame too large"⟩), rest)
          else if 0 < len then
            match gather len.toNat [] rest with
            | (.waiting, rest) => (none, rest)
            | (.failed, rest) => (some (.error recvError), rest)
            | (.ended, rest) =>
                (some (.error ⟨.ioError, ascii "connection closed while reading body"⟩), rest)
            | (.complete body, rest) => (some (.ok (type, body)), rest)
          else (some (.ok (type, [])), rest)

/-- The results of successive calls of `recv_frame` on one descriptor. -/
def recvFrames : Nat → Socket → List (Option (Except Status (UInt32 × Bytes)))
  | 0, _ => []
  | calls + 1, socket => (recvFrame socket).1 :: recvFrames calls (recvFrame socket).2

end ChaosLab
