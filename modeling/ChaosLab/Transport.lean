import ChaosLab.Frame
import ChaosLab.Tcp

/-! The transport interposer: one direction of a proxied connection, read frame by
frame and written on with the faults of the list applied. -/

set_option autoImplicit false

namespace ChaosLab

open Foundation

inductive Direction where
  | c2s | s2c
deriving DecidableEq, Repr

inductive TransportFaultKind where
  | drop | duplicate | truncate | corrupt | reorder | delay | halfClose | close
deriving DecidableEq, Repr

/-- A message type or a sequence of zero means any. -/
structure TransportFault where
  kind : TransportFaultKind := .drop
  direction : Direction := .c2s
  messageType : UInt32 := 0
  atSequence : UInt64 := 0
  offset : Int32 := 0
deriving DecidableEq

structure TransportStats where
  framesForwarded : UInt64 := 0
  faultsApplied : UInt64 := 0
  dropped : UInt64 := 0
  truncated : UInt64 := 0
  corrupted : UInt64 := 0
  duplicated : UInt64 := 0
  delayed : UInt64 := 0
  reordered : UInt64 := 0
deriving DecidableEq

/-- The local variables of `forward_frames`, the statistics it counts, and what it has
handed to `tcp_send_all`, one entry for each call. -/
structure Forwarder where
  seq : UInt64 := 0
  pending : Bytes := []
  stats : TransportStats := {}
  written : List Bytes := []
deriving DecidableEq

/-- The search for the fault to apply: the first one that no test rules out. -/
def selectFault (dir : Direction) (mtype : UInt32) (seq : UInt64) :
    List TransportFault → Option TransportFault
  | [] => none
  | tf :: faults =>
      if tf.direction ≠ dir then selectFault dir mtype seq faults
      else if tf.messageType ≠ 0 ∧ tf.messageType ≠ mtype then selectFault dir mtype seq faults
      else if tf.atSequence ≠ 0 ∧ tf.atSequence ≠ seq then selectFault dir mtype seq faults
      else some tf

/-- The `TF_TRUNCATE` case. A negative offset becomes a huge size and is clamped. -/
def truncateFrame (offset : Int32) (bytes : Bytes) : Bytes :=
  let cut := (offset.toInt % 2 ^ 64).toNat
  let cut := if cut < Frame.header then Frame.header else cut
  let cut := if bytes.length < cut then bytes.length else cut
  let newlen := UInt32.ofNat (cut - Frame.header)
  let bytes := bytes.set 8 (newlen &&& 0xff).toUInt8
  let bytes := bytes.set 9 (newlen >>> 8 &&& 0xff).toUInt8
  let bytes := bytes.set 10 (newlen >>> 16 &&& 0xff).toUInt8
  let bytes := bytes.set 11 (newlen >>> 24 &&& 0xff).toUInt8
  bytes.take cut

/-- The `TF_CORRUPT` case. The size is compared as an `int`. -/
def corruptFrame (offset : Int32) (bytes : Bytes) : Bytes :=
  if Int32.ofNat Frame.header ≤ offset ∧ offset < Int32.ofNat bytes.length then
    bytes.modify offset.toInt.toNat (· ^^^ 0xa5)
  else bytes

namespace Forwarder

def forward (state : Forwarder) (data : Bytes) (count : Nat) : Forwarder :=
  { state with
    stats.framesForwarded := state.stats.framesForwarded + UInt64.ofNat count
    written := state.written ++ List.replicate count data }

/-- The `switch` over the kind of the applied fault; `false` when the function
returns. -/
def applyFault (state : Forwarder) (applied : TransportFault) (bytes : Bytes) :
    Forwarder × Bool :=
  let state := { state with stats.faultsApplied := state.stats.faultsApplied + 1 }
  match applied.kind with
  | .drop => ({ state with stats.dropped := state.stats.dropped + 1 }, true)
  | .duplicate =>
      (forward { state with stats.duplicated := state.stats.duplicated + 1 } bytes 2, true)
  | .truncate =>
      (forward { state with stats.truncated := state.stats.truncated + 1 }
        (truncateFrame applied.offset bytes) 1, true)
  | .corrupt =>
      (forward { state with stats.corrupted := state.stats.corrupted + 1 }
        (corruptFrame applied.offset bytes) 1, true)
  | .reorder =>
      let state := { state with stats.reordered := state.stats.reordered + 1 }
      if state.pending ≠ [] then
        (forward { state with pending := bytes } state.pending 1, true)
      else ({ state with pending := bytes }, true)
  | .delay => (forward { state with stats.delayed := state.stats.delayed + 1 } bytes 1, true)
  | .halfClose => (state, false)
  | .close => (state, false)

/-- One turn of the loop, from the frame read to the next read. -/
def deliver (dir : Direction) (faults : List TransportFault) (state : Forwarder)
    (mtype : UInt32) (bytes : Bytes) : Forwarder × Bool :=
  let state := { state with seq := state.seq + 1 }
  match selectFault dir mtype state.seq faults with
  | some applied => state.applyFault applied bytes
  | none => (state.forward bytes 1, true)

end Forwarder

/-- `read_exact`. -/
def readExact (n : Nat) (socket : Socket) : Gathered UInt8 × Socket := gather n [] socket

inductive FrameRead where
  | waiting
  | aborts
  | frame (mtype : UInt32) (bytes : Bytes) (rest : Socket)
deriving DecidableEq

/-- How a turn of the loop of `forward_frames` reads a frame. Nothing is received for an
empty payload. -/
def readFrame (socket : Socket) : FrameRead :=
  match readExact Frame.header socket with
  | (.waiting, _) => .waiting
  | (.failed, _) => .aborts
  | (.ended, _) => .aborts
  | (.complete header, rest) =>
      match Frame.decodeHeader header with
      | none => .aborts
      | some (mtype, payloadLen) =>
          match readExact payloadLen.toNat rest with
          | (.waiting, _) => .waiting
          | (.failed, _) => .aborts
          | (.ended, _) => .aborts
          | (.complete payload, rest) => .frame mtype (header ++ payload) rest

theorem length_incoming_of_readFrame {socket rest : Socket} {mtype : UInt32} {bytes : Bytes}
    (read : readFrame socket = .frame mtype bytes rest) :
    (incoming rest).length < (incoming socket).length := by
  unfold readFrame at read
  split at read
  · cases read
  · cases read
  · cases read
  · rename_i header middle headed
    split at read
    · cases read
    · split at read
      · cases read
      · cases read
      · cases read
      · rename_i payload later gathered
        cases read
        have first := length_incoming_of_gather headed
        have second := length_incoming_of_gather gathered
        unfold Frame.header at first
        omega

/-- The loop of `forward_frames`, with what it returns, if it does. `aborted turn` is
what the shared flag holds when turn number `turn` looks at it, set by the other direction
or not. -/
def forwardFrames (dir : Direction) (faults : List TransportFault) (aborted : Nat → Bool)
    (turn : Nat) (socket : Socket) (state : Forwarder) : Forwarder × Option Bool :=
  if aborted turn then (state, some true)
  else
    match _read : readFrame socket with
    | .waiting => (state, none)
    | .aborts => (state, some true)
    | .frame mtype bytes rest =>
        match state.deliver dir faults mtype bytes with
        | (state, false) => (state, some false)
        | (state, true) => forwardFrames dir faults aborted (turn + 1) rest state
termination_by (incoming socket).length
decreasing_by exact length_incoming_of_readFrame _read

end ChaosLab
