import ChaosLab.Foundation.Departures
import ChaosLab.RuntimeProtocolProperties

/-! The sending end of a connection, and both ends together. A message is received
exactly when `send_frame` reported it sent, in the order sent and once, if the
stream arrives as far as it was taken. -/

set_option autoImplicit false

namespace ChaosLab

open Foundation

/-- What the calls of `send` on a descriptor will do, in order. -/
abbrev Outlet := List Departure

/-- The status of a `tcp_send_all` that fails. -/
def sendError : Status := { code := .ioError, message := ascii "send()" }

/-- `tcp_send_all`: its status, the number of bytes sent, and the descriptor
afterwards. There is no status while a `send` waits. -/
def tcpSendAll (data : Bytes) (outlet : Outlet) : Option Status × Nat × Outlet :=
  match transmit data.length 0 outlet with
  | (.waiting, sent, later) => (none, sent, later)
  | (.failed, sent, later) => (some sendError, sent, later)
  | (.complete, sent, later) => (some {}, sent, later)

/-- Successive calls of `send_frame` on one descriptor, whatever their statuses: the
statuses, and the bytes that the connection has taken. -/
def sendFrames : List (UInt32 × Bytes) → Outlet → List Status × Bytes
  | [], _ => ([], [])
  | (type, payload) :: messages, outlet =>
      match tcpSendAll (sendFrame type payload) outlet with
      | (none, sent, _) => ([], (sendFrame type payload).take sent)
      | (some status, sent, later) =>
          (status :: (sendFrames messages later).1,
            (sendFrame type payload).take sent ++ (sendFrames messages later).2)

theorem length_sendFrame_pos (message : UInt32 × Bytes) :
    0 < (sendFrame message.1 message.2).length := by
  rw [sendFrame_eq, List.length_append, Frame.length_headerBytes]
  exact Nat.add_pos_left (by decide) _

/-- How far the calls came: `count` messages were sent whole, and the rest of the
bytes are a part of the next one. -/
structure SentWhole (messages : List (UInt32 × Bytes)) (statuses : List Status) (stream : Bytes)
    (count : Nat) : Prop where
  reported : ∀ index status, statuses[index]? = some status → (status = {} ↔ index < count)
  within : count ≤ statuses.length
  bounded : count ≤ messages.length
  stream : ∃ tail, stream =
      (messages.take count).flatMap (fun message => sendFrame message.1 message.2) ++ tail ∧
    (tail = [] ∨ ∃ message later, messages.drop count = message :: later ∧
      tail <+: sendFrame message.1 message.2 ∧
      tail.length < (sendFrame message.1 message.2).length)

theorem sendError_ne : sendError ≠ {} := by decide

theorem sendFrames_broken (messages : List (UInt32 × Bytes)) (later : Outlet) :
    sendFrames messages (.broken :: later) = (List.replicate messages.length sendError, []) := by
  induction messages with
  | nil => rfl
  | cons message messages ih =>
      have positive := length_sendFrame_pos message
      simp [sendFrames, tcpSendAll, transmit, positive, ih, List.replicate_succ]

theorem sentWhole_sendFrames (messages : List (UInt32 × Bytes)) (outlet : Outlet) :
    ∃ count, SentWhole messages (sendFrames messages outlet).1 (sendFrames messages outlet).2
      count := by
  induction messages generalizing outlet with
  | nil => exact ⟨0, by simp [sendFrames], by simp [sendFrames], by simp, [], by simp [sendFrames]⟩
  | cons message messages ih =>
      obtain ⟨type, payload⟩ := message
      cases ran : transmit (sendFrame type payload).length 0 outlet with
      | mk result rest =>
          obtain ⟨sent, later⟩ := rest
          have transmits := transmits_of_transmit ran
          cases transmits with
          | waiting short =>
              refine ⟨0, ?_, ?_, Nat.zero_le _, (sendFrame type payload).take sent, ?_, .inr ?_⟩
              · simp [sendFrames, tcpSendAll, ran]
              · simp [sendFrames, tcpSendAll, ran]
              · simp [sendFrames, tcpSendAll, ran]
              · exact ⟨_, _, rfl, List.take_prefix _ _, by simp; omega⟩
          | @failed _ later short =>
              -- The connection is broken, so every later call fails too.
              have broken := sendFrames_broken messages later
              refine ⟨0, ?_, ?_, Nat.zero_le _, (sendFrame type payload).take sent, ?_, .inr ?_⟩
              · intro index status found
                simp only [sendFrames, tcpSendAll, ran, broken] at found
                rw [← List.replicate_succ, List.getElem?_replicate] at found
                split at found
                · obtain rfl := Option.some.inj found
                  simp [sendError_ne]
                · cases found
              · simp [sendFrames, tcpSendAll, ran]
              · simp [sendFrames, tcpSendAll, ran, broken]
              · exact ⟨_, _, rfl, List.take_prefix _ _, by simp; omega⟩
          | complete =>
              obtain ⟨count, whole⟩ := ih later
              obtain ⟨tail, stream, rest⟩ := whole.stream
              refine ⟨count + 1, ?_, ?_, ?_, tail, ?_, rest⟩
              · intro index status found
                simp only [sendFrames, tcpSendAll, ran] at found
                cases index with
                | zero =>
                    rw [List.getElem?_cons_zero, Option.some.injEq] at found
                    simp [← found]
                | succ index =>
                    rw [List.getElem?_cons_succ] at found
                    rw [whole.reported index status found, Nat.succ_lt_succ_iff]
              · simpa [sendFrames, tcpSendAll, ran] using whole.within
              · simpa using whole.bounded
              · simp [sendFrames, tcpSendAll, ran, stream]

theorem SentWhole.wholeWithin_eq {messages : List (UInt32 × Bytes)} {statuses : List Status}
    {stream : Bytes} {count : Nat} (sent : SentWhole messages statuses stream count) :
    wholeWithin (fun message => sendFrame message.1 message.2) messages stream.length =
        messages.take count ∧
      stream <+: messages.flatMap fun message => sendFrame message.1 message.2 := by
  obtain ⟨tail, rfl, rest⟩ := sent.stream
  have parts := List.take_append_drop count messages
  have whole := wholeWithin_append (fun message => sendFrame message.1 message.2)
    (messages.take count) (messages.drop count) tail.length
  rw [parts, ← List.length_append] at whole
  have cut : tail <+: (messages.drop count).flatMap fun message => sendFrame message.1 message.2 := by
    rcases rest with rfl | ⟨message, later, next, start, -⟩
    · exact List.nil_prefix
    · rw [next, List.flatMap_cons]
      exact start.trans (List.prefix_append _ _)
  constructor
  · rw [whole]
    rcases rest with rfl | ⟨message, later, next, -, short⟩
    · cases left : messages.drop count with
      | nil => simp [wholeWithin]
      | cons message later =>
          have long := Nat.not_le_of_lt (length_sendFrame_pos message)
          simp [wholeWithin, long]
    · rw [next, wholeWithin, if_neg (Nat.not_le_of_lt short), List.append_nil]
  · conv_rhs => rw [← parts, List.flatMap_append]
    exact (List.prefix_append_right_inj _).mpr cut

end ChaosLab
