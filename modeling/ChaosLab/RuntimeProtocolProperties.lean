import ChaosLab.FrameProperties
import ChaosLab.RuntimeProtocol

/-! Messages arrive as they were sent, however the stream that carries them is cut into
pieces, and a stream that ends early loses only what it does not hold whole. -/

set_option autoImplicit false

namespace ChaosLab

open Foundation

theorem sendFrame_eq (type : UInt32) (payload : Bytes) : sendFrame type payload =
    Frame.headerBytes type (UInt32.ofNat payload.length) ++ payload :=
  rfl

theorem toNat_ofNat_length {payload : Bytes} (small : payload.length ≤ maxPayload.toNat) :
    (UInt32.ofNat payload.length).toNat = payload.length := by
  have limit : maxPayload.toNat < UInt32.size := by decide
  exact UInt32.toNat_ofNat_of_lt' (Nat.lt_of_le_of_lt small limit)

theorem not_maxPayload_lt {payload : Bytes} (small : payload.length ≤ maxPayload.toNat) :
    ¬ maxPayload < UInt32.ofNat payload.length := by
  rw [UInt32.lt_iff_toNat_lt, toNat_ofNat_length small]
  exact Nat.not_lt_of_le small

section Receive

variable {socket : Socket} {type : UInt32} {payload rest : Bytes}

theorem recvFrame_of_message (small : payload.length ≤ maxPayload.toNat)
    (arrives : incoming socket = sendFrame type payload ++ rest) :
    ∃ later, recvFrame socket = (some (.ok (type, payload)), later) ∧
      incoming later = rest ∧ afterIncoming later = afterIncoming socket := by
  have exact := toNat_ofNat_length small
  rw [sendFrame_eq, List.append_assoc] at arrives
  obtain ⟨middle, headed, left, after⟩ := Frame.gather_header arrives
  by_cases bodied : 0 < UInt32.ofNat payload.length
  · obtain ⟨later, gathered, remaining, same⟩ := gather_nil_append left
    refine ⟨later, ?_, remaining, same.trans after⟩
    simp only [recvFrame, headed, Frame.decodeHeader_headerBytes_self, if_neg (not_maxPayload_lt small),
      if_pos bodied, exact, gathered]
  · have empty : payload = [] := by
      rw [UInt32.lt_iff_toNat_lt, exact] at bodied
      exact List.eq_nil_of_length_eq_zero (Nat.eq_zero_of_not_pos bodied)
    subst empty
    refine ⟨middle, ?_, left, after⟩
    simp only [recvFrame, headed, Frame.decodeHeader_headerBytes_self, if_neg (not_maxPayload_lt small),
      if_neg bodied]

theorem recvFrame_of_short_header (short : (incoming socket).length < Frame.header)
    (ends : afterIncoming socket ≠ []) :
    ∃ status later, recvFrame socket = (some (.error status), later) := by
  obtain ⟨later, gathered⟩ := gather_nil_of_lt short
  cases interruption_of_ne_nil ends with
  | inl failed =>
      refine ⟨recvError, later, ?_⟩
      simp only [recvFrame, gathered, failed]
  | inr ended =>
      refine ⟨⟨.ioError, ascii "connection closed while reading header"⟩, later, ?_⟩
      simp only [recvFrame, gathered, ended]

/-- A message that is cut off is not received. -/
theorem recvFrame_of_cut (small : payload.length ≤ maxPayload.toNat)
    (cut : incoming socket <+: sendFrame type payload)
    (short : (incoming socket).length < (sendFrame type payload).length)
    (ends : afterIncoming socket ≠ []) :
    ∃ status later, recvFrame socket = (some (.error status), later) := by
  rw [sendFrame_eq] at cut short
  rcases cut_cases cut with ⟨within, -⟩ | ⟨tail, arrives, -⟩
  · exact recvFrame_of_short_header within ends
  · obtain ⟨middle, headed, left, after⟩ := Frame.gather_header arrives
    rw [arrives, List.length_append, List.length_append] at short
    have lacking : (incoming middle).length < payload.length := by
      rw [left]
      omega
    have bodied : 0 < UInt32.ofNat payload.length := by
      rw [UInt32.lt_iff_toNat_lt, toNat_ofNat_length small]
      exact Nat.zero_lt_of_lt lacking
    obtain ⟨later, gathered⟩ := gather_nil_of_lt lacking
    rw [← after] at ends
    cases interruption_of_ne_nil ends with
    | inl failed =>
        refine ⟨recvError, later, ?_⟩
        simp only [recvFrame, headed, Frame.decodeHeader_headerBytes_self,
          if_neg (not_maxPayload_lt small), if_pos bodied, toNat_ofNat_length small, gathered,
          failed]
    | inr ended =>
        refine ⟨⟨.ioError, ascii "connection closed while reading body"⟩, later, ?_⟩
        simp only [recvFrame, headed, Frame.decodeHeader_headerBytes_self,
          if_neg (not_maxPayload_lt small), if_pos bodied, toNat_ofNat_length small, gathered,
          ended]

end Receive

/-- Successive `recv_frame` calls return the messages that the stream holds whole, and
then an error, for every way the stream is cut off and cut into pieces. -/
theorem messages_delivered {messages : List (UInt32 × Bytes)}
    (small : ∀ message ∈ messages, message.2.length ≤ 64 * 2 ^ 20) {stream : Bytes}
    (cut : stream <+: messages.flatMap fun message => sendFrame message.1 message.2)
    {socket : Socket} (arrives : incoming socket = stream) (ends : afterIncoming socket ≠ []) :
    ∃ status, recvFrames
        ((wholeWithin (fun message => sendFrame message.1 message.2) messages
          stream.length).length + 1) socket =
      (wholeWithin (fun message => sendFrame message.1 message.2) messages stream.length).map
        (fun message => some (.ok message)) ++ [some (.error status)] := by
  induction messages generalizing stream socket with
  | nil =>
      obtain rfl : stream = [] := by simpa using cut
      obtain ⟨status, later, failed⟩ := recvFrame_of_short_header (by simp [arrives, Frame.header]) ends
      exact ⟨status, by simp [wholeWithin, recvFrames, failed]⟩
  | cons message messages ih =>
      obtain ⟨type, payload⟩ := message
      rw [List.forall_mem_cons] at small
      rw [List.flatMap_cons] at cut
      have limit : payload.length ≤ maxPayload.toNat := small.1
      rcases cut_cases cut with ⟨short, within⟩ | ⟨tail, whole, rest⟩
      · rw [← arrives] at short within
        obtain ⟨status, later, failed⟩ := recvFrame_of_cut limit within short ends
        rw [← arrives, wholeWithin, if_neg (Nat.not_le_of_lt short)]
        exact ⟨status, by simp [recvFrames, failed]⟩
      · rw [whole] at arrives
        obtain ⟨later, received, left, after⟩ := recvFrame_of_message limit arrives
        rw [← after] at ends
        obtain ⟨status, received_rest⟩ := ih small.2 rest left ends
        rw [whole, wholeWithin, List.length_append, if_pos (Nat.le_add_right _ _),
          Nat.add_sub_cancel_left]
        exact ⟨status, by simp [recvFrames, received, received_rest]⟩

theorem messages_delivered_across_chunks : ∃ status,
    recvFrames 2 [.data (sendFrame 1 [9] |>.take 5) (by decide),
        .data ((sendFrame 1 [9] |>.drop 5) ++ (sendFrame 2 [] |>.take 3)) (by decide), .closed] =
      [some (.ok (1, [9])), some (.error status)] := by
  have small : ∀ message ∈ [((1 : UInt32), ([9] : Bytes)), (2, [])],
      message.2.length ≤ 64 * 2 ^ 20 := by decide
  exact messages_delivered small (List.take_prefix 16 _) rfl (List.cons_ne_nil _ _)

end ChaosLab
