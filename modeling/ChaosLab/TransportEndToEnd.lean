import ChaosLab.Sending
import ChaosLab.TransportProperties

/-! Both ends of a connection with the interposer between them: `send_frame` on one
side, `forward_frames` in the middle, `recv_frame` on the other side. -/

set_option autoImplicit false

namespace ChaosLab

open Foundation

theorem frames_delivered {frames : List Frame}
    (small : ∀ frame ∈ frames, frame.payload.length ≤ 64 * 2 ^ 20) {receiver : Socket}
    (arrives : incoming receiver <+: frames.flatMap Frame.encode)
    (ends : afterIncoming receiver ≠ []) :
    ∃ status, recvFrames
        ((wholeWithin Frame.encode frames (incoming receiver).length).length + 1) receiver =
      (wholeWithin Frame.encode frames (incoming receiver).length).map
        (fun frame => some (.ok (frame.type, frame.payload))) ++ [some (.error status)] := by
  have short : ∀ message ∈ frames.map fun frame => (frame.type, frame.payload),
      message.2.length ≤ 64 * 2 ^ 20 := by
    simpa using small
  have cut : incoming receiver <+: (frames.map fun frame => (frame.type, frame.payload)).flatMap
      fun message => sendFrame message.1 message.2 := by
    rwa [List.flatMap_map]
  obtain ⟨status, received⟩ := messages_delivered short cut rfl ends
  rw [wholeWithin_map] at received
  simp only [List.length_map, List.map_map] at received
  exact ⟨status, received⟩

theorem mem_wholeWithin {Item Symbol : Type} {encode : Item → List Symbol} {items : List Item}
    {size : Nat} {item : Item} (member : item ∈ wholeWithin encode items size) : item ∈ items := by
  rw [wholeWithin_eq_take] at member
  exact List.mem_of_mem_take member

/-- Whatever the faults, wherever the streams are cut off or split, and whenever the other
direction aborts: the peer receives messages, one for each frame of the relay's that
arrives whole, and each stems from a message that was sent. -/
theorem interposed_messages (dir : Direction) (faults : List TransportFault)
    (aborted : Nat → Bool) {messages : List Frame}
    (small : ∀ message ∈ messages, message.payload.length ≤ 64 * 2 ^ 20) {socket : Socket}
    (sent : incoming socket <+: messages.flatMap Frame.encode) {receiver : Socket}
    (arrives : incoming receiver <+:
      (forwardFrames dir faults aborted 0 socket {}).1.written.flatten)
    (ends : afterIncoming receiver ≠ []) :
    ∃ taken received, taken <+: wholeWithin Frame.encode messages (incoming socket).length ∧
      ((∀ turn, aborted turn = false) →
        taken = wholeWithin Frame.encode messages (incoming socket).length) ∧
      received = wholeWithin Frame.encode (relay dir faults 0 none taken).sent
        (incoming receiver).length ∧
      (∃ status, recvFrames (received.length + 1) receiver =
        received.map (fun frame => some (.ok (frame.type, frame.payload))) ++
          [some (.error status)]) ∧
      ∀ frame ∈ received, ∃ original ∈ messages, frame.StemsFrom original := by
  obtain ⟨taken, start, written, whole, -⟩ := forwardFrames_written dir faults aborted socket
  have limit : ∀ message ∈ messages, message.payload.length < 2 ^ 32 := by
    intro message member
    exact Nat.lt_of_le_of_lt (small message member) (by decide)
  rw [(Frame.decodeAll_of_cut limit sent).1] at start whole
  have stems : ∀ frame ∈ (relay dir faults 0 none taken).sent,
      ∃ original ∈ messages, frame.StemsFrom original := by
    intro frame member
    obtain ⟨original, known, stems⟩ := stemsFrom_of_relay frame member
    exact ⟨original, mem_wholeWithin (start.subset known), stems⟩
  have few : ∀ frame ∈ (relay dir faults 0 none taken).sent,
      frame.payload.length ≤ 64 * 2 ^ 20 := by
    intro frame member
    obtain ⟨original, known, stem⟩ := stems frame member
    exact stem.length_le.trans (small original known)
  rw [written] at arrives
  exact ⟨taken, _, start, whole, rfl, frames_delivered few arrives ends,
    fun frame member => stems frame (mem_wholeWithin member)⟩

theorem interposed_messages_drop_second : ∃ status,
    recvFrames 3 [.data ([(⟨1, [9]⟩ : Frame), ⟨3, [7]⟩].flatMap Frame.encode) (by decide),
      .closed] = [some (.ok (1, [9])), some (.ok (3, [7])), some (.error status)] := by
  let messages : List Frame := [⟨1, [9]⟩, ⟨2, [8]⟩, ⟨3, [7]⟩]
  let socket : Socket := [.data (messages.flatMap Frame.encode) (by decide)]
  have arrives : incoming socket = messages.flatMap Frame.encode := List.append_nil _
  obtain ⟨taken, -, wrote, whole, -⟩ := forwardFrames_written .c2s [{ atSequence := 2 }]
    (fun _ => false) socket
  have all : wholeWithin Frame.encode messages (incoming socket).length = messages := by decide
  have read : (Frame.decodeAll (incoming socket)).1 = messages := by
    rw [arrives, Frame.decodeAll_flatMap (by decide)]
  have written : (forwardFrames .c2s [{ atSequence := 2 }] (fun _ => false) 0 socket
      {}).1.written.flatten = [(⟨1, [9]⟩ : Frame), ⟨3, [7]⟩].flatMap Frame.encode := by
    rw [wrote, whole fun _ => rfl, read]
    decide
  let receiver : Socket :=
    [.data ([(⟨1, [9]⟩ : Frame), ⟨3, [7]⟩].flatMap Frame.encode) (by decide), .closed]
  have small : ∀ message ∈ messages, message.payload.length ≤ 64 * 2 ^ 20 := by decide
  have sent : incoming socket <+: messages.flatMap Frame.encode := by rw [arrives]
  have left : incoming receiver <+: (forwardFrames .c2s [{ atSequence := 2 }] (fun _ => false) 0
      socket {}).1.written.flatten := by
    rw [written]
    exact ⟨[], rfl⟩
  obtain ⟨taken, received, -, whole, rfl, ⟨status, result⟩, -⟩ :=
    interposed_messages .c2s [{ atSequence := 2 }] (fun _ => false) small sent left
      (List.cons_ne_nil _ _)
  rw [whole fun _ => rfl, all] at result
  exact ⟨status, result⟩

end ChaosLab
