import ChaosLab.TransportRelay

/-! What the interposer writes: always whole frames that stem from frames it has read,
and, frame by frame, what the first fault that is for a frame makes of it. -/

set_option autoImplicit false

namespace ChaosLab

open Foundation

section Framing

/-- What the interposer may make of a frame. -/
def Frame.StemsFrom (frame original : Frame) : Prop :=
  frame.type = original.type ∧
    (frame.payload = original.payload ∨ frame.payload <+: original.payload ∨
      ∃ index < original.payload.length,
        frame.payload = original.payload.modify index (· ^^^ 0xa5))

theorem Frame.StemsFrom.refl (frame : Frame) : frame.StemsFrom frame := ⟨rfl, .inl rfl⟩

theorem Frame.StemsFrom.length_le {frame original : Frame} (stems : frame.StemsFrom original) :
    frame.payload.length ≤ original.payload.length := by
  obtain ⟨-, same | start | ⟨index, -, altered⟩⟩ := stems
  · exact Nat.le_of_eq (congrArg List.length same)
  · exact start.length_le
  · rw [altered, List.length_modify]

theorem stemsFrom_truncated (offset : Int32) (frame : Frame) :
    ({ frame with payload := truncatePayload offset frame.payload } : Frame).StemsFrom frame :=
  ⟨rfl, .inr (.inl (List.take_prefix _ _))⟩

theorem stemsFrom_corrupted (offset : Int32) (frame : Frame) :
    ({ frame with payload := corruptPayload offset frame.payload } : Frame).StemsFrom frame := by
  refine ⟨rfl, ?_⟩
  simp only [corruptPayload]
  split
  · by_cases inside : offset.toInt.toNat - Frame.header < frame.payload.length
    · exact .inr (.inr ⟨_, inside, rfl⟩)
    · exact .inl (List.modify_eq_self (Nat.le_of_not_lt inside))
  · exact .inl rfl

theorem stemsFrom_of_transformed {applied : Option TransportFault} {frame after : Frame}
    (member : after ∈ transformed applied frame) : after.StemsFrom frame := by
  cases applied with
  | none =>
      obtain rfl : after = frame := by simpa [transformed] using member
      exact .refl after
  | some fault =>
      simp only [transformed] at member
      cases kind : fault.kind with
      | duplicate | delay =>
          obtain rfl : after = frame := by simpa [kind] using member
          exact .refl after
      | truncate =>
          simp only [kind, List.mem_singleton] at member
          rw [member]
          exact stemsFrom_truncated fault.offset frame
      | corrupt =>
          simp only [kind, List.mem_singleton] at member
          rw [member]
          exact stemsFrom_corrupted fault.offset frame
      | drop | reorder | halfClose | close => simp [kind] at member

theorem stemsFrom_of_passOn {applied : Option TransportFault} {held next : Option Frame}
    {frame : Frame} {sent : List Frame} (passed : passOn applied held frame = some (next, sent)) :
    (∀ after ∈ sent, ∃ original ∈ held.toList ++ [frame], after.StemsFrom original) ∧
      ∀ after ∈ next.toList, after ∈ held.toList ++ [frame] := by
  obtain ⟨-, ⟨-, rfl, rfl⟩ | ⟨-, rfl, rfl⟩⟩ := passOn_eq_some passed
  · constructor
    · intro after member
      exact ⟨after, List.mem_append_left _ member, .refl after⟩
    · simp
  · constructor
    · intro after member
      exact ⟨frame, by simp, stemsFrom_of_transformed member⟩
    · intro after member
      exact List.mem_append_left _ member

theorem stemsFrom_of_relay {dir : Direction} {faults : List TransportFault} {index : Nat}
    {held : Option Frame} {frames : List Frame} :
    ∀ frame ∈ (relay dir faults index held frames).sent,
      ∃ original ∈ held.toList ++ frames, frame.StemsFrom original := by
  induction frames generalizing index held with
  | nil => simp [relay]
  | cons first frames ih =>
      intro frame member
      rw [relay] at member
      cases passed : passOn (faultFor dir faults first.type (index + 1)) held first with
      | none => simp [passed] at member
      | some result =>
          obtain ⟨next, sent⟩ := result
          simp only [passed, List.mem_append] at member
          obtain ⟨now, kept⟩ := stemsFrom_of_passOn passed
          cases member with
          | inl member =>
              obtain ⟨original, known, stems⟩ := now frame member
              refine ⟨original, ?_, stems⟩
              simp only [List.mem_append, List.mem_cons] at known ⊢
              tauto
          | inr member =>
              obtain ⟨original, known, stems⟩ := ih frame member
              refine ⟨original, ?_, stems⟩
              rw [List.mem_append] at known
              cases known with
              | inl waiting =>
                  have earlier := kept original waiting
                  simp only [List.mem_append, List.mem_cons] at earlier ⊢
                  tauto
              | inr later => simp [later]

/-- Whatever arrives in whatever pieces, whatever faults are set and whenever the other
direction aborts, the bytes written are whole frames that stem from frames read. -/
theorem forwardFrames_keeps_framing (dir : Direction) (faults : List TransportFault)
    (aborted : Nat → Bool) (socket : Socket) :
    ∃ sent : List Frame,
      (forwardFrames dir faults aborted 0 socket {}).1.written.flatten =
        sent.flatMap Frame.encode ∧
      ∀ frame ∈ sent, frame.payload.length < 2 ^ 32 ∧
        ∃ original ∈ (Frame.decodeAll (incoming socket)).1, frame.StemsFrom original := by
  obtain ⟨taken, start, written, -⟩ := forwardFrames_written dir faults aborted socket
  refine ⟨_, written, fun frame member => ?_⟩
  obtain ⟨original, known, stems⟩ := stemsFrom_of_relay frame member
  have read := start.subset known
  exact ⟨Nat.lt_of_le_of_lt stems.length_le (Frame.length_payload_of_decodeAll read),
    original, read, stems⟩

end Framing

section Isolation

/-- The frames sent for the frames up to the first one whose fault gives the connection
up, each as its own fault has it. -/
def sentFor (dir : Direction) (faults : List TransportFault) (numbered : List (Frame × Nat)) :
    List Frame :=
  (numbered.takeWhile fun item => !closes (faultFor dir faults item.1.type item.2)).flatMap
    fun item => transformed (faultFor dir faults item.1.type item.2) item.1

theorem reorders_faultFor (dir : Direction) {faults : List TransportFault}
    (orderly : ∀ fault ∈ faults, fault.kind ≠ .reorder) (type : UInt32) (index : Nat) :
    reorders (faultFor dir faults type index) = false := by
  cases hit : faultFor dir faults type index with
  | none => rfl
  | some fault => simpa [reorders] using orderly fault (List.mem_of_find?_eq_some hit)

theorem relay_sent_of_orderly {dir : Direction} {faults : List TransportFault}
    (orderly : ∀ fault ∈ faults, fault.kind ≠ .reorder) (index : Nat) (held : Option Frame)
    (frames : List Frame) :
    (relay dir faults index held frames).sent =
      sentFor dir faults (frames.zipIdx (index + 1)) := by
  induction frames generalizing index held with
  | nil => rfl
  | cons frame frames ih =>
      have unheld := reorders_faultFor dir orderly frame.type (index + 1)
      rw [relay, sentFor, List.zipIdx_cons, List.takeWhile_cons]
      cases closing : closes (faultFor dir faults frame.type (index + 1)) with
      | true => simp [passOn_eq, closing]
      | false => simp [passOn_eq, closing, unheld, ih, sentFor]

theorem selectFault_filter (dir : Direction) (mtype : UInt32) (seq : UInt64)
    (faults : List TransportFault) :
    selectFault dir mtype seq (faults.filter fun fault => fault.direction = dir) =
      selectFault dir mtype seq faults := by
  induction faults with
  | nil => rfl
  | cons fault faults ih =>
      by_cases here : fault.direction = dir
      · simp [selectFault, here, ih]
      · simp [selectFault, here, ih]

/-- The loop uses the fault list only to select a fault for each frame. -/
theorem forwardFrames_congr {dir : Direction} {faults others : List TransportFault}
    (same : ∀ mtype seq, selectFault dir mtype seq faults = selectFault dir mtype seq others)
    (aborted : Nat → Bool) (turn : Nat) (socket : Socket) (state : Forwarder) :
    forwardFrames dir faults aborted turn socket state =
      forwardFrames dir others aborted turn socket state := by
  have delivers (state : Forwarder) (mtype : UInt32) (bytes : Bytes) :
      state.deliver dir faults mtype bytes = state.deliver dir others mtype bytes := by
    simp only [Forwarder.deliver, same]
  fun_induction forwardFrames dir faults aborted turn socket state with
  | case1 turn socket state raised => rw [forwardFrames_of_aborted raised]
  | case2 turn socket state lowered read =>
      rw [Bool.not_eq_true] at lowered
      rw [forwardFrames_of_stopped lowered (by simp [read]), read]
      rfl
  | case3 turn socket state lowered read =>
      rw [Bool.not_eq_true] at lowered
      rw [forwardFrames_of_stopped lowered (by simp [read]), read]
      rfl
  | case4 turn socket state lowered mtype bytes rest read final delivered =>
      rw [Bool.not_eq_true] at lowered
      rw [forwardFrames_of_frame lowered read, ← delivers, delivered]
  | case5 turn socket state lowered mtype bytes rest read next delivered ih =>
      rw [Bool.not_eq_true] at lowered
      rw [forwardFrames_of_frame lowered read, ← delivers, delivered]
      exact ih

/-- Faults touch only the frames they are for: without reordering, each frame up to the
first one that gives the connection up is written as the first fault for it has it, and
faults of the other direction change nothing. -/
theorem forwardFrames_isolated (dir : Direction) {faults : List TransportFault}
    (orderly : ∀ fault ∈ faults, fault.kind ≠ .reorder) {frames : List Frame}
    (small : ∀ frame ∈ frames, frame.payload.length < 2 ^ 32) (aborted : Nat → Bool)
    {socket : Socket} (arrives : incoming socket = frames.flatMap Frame.encode) :
    (∃ taken, taken <+: frames ∧ ((∀ turn, aborted turn = false) → taken = frames) ∧
      (forwardFrames dir faults aborted 0 socket {}).1.written.flatten =
        (sentFor dir faults (taken.zipIdx 1)).flatMap Frame.encode) ∧
    (∀ frame index, faultFor dir faults frame.type index = none →
      transformed (faultFor dir faults frame.type index) frame = [frame]) ∧
    ∀ others : List TransportFault,
      others.filter (fun fault => fault.direction = dir) =
        faults.filter (fun fault => fault.direction = dir) →
      forwardFrames dir others aborted 0 socket {} =
        forwardFrames dir faults aborted 0 socket {} := by
  refine ⟨?_, ?_, ?_⟩
  · obtain ⟨taken, start, written, complete, -⟩ :=
      forwardFrames_written dir faults aborted socket
    rw [arrives, Frame.decodeAll_flatMap small] at start complete
    refine ⟨taken, start, complete, ?_⟩
    rw [written, relay_sent_of_orderly orderly]
  · intro frame index missed
    rw [missed]
    rfl
  · intro others sameDirection
    apply forwardFrames_congr
    intro mtype seq
    rw [← selectFault_filter, sameDirection, selectFault_filter]

theorem forwardFrames_isolated_drop_second :
    ∃ socket : Socket, (forwardFrames .c2s [{ atSequence := 2 }] (fun _ => false) 0 socket
        {}).1.written.flatten =
      [(⟨1, [9]⟩ : Frame), ⟨3, [7]⟩].flatMap Frame.encode := by
  have small : ∀ frame ∈ [(⟨1, [9]⟩ : Frame), ⟨2, [8]⟩, ⟨3, [7]⟩],
      frame.payload.length < 2 ^ 32 := by decide
  have arrives : incoming [Arrival.data
      ([(⟨1, [9]⟩ : Frame), ⟨2, [8]⟩, ⟨3, [7]⟩].flatMap Frame.encode) (by decide)] =
      [(⟨1, [9]⟩ : Frame), ⟨2, [8]⟩, ⟨3, [7]⟩].flatMap Frame.encode := List.append_nil _
  obtain ⟨⟨taken, -, whole, written⟩, -, -⟩ := forwardFrames_isolated .c2s
    (by decide : ∀ fault ∈ [({ atSequence := 2 } : TransportFault)], fault.kind ≠ .reorder)
    small (fun _ => false) arrives
  refine ⟨_, written.trans ?_⟩
  rw [whole fun _ => rfl]
  decide

end Isolation

end ChaosLab
