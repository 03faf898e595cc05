import ChaosLab.TransportProperties
import Mathlib.Data.List.Perm.Basic

/-! Frames the interposer never writes: the last frame held back for reordering, and
everything that comes after a receive that timed out. -/

set_option autoImplicit false

namespace ChaosLab

open Foundation

section Reordering

variable {dir : Direction} {faults : List TransportFault}

/-- With no fault but reordering, the frames sent and the one still held back are the
frames received. Nothing takes a frame back out of the buffer for good. -/
theorem relay_of_reorders {index : Nat} (held : Option Frame) {frames : List Frame}
    (swaps : ∀ item ∈ frames.zipIdx (index + 1), ∀ fault,
      faultFor dir faults item.1.type item.2 = some fault → fault.kind = .reorder) :
    (relay dir faults index held frames).open? = true ∧
      ((relay dir faults index held frames).sent ++
        (relay dir faults index held frames).held.toList).Perm (held.toList ++ frames) ∧
      ((relay dir faults index held frames).held = none ↔
        held = none ∧ ∀ item ∈ frames.zipIdx (index + 1),
          faultFor dir faults item.1.type item.2 = none) := by
  induction frames generalizing index held with
  | nil => simp [relay]
  | cons frame frames ih =>
      rw [List.zipIdx_cons, List.forall_mem_cons] at swaps
      cases hit : faultFor dir faults frame.type (index + 1) with
      | none =>
          obtain ⟨opened, arranged, empty⟩ := ih held swaps.2
          simp only [relay, hit, passOn, List.zipIdx_cons, List.forall_mem_cons, true_and]
          refine ⟨opened, ?_, empty⟩
          exact (arranged.cons frame).trans List.perm_middle.symm
      | some fault =>
          have kind : fault.kind = .reorder := swaps.1 fault hit
          obtain ⟨opened, arranged, empty⟩ := ih (some frame) swaps.2
          simp only [relay, hit, passOn, kind, List.zipIdx_cons, List.forall_mem_cons,
            reduceCtorEq, false_and, and_false, iff_false] at empty ⊢
          refine ⟨opened, ?_, empty⟩
          rw [List.append_assoc]
          exact arranged.append_left held.toList

theorem length_payload_of_relay (dir : Direction) (faults : List TransportFault) (index : Nat)
    {frames : List Frame} (small : ∀ frame ∈ frames, frame.payload.length < 2 ^ 32) :
    ∀ frame ∈ (relay dir faults index none frames).sent, frame.payload.length < 2 ^ 32 := by
  intro frame member
  obtain ⟨original, known, stems⟩ := stemsFrom_of_relay frame member
  exact Nat.lt_of_le_of_lt stems.length_le (small original known)

/-- The frames received before the input is closed, or before the other direction
aborts, are all written exactly when no frame is held back. -/
theorem forwardFrames_reorder_iff (dir : Direction) (faults : List TransportFault)
    {frames : List Frame} (small : ∀ frame ∈ frames, frame.payload.length < 2 ^ 32)
    (swaps : ∀ item ∈ frames.zipIdx 1, ∀ fault,
      faultFor dir faults item.1.type item.2 = some fault → fault.kind = .reorder)
    (aborted : Nat → Bool) {socket later : Socket}
    (arrives : incoming socket = frames.flatMap Frame.encode)
    (ends : afterIncoming socket = .closed :: later) :
    ∃ received, received <+: frames ∧
      ((∀ turn, aborted turn = false) → received = frames) ∧
      (forwardFrames dir faults aborted 0 socket {}).2 = some true ∧
      ((Frame.decodeAll (forwardFrames dir faults aborted 0 socket {}).1.written.flatten).1.Perm
          received ↔
        ∀ item ∈ received.zipIdx 1, faultFor dir faults item.1.type item.2 = none) := by
  obtain ⟨taken, start, written, complete, returned⟩ :=
    forwardFrames_written dir faults aborted socket
  rw [arrives, Frame.decodeAll_flatMap small] at start complete
  have among : ∀ item ∈ taken.zipIdx 1, item ∈ frames.zipIdx 1 := by
    obtain ⟨rest, rfl⟩ := start
    rw [List.zipIdx_append]
    exact fun item member => List.mem_append_left _ member
  obtain ⟨opened, arranged, empty⟩ :=
    relay_of_reorders none (fun item member => swaps item (among item member))
  have sized := length_payload_of_relay dir faults 0
    (fun frame member => small frame (start.subset member))
  refine ⟨taken, start, complete, returned opened (by simp [ends]), ?_⟩
  rw [written, Frame.decodeAll_flatMap sized]
  simp only [true_and] at empty
  rw [← empty]
  constructor
  · intro same
    have count := arranged.length_eq
    rw [List.length_append, same.length_eq] at count
    exact Option.toList_eq_nil_iff.mp (List.eq_nil_of_length_eq_zero (by simpa using count))
  · intro nothing
    rw [nothing] at arranged
    simpa using arranged

theorem forwardFrames_reorder_iff_missed :
    ∃ socket : Socket, (Frame.decodeAll (forwardFrames .c2s [{ kind := .reorder, atSequence := 3 }]
        (fun _ => false) 0 socket {}).1.written.flatten).1.Perm
      [(⟨1, [5]⟩ : Frame), ⟨2, []⟩] := by
  have small : ∀ frame ∈ [(⟨1, [5]⟩ : Frame), ⟨2, []⟩], frame.payload.length < 2 ^ 32 := by
    decide
  have swaps : ∀ item ∈ [(⟨1, [5]⟩ : Frame), ⟨2, []⟩].zipIdx 1, ∀ fault,
      faultFor .c2s [{ kind := .reorder, atSequence := 3 }] item.1.type item.2 = some fault →
        fault.kind = .reorder := by
    intro item member fault hit
    have known := List.mem_of_find?_eq_some hit
    rw [List.mem_singleton.mp known]
  have arrives : incoming [Arrival.data
      ([(⟨1, [5]⟩ : Frame), ⟨2, []⟩].flatMap Frame.encode) (by decide), .closed] =
      [(⟨1, [5]⟩ : Frame), ⟨2, []⟩].flatMap Frame.encode := List.append_nil _
  obtain ⟨received, -, complete, -, written⟩ :=
    forwardFrames_reorder_iff .c2s _ small swaps (fun _ => false) arrives rfl
  obtain rfl := complete fun _ => rfl
  exact ⟨_, written.mpr (by decide)⟩

/-- One frame, held back and never written. -/
theorem reordered_frame_not_written :
    ∃ (faults : List TransportFault) (frames : List Frame) (socket later : Socket),
      (∀ fault ∈ faults, fault.kind = .reorder) ∧
      (∀ frame ∈ frames, frame.payload.length < 2 ^ 32) ∧
      incoming socket = frames.flatMap Frame.encode ∧ afterIncoming socket = .closed :: later ∧
      (forwardFrames .c2s faults (fun _ => false) 0 socket {}).2 = some true ∧
      ¬ (Frame.decodeAll (forwardFrames .c2s faults (fun _ => false) 0 socket
          {}).1.written.flatten).1.Perm frames := by
  have small : ∀ frame ∈ [(⟨1, [5]⟩ : Frame)], frame.payload.length < 2 ^ 32 := by decide
  have arrives : incoming [Arrival.data ([(⟨1, [5]⟩ : Frame)].flatMap Frame.encode) (by decide),
      .closed] = [(⟨1, [5]⟩ : Frame)].flatMap Frame.encode := List.append_nil _
  obtain ⟨taken, -, written, complete, returned⟩ := forwardFrames_written .c2s
    [{ kind := .reorder }] (fun _ => false) [Arrival.data
      ([(⟨1, [5]⟩ : Frame)].flatMap Frame.encode) (by decide), .closed]
  rw [arrives, Frame.decodeAll_flatMap small] at complete
  obtain rfl := complete fun _ => rfl
  refine ⟨[{ kind := .reorder }], [⟨1, [5]⟩], _, [], by decide, small, arrives, rfl,
    returned (by decide) (fun same => nomatch same), ?_⟩
  have nothing : (relay .c2s [{ kind := .reorder }] 0 none [⟨1, [5]⟩]).sent = [] := by decide
  rw [written, nothing, Frame.decodeAll_flatMap (by decide)]
  intro same
  exact absurd same.length_eq (by decide)

end Reordering

section Timeouts

variable {dir : Direction} {faults : List TransportFault}

/-- Nothing is written for a numbered frame: the connection has been given up, or the
frame is dropped, or it is the first one to be held back. -/
def Unwritten (dir : Direction) (faults : List TransportFault) (held : Option Frame)
    (numbered : List (Frame × Nat)) (item : Frame × Nat) : Prop :=
  (∃ earlier ∈ numbered, earlier.2 ≤ item.2 ∧
      closes (faultFor dir faults earlier.1.type earlier.2) = true) ∨
    (∃ fault, faultFor dir faults item.1.type item.2 = some fault ∧ fault.kind = .drop) ∨
    reorders (faultFor dir faults item.1.type item.2) = true ∧ held = none ∧
      ∀ earlier ∈ numbered, earlier.2 < item.2 →
        reorders (faultFor dir faults earlier.1.type earlier.2) = false

theorem transformed_eq_nil_iff {applied : Option TransportFault} {frame : Frame}
    (passes : closes applied = false) (direct : reorders applied = false) :
    transformed applied frame = [] ↔ ∃ fault, applied = some fault ∧ fault.kind = .drop := by
  cases applied with
  | none => simp [transformed]
  | some fault =>
      cases kind : fault.kind <;> simp_all [transformed, closes, reorders]

theorem unwritten_head_iff {held next : Option Frame} {frame : Frame} {frames : List Frame}
    {index : Nat} {sent : List Frame}
    (passed : passOn (faultFor dir faults frame.type (index + 1)) held frame = some (next, sent)) :
    Unwritten dir faults held ((frame :: frames).zipIdx (index + 1)) (frame, index + 1) ↔
      sent = [] := by
  have later (item : Frame × Nat) (member : item ∈ frames.zipIdx (index + 1 + 1)) :
      index + 1 < item.2 := (List.mem_zipIdx member).1
  have unclosed : (∃ earlier ∈ frames.zipIdx (index + 1 + 1), earlier.2 ≤ index + 1 ∧
      closes (faultFor dir faults earlier.1.type earlier.2) = true) ↔ False := by
    refine iff_false_intro ?_
    rintro ⟨earlier, member, early, -⟩
    exact absurd (later earlier member) (Nat.not_lt_of_le early)
  have untouched : (∀ earlier ∈ frames.zipIdx (index + 1 + 1), earlier.2 < index + 1 →
      reorders (faultFor dir faults earlier.1.type earlier.2) = false) ↔ True := by
    refine iff_true_intro fun earlier member early => ?_
    exact absurd (later earlier member) (Nat.not_lt_of_lt early)
  obtain ⟨passes, ⟨holds, rfl, rfl⟩ | ⟨direct, rfl, rfl⟩⟩ := passOn_eq_some passed
  · have undropped : ¬ ∃ fault, faultFor dir faults frame.type (index + 1) = some fault ∧
        fault.kind = .drop := by
      rintro ⟨fault, hit, kind⟩
      simp [hit, reorders, kind] at holds
    simp only [Unwritten, List.zipIdx_cons, List.exists_mem_cons_iff, List.forall_mem_cons,
      unclosed, untouched, undropped, passes, holds]
    simp
  · rw [transformed_eq_nil_iff passes direct]
    simp [Unwritten, List.zipIdx_cons, passes, direct, unclosed]

theorem unwritten_tail_iff {held next : Option Frame} {frame : Frame} {frames : List Frame}
    {index : Nat} {sent : List Frame}
    (passed : passOn (faultFor dir faults frame.type (index + 1)) held frame = some (next, sent))
    {item : Frame × Nat} (member : item ∈ frames.zipIdx (index + 1 + 1)) :
    Unwritten dir faults held ((frame :: frames).zipIdx (index + 1)) item ↔
      Unwritten dir faults next (frames.zipIdx (index + 1 + 1)) item := by
  have later : index + 1 < item.2 := by
    have bound := (List.mem_zipIdx member).1
    omega
  obtain ⟨passes, ⟨holds, rfl, rfl⟩ | ⟨direct, rfl, rfl⟩⟩ := passOn_eq_some passed
  · simp [Unwritten, List.zipIdx_cons, passes, holds, later]
  · simp [Unwritten, List.zipIdx_cons, passes, direct, later]

theorem unwritten_of_closed {held : Option Frame} {frame : Frame} {frames : List Frame}
    {index : Nat} (passed : passOn (faultFor dir faults frame.type (index + 1)) held frame = none)
    {item : Frame × Nat} (member : item ∈ (frame :: frames).zipIdx (index + 1)) :
    Unwritten dir faults held ((frame :: frames).zipIdx (index + 1)) item :=
  .inl ⟨(frame, index + 1), by simp [List.zipIdx_cons], (List.mem_zipIdx member).1,
    passOn_eq_none_iff.mp passed⟩

/-- Nothing is written exactly when that holds for every frame. -/
theorem relay_sent_eq_nil_iff (dir : Direction) (faults : List TransportFault) (index : Nat)
    (held : Option Frame) (frames : List Frame) :
    (relay dir faults index held frames).sent = [] ↔
      ∀ item ∈ frames.zipIdx (index + 1),
        Unwritten dir faults held (frames.zipIdx (index + 1)) item := by
  induction frames generalizing index held with
  | nil => simp [relay]
  | cons frame frames ih =>
      cases passed : passOn (faultFor dir faults frame.type (index + 1)) held frame with
      | none =>
          rw [relay_of_closed passed]
          exact iff_of_true rfl fun item member => unwritten_of_closed passed member
      | some result =>
          obtain ⟨next, sent⟩ := result
          rw [relay_of_passed passed, List.append_eq_nil_iff, ih, ← unwritten_head_iff passed,
            List.zipIdx_cons, List.forall_mem_cons, ← List.zipIdx_cons]
          exact and_congr_right' (forall₂_congr fun item member =>
            (unwritten_tail_iff passed member).symm)

/-- Reading only the first `count` frames loses nothing exactly when nothing is written
for the others. -/
theorem relay_sent_take_iff (dir : Direction) (faults : List TransportFault) (index : Nat)
    (held : Option Frame) (frames : List Frame) (count : Nat) :
    (relay dir faults index held (frames.take count)).sent =
        (relay dir faults index held frames).sent ↔
      ∀ item ∈ frames.zipIdx (index + 1), index + count < item.2 →
        Unwritten dir faults held (frames.zipIdx (index + 1)) item := by
  induction frames generalizing index held count with
  | nil => simp
  | cons frame frames ih =>
      cases count with
      | zero =>
          rw [List.take_zero, eq_comm]
          refine (relay_sent_eq_nil_iff dir faults index held _).trans ?_
          refine forall₂_congr fun item member => ?_
          have beyond : index + 0 < item.2 := (List.mem_zipIdx member).1
          exact (imp_iff_right beyond).symm
      | succ count =>
          rw [List.take_succ_cons]
          cases passed : passOn (faultFor dir faults frame.type (index + 1)) held frame with
          | none =>
              rw [relay_of_closed passed, relay_of_closed passed]
              exact iff_of_true rfl fun item member _ => unwritten_of_closed passed member
          | some result =>
              obtain ⟨next, sent⟩ := result
              rw [relay_of_passed passed, relay_of_passed passed, List.append_cancel_left_eq, ih,
                List.zipIdx_cons, List.forall_mem_cons, ← List.zipIdx_cons,
                Nat.add_right_comm index 1 count, ← Nat.add_assoc]
              have within : ¬ index + count + 1 < index + 1 := by omega
              refine Iff.trans (forall₂_congr fun item member => ?_)
                (and_iff_right fun beyond => absurd beyond within).symm
              rw [unwritten_tail_iff passed member]

/-- A receive that times out ends the loop, so it is not noticed exactly when nothing is
written for the frames that are not whole before the first one. -/
theorem forwardFrames_timeouts_iff (dir : Direction) (faults : List TransportFault)
    {frames : List Frame} (small : ∀ frame ∈ frames, frame.payload.length < 2 ^ 32)
    {aborted : Nat → Bool} (quiet : ∀ turn, aborted turn = false) {plain socket : Socket}
    (arrives : incoming plain = frames.flatMap Frame.encode)
    (inserted : incoming (uninterrupted socket) = incoming plain) :
    (forwardFrames dir faults aborted 0 socket {}).1.written.flatten =
        (forwardFrames dir faults aborted 0 plain {}).1.written.flatten ↔
      ∀ item ∈ frames.zipIdx 1,
        (wholeWithin Frame.encode frames (incoming socket).length).length < item.2 →
          Unwritten dir faults none (frames.zipIdx 1) item := by
  have cut : incoming socket <+: frames.flatMap Frame.encode := by
    rw [← arrives, ← inserted]
    exact incoming_prefix_uninterrupted socket
  obtain ⟨taken, -, written, complete, -⟩ := forwardFrames_written dir faults aborted socket
  obtain ⟨all, -, intended, entire, -⟩ := forwardFrames_written dir faults aborted plain
  have received := complete quiet
  rw [(Frame.decodeAll_of_cut small cut).1, wholeWithin_eq_take] at received
  have sought := entire quiet
  rw [arrives, Frame.decodeAll_flatMap small] at sought
  have start := relay_sent_take_prefix dir faults 0 none frames
    (wholeWithin Frame.encode frames (incoming socket).length).length
  rw [written, intended, received, sought,
    flatMap_eq_iff_of_prefix Frame.encode_ne_nil start, relay_sent_take_iff, Nat.zero_add,
    Nat.zero_add]

theorem forwardFrames_timeouts_iff_before_dropped :
    ∃ plain socket : Socket, incoming (uninterrupted socket) = incoming plain ∧
      .failure ∈ socket ∧
      (forwardFrames .c2s [{ atSequence := 2 }] (fun _ => false) 0 socket {}).1.written.flatten =
        (forwardFrames .c2s [{ atSequence := 2 }] (fun _ => false) 0 plain
          {}).1.written.flatten := by
  have small : ∀ frame ∈ [(⟨1, []⟩ : Frame), ⟨2, [8]⟩], frame.payload.length < 2 ^ 32 := by
    decide
  have arrives : incoming [Arrival.data
      ([(⟨1, []⟩ : Frame), ⟨2, [8]⟩].flatMap Frame.encode) (by decide)] =
      [(⟨1, []⟩ : Frame), ⟨2, [8]⟩].flatMap Frame.encode := List.append_nil _
  have inserted : incoming (uninterrupted [.data (Frame.encode ⟨1, []⟩) (by decide), .failure,
      .data (Frame.encode ⟨2, [8]⟩) (by decide)]) = incoming [Arrival.data
      ([(⟨1, []⟩ : Frame), ⟨2, [8]⟩].flatMap Frame.encode) (by decide)] := by decide
  refine ⟨_, _, inserted, by decide, (forwardFrames_timeouts_iff .c2s [{ atSequence := 2 }] small
    (fun _ => rfl) arrives inserted).mpr ?_⟩
  intro item member beyond
  obtain rfl | rfl : item = (⟨1, []⟩, 1) ∨ item = (⟨2, [8]⟩, 2) := by simpa using member
  · exact absurd beyond (by decide)
  · exact .inr (.inl ⟨{ atSequence := 2 }, by decide, rfl⟩)

/-- No fault is set, and the receive times out before the only frame. -/
theorem frame_lost_after_timeout :
    ∃ socket : Socket, incoming (uninterrupted socket) = Frame.encode ⟨1, []⟩ ∧
      afterIncoming (uninterrupted socket) = [] ∧
      (forwardFrames .c2s [] (fun _ => false) 0 socket {}).1.written.flatten ≠
        (forwardFrames .c2s [] (fun _ => false) 0 (uninterrupted socket)
          {}).1.written.flatten := by
  have encoded : incoming [Arrival.data (Frame.encode ⟨1, []⟩) (by decide)] =
      [(⟨1, []⟩ : Frame)].flatMap Frame.encode := rfl
  obtain ⟨taken, start, written, -⟩ := forwardFrames_written .c2s [] (fun _ => false)
    [.failure, .data (Frame.encode ⟨1, []⟩) (by decide)]
  obtain ⟨all, -, intended, entire, -⟩ := forwardFrames_written .c2s [] (fun _ => false)
    [.data (Frame.encode ⟨1, []⟩) (by decide)]
  refine ⟨[.failure, .data (Frame.encode ⟨1, []⟩) (by decide)], rfl, rfl, ?_⟩
  rw [incoming, Frame.decodeAll_of_refused (Frame.decode_of_decodeHeader_none rfl {}),
    List.prefix_nil] at start
  rw [encoded, Frame.decodeAll_flatMap (by decide)] at entire
  rw [uninterrupted, written, start]
  obtain rfl := entire fun _ => rfl
  exact fun same => absurd (same.trans intended) (by decide)

end Timeouts

end ChaosLab
