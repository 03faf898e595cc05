import ChaosLab.FrameProperties
import ChaosLab.Transport

/-! What one direction of the interposer does with frames, apart from how it reads them
and in what bytes it keeps them, and that `forward_frames` does this. -/

set_option autoImplicit false

namespace ChaosLab

open Foundation

/-- The fault is for frame number `index` of the direction, counted from one. The code
counts frames with 64 bits. -/
def TransportFault.Hits (fault : TransportFault) (dir : Direction) (type : UInt32)
    (index : Nat) : Prop :=
  fault.direction = dir ∧ (fault.messageType = 0 ∨ fault.messageType = type) ∧
    (fault.atSequence = 0 ∨ fault.atSequence.toNat = index % 2 ^ 64)

instance (fault : TransportFault) (dir : Direction) (type : UInt32) (index : Nat) :
    Decidable (fault.Hits dir type index) :=
  inferInstanceAs (Decidable (_ ∧ _))

/-- The first fault of the list that is for the frame. -/
def faultFor (dir : Direction) (faults : List TransportFault) (type : UInt32) (index : Nat) :
    Option TransportFault :=
  faults.find? fun fault => fault.Hits dir type index

def truncatePayload (offset : Int32) (payload : Bytes) : Bytes :=
  payload.take ((offset.toInt % 2 ^ 64).toNat - Frame.header)

def corruptPayload (offset : Int32) (payload : Bytes) : Bytes :=
  if Int32.ofNat Frame.header ≤ offset ∧
      offset < Int32.ofNat (Frame.header + payload.length) then
    payload.modify (offset.toInt.toNat - Frame.header) (· ^^^ 0xa5)
  else payload

/-- What becomes of a frame and of the frame held back: the frame held back then, and
the frames sent; `none` when the connection is given up. -/
def passOn (applied : Option TransportFault) (held : Option Frame) (frame : Frame) :
    Option (Option Frame × List Frame) :=
  match applied with
  | none => some (held, [frame])
  | some fault =>
      match fault.kind with
      | .drop => some (held, [])
      | .duplicate => some (held, [frame, frame])
      | .truncate =>
          some (held, [{ frame with payload := truncatePayload fault.offset frame.payload }])
      | .corrupt =>
          some (held, [{ frame with payload := corruptPayload fault.offset frame.payload }])
      | .reorder => some (some frame, held.toList)
      | .delay => some (held, [frame])
      | .halfClose => none
      | .close => none

def closes : Option TransportFault → Bool
  | none => false
  | some fault => fault.kind == .close || fault.kind == .halfClose

def reorders : Option TransportFault → Bool
  | none => false
  | some fault => fault.kind == .reorder

/-- What is sent at once for a frame that is neither held back nor the last one. -/
def transformed (applied : Option TransportFault) (frame : Frame) : List Frame :=
  match applied with
  | none => [frame]
  | some fault =>
      match fault.kind with
      | .duplicate => [frame, frame]
      | .truncate => [{ frame with payload := truncatePayload fault.offset frame.payload }]
      | .corrupt => [{ frame with payload := corruptPayload fault.offset frame.payload }]
      | .delay => [frame]
      | .drop | .reorder | .halfClose | .close => []

theorem passOn_eq (applied : Option TransportFault) (held : Option Frame) (frame : Frame) :
    passOn applied held frame =
      if closes applied then none
      else if reorders applied then some (some frame, held.toList)
      else some (held, transformed applied frame) := by
  cases applied with
  | none => rfl
  | some fault => cases kind : fault.kind <;> simp [passOn, closes, reorders, transformed, kind]

theorem passOn_eq_none_iff {applied : Option TransportFault} {held : Option Frame}
    {frame : Frame} : passOn applied held frame = none ↔ closes applied = true := by
  rw [passOn_eq]
  cases closes applied <;> cases reorders applied <;> simp

/-- A frame that is passed on is held back, or it is sent on as its fault has it and
leaves the frame held back alone. -/
theorem passOn_eq_some {applied : Option TransportFault} {held next : Option Frame}
    {frame : Frame} {sent : List Frame} (passed : passOn applied held frame = some (next, sent)) :
    closes applied = false ∧
      (reorders applied = true ∧ next = some frame ∧ sent = held.toList ∨
        reorders applied = false ∧ next = held ∧ sent = transformed applied frame) := by
  rw [passOn_eq] at passed
  cases closing : closes applied with
  | true => simp [closing] at passed
  | false =>
      cases holding : reorders applied with
      | true =>
          simp only [closing, holding, Bool.false_eq_true, if_false, if_true, Option.some.injEq,
            Prod.mk.injEq] at passed
          exact ⟨rfl, .inl ⟨rfl, passed.1.symm, passed.2.symm⟩⟩
      | false =>
          simp only [closing, holding, Bool.false_eq_true, if_false, Option.some.injEq,
            Prod.mk.injEq] at passed
          exact ⟨rfl, .inr ⟨rfl, passed.1.symm, passed.2.symm⟩⟩

structure Relayed where
  held : Option Frame
  sent : List Frame
  open? : Bool
deriving DecidableEq

/-- The frames of a direction from number `index + 1` on, passed on one by one. -/
def relay (dir : Direction) (faults : List TransportFault) :
    Nat → Option Frame → List Frame → Relayed
  | _, held, [] => ⟨held, [], true⟩
  | index, held, frame :: frames =>
      match passOn (faultFor dir faults frame.type (index + 1)) held frame with
      | none => ⟨held, [], false⟩
      | some (held, sent) =>
          let rest := relay dir faults (index + 1) held frames
          { rest with sent := sent ++ rest.sent }

section Relay

variable {dir : Direction} {faults : List TransportFault} {index : Nat}
  {held next : Option Frame} {frame : Frame} {sent : List Frame}

theorem relay_of_closed
    (passed : passOn (faultFor dir faults frame.type (index + 1)) held frame = none)
    (frames : List Frame) : relay dir faults index held (frame :: frames) = ⟨held, [], false⟩ := by
  rw [relay, passed]

theorem relay_of_passed
    (passed : passOn (faultFor dir faults frame.type (index + 1)) held frame = some (next, sent))
    (frames : List Frame) :
    relay dir faults index held (frame :: frames) =
      { relay dir faults (index + 1) next frames with
        sent := sent ++ (relay dir faults (index + 1) next frames).sent } := by
  rw [relay, passed]

theorem relay_sent_take_prefix (dir : Direction) (faults : List TransportFault) (index : Nat)
    (held : Option Frame) (frames : List Frame) (count : Nat) :
    (relay dir faults index held (frames.take count)).sent <+:
      (relay dir faults index held frames).sent := by
  induction frames generalizing index held count with
  | nil => rw [List.take_nil]
  | cons frame frames ih =>
      cases count with
      | zero => exact List.nil_prefix
      | succ count =>
          rw [List.take_succ_cons]
          cases passed : passOn (faultFor dir faults frame.type (index + 1)) held frame with
          | none => rw [relay_of_closed passed, relay_of_closed passed]
          | some result =>
              obtain ⟨next, sent⟩ := result
              rw [relay_of_passed passed, relay_of_passed passed]
              exact (List.prefix_append_right_inj sent).mpr (ih (index + 1) next count)

end Relay

section Selection

theorem eq_ofNat_iff {sequence : UInt64} {index : Nat} :
    sequence = UInt64.ofNat index ↔ sequence.toNat = index % 2 ^ 64 := by
  rw [← UInt64.toNat_inj, UInt64.toNat_ofNat']

theorem selectFault_eq_faultFor (dir : Direction) (mtype : UInt32) (index : Nat)
    (faults : List TransportFault) :
    selectFault dir mtype (UInt64.ofNat index) faults = faultFor dir faults mtype index := by
  induction faults with
  | nil => rfl
  | cons fault faults ih =>
      rw [faultFor, List.find?_cons, ← faultFor]
      simp only [selectFault, ih, TransportFault.Hits, ← eq_ofNat_iff]
      by_cases elsewhere : fault.direction ≠ dir
      · simp [elsewhere]
      · by_cases otherType : fault.messageType ≠ 0 ∧ fault.messageType ≠ mtype
        · simp [elsewhere, otherType]
        · by_cases otherFrame : fault.atSequence ≠ 0 ∧ fault.atSequence ≠ UInt64.ofNat index
          · simp [elsewhere, otherType, otherFrame]
          · have found : fault.direction = dir ∧
                (fault.messageType = 0 ∨ fault.messageType = mtype) ∧
                (fault.atSequence = 0 ∨ fault.atSequence = UInt64.ofNat index) := by
              tauto
            simp [otherType, otherFrame, found]

end Selection

section Bytes

theorem Frame.encode_ne_nil (frame : Frame) : frame.encode ≠ [] := by
  intro empty
  have length := Frame.length_encode frame
  rw [empty, List.length_nil, Frame.header] at length
  omega

/-- The size a frame is cut to, for any offset. -/
def cutSize (offset : Int32) (size : Nat) : Nat :=
  let cut := (offset.toInt % 2 ^ 64).toNat
  let cut := if cut < Frame.header then Frame.header else cut
  if size < cut then size else cut

theorem cutSize_eq (offset : Int32) (payload : Bytes) :
    cutSize offset (Frame.header + payload.length) =
      Frame.header + (truncatePayload offset payload).length := by
  rw [truncatePayload, List.length_take, cutSize]
  generalize (offset.toInt % 2 ^ 64).toNat = cut
  by_cases below : cut < Frame.header
  · simp only [if_pos below]
    split <;> omega
  · simp only [if_neg below]
    split <;> omega

theorem truncateFrame_encode (offset : Int32) (frame : Frame) :
    truncateFrame offset frame.encode =
      { frame with payload := truncatePayload offset frame.payload }.encode := by
  have rewritten : truncateFrame offset frame.encode =
      (Frame.headerBytes frame.type
          (UInt32.ofNat (cutSize offset frame.encode.length - Frame.header)) ++
        frame.payload).take (cutSize offset frame.encode.length) := rfl
  have kept : frame.payload.take (truncatePayload offset frame.payload).length =
      truncatePayload offset frame.payload := by
    rw [truncatePayload, List.length_take, List.take_eq_take_iff]
    omega
  rw [rewritten, Frame.length_encode, cutSize_eq, Nat.add_sub_cancel_left,
    ← Frame.length_headerBytes frame.type
      (UInt32.ofNat (truncatePayload offset frame.payload).length),
    List.take_length_add_append, kept]
  rfl

theorem corruptFrame_encode (offset : Int32) (frame : Frame) :
    corruptFrame offset frame.encode =
      { frame with payload := corruptPayload offset frame.payload }.encode := by
  rw [corruptFrame, corruptPayload, Frame.length_encode]
  by_cases inside : Int32.ofNat Frame.header ≤ offset ∧
      offset < Int32.ofNat (Frame.header + frame.payload.length)
  · have beyond : Frame.header ≤ offset.toInt.toNat := by
      have bound := Int32.le_iff_toInt_le.mp inside.1
      change (12 : Int) ≤ offset.toInt at bound
      unfold Frame.header
      omega
    obtain ⟨index, position⟩ := Nat.exists_eq_add_of_le beyond
    rw [if_pos inside, if_pos inside, Frame.encode_eq, Frame.encode_eq, List.length_modify,
      position, Nat.add_sub_cancel_left]
    exact List.modifyTailIdx_add _ index (Frame.headerBytes _ _) frame.payload
  · rw [if_neg inside, if_neg inside]

end Bytes

section Delivery

/-- What the buffers of the loop hold, as frames. -/
structure Forwarder.Shows (state : Forwarder) (held : Option Frame) (sent : List Frame) : Prop where
  pending : state.pending = held.elim [] Frame.encode
  written : state.written = sent.map Frame.encode

variable {state : Forwarder} {held : Option Frame} {sent : List Frame}

theorem Forwarder.Shows.forward (shows : state.Shows held sent) (frame : Frame) (count : Nat) :
    (state.forward frame.encode count).Shows held (sent ++ List.replicate count frame) where
  pending := shows.pending
  written := by
    simp [Forwarder.forward, shows.written]

/-- The `switch` does with the buffers what `passOn` does with the frames. -/
theorem Forwarder.Shows.applyFault (shows : state.Shows held sent) (fault : TransportFault)
    (frame : Frame) :
    ∃ after,
      match passOn (some fault) held frame with
      | none => state.applyFault fault frame.encode = (after, false) ∧ after.Shows held sent
      | some (next, more) => state.applyFault fault frame.encode = (after, true) ∧
          after.Shows next (sent ++ more) ∧ after.seq = state.seq := by
  have counted (stats : TransportStats) : ({ state with stats := stats }).Shows held sent :=
    ⟨shows.pending, shows.written⟩
  unfold Forwarder.applyFault
  cases kind : fault.kind with
  | drop =>
      simp only [passOn, kind, List.append_nil]
      exact ⟨_, rfl, counted _, rfl⟩
  | duplicate =>
      simp only [passOn, kind]
      exact ⟨_, rfl, (counted _).forward frame 2, rfl⟩
  | truncate =>
      simp only [passOn, kind, truncateFrame_encode]
      exact ⟨_, rfl, (counted _).forward _ 1, rfl⟩
  | corrupt =>
      simp only [passOn, kind, corruptFrame_encode]
      exact ⟨_, rfl, (counted _).forward _ 1, rfl⟩
  | reorder =>
      simp only [passOn, kind]
      cases held with
      | none =>
          have empty : state.pending = [] := shows.pending
          simp only [empty, ne_eq, not_true_eq_false, if_false]
          refine ⟨_, rfl, ⟨rfl, ?_⟩, rfl⟩
          simp [shows.written]
      | some earlier =>
          have waiting : state.pending = earlier.encode := shows.pending
          simp only [waiting, ne_eq, Frame.encode_ne_nil, not_false_eq_true, if_true]
          refine ⟨_, rfl, ⟨rfl, ?_⟩, rfl⟩
          simp [Forwarder.forward, shows.written]
  | delay =>
      simp only [passOn, kind]
      exact ⟨_, rfl, (counted _).forward frame 1, rfl⟩
  | halfClose =>
      simp only [passOn, kind]
      exact ⟨_, rfl, counted _⟩
  | close =>
      simp only [passOn, kind]
      exact ⟨_, rfl, counted _⟩

variable {dir : Direction} {faults : List TransportFault} {index : Nat} {frame : Frame}

theorem Forwarder.Shows.deliver_closes (shows : state.Shows held sent)
    (numbered : state.seq = UInt64.ofNat index)
    (closes : passOn (faultFor dir faults frame.type (index + 1)) held frame = none) :
    ∃ after, state.deliver dir faults frame.type frame.encode = (after, false) ∧
      after.Shows held sent := by
  have next : state.seq + 1 = UInt64.ofNat (index + 1) := by
    rw [numbered, UInt64.ofNat_add]
    rfl
  rw [Forwarder.deliver]
  simp only [next, selectFault_eq_faultFor]
  cases hit : faultFor dir faults frame.type (index + 1) with
  | none => simp [hit, passOn] at closes
  | some fault =>
      rw [hit] at closes
      have counted : ({ state with seq := UInt64.ofNat (index + 1) }).Shows held sent :=
        ⟨shows.pending, shows.written⟩
      obtain ⟨after, delivered⟩ := counted.applyFault fault frame
      rw [closes] at delivered
      exact ⟨after, delivered⟩

theorem Forwarder.Shows.deliver_passes (shows : state.Shows held sent)
    (numbered : state.seq = UInt64.ofNat index) {next : Option Frame} {more : List Frame}
    (passes : passOn (faultFor dir faults frame.type (index + 1)) held frame =
      some (next, more)) :
    ∃ after, state.deliver dir faults frame.type frame.encode = (after, true) ∧
      after.Shows next (sent ++ more) ∧ after.seq = UInt64.ofNat (index + 1) := by
  have advanced : state.seq + 1 = UInt64.ofNat (index + 1) := by
    rw [numbered, UInt64.ofNat_add]
    rfl
  have counted : ({ state with seq := UInt64.ofNat (index + 1) }).Shows held sent :=
    ⟨shows.pending, shows.written⟩
  rw [Forwarder.deliver]
  simp only [advanced, selectFault_eq_faultFor]
  cases hit : faultFor dir faults frame.type (index + 1) with
  | none =>
      simp only [hit, passOn, Option.some.injEq, Prod.mk.injEq] at passes
      obtain ⟨rfl, rfl⟩ := passes
      exact ⟨_, rfl, counted.forward frame 1, rfl⟩
  | some fault =>
      rw [hit] at passes
      obtain ⟨after, delivered⟩ := counted.applyFault fault frame
      rw [passes] at delivered
      exact ⟨after, delivered⟩

end Delivery

section Reading

theorem readFrame_of_frame {socket : Socket} {frame : Frame} {rest : Bytes}
    (small : frame.payload.length < 2 ^ 32) (arrives : incoming socket = frame.encode ++ rest) :
    ∃ later, readFrame socket = .frame frame.type frame.encode later ∧
      incoming later = rest ∧ afterIncoming later = afterIncoming socket := by
  have exact : (UInt32.ofNat frame.payload.length).toNat = frame.payload.length :=
    UInt32.toNat_ofNat_of_lt' small
  rw [Frame.encode_eq, List.append_assoc] at arrives
  obtain ⟨middle, headed, left, after⟩ := Frame.gather_header arrives
  obtain ⟨later, gathered, remaining, same⟩ := gather_nil_append left
  refine ⟨later, ?_, remaining, same.trans after⟩
  simp only [readFrame, readExact, headed, Frame.decodeHeader_headerBytes_self, exact, gathered]
  rfl

/-- How a read ends that does not find a whole frame. -/
def unread (left : Bytes) (after : Socket) : FrameRead :=
  if Frame.header ≤ left.length ∧ Frame.decodeHeader left = none then .aborts
  else
    match (interruption after : Gathered UInt8) with
    | .waiting => .waiting
    | _ => .aborts

theorem readFrame_of_refused {socket : Socket} {left : Frame} {consumed : Nat}
    (refused : Frame.decode (incoming socket) {} = (false, left, consumed)) :
    readFrame socket = unread (incoming socket) (afterIncoming socket) := by
  by_cases enough : Frame.header ≤ (incoming socket).length
  · cases read : Frame.decodeHeader (incoming socket) with
    | none =>
        obtain ⟨later, headed, -⟩ := gather_nil_of_le enough
        rw [unread, if_pos ⟨enough, read⟩]
        simp only [readFrame, readExact, headed, Frame.decodeHeader_take, read]
    | some fields =>
        obtain ⟨type, len⟩ := fields
        rw [unread, if_neg (by simp [read])]
        obtain ⟨rest, arrives⟩ := Frame.eq_headerBytes_of_decodeHeader read
        obtain ⟨middle, headed, remaining, after⟩ := Frame.gather_header arrives
        have lacking : (incoming middle).length < len.toNat := by
          rw [Frame.decode_of_decodeHeader read] at refused
          by_cases short : (incoming socket).length < Frame.header + len.toNat
          · rw [arrives, List.length_append, Frame.length_headerBytes] at short
            rw [remaining]
            omega
          · rw [if_neg short] at refused
            cases refused
        obtain ⟨later, gathered⟩ := gather_nil_of_lt lacking
        rw [after] at gathered
        simp only [readFrame, readExact, headed, Frame.decodeHeader_headerBytes_self, gathered]
        rcases interruption_cases (afterIncoming socket) with stopped | stopped | stopped
        all_goals simp only [stopped]
  · obtain ⟨later, gathered⟩ := gather_nil_of_lt (Nat.lt_of_not_le enough)
    rw [unread, if_neg (by simp [enough])]
    simp only [readFrame, readExact, gathered]
    rcases interruption_cases (afterIncoming socket) with stopped | stopped | stopped
    all_goals simp only [stopped]

end Reading

section Loop

variable {dir : Direction} {faults : List TransportFault} {aborted : Nat → Bool} {turn : Nat}
  {socket : Socket} {state : Forwarder}

theorem forwardFrames_of_aborted (raised : aborted turn = true) :
    forwardFrames dir faults aborted turn socket state = (state, some true) := by
  rw [forwardFrames, if_pos raised]

def FrameRead.exit : FrameRead → Option Bool
  | .waiting => none
  | _ => some true

theorem forwardFrames_of_stopped (lowered : aborted turn = false)
    (stopped : ∀ mtype bytes rest, readFrame socket ≠ .frame mtype bytes rest) :
    forwardFrames dir faults aborted turn socket state = (state, (readFrame socket).exit) := by
  rw [forwardFrames, lowered, if_neg (by decide)]
  split
  · rename_i read
    rw [read]
    rfl
  · rename_i read
    rw [read]
    rfl
  · rename_i read
    exact absurd read (stopped _ _ _)

theorem unread_ne_frame (left : Bytes) (after : Socket) (mtype : UInt32) (bytes : Bytes)
    (rest : Socket) : unread left after ≠ .frame mtype bytes rest := by
  unfold unread
  split
  · exact fun same => nomatch same
  · split
    · exact fun same => nomatch same
    · exact fun same => nomatch same

theorem forwardFrames_of_frame (lowered : aborted turn = false) {mtype : UInt32} {bytes : Bytes}
    {later : Socket} (read : readFrame socket = .frame mtype bytes later) :
    forwardFrames dir faults aborted turn socket state =
      match state.deliver dir faults mtype bytes with
      | (state, false) => (state, some false)
      | (state, true) => forwardFrames dir faults aborted (turn + 1) later state := by
  rw [forwardFrames, lowered, if_neg (by decide)]
  split
  · rename_i again
    rw [read] at again
    cases again
  · rename_i again
    rw [read] at again
    cases again
  · rename_i again
    rw [read, FrameRead.frame.injEq] at again
    obtain ⟨rfl, rfl, rfl⟩ := again
    rfl

/-- The loop passes on the frames it reads, all of them unless the other direction
aborts. -/
theorem forwardFrames_relays (dir : Direction) (faults : List TransportFault)
    (aborted : Nat → Bool) (socket : Socket) {held : Option Frame} {sent : List Frame}
    (shows : state.Shows held sent) (numbered : state.seq = UInt64.ofNat turn) :
    ∃ taken, taken <+: (Frame.decodeAll (incoming socket)).1 ∧
      (forwardFrames dir faults aborted turn socket state).1.Shows
        (relay dir faults turn held taken).held (sent ++ (relay dir faults turn held taken).sent) ∧
      (taken = (Frame.decodeAll (incoming socket)).1 ∧
          (forwardFrames dir faults aborted turn socket state).2 =
            (if (relay dir faults turn held taken).open? then
              (unread (Frame.decodeAll (incoming socket)).2 (afterIncoming socket)).exit
            else some false) ∨
        (∃ later, aborted later = true) ∧
          (forwardFrames dir faults aborted turn socket state).2 = some true) := by
  -- by induction on the bytes still to come, which every frame read makes fewer
  induction size : (incoming socket).length using Nat.strong_induction_on
    generalizing socket state held sent turn with
  | _ size ih =>
      subst size
      by_cases raised : aborted turn = true
      · rw [forwardFrames_of_aborted raised]
        refine ⟨[], List.nil_prefix, ?_, .inr ⟨⟨turn, raised⟩, rfl⟩⟩
        simpa [relay] using shows
      · rw [Bool.not_eq_true] at raised
        rcases Frame.decodeAll_cases (incoming socket) with
          ⟨left, consumed, refused, decoded⟩ | ⟨first, tail, arrives, small, decoded⟩
        · have read := readFrame_of_refused refused
          rw [decoded, forwardFrames_of_stopped raised (read ▸ unread_ne_frame _ _), read]
          refine ⟨[], List.prefix_refl _, ?_, .inl ⟨rfl, ?_⟩⟩
          · simpa [relay] using shows
          · simp [relay]
        · obtain ⟨later, read, remaining, after⟩ := readFrame_of_frame small arrives
          rw [forwardFrames_of_frame raised read, decoded]
          cases passed : passOn (faultFor dir faults first.type (turn + 1)) held first with
          | none =>
              obtain ⟨final, delivered, kept⟩ := shows.deliver_closes numbered passed
              refine ⟨first :: (Frame.decodeAll tail).1, List.prefix_refl _, ?_,
                .inl ⟨rfl, ?_⟩⟩
              · simpa [delivered, relay_of_closed passed] using kept
              · simp [delivered, relay_of_closed passed]
          | some result =>
              obtain ⟨next, more⟩ := result
              obtain ⟨middle, delivered, kept, counted⟩ := shows.deliver_passes numbered passed
              have shorter := length_incoming_of_readFrame read
              obtain ⟨taken, start, shown, finished⟩ := ih _ shorter later kept counted rfl
              rw [remaining] at start finished
              refine ⟨first :: taken, List.cons_prefix_cons.mpr ⟨rfl, start⟩, ?_, ?_⟩
              · simpa [delivered, relay_of_passed passed] using shown
              · obtain ⟨rfl, returned⟩ | ⟨raises, returned⟩ := finished
                · refine .inl ⟨rfl, ?_⟩
                  simpa [delivered, relay_of_passed passed, after] using returned
                · exact .inr ⟨raises, by simpa [delivered] using returned⟩

theorem forwardFrames_written (dir : Direction) (faults : List TransportFault)
    (aborted : Nat → Bool) (socket : Socket) :
    ∃ taken, taken <+: (Frame.decodeAll (incoming socket)).1 ∧
      (forwardFrames dir faults aborted 0 socket {}).1.written.flatten =
        (relay dir faults 0 none taken).sent.flatMap Frame.encode ∧
      ((∀ turn, aborted turn = false) → taken = (Frame.decodeAll (incoming socket)).1) ∧
      ((relay dir faults 0 none taken).open? = true → afterIncoming socket ≠ [] →
        (forwardFrames dir faults aborted 0 socket {}).2 = some true) := by
  have initial : ({} : Forwarder).Shows none [] := ⟨rfl, rfl⟩
  obtain ⟨taken, start, shown, finished⟩ :=
    forwardFrames_relays dir faults aborted socket initial rfl
  refine ⟨taken, start, ?_, ?_, ?_⟩
  · rw [shown.written, List.nil_append, ← List.flatMap_def]
  · intro quiet
    obtain ⟨whole, -⟩ | ⟨⟨turn, raised⟩, -⟩ := finished
    · exact whole
    · rw [quiet turn] at raised
      cases raised
  · intro opened ends
    obtain ⟨-, returned⟩ | ⟨-, returned⟩ := finished
    · rw [returned, opened, if_pos rfl, unread]
      split
      · rfl
      · obtain stopped | stopped := interruption_of_ne_nil ends
        all_goals
          rw [stopped]
          rfl
    · exact returned

end Loop

end ChaosLab
